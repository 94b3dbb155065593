import Tabletop.Proofs.ChainRun
import Tabletop.Proofs.ChroniclesRule
import Tabletop.Proofs.FaceLists
import Tabletop.Proofs.FlagTexts
import Tabletop.Proofs.Locality
import Tabletop.Roll
import Tabletop.Shorthand.Chronicles

/-!
# Chronicles rolls play the game

The notation of a command is an expression in brackets and a chain of operations (`Chain`). Each link of
the chain does to the pool what the rule does to the results, so that a roll counts what the game
counts (`roll_eq_simulate`). The flags that have a notation are those that a command spells
(`toNotation_ok_iff`), so that the same holds of a command as it is written (`roll_written`).
-/

namespace Tabletop

open Text

namespace Shorthand.Chronicles

/-! ### Flags -/

/-- What a flag says about dice that are rolled again, if anything: from which face on, or none. -/
def setting? : Flag → Option (Option Nat)
  | .numbered _ digits => some (some (numeral digits))
  | .plain 'm' => some none
  | _ => none

def isRote : Flag → Bool
  | .plain 'r' => true
  | _ => false

/-- The last word of the flags on dice that are rolled again. -/
def againOf (flags : List Flag) : Option Nat := (flags.filterMap setting?).getLastD (some 10)

def roteOf (flags : List Flag) : Bool := flags.any isRote

def flagsOf (f : List Char) : List Flag := Flag.scan ['a'] 0 (flagText f)

/-- From 2 on dice can be rolled again. -/
def Options.InRange (o : Options) : Prop := ∀ a, o.again = some a → 2 ≤ a ∧ a ≤ 10

/-- A flag that a command may have. -/
inductive Meant : Flag → Prop
  | again {digits : List Char} (h : Flag.IsNumber 2 10 digits) : Meant (.numbered 'a' digits)
  | never : Meant (.plain 'm')
  | rote : Meant (.plain 'r')

/-- What a flag makes of the options. -/
def Options.set (o : Options) (flag : Flag) : Options := ⟨(setting? flag).getD o.again, o.rote || isRote flag⟩

section Meant

variable {flag : Flag} {flags : List Flag} {o o' : Options}

theorem Meant.clear (h : Meant flag) : flag.Clear ['a'] := by
  cases h with
  | again h => exact ⟨.numbered (by decide) h.ne_nil h.isDigit, nofun⟩
  | never => exact ⟨.plain (by decide), fun _ hc => by cases hc; decide⟩
  | rote => exact ⟨.plain (by decide), fun _ hc => by cases hc; decide⟩

/-- No flag begins like an expression. -/
theorem Meant.head? (h : Meant flag) : ∀ c ∈ flag.text.head?, isDiceCharacter c = false := by
  cases h <;> exact fun _ hc => by cases hc; decide

theorem Meant.inRange (h : Meant flag) (ho : o.InRange) : (o.set flag).InRange := by
  cases h with
  | again h =>
    intro a ha
    obtain rfl := Option.some.inj ha
    exact h.bounds
  | never => exact nofun
  | rote => exact ho

theorem take_ok_iff (hflag : flag.Proper ['a']) : o.take flag = .ok o' ↔ Meant flag ∧ o' = o.set flag := by
  constructor
  · intro h
    unfold Options.take at h
    split at h
    · obtain ⟨n, hn, htake⟩ := ok_of_bind h
      obtain ⟨-, rfl, -⟩ := Flag.number_ok_iff.1 hn
      have hnumber := hflag.isNumber hn
      cases hflag with
      | numbered hletter _ _ =>
        obtain rfl := List.mem_singleton.1 hletter
        exact ⟨.again hnumber, by rw [← Except.ok.inj htake]; simp [Options.set, setting?, isRote]⟩
    · cases h
      exact ⟨.never, by simp [Options.set, setting?, isRote]⟩
    · cases h
      exact ⟨.rote, by simp [Options.set, setting?, isRote]⟩
    · cases flag <;> cases h
  · rintro ⟨hmeant, rfl⟩
    cases hmeant with
    | again h =>
      change (do pure { o with again := some (← Flag.number 2 10 'a' _) }) = _
      rw [h.number]
      change Except.ok (Options.mk (some _) o.rote) = _
      simp [Options.set, setting?, isRote]
    | never => simp [Options.take, Options.set, setting?, isRote]
    | rote => simp [Options.take, Options.set, setting?, isRote]

theorem foldl_set (o : Options) (flags : List Flag) :
    flags.foldl Options.set o = ⟨(flags.filterMap setting?).getLastD o.again, o.rote || flags.any isRote⟩ := by
  induction flags generalizing o with
  | nil => simp
  | cons flag flags ih => rw [List.foldl_cons, ih, Options.set, getLastD_filterMap_cons, List.any_cons, Bool.or_assoc]

theorem inRange_of_meant (h : ∀ flag ∈ flags, Meant flag) : (Options.mk (againOf flags) (roteOf flags)).InRange := by
  have hset : flags.foldl Options.set {} = ⟨againOf flags, roteOf flags⟩ := by rw [foldl_set, Bool.false_or]; rfl
  rw [← hset]
  refine List.foldlRecOn flags Options.set (fun a ha => ?_) fun o ho flag hflag => (h flag hflag).inRange ho
  cases ha
  decide

/-- The texts of flags that are understood are those that spell flags of commands. -/
theorem ofFlags_ok_iff {s : List Char} : Options.ofFlags s = .ok o ↔
    ∃ flags, Flag.Spells flags s ∧ (∀ flag ∈ flags, Meant flag) ∧ o = ⟨againOf flags, roteOf flags⟩ := by
  rw [Options.ofFlags, Flag.foldlM_scan_ok_iff (by decide) (fun _ => Meant.clear) fun _ h _ _ => take_ok_iff h]
  simp only [foldl_set, Bool.false_or]
  rfl

/-- An expression, flags and a bonus are the notation that the flags say, if they are flags of commands on
one line. -/
theorem toNotation_ok_iff {d f : List Char} {formula : String} (hd : ∀ c ∈ d, isDiceCharacter c = true)
    (hdice : trim d ≠ []) (hf : ∀ c ∈ (cut ';' (Request.normal f)).1.head?, isDiceCharacter c = false) :
    toNotation (String.ofList (d ++ f)) = .ok formula ↔ '\n' ∉ flagText f ∧
      ∃ flags, Flag.Spells flags (flagText f) ∧ (∀ flag ∈ flags, Meant flag) ∧
        formula = (Options.mk (againOf flags) (roteOf flags)).render (trim d) (bonusText f) := by
  have hchance : Request.normal (d ++ f) ≠ "chance".toList := by
    obtain ⟨e, htext, htrim, he⟩ := exists_normal_append hd f
    intro hchance
    rw [htext] at hchance
    cases e with
    | nil => exact hdice htrim.symm
    | cons c e =>
      obtain rfl : c = 'c' := (List.cons.inj hchance).1
      exact absurd (he 'c' List.mem_cons_self) (by decide)
  rw [toNotation, String.toList_ofList]
  change (if Request.normal (d ++ f) = "chance".toList then _ else _) = _ ↔ _
  rw [if_neg hchance, ← Request.normal, ofCommand_bind_ok_iff hd hf fun _ _ => ofFlags_ok_iff, and_iff_right hdice]

end Meant

/-! ### The chain -/

structure Ranged (op : PoolOperator) (low high : Nat) (l : Link) : Prop where
  op_eq : l.op = .pool op
  values : ∀ n, n ∈ l.arg.values ↔ low ≤ n ∧ n ≤ high
  text : Link.textOf [l] = op.symbol.toList ++ squeeze (faceRange low high).toList

theorem exists_ranged (op : PoolOperator) {low high : Nat} (h : low ≤ high) (hhigh : high ≤ maxArgument) :
    ∃ l, Ranged op low high l := by
  obtain ⟨written, arg, htext, hmeans, hvalues⟩ := exists_literal_faceRange h hhigh
  refine ⟨⟨.pool op, arg, written, rfl, hmeans⟩, rfl, hvalues, ?_⟩
  rw [Link.textOf_singleton, htext]
  rfl

def diceLink : Link := ⟨.dice, .single 10, .ofFin 10, rfl, rfl⟩

def targetLink : Link := ⟨.conversion .target, .single 8, .ofFin 8, rfl, rfl⟩

def RoteLinks : Bool → List Link → Prop
  | true, links => ∃ l, links = [l] ∧ Ranged (.reroll (some .once)) 1 7 l
  | false, links => links = []

def AgainLinks : Option Nat → List Link → Prop
  | some a, links => ∃ l, links = [l] ∧ Ranged (.explode (some .recursive)) a 10 l
  | none, links => links = []

def roteText : Bool → String
  | true => "ro" ++ faceRange 1 7
  | false => ""

def againText : Option Nat → String
  | some a => "er" ++ faceRange a 10
  | none => ""

theorem render_eq (o : Options) (dice : List Char) :
    o.render dice [] = tens dice ++ roteText o.rote ++ againText o.again ++ "t8" := by
  obtain ⟨again, rote⟩ := o
  cases rote <;> cases again <;> rfl

theorem exists_roteLinks (rote : Bool) :
    ∃ links, RoteLinks rote links ∧ Link.textOf links = squeeze (roteText rote).toList := by
  cases rote with
  | true =>
    obtain ⟨l, hl⟩ := exists_ranged (.reroll (some .once)) (by decide : 1 ≤ 7) (by decide)
    refine ⟨[l], ⟨l, rfl, hl⟩, ?_⟩
    rw [hl.text, roteText, String.toList_append, squeeze_append]
    rfl
  | false => exact ⟨[], rfl, rfl⟩

theorem exists_againLinks {again : Option Nat} (h : ∀ a, again = some a → 2 ≤ a ∧ a ≤ 10) :
    ∃ links, AgainLinks again links ∧ Link.textOf links = squeeze (againText again).toList := by
  cases again with
  | some a =>
    obtain ⟨l, hl⟩ := exists_ranged (.explode (some .recursive)) (h a rfl).2 (by decide)
    refine ⟨[l], ⟨l, rfl, hl⟩, ?_⟩
    rw [hl.text, againText, String.toList_append, squeeze_append]
    rfl
  | none => exact ⟨[], rfl, rfl⟩

/-- The notation is an expression in brackets and a chain. -/
theorem exists_links (o : Options) (ho : o.InRange) (dice : List Char) :
    ∃ rote again, RoteLinks o.rote rote ∧ AgainLinks o.again again ∧ squeeze (o.render dice []).toList =
      '(' :: (squeeze dice ++ ')' :: Link.textOf ([diceLink] ++ rote ++ again ++ [targetLink])) := by
  obtain ⟨rote, hrote, hrotetext⟩ := exists_roteLinks o.rote
  obtain ⟨again, hagain, hagaintext⟩ := exists_againLinks ho
  have hfirst : Link.textOf [diceLink] = ['d', '1', '0'] := rfl
  have hlast : Link.textOf [targetLink] = ['t', '8'] := rfl
  refine ⟨rote, again, hrote, hagain, ?_⟩
  rw [Link.textOf_append, Link.textOf_append, Link.textOf_append, hrotetext, hagaintext, hfirst, hlast, render_eq, tens]
  have hopen : squeeze "(".toList = ['('] := rfl
  have hten : squeeze ")d10".toList = [')', 'd', '1', '0'] := rfl
  have height : squeeze "t8".toList = ['t', '8'] := rfl
  simp only [String.toList_append, String.toList_ofList, squeeze_append, hopen, hten, height]
  simp

/-! ### Along the chain -/

/-- The operand is a pool of these dice that were not counted yet. -/
def Shows (o : Operand) (dice : List Die) : Prop := o.successes = 0 ∧ ∃ p, o.toPool = .ok p ∧ p.dice = dice

variable {cap : Int} {y : Tree Constant} {s s' : Faces} {log : List Operation} {o : Operand}

/-- The number that the expression comes to is how many dice are dealt. -/
theorem deal_of_eval {l : Operand} {n : Nat} (hl : l.toArgument = .ok (.single n)) (hn : n ≤ maxArgument)
    (hy : ∀ s, ∃ log, (y.eval cap).on s = (.ok (log, l), s))
    (h : ((y.chain [diceLink]).eval cap).on s = (.ok (log, o), s')) :
    ∃ rs, deal n s.coming = some (rs, s'.coming) ∧ Shows o (tenSided rs) ∧ Tens rs := by
  obtain ⟨log', l', s₁, result, hrun, hroll, rfl⟩ := Tree.eval_chain_singleton_ok h
  obtain ⟨log₀, hstill⟩ := hy s
  rw [hstill] at hrun
  cases hrun
  obtain ⟨pool, hpool, rfl⟩ := (Operand.rolled_ok_iff hl rfl).1 hroll
  have hsize : n ≤ maxPoolSize := Nat.le_trans hn (by decide)
  obtain ⟨rs, hdeal, hdice, hrs⟩ := deal_of_roll hsize hpool
  exact ⟨rs, hdeal, ⟨rfl, pool, rfl, hdice⟩, hrs⟩

theorem contains_faces {op : PoolOperator} {low high : Nat} {l : Link} (hl : Ranged op low high l) {r : Int}
    (hr : 1 ≤ r) : l.arg.faces.contains r = true ↔ (low : Int) ≤ r ∧ r ≤ high := by
  rw [List.contains_iff_mem, Argument.faces, List.mem_map]
  constructor
  · rintro ⟨n, hn, rfl⟩
    have := (hl.values n).1 hn
    simp only [Int.ofNat_eq_natCast]
    omega
  · rintro ⟨hlow, hhigh⟩
    exact ⟨r.toNat, (hl.values _).2 (by omega), by simp only [Int.ofNat_eq_natCast]; omega⟩

theorem rerollIf_of_eval {rote : Bool} {links : List Link} (hlinks : RoteLinks rote links)
    (h : ((y.chain links).eval cap).on s = (.ok (log, o), s')) :
    ∃ log' l s₁, (y.eval cap).on s = (.ok (log', l), s₁) ∧
      ∀ rs, Shows l (tenSided rs) → Tens rs → ∃ rs', rerollIf rote rs s₁.coming = some (rs', s'.coming) ∧
        Shows o (tenSided rs') ∧ Tens rs' := by
  cases rote with
  | false =>
    obtain rfl : links = [] := hlinks
    exact ⟨log, o, s', h, fun rs hshows hrs => ⟨rs, rfl, hshows, hrs⟩⟩
  | true =>
    obtain ⟨link, rfl, hlink⟩ := hlinks
    obtain ⟨log', l, s₁, pool, change, hrun, hpool, happly, rfl⟩ := Tree.eval_chain_pool_ok hlink.op_eq h
    refine ⟨log', l, s₁, hrun, fun rs hshows hrs => ?_⟩
    obtain ⟨-, p, hp, hdice⟩ := hshows
    cases hp.symm.trans hpool
    have hfailures : ∀ r, 1 ≤ r → link.arg.faces.contains r = decide (r ≤ 7) := by
      intro r hr
      rw [Bool.eq_iff_iff, contains_faces hlink hr, decide_eq_true_iff]
      omega
    obtain ⟨rs', hreroll, hdice', hrs'⟩ := rerollWhere_of_rerollOnce hfailures hdice hrs happly
    rw [rerollWhere_failure] at hreroll
    exact ⟨rs', hreroll, ⟨rfl, change.pool, rfl, hdice'⟩, hrs'⟩

theorem explodeIf_of_eval {again : Option Nat} {links : List Link} (hlinks : AgainLinks again links)
    (h : ((y.chain links).eval cap).on s = (.ok (log, o), s')) :
    ∃ log' l s₁, (y.eval cap).on s = (.ok (log', l), s₁) ∧
      ∀ rs, Shows l (tenSided rs) → Tens rs → ∃ added dice, explodeIf again rs s₁.coming = some (added, s'.coming) ∧
        Shows o dice ∧ dice.Perm (tenSided (rs ++ added)) := by
  cases again with
  | none =>
    obtain rfl : links = [] := hlinks
    refine ⟨log, o, s', h, fun rs hshows hrs => ⟨[], _, rfl, hshows, ?_⟩⟩
    rw [List.append_nil]
  | some a =>
    obtain ⟨link, rfl, hlink⟩ := hlinks
    obtain ⟨log', l, s₁, pool, change, hrun, hpool, happly, rfl⟩ := Tree.eval_chain_pool_ok hlink.op_eq h
    refine ⟨log', l, s₁, hrun, fun rs hshows hrs => ?_⟩
    obtain ⟨-, p, hp, hdice⟩ := hshows
    cases hp.symm.trans hpool
    have htops : ∀ r, 1 ≤ r → r ≤ 10 → (link.arg.faces.contains r = true ↔ (a : Int) ≤ r) := by
      intro r hr hr'
      rw [contains_faces hlink hr]
      omega
    obtain ⟨added, hexplode, hperm⟩ := explode_of_explodeRecursive htops hdice hrs happly
    exact ⟨added, change.pool.dice, hexplode, ⟨rfl, change.pool, rfl, rfl⟩, hperm⟩

theorem count_of_eval (h : ((y.chain [targetLink]).eval cap).on s = (.ok (log, o), s')) :
    ∃ log' l, (y.eval cap).on s = (.ok (log', l), s') ∧
      ∀ rs dice, Shows l dice → dice.Perm (tenSided rs) →
        o.toValue = .ok (.successes (rs.countP fun r => 8 ≤ r)) := by
  obtain ⟨log', l, pool, hrun, hpool, rfl⟩ := Tree.eval_chain_conversion_ok rfl h
  refine ⟨log', l, hrun, fun rs dice hshows hperm => ?_⟩
  obtain ⟨hnone, p, hp, rfl⟩ := hshows
  cases hp.symm.trans hpool
  show Except.ok (Value.successes (l.successes + (Conversion.target.count pool (.single 8)).value)) = _
  rw [hnone, count_of_perm hperm, Int.zero_add]

/-- A chain that runs without failing counts what the game counts. -/
theorem simulate_of_eval {l : Operand} {n : Nat} (hl : l.toArgument = .ok (.single n)) (hn : n ≤ maxArgument)
    (hy : ∀ s, ∃ log, (y.eval cap).on s = (.ok (log, l), s)) {rote : Bool} {again : Option Nat}
    {rotes agains : List Link} (hrotes : RoteLinks rote rotes) (hagains : AgainLinks again agains)
    (h : ((y.chain ([diceLink] ++ rotes ++ agains ++ [targetLink])).eval cap).on s = (.ok (log, o), s')) :
    ∃ count, simulate again rote n s.coming = some (count, s'.coming) ∧ o.toValue = .ok (.successes count) := by
  rw [Tree.chain_append, Tree.chain_append, Tree.chain_append] at h
  obtain ⟨log₃, o₃, h₃, hcount⟩ := count_of_eval h
  obtain ⟨log₂, o₂, s₂, h₂, hexplode⟩ := explodeIf_of_eval hagains h₃
  obtain ⟨log₁, o₁, s₁, h₁, hreroll⟩ := rerollIf_of_eval hrotes h₂
  obtain ⟨rs, hdeal, hshows, hrs⟩ := deal_of_eval hl hn hy h₁
  obtain ⟨rs', hrerolled, hshows', hrs'⟩ := hreroll rs hshows hrs
  obtain ⟨added, dice, hadded, hshows'', hperm⟩ := hexplode rs' hshows' hrs'
  refine ⟨(rs' ++ added).countP fun r => 8 ≤ r, ?_, hcount _ dice hshows'' hperm⟩
  simp only [simulate, hdeal, hrerolled, hadded, Option.bind_eq_bind, Option.bind_some]

/-! ### The roll -/

/-- What the notation of an expression and options rolls is what the game counts. -/
theorem simulate_of_roll {Owner : Type} {d : List Char} {alone order : Order Owner} {s s₀ s' : Faces}
    {r₀ r : Roll Owner} {n : Nat} {faces : List Int} {o : Options} (hd : ∀ c ∈ d, isDiceCharacter c = true)
    (halone : alone.command = String.ofList d) (hroll₀ : alone.roll.on s = (.ok r₀, s₀))
    (hn : r₀.result.whole? = some (n : Int)) (hsmall : n ≤ maxArgument) (ho : o.InRange)
    (hrender : order.command = o.render (trim d) []) (hroll : order.roll.on (.ofList faces) = (.ok r, s')) :
    ∃ count rest, simulate o.again o.rote n faces = some (count, rest) ∧ r.result = .successes count ∧
      s' = ⟨rest, faces.length - rest.length⟩ := by
  obtain ⟨-, log₀, l, heval₀, hvalue₀⟩ := Order.roll_ok hroll₀
  obtain ⟨-, log, final, heval, hvalue⟩ := Order.roll_ok hroll
  rw [halone] at heval₀
  obtain ⟨rotes, agains, hrotes, hagains, htext⟩ := exists_links o ho (trim d)
  rw [squeeze_trim, ← hrender] at htext
  -- the expression is the same tree inside the brackets, and takes no face there either
  obtain ⟨ts, y, hts, hpostfix, hy, hbounded⟩ := exists_tree_of_evaluateText hd heval₀
  have hl : l.toArgument = .ok (.single n) := Operand.toArgument_of_whole hbounded hvalue₀ hn hsmall
  have hused := (local_evaluateText order.command maxGenerations).eq_of_ofList heval
  rw [evaluateText_chain hts hpostfix htext] at heval
  obtain ⟨count, hsimulate, hcount⟩ := simulate_of_eval hl hsmall (fun s => ⟨log₀, hy s⟩) hrotes hagains heval
  exact ⟨count, s'.coming, hsimulate, Except.ok.inj (hvalue.symm.trans hcount), hused⟩

/-- The notation of a Chronicles command plays the game. Suppose that an expression of digits, blanks,
signs and brackets rolls by itself to a whole number that is small enough for an argument, and that
flags follow it and no bonus. If the notation of this command rolls without failing, then it comes to
the successes that the game counts on the same faces for that many dice, as the flags say, and uses as
many faces. -/
theorem roll_eq_simulate {Owner : Type} {d f : List Char} {alone order : Order Owner} {s s₀ s' : Faces}
    {r₀ r : Roll Owner} {n : Nat} {faces : List Int} (hd : ∀ c ∈ d, isDiceCharacter c = true)
    (halone : alone.command = String.ofList d) (hroll₀ : alone.roll.on s = (.ok r₀, s₀))
    (hn : r₀.result.whole? = some (n : Int)) (hsmall : n ≤ maxArgument)
    (hf : ∀ c ∈ (cut ';' (Request.normal f)).1.head?, isDiceCharacter c = false) (hbonus : bonusText f = [])
    (horder : toNotation (String.ofList (d ++ f)) = .ok order.command)
    (hroll : order.roll.on (.ofList faces) = (.ok r, s')) :
    (∀ a, againOf (flagsOf f) = some a → 2 ≤ a ∧ a ≤ 10) ∧
      ∃ count rest, simulate (againOf (flagsOf f)) (roteOf (flagsOf f)) n faces = some (count, rest) ∧
        r.result = .successes count ∧ s' = ⟨rest, faces.length - rest.length⟩ := by
  have hdice := (Order.roll_ok hroll₀).1
  rw [halone, String.toList_ofList] at hdice
  obtain ⟨-, flags, hspells, hmeant, hrender⟩ := (toNotation_ok_iff hd hdice hf).1 horder
  have hflags : flagsOf f = flags :=
    (Flag.scan_eq_iff (by decide) fun flag h => (hmeant flag h).clear).2 hspells
  rw [hbonus] at hrender
  rw [hflags]
  exact ⟨inRange_of_meant hmeant,
    simulate_of_roll hd halone hroll₀ hn hsmall (inRange_of_meant hmeant) hrender hroll⟩

/-- Three dice, of which one fails and is rolled once more, and two more generations. -/
theorem roll_eq_simulate_rote :
    toNotation "1+2ra9" = .ok "(1+2)d10ro[1, 2, 3, 4, 5, 6, 7]er[9, 10]t8" ∧
      ∃ r : Roll Unit, (Order.roll ⟨"(1+2)d10ro[1, 2, 3, 4, 5, 6, 7]er[9, 10]t8", "", ()⟩).on
          (.ofList [3, 9, 8, 10, 9, 4, 2, 5]) = (.ok r, ⟨[5], 7⟩) ∧ r.result = .successes 4 := by
  let alone : Order Unit := ⟨"1+2", "", ()⟩
  let order : Order Unit := ⟨"(1+2)d10ro[1, 2, 3, 4, 5, 6, 7]er[9, 10]t8", "", ()⟩
  let faces : List Int := [3, 9, 8, 10, 9, 4, 2, 5]
  have hformula : toNotation "1+2ra9" = .ok order.command := eq_ok_of_toOption (by decide)
  obtain ⟨r₀, s₀, halone, hwhole⟩ : ∃ r₀ s₀, alone.roll.on (.ofList []) = (.ok r₀, s₀) ∧
      r₀.result.whole? = some 3 := Rolling.exists_ok_of_toOption (by decide)
  obtain ⟨r, s', hroll, -⟩ : ∃ r s', order.roll.on (.ofList faces) = (.ok r, s') ∧ some () = some () :=
    Rolling.exists_ok_of_toOption (by decide +kernel)
  have hflags : againOf (flagsOf "ra9".toList) = some 9 ∧ roteOf (flagsOf "ra9".toList) = true := by decide
  have hsimulate : simulate (some 9) true 3 faces = some (4, [5]) := by decide +kernel
  have hd : ∀ c ∈ "1+2".toList, isDiceCharacter c = true := List.all_eq_true.1 (by decide)
  have hf : ∀ c ∈ (cut ';' (Request.normal "ra9".toList)).1.head?, isDiceCharacter c = false := by
    have hhead : (cut ';' (Request.normal "ra9".toList)).1.head? = some 'r' := by decide
    intro c hc
    rw [hhead] at hc
    cases hc
    decide
  obtain ⟨-, count, rest, hcount, hresult, rfl⟩ :=
    roll_eq_simulate hd (rfl : alone.command = _) halone hwhole (by decide) hf (by decide) hformula hroll
  rw [hflags.1, hflags.2, hsimulate] at hcount
  cases hcount
  exact ⟨hformula, r, hroll, hresult⟩

/-- A command as it is written: flags of commands on one line after such an expression. It has a notation, and
what this rolls without failing is what the game counts as these flags say. -/
theorem roll_written {Owner : Type} {d f : List Char} {alone : Order Owner} {s s₀ : Faces} {r₀ : Roll Owner}
    {n : Nat} {flags : List Flag} (hd : ∀ c ∈ d, isDiceCharacter c = true)
    (halone : alone.command = String.ofList d) (hroll₀ : alone.roll.on s = (.ok r₀, s₀))
    (hn : r₀.result.whole? = some (n : Int)) (hsmall : n ≤ maxArgument)
    (hspells : Flag.Spells flags (flagText f)) (hmeant : ∀ flag ∈ flags, Meant flag) (hline : '\n' ∉ flagText f)
    (hbonus : bonusText f = []) :
    ∃ formula, toNotation (String.ofList (d ++ f)) = .ok formula ∧
      ∀ (order : Order Owner) (faces : List Int) (r : Roll Owner) (s' : Faces), order.command = formula →
        order.roll.on (.ofList faces) = (.ok r, s') →
        ∃ count rest, simulate (againOf flags) (roteOf flags) n faces = some (count, rest) ∧
          r.result = .successes count ∧ s' = ⟨rest, faces.length - rest.length⟩ := by
  have hdice := (Order.roll_ok hroll₀).1
  rw [halone, String.toList_ofList] at hdice
  have hf := head?_of_spells hspells fun flag h => (hmeant flag h).head?
  refine ⟨_, (toNotation_ok_iff hd hdice hf).2 ⟨hline, flags, hspells, hmeant, rfl⟩,
    fun order faces r s' hrender hroll => ?_⟩
  rw [hbonus] at hrender
  exact simulate_of_roll hd halone hroll₀ hn hsmall (inRange_of_meant hmeant) hrender hroll

end Shorthand.Chronicles

end Tabletop
