import Tabletop.Proofs.FlagTexts
import Tabletop.Proofs.Growing
import Tabletop.Shorthand.Exalted

/-!
# Exalted rolls count as the game does

A die succeeds if it shows the target, and once more if it also shows what counts twice (`successes`).
The notation gives this as a table of faces from the target on, or as the target alone if no face counts
twice. Both count the same (`CountsBy`), also for dice that have grown past the end of the table. What is
counted depends on the flags that a command spells (`toNotation_ok_iff`, `roll_written`).
-/

namespace Tabletop

open Text

namespace Shorthand.Exalted

open Chronicles (shown deal tenSided Tens tens_shown diceLink Shows)

/-! ### The rule -/

/-- The dice that show the target, and once more those that also count twice. -/
def successes (target : Nat) (double : Option Nat) (rs : List Int) : Nat :=
  rs.countP (fun r => (target : Int) ≤ r) +
    match double with
    | some n => rs.countP fun r => ((max target n : Nat) : Int) ≤ r
    | none => 0

/-- The results of so many dice, each of which grows as long as it shows the top, and the faces that are
left. -/
def dealGrowing (top : Nat) (n : Nat) (faces : List Int) : Option (List Int × List Int) := do
  let (rs, faces) ← deal n faces
  let (ds, faces) ← Growing.explode top (rs.map Growing.fresh) faces
  some (ds.map Growing.value, faces)

/-! ### Flags -/

def target? : Flag → Option Nat
  | .numbered 't' digits => some (numeral digits)
  | _ => none

/-- What a flag says about faces that count twice, if anything: from which face on, or none. -/
def double? : Flag → Option (Option Nat)
  | .numbered 'd' digits => some (some (numeral digits))
  | .plain 'm' => some none
  | _ => none

/-- What a flag hands through to the notation. -/
def inserted : Flag → List Char
  | .braced inside => trim inside
  | _ => []

def targetOf (flags : List Flag) : Nat := (flags.filterMap target?).getLastD 7

def doubleOf (flags : List Flag) : Option Nat := (flags.filterMap double?).getLastD (some 10)

def extraOf (flags : List Flag) : List Char := flags.flatMap inserted

def flagsOf (f : List Char) : List Flag := Flag.scan ['d', 't'] 0 (flagText f)

structure Options.InRange (o : Options) : Prop where
  target : 1 ≤ o.target ∧ o.target ≤ 10
  double : ∀ n, o.double = some n → 1 ≤ n ∧ n ≤ 10

/-- A flag that a command may have. -/
inductive Meant : Flag → Prop
  | target {digits : List Char} (h : Flag.IsNumber 1 10 digits) : Meant (.numbered 't' digits)
  | double {digits : List Char} (h : Flag.IsNumber 1 10 digits) : Meant (.numbered 'd' digits)
  | never : Meant (.plain 'm')
  | inserted {inside : List Char} (h : '}' ∉ inside) : Meant (.braced inside)

/-- What a flag makes of the options. -/
def Options.set (o : Options) (flag : Flag) : Options :=
  ⟨(target? flag).getD o.target, (double? flag).getD o.double, o.extra ++ inserted flag⟩

section Meant

variable {flag : Flag} {flags : List Flag} {o o' : Options}

theorem Meant.clear (h : Meant flag) : flag.Clear ['d', 't'] := by
  cases h with
  | target h => exact ⟨.numbered (by decide) h.ne_nil h.isDigit, nofun⟩
  | double h => exact ⟨.numbered (by decide) h.ne_nil h.isDigit, nofun⟩
  | never => exact ⟨.plain (by decide), fun _ hc => by cases hc; decide⟩
  | inserted h => exact ⟨.braced h, nofun⟩

/-- No flag begins like an expression. -/
theorem Meant.head? (h : Meant flag) : ∀ c ∈ flag.text.head?, isDiceCharacter c = false := by
  cases h <;> exact fun _ hc => by cases hc; decide

theorem Meant.inRange (h : Meant flag) (ho : o.InRange) : (o.set flag).InRange := by
  cases h with
  | target h => exact ⟨h.bounds, ho.double⟩
  | double h => exact ⟨ho.target, fun n hn => Option.some.inj hn ▸ h.bounds⟩
  | never => exact ⟨ho.target, nofun⟩
  | inserted h => exact ⟨ho.target, ho.double⟩

theorem take_ok_iff (hflag : flag.Proper ['d', 't']) : o.take flag = .ok o' ↔ Meant flag ∧ o' = o.set flag := by
  constructor
  · intro h
    unfold Options.take at h
    split at h
    · obtain ⟨n, hn, htake⟩ := ok_of_bind h
      obtain ⟨-, rfl, -⟩ := Flag.number_ok_iff.1 hn
      exact ⟨.double (hflag.isNumber hn), by rw [← Except.ok.inj htake]; simp [Options.set, target?, double?, inserted]⟩
    · obtain ⟨n, hn, htake⟩ := ok_of_bind h
      obtain ⟨-, rfl, -⟩ := Flag.number_ok_iff.1 hn
      exact ⟨.target (hflag.isNumber hn), by rw [← Except.ok.inj htake]; simp [Options.set, target?, double?, inserted]⟩
    · cases h
      exact ⟨.never, by simp [Options.set, target?, double?, inserted]⟩
    · cases h
      cases hflag with
      | braced hinside => exact ⟨.inserted hinside, by simp [Options.set, target?, double?, inserted]⟩
    · cases flag <;> cases h
  · rintro ⟨hmeant, rfl⟩
    cases hmeant with
    | target h =>
      change (do pure { o with target := ← Flag.number 1 10 't' _ }) = _
      rw [h.number]
      change Except.ok (Options.mk _ o.double o.extra) = _
      simp [Options.set, target?, double?, inserted]
    | double h =>
      change (do pure { o with double := some (← Flag.number 1 10 'd' _) }) = _
      rw [h.number]
      change Except.ok (Options.mk o.target (some _) o.extra) = _
      simp [Options.set, target?, double?, inserted]
    | never => simp [Options.take, Options.set, target?, double?, inserted]
    | inserted h => simp [Options.take, Options.set, target?, double?, inserted]

theorem foldl_set (o : Options) (flags : List Flag) :
    flags.foldl Options.set o = ⟨(flags.filterMap target?).getLastD o.target,
      (flags.filterMap double?).getLastD o.double, o.extra ++ extraOf flags⟩ := by
  induction flags generalizing o with
  | nil => simp [extraOf]
  | cons flag flags ih =>
    rw [List.foldl_cons, ih, Options.set, getLastD_filterMap_cons, getLastD_filterMap_cons, extraOf, extraOf,
      List.flatMap_cons, List.append_assoc]

/-- The options that flags set. -/
def optionsOf (flags : List Flag) : Options := ⟨targetOf flags, doubleOf flags, extraOf flags⟩

theorem inRange_of_meant (h : ∀ flag ∈ flags, Meant flag) : (optionsOf flags).InRange := by
  have hset : flags.foldl Options.set {} = optionsOf flags := by rw [foldl_set]; rfl
  rw [← hset]
  refine List.foldlRecOn flags Options.set ⟨by decide, fun n hn => ?_⟩ fun o ho flag hflag => (h flag hflag).inRange ho
  cases hn
  decide

/-- The texts of flags that are understood are those that spell flags of commands. -/
theorem ofFlags_ok_iff {s : List Char} : Options.ofFlags s = .ok o ↔
    ∃ flags, Flag.Spells flags s ∧ (∀ flag ∈ flags, Meant flag) ∧ o = optionsOf flags := by
  rw [Options.ofFlags, Flag.foldlM_scan_ok_iff (by decide) (fun _ => Meant.clear) fun _ h _ _ => take_ok_iff h]
  simp only [foldl_set, List.nil_append]
  rfl

/-- An expression, flags and a bonus are the notation that the flags say, if they are flags of commands on
one line. -/
theorem toNotation_ok_iff {d f : List Char} {formula : String} (hd : ∀ c ∈ d, isDiceCharacter c = true)
    (hf : ∀ c ∈ (cut ';' (Request.normal f)).1.head?, isDiceCharacter c = false) :
    toNotation (String.ofList (d ++ f)) = .ok formula ↔ trim d ≠ [] ∧ '\n' ∉ flagText f ∧
      ∃ flags, Flag.Spells flags (flagText f) ∧ (∀ flag ∈ flags, Meant flag) ∧
        formula = (optionsOf flags).render (trim d) (bonusText f) := by
  rw [toNotation, String.toList_ofList, ← Request.normal]
  exact ofCommand_bind_ok_iff hd hf fun _ _ => ofFlags_ok_iff

end Meant

/-! ### Counting -/

/-- The argument gives every ten-sided die what the rule gives its result. -/
def CountsBy (target : Nat) (double : Option Nat) (arg : Argument) : Prop :=
  ∀ d : Die, d.sides = 10 → Conversion.target.score arg d = successes target double [d.result]

theorem countsBy_target {target : Nat} : CountsBy target none (.single target) := by
  intro d _
  by_cases h : (target : Int) ≤ d.result <;> simp [Conversion.score, successes, h]

theorem successes_singleton (target n : Nat) (r : Int) :
    successes target (some n) [r] =
      (if (target : Int) ≤ r then 1 else 0) + if ((max target n : Nat) : Int) ≤ r then 1 else 0 := by
  simp only [successes, List.countP_singleton, decide_eq_true_eq]

/-- The table counts by the place of a face, and what lies beyond its end like the highest face. -/
theorem countsBy_table {o : Options} {n : Nat} (ho : o.InRange) (hn : o.double = some n) :
    CountsBy o.target o.double (.list (o.table n)) := by
  intro d hd
  obtain ⟨⟨hlow, hhigh⟩, hdouble⟩ := ho
  obtain ⟨hn1, hn10⟩ := hdouble n hn
  have hlen : ((o.table n).map Int.ofNat).length = 11 - o.target := by simp [Options.table]
  have hplace : d.result - 1 - ((d.sides : Int) - ((11 - o.target : Nat) : Int)) = d.result - o.target := by
    rw [hd]
    omega
  rw [hn]
  simp only [Conversion.score, Die.successes, hlen, hplace]
  by_cases hr : (o.target : Int) ≤ d.result
  · have hbound : min (d.result - o.target).toNat (11 - o.target - 1) < 11 - o.target := by omega
    rw [if_neg (by omega), List.getD_eq_getElem?_getD]
    simp only [Options.table, List.getElem?_map, List.getElem?_range hbound, Option.map_some, Option.getD_some]
    by_cases hr' : (n : Int) ≤ d.result
    · have htwice : n ≤ min (d.result - o.target).toNat (11 - o.target - 1) + o.target := by omega
      have hmax : ((max o.target n : Nat) : Int) ≤ d.result := by omega
      rw [if_pos htwice, successes_singleton, if_pos hr, if_pos hmax]
      rfl
    · have honce : ¬n ≤ min (d.result - o.target).toNat (11 - o.target - 1) + o.target := by omega
      have hmax : ¬((max o.target n : Nat) : Int) ≤ d.result := by omega
      rw [if_neg honce, successes_singleton, if_pos hr, if_neg hmax]
      rfl
  · rw [if_pos (by omega)]
    have hmax : ¬((max o.target n : Nat) : Int) ≤ d.result := by omega
    rw [successes_singleton, if_neg hr, if_neg hmax]
    rfl

theorem successes_cons (target : Nat) (double : Option Nat) (r : Int) (rs : List Int) :
    successes target double (r :: rs) = successes target double [r] + successes target double rs := by
  have hcons (p : Int → Bool) : (r :: rs).countP p = [r].countP p + rs.countP p := by
    rw [← List.countP_append, List.singleton_append]
  unfold successes
  rw [hcons]
  cases double with
  | none => rfl
  | some n =>
    simp only [hcons]
    omega

theorem count_of_countsBy {target : Nat} {double : Option Nat} {arg : Argument}
    (harg : CountsBy target double arg) {p : Pool} (hp : ∀ d ∈ p.dice, d.sides = 10) :
    (Conversion.target.count p arg).value = successes target double p.results := by
  obtain ⟨dice, shapes⟩ := p
  show 1 * sum (dice.map (Conversion.target.score arg)) = successes target double (dice.map Die.result)
  rw [Int.one_mul]
  induction dice with
  | nil => cases double <;> rfl
  | cons d dice ih =>
    obtain ⟨hd, hdice⟩ := List.forall_mem_cons.1 hp
    rw [List.map_cons, sum_cons, harg d hd, ih hdice, List.map_cons, successes_cons _ _ d.result (dice.map _)]
    exact (Int.natCast_add ..).symm

/-! ### The chain -/

structure Counting (target : Nat) (double : Option Nat) (l : Link) : Prop where
  op_eq : l.op = .conversion .target
  counts : CountsBy target double l.arg

/-- How the count is written. -/
def countText (o : Options) : String :=
  "t" ++ match o.double with
    | none => toString o.target
    | some n => "[" ++ String.intercalate ", " ((o.table n).map toString) ++ "]"

theorem render_eq (o : Options) (dice : List Char) :
    o.render dice [] = tens dice ++ String.ofList o.extra ++ countText o := by
  obtain ⟨target, double, extra⟩ := o
  cases double <;> simp [Options.render, withBonus, countText, String.append_assoc]

theorem exists_counting {o : Options} (ho : o.InRange) :
    ∃ l, Counting o.target o.double l ∧ Link.textOf [l] = squeeze (countText o).toList := by
  have htext (l : Link) (hl : l.op = .conversion .target) : Link.textOf [l] = 't' :: l.written.lexeme.text := by
    rw [Link.textOf_singleton, hl]
    rfl
  obtain ⟨target, double, extra⟩ := o
  obtain ⟨hlow, hhigh⟩ := ho.target
  cases double with
  | none =>
    let small : Fin (maxArgument + 1) := ⟨target, Nat.lt_of_le_of_lt hhigh (by decide)⟩
    refine ⟨⟨.conversion .target, .single target, .ofFin small, rfl, rfl⟩, ⟨rfl, countsBy_target⟩, ?_⟩
    rw [htext _ rfl, countText, String.toList_append, squeeze_append]
    exact congrArg ('t' :: ·) (squeeze_smallNumeral small).symm
  | some n =>
    have hsmall : ∀ k ∈ (Options.mk target (some n) extra).table n, k < maxArgument + 1 := by
      intro k hk
      obtain ⟨i, -, rfl⟩ := List.mem_map.1 hk
      split <;> decide
    have hentries : (((Options.mk target (some n) extra).table n).pmap Fin.mk hsmall).map Fin.val =
        (Options.mk target (some n) extra).table n := by simp [List.map_pmap]
    have hne : ((Options.mk target (some n) extra).table n).pmap Fin.mk hsmall ≠ [] := by
      rw [ne_eq, List.pmap_eq_nil_iff, Options.table, List.map_eq_nil_iff, List.range_eq_nil]
      exact Nat.sub_ne_zero_of_lt (Nat.lt_succ_of_le hhigh)
    refine ⟨⟨.conversion .target, .list ((Options.mk target (some n) extra).table n), .ofList _ hne, rfl,
      congrArg (Token.argument ∘ Argument.list) hentries⟩, ⟨rfl, countsBy_table ho rfl⟩, ?_⟩
    have hlist := squeeze_listText (((Options.mk target (some n) extra).table n).pmap Fin.mk hsmall)
    rw [hentries] at hlist
    rw [htext _ rfl, countText, String.toList_append, squeeze_append]
    exact congrArg ('t' :: ·) hlist.symm

/-- The notation is an expression in brackets, what the flags hand through, and the count. -/
theorem squeeze_render (o : Options) (dice : List Char) {extra : List Link} {l : Link}
    (hextra : Link.textOf extra = squeeze o.extra) (hl : Link.textOf [l] = squeeze (countText o).toList) :
    squeeze (o.render dice []).toList =
      '(' :: (squeeze dice ++ ')' :: Link.textOf ([diceLink] ++ extra ++ [l])) := by
  have hfirst : Link.textOf [diceLink] = ['d', '1', '0'] := rfl
  have hopen : squeeze "(".toList = ['('] := rfl
  have hten : squeeze ")d10".toList = [')', 'd', '1', '0'] := rfl
  rw [Link.textOf_append, Link.textOf_append, hfirst, hextra, hl, render_eq, tens]
  simp only [String.toList_append, String.toList_ofList, squeeze_append, hopen, hten]
  simp

/-! ### Along the chain -/

variable {cap : Int} {y : Tree Constant} {s s' : Faces} {log : List Operation} {o : Operand}
variable {target : Nat} {double : Option Nat} {link : Link}

theorem count_of_eval (hlink : Counting target double link)
    (h : ((y.chain [link]).eval cap).on s = (.ok (log, o), s')) :
    ∃ log' l, (y.eval cap).on s = (.ok (log', l), s') ∧
      ∀ ds, Growing.Shown l ds → ∃ p, o.toPool = .ok p ∧ p.results = ds.map Growing.value ∧
        o.toValue = .ok (.successes (successes target double p.results)) := by
  obtain ⟨log', l, pool, hrun, hpool, rfl⟩ := Tree.eval_chain_conversion_ok hlink.op_eq h
  refine ⟨log', l, hrun, fun ds hshown => ?_⟩
  obtain ⟨hnone, p, hp, hresults, hsides⟩ := hshown
  cases hp.symm.trans hpool
  refine ⟨pool, rfl, hresults, ?_⟩
  show Except.ok (Value.successes (l.successes + (Conversion.target.count pool link.arg).value)) = _
  rw [hnone, Int.zero_add, count_of_countsBy hlink.counts hsides]

/-- Dice that are counted as they fall. -/
theorem exists_eval {l : Operand} {n : Nat} {faces : List Int} (hl : l.toArgument = .ok (.single n))
    (hn : n ≤ maxArgument) (hy : ∀ s, ∃ log, (y.eval cap).on s = (.ok (log, l), s))
    (hlink : Counting target double link) (hfaces : n ≤ faces.length) :
    ∃ log o, ((y.chain ([diceLink] ++ [] ++ [link])).eval cap).on (.ofList faces) =
        (.ok (log, o), ⟨faces.drop n, n⟩) ∧
      o.toValue = .ok (.successes (successes target double ((faces.take n).map shown))) := by
  let pool : Pool := ⟨tenSided ((faces.take n).map shown), [⟨n, 10⟩]⟩
  have htakes : (Faces.ofList faces).Takes (faces.take n) ⟨faces.drop n, n⟩ :=
    ⟨(List.take_append_drop n faces).symm, by simp [Faces.ofList, hfaces]⟩
  have hsize : n ≤ maxPoolSize := Nat.le_trans hn (by decide)
  have hroll : (Pool.roll (.single n) (.single 10)).on (.ofList faces) = (.ok pool, ⟨faces.drop n, n⟩) := by
    refine (Pool.roll_single_ok_iff (by decide) hsize).2 ⟨faces.take n, by simp [hfaces], htakes, ?_⟩
    simp [pool, tenSided, shown, Function.comp_def]
  have hdice : (l.rolled (.argument (.single 10))).on (.ofList faces) =
      (.ok (.thrown (.rolled pool)), ⟨faces.drop n, n⟩) := (Operand.rolled_ok_iff hl rfl).2 ⟨pool, hroll, rfl⟩
  obtain ⟨log, hrun⟩ := hy (.ofList faces)
  have hrolled := Tree.eval_chain_singleton diceLink hrun hdice
  have hcounted : (link.op.apply cap (.thrown (.rolled pool)) (.argument link.arg)).on ⟨faces.drop n, n⟩ =
      (.ok (.thrown (.counted .target link.arg pool 0)), ⟨faces.drop n, n⟩) := by
    rw [hlink.op_eq]
    rfl
  have hall := Tree.eval_chain_singleton link hrolled hcounted
  rw [← Tree.chain_append] at hall
  refine ⟨_, _, hall, ?_⟩
  show Except.ok (Value.successes (0 + (Conversion.target.count pool link.arg).value)) = _
  have hsides : ∀ d ∈ pool.dice, d.sides = 10 := by
    intro d hd
    obtain ⟨r, -, rfl⟩ := List.mem_map.1 hd
    rfl
  rw [Int.zero_add, count_of_countsBy hlink.counts hsides, Pool.results, Chronicles.results_tenSided]

/-- Dice that grow before they are counted. -/
theorem dealGrowing_of_eval {l : Operand} {n top : Nat} (hl : l.toArgument = .ok (.single n)) (hn : n ≤ maxArgument)
    (hy : ∀ s, ∃ log, (y.eval cap).on s = (.ok (log, l), s)) (hlink : Counting target double link)
    {growing : Link} (hop : growing.op = .pool (.explode (some .additive))) (harg : growing.arg = .single top)
    (h : ((y.chain ([diceLink] ++ [growing] ++ [link])).eval cap).on s = (.ok (log, o), s')) :
    ∃ p, dealGrowing top n s.coming = some (p.results, s'.coming) ∧ o.toPool = .ok p ∧
      o.toValue = .ok (.successes (successes target double p.results)) := by
  rw [Tree.chain_append, Tree.chain_append] at h
  obtain ⟨log₂, o₂, h₂, hcount⟩ := count_of_eval hlink h
  obtain ⟨log₁, o₁, s₁, h₁, hgrow⟩ := Growing.explode_of_eval hop harg h₂
  obtain ⟨rs, hdeal, hshows, hrs⟩ := Chronicles.deal_of_eval hl hn hy h₁
  obtain ⟨ds, hexplode, hshown, -⟩ := hgrow rs hshows hrs
  obtain ⟨p, hp, hresults, hvalue⟩ := hcount ds hshown
  refine ⟨p, ?_, hp, hvalue⟩
  rw [hresults]
  simp only [dealGrowing, hdeal, hexplode, Option.bind_eq_bind, Option.bind_some]

/-! ### The roll -/

/-- The order counts so many dice as the game does with these options: those that fall if nothing is handed
through, and those that have grown if what is handed through is an additive explosion. -/
structure Plays {Owner : Type} (order : Order Owner) (o : Options) (n : Nat) : Prop where
  plain : o.extra = [] → ∀ faces : List Int, n ≤ faces.length →
    ∃ r, order.roll.on (.ofList faces) = (.ok r, ⟨faces.drop n, n⟩) ∧
      r.result = .successes (successes o.target o.double ((faces.take n).map shown))
  growing : ∀ digits, squeeze o.extra = 'e' :: 'a' :: digits → Flag.IsNumber 0 maxArgument digits →
    ∀ (faces : List Int) (r : Roll Owner) (s' : Faces), order.roll.on (.ofList faces) = (.ok r, s') →
      ∃ log final p rest, dealGrowing (numeral digits) n faces = some (p.results, rest) ∧
        s' = ⟨rest, faces.length - rest.length⟩ ∧
        (evaluateText order.command maxGenerations).on (.ofList faces) = (.ok (log, final), s') ∧
        final.toPool = .ok p ∧ r.result = .successes (successes o.target o.double p.results)

/-- The notation is the expression, at which it rolls as alone, and a chain that ends in the count. -/
theorem plays_of_render {Owner : Type} {d : List Char} {alone order : Order Owner} {s s₀ : Faces} {r₀ : Roll Owner}
    {n : Nat} {o : Options} (hd : ∀ c ∈ d, isDiceCharacter c = true) (halone : alone.command = String.ofList d)
    (hroll₀ : alone.roll.on s = (.ok r₀, s₀)) (hn : r₀.result.whole? = some (n : Int)) (hsmall : n ≤ maxArgument)
    (ho : o.InRange) (hrender : order.command = o.render (trim d) []) : Plays order o n := by
  obtain ⟨-, log₀, l, heval₀, hvalue₀⟩ := Order.roll_ok hroll₀
  rw [halone] at heval₀
  -- the expression is the same tree inside the brackets, and takes no face there either
  obtain ⟨ts, y, hts, hpostfix, hrun, hbounded⟩ := exists_tree_of_evaluateText hd heval₀
  have hy : ∀ s, ∃ log, (Tree.eval maxGenerations y).on s = (.ok (log, l), s) := fun s => ⟨log₀, hrun s⟩
  have hl : l.toArgument = .ok (.single n) := Operand.toArgument_of_whole hbounded hvalue₀ hn hsmall
  obtain ⟨link, hlink, hcount⟩ := exists_counting ho
  have hchain {extra : List Link} (hextra : Link.textOf extra = squeeze o.extra) :
      evaluateText order.command maxGenerations = (y.chain ([diceLink] ++ extra ++ [link])).eval maxGenerations := by
    have htext := squeeze_render _ (trim d) hextra hcount
    rw [squeeze_trim, ← hrender] at htext
    exact evaluateText_chain hts hpostfix htext maxGenerations
  refine ⟨fun hnone faces hfaces => ?_, fun digits hdigits hnumber faces r s' hroll => ?_⟩
  · have hblank : trim order.command.toList ≠ [] := by
      rw [hrender, render_eq, tens]
      simp only [String.toList_append]
      exact trim_ne_nil (by decide : isBlank '(' = false) _
    obtain ⟨log, final, heval, hvalue⟩ := exists_eval hl hsmall hy hlink hfaces
    rw [← hchain (by rw [hnone]; rfl)] at heval
    exact ⟨_, Order.roll_of_evaluateText hblank heval hvalue, rfl⟩
  · let growing : Link := ⟨.pool (.explode (some .additive)), .single (numeral digits),
      .ofDigits digits hnumber.ne_nil hnumber.isDigit hnumber.bounds.2 hnumber.short, rfl, rfl⟩
    have hgrowing : Link.textOf [growing] = squeeze o.extra := by
      have hop : (Token.pool (.explode (some .additive))).text.toList = ['e', 'a'] := by decide
      rw [hdigits, Link.textOf_singleton]
      show (Token.pool (.explode (some .additive))).text.toList ++ digits = _
      rw [hop]
      rfl
    obtain ⟨-, log, final, heval, hvalue⟩ := Order.roll_ok hroll
    have hused := (local_evaluateText order.command maxGenerations).eq_of_ofList heval
    have hgrown := heval
    rw [hchain hgrowing] at hgrown
    obtain ⟨p, hdeal, hp, hresult⟩ := dealGrowing_of_eval hl hsmall hy hlink (rfl : growing.op = _) rfl hgrown
    exact ⟨log, final, p, s'.coming, hdeal, hused, heval, hp, Except.ok.inj (hvalue.symm.trans hresult)⟩

/-- The notation of an Exalted command counts as the game does. Suppose that an expression of digits,
blanks, signs and brackets rolls by itself to a whole number that is small enough for an argument, and
that flags follow it and no bonus. If the flags hand nothing through, then the notation rolls on all
faces that are enough for that many dice, uses one for each, and comes to the successes that the game
counts. If they hand an additive explosion of a single face through and the roll does not fail, then it
comes to the successes of the dice as they have grown, which are those of the last pool. -/
theorem roll_counts_successes {Owner : Type} {d f : List Char} {alone order : Order Owner} {s s₀ : Faces}
    {r₀ : Roll Owner} {n : Nat} (hd : ∀ c ∈ d, isDiceCharacter c = true)
    (halone : alone.command = String.ofList d) (hroll₀ : alone.roll.on s = (.ok r₀, s₀))
    (hn : r₀.result.whole? = some (n : Int)) (hsmall : n ≤ maxArgument)
    (hf : ∀ c ∈ (cut ';' (Request.normal f)).1.head?, isDiceCharacter c = false) (hbonus : bonusText f = [])
    (horder : toNotation (String.ofList (d ++ f)) = .ok order.command) (faces : List Int) :
    (1 ≤ targetOf (flagsOf f) ∧ targetOf (flagsOf f) ≤ 10) ∧
    (∀ m, doubleOf (flagsOf f) = some m → 1 ≤ m ∧ m ≤ 10) ∧
    (extraOf (flagsOf f) = [] → n ≤ faces.length →
      ∃ r, order.roll.on (.ofList faces) = (.ok r, ⟨faces.drop n, n⟩) ∧
        r.result =
          .successes (successes (targetOf (flagsOf f)) (doubleOf (flagsOf f)) ((faces.take n).map shown))) ∧
    (∀ digits, squeeze (extraOf (flagsOf f)) = 'e' :: 'a' :: digits → digits ≠ [] →
      (∀ c ∈ digits, isDigit c = true) → numeral digits ≤ maxArgument → digits.length ≤ maxNumeralDigits →
      ∀ r s', order.roll.on (.ofList faces) = (.ok r, s') →
        ∃ log final p rest, dealGrowing (numeral digits) n faces = some (p.results, rest) ∧
          s' = ⟨rest, faces.length - rest.length⟩ ∧
          (evaluateText order.command maxGenerations).on (.ofList faces) = (.ok (log, final), s') ∧
          final.toPool = .ok p ∧
          r.result = .successes (successes (targetOf (flagsOf f)) (doubleOf (flagsOf f)) p.results)) := by
  obtain ⟨-, -, flags, hspells, hmeant, hrender⟩ := (toNotation_ok_iff hd hf).1 horder
  have hflags : flagsOf f = flags :=
    (Flag.scan_eq_iff (by decide) fun flag h => (hmeant flag h).clear).2 hspells
  have hrange := inRange_of_meant hmeant
  rw [hbonus] at hrender
  obtain ⟨hplain, hgrowing⟩ := plays_of_render hd halone hroll₀ hn hsmall hrange hrender
  rw [hflags]
  exact ⟨hrange.target, hrange.double, fun hnone => hplain hnone faces,
    fun digits hdigits hne hall hface hlen => hgrowing digits hdigits ⟨hne, hall, hlen, Nat.zero_le _, hface⟩ faces⟩

/-- Eights are enough and nines count twice; and a ten that grows to thirteen counts as a ten does. -/
theorem roll_counts_successes_doubles :
    (toNotation "1+2d9t8" = .ok "(1+2)d10t[1, 2, 2]" ∧
      ∃ r : Roll Unit, (Order.roll ⟨"(1+2)d10t[1, 2, 2]", "", ()⟩).on (.ofList [8, 10, 3, 5]) = (.ok r, ⟨[5], 3⟩) ∧
        r.result = .successes 3) ∧
    toNotation "1+2\x7bea10\x7d" = .ok "(1+2)d10ea10t[1, 1, 1, 2]" ∧
      ∃ r : Roll Unit, (Order.roll ⟨"(1+2)d10ea10t[1, 1, 1, 2]", "", ()⟩).on (.ofList [10, 7, 2, 3, 9]) =
          (.ok r, ⟨[9], 4⟩) ∧ r.result = .successes 3 := by
  let alone : Order Unit := ⟨"1+2", "", ()⟩
  let plain : Order Unit := ⟨"(1+2)d10t[1, 2, 2]", "", ()⟩
  let grown : Order Unit := ⟨"(1+2)d10ea10t[1, 1, 1, 2]", "", ()⟩
  have hplain : toNotation "1+2d9t8" = .ok plain.command := eq_ok_of_toOption (by decide)
  have hgrown : toNotation "1+2\x7bea10\x7d" = .ok grown.command := eq_ok_of_toOption (by decide +kernel)
  obtain ⟨r₀, s₀, halone, hwhole⟩ : ∃ r₀ s₀, alone.roll.on (.ofList []) = (.ok r₀, s₀) ∧
      r₀.result.whole? = some 3 := Rolling.exists_ok_of_toOption (by decide +kernel)
  have hd : ∀ c ∈ "1+2".toList, isDiceCharacter c = true := List.all_eq_true.1 (by decide +kernel)
  have hhead {f : List Char} {a : Char} (ha : isDiceCharacter a = false)
      (h : (cut ';' (Request.normal f)).1.head? = some a) :
      ∀ c ∈ (cut ';' (Request.normal f)).1.head?, isDiceCharacter c = false := by
    intro c hc
    rw [h] at hc
    cases hc
    exact ha
  obtain ⟨-, -, hcount, -⟩ := roll_counts_successes (f := "d9t8".toList) hd (rfl : alone.command = _) halone hwhole
    (by decide) (hhead (a := 'd') (by decide) (by decide +kernel)) (by decide +kernel) hplain [8, 10, 3, 5]
  obtain ⟨-, -, -, hgrow⟩ := roll_counts_successes (f := "\x7bea10\x7d".toList) hd (rfl : alone.command = _) halone
    hwhole (by decide) (hhead (a := '{') (by decide) (by decide)) (by decide) hgrown [10, 7, 2, 3, 9]
  obtain ⟨r, hroll, hresult⟩ := hcount (by decide) (by decide)
  have hsuccesses : successes (targetOf (flagsOf "d9t8".toList)) (doubleOf (flagsOf "d9t8".toList))
      (([8, 10, 3, 5].take 3).map shown) = 3 := by decide
  rw [hsuccesses] at hresult
  obtain ⟨r', s', hroll', -⟩ : ∃ r s', grown.roll.on (.ofList [10, 7, 2, 3, 9]) = (.ok r, s') ∧ some () = some () :=
    Rolling.exists_ok_of_toOption (by decide +kernel)
  obtain ⟨log, final, p, rest, hdeal, rfl, -, -, hresult'⟩ :=
    hgrow ['1', '0'] (by decide) (by decide) (List.all_eq_true.1 rfl) (by decide) (by decide) r' s'
      hroll'
  have hresults : dealGrowing 10 3 [10, 7, 2, 3, 9] = some ([13, 7, 2], [9]) := by decide +kernel
  obtain ⟨hp, rfl⟩ := Prod.mk.inj (Option.some.inj (hdeal.symm.trans hresults))
  have hsuccesses' : successes (targetOf (flagsOf "\x7bea10\x7d".toList))
      (doubleOf (flagsOf "\x7bea10\x7d".toList)) [13, 7, 2] = 3 := by decide
  rw [hp, hsuccesses'] at hresult'
  exact ⟨⟨hplain, r, hroll, hresult⟩, hgrown, r', hroll', hresult'⟩

/-- A command as it is written: flags of commands on one line after such an expression. It has a notation, and
this counts as the game does with the options that these flags set. -/
theorem roll_written {Owner : Type} {d f : List Char} {alone : Order Owner} {s s₀ : Faces} {r₀ : Roll Owner}
    {n : Nat} {flags : List Flag} (hd : ∀ c ∈ d, isDiceCharacter c = true)
    (halone : alone.command = String.ofList d) (hroll₀ : alone.roll.on s = (.ok r₀, s₀))
    (hn : r₀.result.whole? = some (n : Int)) (hsmall : n ≤ maxArgument)
    (hspells : Flag.Spells flags (flagText f)) (hmeant : ∀ flag ∈ flags, Meant flag) (hline : '\n' ∉ flagText f)
    (hbonus : bonusText f = []) :
    ∃ formula, toNotation (String.ofList (d ++ f)) = .ok formula ∧
      ∀ order : Order Owner, order.command = formula → Plays order (optionsOf flags) n := by
  have hdice := (Order.roll_ok hroll₀).1
  rw [halone, String.toList_ofList] at hdice
  have hf := head?_of_spells hspells fun flag h => (hmeant flag h).head?
  refine ⟨_, (toNotation_ok_iff hd hf).2 ⟨hdice, hline, flags, hspells, hmeant, rfl⟩, fun order hrender => ?_⟩
  rw [hbonus] at hrender
  exact plays_of_render hd halone hroll₀ hn hsmall (inRange_of_meant hmeant) hrender

end Shorthand.Exalted

end Tabletop
