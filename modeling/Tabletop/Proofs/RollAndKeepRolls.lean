import Tabletop.Proofs.Growing
import Tabletop.Proofs.Keeping
import Tabletop.Shorthand.RollAndKeep

/-!
# Roll and keep

The game gives every die a value (`simulate`): ones are rolled once more if the flags say so, and tens
grow unless the flags say otherwise. The notation of a command is a chain on the number of dice, whose
links do the same to the pool, and then keeps the dice with the largest values
(`roll_keeps_largest`). A form is told from how it is written (`Form.ofText?_eq_some_iff`).
-/

namespace Tabletop

open Text

namespace Shorthand.RollAndKeep

open Chronicles

/-! ### The game -/

def rerollOnesIf (emphasis : Bool) (rs faces : List Int) : Option (List Int × List Int) :=
  if emphasis then rerollWhere (fun r => r = 1) rs faces else some (rs, faces)

def growTensIf (exploding : Bool) (rs faces : List Int) : Option (List Int × List Int) :=
  if exploding then
    (Growing.explode 10 (rs.map Growing.fresh) faces).map fun (ds, faces) => (ds.map Growing.value, faces)
  else some (rs, faces)

/-- The values of so many dice on a list of faces, and the faces that are left. -/
def simulate (exploding emphasis : Bool) (n : Nat) (faces : List Int) : Option (List Int × List Int) := do
  let (rs, faces) ← deal n faces
  let (rs, faces) ← rerollOnesIf emphasis rs faces
  growTensIf exploding rs faces

theorem length_rerollOnesIf {emphasis : Bool} {rs rs' faces rest : List Int}
    (h : rerollOnesIf emphasis rs faces = some (rs', rest)) : rs'.length = rs.length := by
  rw [rerollOnesIf] at h
  split at h
  · exact length_rerollWhere h
  · cases h
    rfl

/-! ### The command -/

theorem isDigit_of_isLetter {c : Char} (h : ('a' ≤ c && c ≤ 'z') = true) : isDigit c = false := by
  have table : ∀ z ∈ zeros, z + 10 ≤ 'a'.toNat ∨ 'z'.toNat < z := by decide
  simp only [Bool.and_eq_true, decide_eq_true_eq, Char.le_def, UInt32.le_iff_toNat_le] at h
  have hfirst : 'a'.toNat ≤ c.toNat := h.1
  have hlast : c.toNat ≤ 'z'.toNat := h.2
  rw [isDigit, digit?, Option.isSome_map, Option.isSome_eq_false_iff, Option.isNone_iff_eq_none, List.find?_eq_none]
  intro z hz
  have := table z hz
  simp only [Bool.and_eq_true, decide_eq_true_eq]
  omega

namespace Form

/-- How a form is written. -/
def text (form : Form) : List Char := form.rolled ++ 'k' :: (form.kept ++ (form.flags ++ form.modifier))

/-- A form that can be told from how it is written. -/
structure WellFormed (form : Form) : Prop where
  rolled_ne : form.rolled ≠ []
  rolled : ∀ c ∈ form.rolled, isDigit c = true
  kept_ne : form.kept ≠ []
  kept : ∀ c ∈ form.kept, isDigit c = true
  flags : ∀ c ∈ form.flags, ('a' ≤ c && c ≤ 'z') = true
  modifier : isModifier form.modifier = true

variable {form : Form} {s : List Char}

/-- A modifier begins with a sign. -/
theorem head?_of_isModifier (h : isModifier s = true) : ∀ c ∈ s.head?, c = '+' ∨ c = '-' := by
  cases s with
  | nil => exact nofun
  | cons c s =>
    simp only [isModifier, Bool.and_eq_true, Bool.or_eq_true, decide_eq_true_eq] at h
    exact fun _ hc => Option.some.inj hc ▸ h.1.1

/-- Flags and a modifier do not go on with the digits of a number. -/
theorem WellFormed.head? (h : form.WellFormed) : ∀ c ∈ (form.flags ++ form.modifier).head?, isDigit c = false := by
  intro c hc
  cases hflags : form.flags with
  | nil =>
    rw [hflags, List.nil_append] at hc
    rcases head?_of_isModifier h.modifier c hc with rfl | rfl <;> decide
  | cons a flags =>
    rw [hflags] at hc
    obtain rfl := Option.some.inj hc
    exact isDigit_of_isLetter (h.flags _ (by rw [hflags]; exact List.mem_cons_self))

/-- Forms are read back from how they are written, and nothing else is read as a form. -/
theorem ofText?_eq_some_iff : ofText? s = some form ↔ form.WellFormed ∧ s = form.text := by
  have hsplit (p : Char → Bool) (t : List Char) : t.takeWhile p ++ t.drop (t.takeWhile p).length = t :=
    List.prefix_iff_eq_append.1 (t.takeWhile_prefix p)
  constructor
  · intro h
    unfold ofText? at h
    dsimp only at h
    split at h
    · rename_i rest hrest
      split at h
      · cases h
      · rename_i hall
        obtain rfl := Option.some.inj h
        simp only [Bool.or_eq_true, List.isEmpty_iff, Bool.not_eq_true', not_or, Bool.not_eq_false] at hall
        obtain ⟨⟨hrolled, hkept⟩, hmodifier⟩ := hall
        refine ⟨⟨hrolled, fun _ => List.mem_takeWhile_imp, hkept, fun _ => List.mem_takeWhile_imp,
          fun _ hc => List.mem_takeWhile_imp (p := fun c => 'a' ≤ c && c ≤ 'z') hc, hmodifier⟩, ?_⟩
        rw [text]
        dsimp only
        rw [hsplit, hsplit, ← hrest, hsplit]
    · cases h
  · rintro ⟨h, rfl⟩
    have hrolled : form.text.takeWhile isDigit = form.rolled :=
      takeWhile_append_of_head h.rolled fun _ hc => by cases hc; decide
    have hkept : (form.kept ++ (form.flags ++ form.modifier)).takeWhile isDigit = form.kept :=
      takeWhile_append_of_head h.kept h.head?
    have hflags : (form.flags ++ form.modifier).takeWhile (fun c => 'a' ≤ c && c ≤ 'z') = form.flags :=
      takeWhile_append_of_head h.flags fun c hc => by
        rcases head?_of_isModifier h.modifier c hc with rfl | rfl <;> decide
    have hdrop : form.text.drop form.rolled.length = 'k' :: (form.kept ++ (form.flags ++ form.modifier)) :=
      List.drop_left
    unfold ofText?
    simp only [hrolled, hdrop, hkept, hflags, List.drop_left]
    rw [if_neg]
    simp [h.rolled_ne, h.kept_ne, h.modifier]

end Form

/-- What a flag makes of the options. -/
def Options.set (o : Options) (flag : Char) : Options := ⟨o.explode && flag != 'u', o.emphasis || flag == 'e'⟩

theorem take_ok_iff {o o' : Options} {flag : Char} :
    o.take flag = .ok o' ↔ (flag = 'u' ∨ flag = 'e') ∧ o' = o.set flag := by
  unfold Options.take
  by_cases hu : flag = 'u'
  · simp [hu, Options.set, eq_comm]
  · by_cases he : flag = 'e'
    · simp [he, Options.set, eq_comm]
    · simp [hu, he, unknown]

theorem foldl_set (o : Options) (flags : List Char) :
    flags.foldl Options.set o = ⟨o.explode && !flags.contains 'u', o.emphasis || flags.contains 'e'⟩ := by
  induction flags generalizing o with
  | nil => simp
  | cons flag flags ih =>
    rw [List.foldl_cons, ih, Options.set, List.contains_cons, List.contains_cons, Bool.not_or, Bool.and_assoc,
      Bool.or_assoc]
    rw [bne, BEq.comm, BEq.comm (a := flag) (b := 'e')]

theorem foldlM_take_ok_iff {flags : List Char} {o : Options} : flags.foldlM Options.take {} = .ok o ↔
    (∀ c ∈ flags, c = 'u' ∨ c = 'e') ∧ o = ⟨!flags.contains 'u', flags.contains 'e'⟩ := by
  have hstep : ∀ c ∈ flags, ∀ o o' : Options, o.take c = .ok o' ↔ (c = 'u' ∨ c = 'e') ∧ o' = o.set c :=
    fun _ _ _ _ => take_ok_iff
  rw [foldlM_ok_iff hstep, foldl_set, Bool.true_and, Bool.false_or]

/-- The notation for so many dice rolled and kept. -/
def written (exploding emphasis : Bool) (rolled kept : Nat) : String :=
  s!"{rolled}d10" ++ (if emphasis then "ro1" else "") ++ (if exploding then "ea10" else "") ++ s!"k{kept}"

/-- The commands that are understood are those that write a form with flags that are known, and whose numbers are
not too long to be read. -/
theorem toNotation_ok_iff {command formula : String} : toNotation command = .ok formula ↔
    ∃ form : Form, form.WellFormed ∧ squeeze (lower command.toList) = form.text ∧
      (∀ c ∈ form.flags, c = 'u' ∨ c = 'e') ∧ form.rolled.length ≤ maxNumeralDigits ∧
      form.kept.length ≤ maxNumeralDigits ∧
      formula = written (!form.flags.contains 'u') (form.flags.contains 'e') (numeral form.rolled)
        (numeral form.kept) ++ String.ofList form.modifier := by
  constructor
  · intro h
    unfold toNotation at h
    dsimp only at h
    split at h
    · cases h
    · rename_i form hform
      obtain ⟨hwell, htext⟩ := Form.ofText?_eq_some_iff.1 hform
      obtain ⟨o, ho, h⟩ := ok_of_bind h
      obtain ⟨rolled, hrolled, h⟩ := ok_of_bind h
      obtain ⟨kept, hkept, h⟩ := ok_of_bind h
      obtain ⟨hflags, rfl⟩ := foldlM_take_ok_iff.1 ho
      obtain ⟨hshort, rfl⟩ := Number.natural_ok_iff.1 hrolled
      obtain ⟨hshort', rfl⟩ := Number.natural_ok_iff.1 hkept
      cases h
      exact ⟨form, hwell, htext, hflags, hshort, hshort', rfl⟩
  · rintro ⟨form, hwell, htext, hflags, hshort, hshort', rfl⟩
    unfold toNotation
    simp only [Form.ofText?_eq_some_iff.2 ⟨hwell, htext⟩, foldlM_take_ok_iff.2 ⟨hflags, rfl⟩,
      Number.natural_ok_iff.2 ⟨hshort, rfl⟩, Number.natural_ok_iff.2 ⟨hshort', rfl⟩]
    rfl

/-! ### The chain -/

/-- What a pool operator does with a small number. -/
def poolLink (op : PoolOperator) (hop : (Binary.pool op).token.isChaining = true) (n : Fin (maxArgument + 1)) : Link :=
  ⟨.pool op, .single n, .ofFin n, hop, rfl⟩

def onesLink : Link := poolLink (.reroll (some .once)) rfl ⟨1, by decide⟩

def tensLink : Link := poolLink (.explode (some .additive)) rfl ⟨10, by decide⟩

def keepLink (kept : Fin (maxArgument + 1)) : Link := poolLink (.keep none) rfl kept

def linkIf (b : Bool) (l : Link) : List Link := if b then [l] else []

def links (exploding emphasis : Bool) (kept : Fin (maxArgument + 1)) : List Link :=
  [diceLink] ++ linkIf emphasis onesLink ++ linkIf exploding tensLink ++ [keepLink kept]

theorem textOf_keepLink (kept : Fin (maxArgument + 1)) :
    Link.textOf [keepLink kept] = 'k' :: smallNumeral kept := by
  have hop : (Token.pool (.keep none)).text.toList = ['k'] := by decide
  rw [Link.textOf_singleton]
  show (Token.pool (.keep none)).text.toList ++ smallNumeral kept = _
  rw [hop]
  rfl

/-- The notation is a number and a chain. -/
theorem written_eq (exploding emphasis : Bool) (rolled kept : Fin (maxArgument + 1)) :
    written exploding emphasis rolled kept =
      String.ofList ((Literal.ofFin rolled).lexeme.text ++ Link.textOf (links exploding emphasis kept)) := by
  have hrolled : (Literal.ofFin rolled).lexeme.text = (toString rolled.val).toList := rfl
  have hdice : Link.textOf [diceLink] = "d10".toList := rfl
  have hones : Link.textOf (linkIf emphasis onesLink) = (if emphasis then "ro1" else "").toList := by
    cases emphasis <;> rfl
  have htens : Link.textOf (linkIf exploding tensLink) = (if exploding then "ea10" else "").toList := by
    cases exploding <;> rfl
  rw [← String.toList_inj, String.toList_ofList, links, Link.textOf_append, Link.textOf_append,
    Link.textOf_append, hrolled, hdice, hones, htens, textOf_keepLink, written]
  simp only [String.toList_append, List.append_assoc]
  rfl

/-! ### Along the chain -/

variable {cap : Int} {y : Tree Constant} {s s' : Faces} {log : List Operation} {o : Operand}

/-- The pool of the operand has these values. -/
def Has (o : Operand) (values : List Int) : Prop := ∃ p, o.toPool = .ok p ∧ p.results = values

theorem rerollOnesIf_of_eval {emphasis : Bool}
    (h : ((y.chain (linkIf emphasis onesLink)).eval cap).on s = (.ok (log, o), s')) :
    ∃ log' l s₁, (y.eval cap).on s = (.ok (log', l), s₁) ∧
      ∀ rs, Shows l (tenSided rs) → Tens rs → ∃ rs', rerollOnesIf emphasis rs s₁.coming = some (rs', s'.coming) ∧
        Shows o (tenSided rs') ∧ Tens rs' := by
  cases emphasis with
  | false => exact ⟨log, o, s', h, fun rs hshows hrs => ⟨rs, rfl, hshows, hrs⟩⟩
  | true =>
    obtain ⟨log', l, s₁, pool, change, hrun, hpool, happly, rfl⟩ := Tree.eval_chain_pool_ok rfl h
    refine ⟨log', l, s₁, hrun, fun rs hshows hrs => ?_⟩
    obtain ⟨-, p, hp, hdice⟩ := hshows
    cases hp.symm.trans hpool
    have hones : ∀ r, 1 ≤ r → (Argument.single 1).faces.contains r = decide (r = 1) := by
      intro r _
      simp [Argument.faces, Argument.values]
    obtain ⟨rs', hreroll, hdice', hrs'⟩ := rerollWhere_of_rerollOnce hones hdice hrs happly
    exact ⟨rs', hreroll, ⟨rfl, change.pool, rfl, hdice'⟩, hrs'⟩

theorem growTensIf_of_eval {exploding : Bool}
    (h : ((y.chain (linkIf exploding tensLink)).eval cap).on s = (.ok (log, o), s')) :
    ∃ log' l s₁, (y.eval cap).on s = (.ok (log', l), s₁) ∧
      ∀ rs, Shows l (tenSided rs) → Tens rs → ∃ values, growTensIf exploding rs s₁.coming = some (values, s'.coming) ∧
        Has o values ∧ values.length = rs.length := by
  cases exploding with
  | false =>
    refine ⟨log, o, s', h, fun rs hshows hrs => ⟨rs, rfl, ?_, rfl⟩⟩
    obtain ⟨-, p, hp, hdice⟩ := hshows
    exact ⟨p, hp, by rw [Pool.results, hdice, results_tenSided]⟩
  | true =>
    obtain ⟨log', l, s₁, hrun, hgrow⟩ := Growing.explode_of_eval rfl rfl h
    refine ⟨log', l, s₁, hrun, fun rs hshows hrs => ?_⟩
    obtain ⟨ds, hexplode, hshown, hlen⟩ := hgrow rs hshows hrs
    obtain ⟨p, hp, hresults, -⟩ := hshown.pool
    refine ⟨ds.map Growing.value, ?_, ⟨p, hp, hresults⟩, by rw [List.length_map, hlen]⟩
    exact congrArg (Option.map _) hexplode

theorem keep_of_eval {kept : Fin (maxArgument + 1)}
    (h : ((y.chain [keepLink kept]).eval cap).on s = (.ok (log, o), s')) :
    ∃ log' l, (y.eval cap).on s = (.ok (log', l), s') ∧
      ∀ values, Has l values → ∃ p, o.toPool = .ok p ∧ o.toValue = .ok (.ofTotal p.total) ∧
        p.size = min kept.val values.length ∧ p.total = sum (largest kept values) := by
  obtain ⟨log', l, s₁, pool, change, hrun, hpool, happly, rfl⟩ := Tree.eval_chain_pool_ok rfl h
  obtain ⟨n, hn, happly⟩ := Rolling.on_liftM_bind_ok happly
  cases hn
  obtain ⟨hkeep, rfl⟩ := Rolling.on_liftM_ok happly
  refine ⟨log', l, hrun, fun values hvalues => ?_⟩
  obtain ⟨p, hp, rfl⟩ := hvalues
  cases hp.symm.trans hpool
  refine ⟨change.pool, rfl, rfl, ?_, Pool.total_keepHigh hkeep⟩
  rw [Pool.size_keepHigh hkeep, Pool.results, List.length_map, Pool.size]

/-- Keeping does not fail. -/
theorem exists_keep_eval {l : Operand} {p : Pool} (hrun : (y.eval cap).on s = (.ok (log, l), s'))
    (hp : l.toPool = .ok p) (hsize : p.size ≤ maxPoolSize) (kept : Fin (maxArgument + 1)) :
    ∃ log' t, ((y.chain [keepLink kept]).eval cap).on s = (.ok (log', .thrown t), s') := by
  obtain ⟨change, hchange⟩ := Pool.exists_keepHigh hsize kept.val
  have happly : ((PoolOperator.keep none).mode.apply p (.single kept) cap).on s' = (.ok change, s') := by
    show (liftM (p.keepHigh kept.val) : Rolling Change).on s' = _
    rw [Rolling.on_liftM, hchange]
  have hkeep : (l.changed (.keep none) cap (.argument (.single kept))).on s' =
      (.ok (.thrown (.changed (.keep none) (.single kept) change)), s') := by
    rw [Operand.changed, hp]
    exact Rolling.on_bind_ok_iff.2 ⟨p, s', rfl, Rolling.on_bind_ok_iff.2 ⟨.single kept, s', rfl,
      Rolling.on_bind_ok_iff.2 ⟨change, s', happly, rfl⟩⟩⟩
  exact ⟨_, _, Tree.eval_chain_singleton (keepLink kept) hrun hkeep⟩

/-- A chain that runs without failing keeps the largest values of the game. -/
theorem simulate_of_eval {exploding emphasis : Bool} {rolled kept : Fin (maxArgument + 1)}
    (h : (((Tree.leaf (.argument (.single rolled))).chain (links exploding emphasis kept)).eval cap).on s =
      (.ok (log, o), s')) :
    ∃ values p, simulate exploding emphasis rolled s.coming = some (values, s'.coming) ∧
      values.length = rolled ∧ o.toPool = .ok p ∧ o.toValue = .ok (.ofTotal p.total) ∧
      p.size = min kept.val rolled.val ∧ p.total = sum (largest kept values) := by
  rw [links, Tree.chain_append, Tree.chain_append, Tree.chain_append] at h
  obtain ⟨log₃, o₃, h₃, hkeep⟩ := keep_of_eval h
  obtain ⟨log₂, o₂, s₂, h₂, hgrow⟩ := growTensIf_of_eval h₃
  obtain ⟨log₁, o₁, s₁, h₁, hreroll⟩ := rerollOnesIf_of_eval h₂
  obtain ⟨rs, hdeal, hshows, hrs⟩ :=
    deal_of_eval (rfl : (Operand.argument (.single rolled)).toArgument = _) (Nat.le_of_lt_succ rolled.isLt)
      (fun _ => ⟨[], rfl⟩) h₁
  obtain ⟨rs', hrerolled, hshows', hrs'⟩ := hreroll rs hshows hrs
  obtain ⟨values, hgrown, hhas, hlen⟩ := hgrow rs' hshows' hrs'
  obtain ⟨p, hp, hvalue, hsize, htotal⟩ := hkeep values hhas
  have hlength : values.length = rolled := by
    rw [hlen, length_rerollOnesIf hrerolled, length_deal hdeal]
  refine ⟨values, p, ?_, hlength, hp, hvalue, by rw [hsize, hlength], htotal⟩
  simp only [simulate, hdeal, hrerolled, hgrown, Option.bind_eq_bind, Option.bind_some]

/-! ### The roll -/

/-- What the notation of a form without a modifier rolls is the sum of the largest values of the game. -/
theorem exists_simulate {Owner : Type} {exploding emphasis : Bool} {rolled kept : Nat} {order : Order Owner}
    {s' : Faces} {r : Roll Owner} {faces : List Int} (hrolled : rolled ≤ maxArgument) (hkept : kept ≤ maxArgument)
    (hcommand : order.command = written exploding emphasis rolled kept)
    (hroll : order.roll.on (.ofList faces) = (.ok r, s')) :
    ∃ values rest log final p,
      simulate exploding emphasis rolled faces = some (values, rest) ∧ values.length = rolled ∧
      s' = ⟨rest, faces.length - rest.length⟩ ∧
      (evaluateText order.command maxGenerations).on (.ofList faces) = (.ok (log, final), s') ∧
      final.toPool = .ok p ∧ p.size = min kept rolled ∧ p.total = sum (largest kept values) ∧
      r.result = .ofTotal p.total := by
  obtain ⟨-, log, final, heval, hvalue⟩ := Order.roll_ok hroll
  have hused := (local_evaluateText order.command maxGenerations).eq_of_ofList heval
  have hchain := heval
  have hwritten := written_eq exploding emphasis ⟨rolled, Nat.lt_succ_of_le hrolled⟩ ⟨kept, Nat.lt_succ_of_le hkept⟩
  rw [evaluateText_chain_literal rfl (hcommand.trans hwritten)] at hchain
  obtain ⟨values, p, hsimulate, hlength, hp, hresult, hsize, htotal⟩ := simulate_of_eval hchain
  exact ⟨values, s'.coming, log, final, p, hsimulate, hlength, hused, heval, hp, hsize, htotal,
    Except.ok.inj (hvalue.symm.trans hresult)⟩

/-- The notation of a command keeps the largest values of the game. Suppose that a command without a
modifier names numbers of dice that are small enough for arguments. If its notation rolls without
failing, then the game has a value for each die that is rolled, on the same faces and as the flags say,
and uses as many faces. The last pool holds the dice that are kept, or all if there are fewer, and its
total, which the roll comes to, is the sum of that many of the largest values. -/
theorem roll_keeps_largest {Owner : Type} {command : String} {form : Form} {order : Order Owner} {s' : Faces}
    {r : Roll Owner} {faces : List Int} (hform : Form.ofText? (squeeze (lower command.toList)) = some form)
    (hrolled : numeral form.rolled ≤ maxArgument) (hkept : numeral form.kept ≤ maxArgument)
    (hmodifier : form.modifier = []) (horder : toNotation command = .ok order.command)
    (hroll : order.roll.on (.ofList faces) = (.ok r, s')) :
    ∃ values rest log final p,
      simulate (!form.flags.contains 'u') (form.flags.contains 'e') (numeral form.rolled) faces =
        some (values, rest) ∧
      values.length = numeral form.rolled ∧ s' = ⟨rest, faces.length - rest.length⟩ ∧
      (evaluateText order.command maxGenerations).on (.ofList faces) = (.ok (log, final), s') ∧
      final.toPool = .ok p ∧ p.size = min (numeral form.kept) (numeral form.rolled) ∧
      p.total = sum (largest (numeral form.kept) values) ∧ r.result = .ofTotal p.total := by
  obtain ⟨form', hwell, htext, -, -, -, hformula⟩ := toNotation_ok_iff.1 horder
  obtain rfl := Option.some.inj (hform.symm.trans (Form.ofText?_eq_some_iff.2 ⟨hwell, htext⟩))
  rw [hmodifier, String.ofList_nil, String.append_empty] at hformula
  exact exists_simulate hrolled hkept hformula hroll

/-- Of three dice one shows a 1 and is rolled once more, and one shows a 10 and grows. -/
theorem roll_keeps_largest_emphasis :
    toNotation "3k2ee" = .ok "3d10ro1ea10k2" ∧
      ∃ r : Roll Unit, (Order.roll ⟨"3d10ro1ea10k2", "", ()⟩).on (.ofList [10, 1, 6, 7, 10, 4, 9]) =
        (.ok r, ⟨[9], 6⟩) ∧ r.result = .ofTotal 31 := by
  let order : Order Unit := ⟨"3d10ro1ea10k2", "", ()⟩
  let form : Form := ⟨['3'], ['2'], ['e', 'e'], []⟩
  let faces : List Int := [10, 1, 6, 7, 10, 4, 9]
  have hform : Form.ofText? (squeeze (lower "3k2ee".toList)) = some form := by decide
  have hformula : toNotation "3k2ee" = .ok order.command := eq_ok_of_toOption (by decide)
  have hwritten : order.command = written true true 3 2 := by decide
  have hblank : trim order.command.toList ≠ [] := by decide
  -- a sort is not evaluated here, so that the last link is added to the run of those before it
  obtain ⟨⟨log, l⟩, s', hrun, hl⟩ : ∃ a s', (((Tree.leaf (.argument (.single 3))).chain
      ([diceLink] ++ linkIf true onesLink ++ linkIf true tensLink)).eval maxGenerations).on (.ofList faces) =
        (.ok a, s') ∧ a.2.toPool.toOption.map Pool.size = some 3 := Rolling.exists_ok_of_toOption (by decide +kernel)
  obtain ⟨p, hp, hsize⟩ := Option.map_eq_some_iff.1 hl
  obtain ⟨log', t, heval⟩ := exists_keep_eval hrun (eq_ok_of_toOption hp) (by rw [hsize]; decide) 2
  rw [← Tree.chain_append] at heval
  have htext := evaluateText_chain_literal (rfl : (Literal.ofFin 3).token = _)
    (hwritten.trans (written_eq true true 3 2)) maxGenerations
  have hroll := Order.roll_of_evaluateText hblank ((congrArg (Rolling.on · _) htext).trans heval) rfl
  have hsimulate : simulate true true 3 faces = some ([24, 7, 6], [9]) := by decide +kernel
  have hlargest : sum (largest 2 [24, 7, 6]) = 31 := by simp [largest, sum, List.mergeSort]
  obtain ⟨values, rest, log, final, p, hvalues, -, rfl, -, -, -, htotal, hresult⟩ :=
    roll_keeps_largest hform (by decide) (by decide) rfl hformula hroll
  obtain ⟨rfl, rfl⟩ := Prod.mk.inj (Option.some.inj (hvalues.symm.trans hsimulate))
  exact ⟨hformula, _, hroll, by rw [hresult, htotal]; exact congrArg Value.ofTotal hlargest⟩

/-- A command as it is written: two numbers of dice, and flags that are known. It has a notation, and what this
rolls without failing is the sum of the largest values of the game, as these flags say. -/
theorem roll_written {Owner : Type} {command : String} {form : Form} (hwell : form.WellFormed)
    (htext : squeeze (lower command.toList) = form.text) (hflags : ∀ c ∈ form.flags, c = 'u' ∨ c = 'e')
    (hmodifier : form.modifier = []) (hrolled : numeral form.rolled ≤ maxArgument)
    (hkept : numeral form.kept ≤ maxArgument) (hshort : form.rolled.length ≤ maxNumeralDigits)
    (hshort' : form.kept.length ≤ maxNumeralDigits) :
    ∃ formula, toNotation command = .ok formula ∧
      ∀ (order : Order Owner) (faces : List Int) (r : Roll Owner) (s' : Faces), order.command = formula →
        order.roll.on (.ofList faces) = (.ok r, s') →
        ∃ values rest, simulate (!form.flags.contains 'u') (form.flags.contains 'e') (numeral form.rolled) faces =
            some (values, rest) ∧ s' = ⟨rest, faces.length - rest.length⟩ ∧
          r.result = .ofTotal (sum (largest (numeral form.kept) values)) := by
  refine ⟨_, toNotation_ok_iff.2 ⟨form, hwell, htext, hflags, hshort, hshort', rfl⟩,
    fun order faces r s' hcommand hroll => ?_⟩
  rw [hmodifier, String.ofList_nil, String.append_empty] at hcommand
  obtain ⟨values, rest, _, _, p, hsimulate, -, hused, -, -, -, htotal, hresult⟩ :=
    exists_simulate hrolled hkept hcommand hroll
  exact ⟨values, rest, hsimulate, hused, by rw [hresult, htotal]⟩

end Shorthand.RollAndKeep

end Tabletop
