import Tabletop.Proofs.PlainRuns
import Tabletop.Proofs.Trimming

/-!
# The calculator rolls without dice

Read by the calculator, a text means what it means in a roll, or it has something for dice in it and
means nothing (`tokenize_math_iff`, `unknownSymbol_of_tokenize`). Operations on tokens that are not for dice
take no faces and come to decimals (`on_evaluate_of_not_isChaining`, `Operand.toDecimal_ok_iff`). So the
calculator is the roll of a text without dice (`Calculator.evaluate_iff_roll`).
-/

namespace Tabletop

open Text

/-! ### Tokens for dice -/

/-- Lists of faces, dice, what is done to pools, and their merging. -/
def Token.isForDice : Token → Bool
  | argument a => a.isList
  | binary .ampersand => true
  | t => t.isChaining

theorem Token.not_isChaining_of_isForDice {t : Token} (h : t.isForDice = false) : t.isChaining = false := by
  cases t <;> first | rfl | exact h

theorem Argument.isList_of_parse {inner : List Char} {a : Argument}
    (h : parse ('[' :: (inner ++ [']'])) = .ok a) : a.isList = true := by
  have htrim : trim ('[' :: (inner ++ [']'])) = '[' :: (inner ++ [']']) := trim_surrounded (by decide) (by decide) _
  have hinner : bracketed? ('[' :: (inner ++ [']'])) = some inner := by simp [bracketed?]
  rw [parse] at h
  simp only [htrim, hinner] at h
  split at h
  · cases h
  · obtain ⟨ns, -, h⟩ := ok_of_bind h
    cases h
    rfl

/-! ### The two modes -/

theorem Lexeme.tokens_math (l : Lexeme) (bare : Bool) :
    l.tokens .math bare =
      if l.isForDice then .error (.unknownSymbol (String.ofList l.text)) else l.tokens .dice bare := by
  cases hl : l.isForDice <;> simp [tokens, hl]

theorem not_isForDice_of_tokenOfNumeral {s : List Char} {t : Token} (h : tokenOfNumeral s = .ok t) :
    t.isForDice = false := by
  obtain ⟨-, rfl⟩ | ⟨x, rfl⟩ := tokenOfNumeral_ok h <;> rfl

/-- A lexeme is for dice when one of its tokens is. -/
theorem Lexeme.Proper.any_isForDice {l : Lexeme} (h : l.Proper) {bare : Bool} {ts : List Token}
    (hts : l.tokens .dice bare = .ok ts) : ts.any Token.isForDice = l.isForDice := by
  have hwords : ∀ w ∈ words, (w.token?.all fun t => t.isForDice == w.isForDice) = true := by decide
  cases gives_of_tokens hts with
  | list ha =>
    obtain ⟨inner, rfl, -⟩ := h
    have hlist : (Token.argument _).isForDice = true := Argument.isList_of_parse ha
    rw [List.any_cons, hlist]
    rfl
  | numeral ht =>
    rw [List.any_cons, not_isForDice_of_tokenOfNumeral ht]
    rfl
  | word t => rw [← eq_of_beq (hwords _ h), List.any_cons, List.any_nil, Bool.or_false]
  | pi | plus | minus | dice => rfl

variable {bare : Bool} {ls : List Lexeme} {ts : List Token} {text : String}

/-- Without tokens for dice the calculator reads the same. -/
theorem tokensOf_math_iff (hls : ∀ l ∈ ls, l.Proper) :
    tokensOf .math bare ls = .ok ts ↔ tokensOf .dice bare ls = .ok ts ∧ ts.any Token.isForDice = false := by
  induction ls generalizing bare ts with
  | nil =>
    refine ⟨fun h => ⟨h, ?_⟩, And.left⟩
    cases h
    rfl
  | cons l ls ih =>
    obtain ⟨hl, hls⟩ := List.forall_mem_cons.1 hls
    rw [tokensOf_cons_ok_iff, tokensOf_cons_ok_iff, l.tokens_math]
    constructor
    · rintro ⟨now, later, hnow, hlater, rfl⟩
      split at hnow
      · cases hnow
      · rename_i hfor
        obtain ⟨hlater, hnone⟩ := (ih hls).1 hlater
        refine ⟨⟨now, later, hnow, hlater, rfl⟩, ?_⟩
        rw [List.any_append, hl.any_isForDice hnow, hnone, Bool.or_false, eq_false_of_ne_true hfor]
    · rintro ⟨⟨now, later, hnow, hlater, rfl⟩, hnone⟩
      rw [List.any_append, Bool.or_eq_false_iff, hl.any_isForDice hnow] at hnone
      refine ⟨now, later, ?_, (ih hls).2 ⟨hlater, hnone.2⟩, rfl⟩
      rw [if_neg (ne_true_of_eq_false hnone.1), hnow]

/-- The first token for dice is what the calculator does not know. -/
theorem unknownSymbol_of_tokensOf (hls : ∀ l ∈ ls, l.Proper) (h : tokensOf .dice bare ls = .ok ts)
    (hdice : ts.any Token.isForDice = true) : ∃ s, tokensOf .math bare ls = .error (.unknownSymbol s) := by
  induction ls generalizing bare ts with
  | nil =>
    cases h
    cases hdice
  | cons l ls ih =>
    obtain ⟨hl, hls⟩ := List.forall_mem_cons.1 hls
    obtain ⟨now, later, hnow, hlater, rfl⟩ := tokensOf_cons_ok_iff.1 h
    rw [List.any_append, hl.any_isForDice hnow] at hdice
    rw [tokensOf, l.tokens_math]
    cases hfor : l.isForDice with
    | true => exact ⟨_, rfl⟩
    | false =>
      rw [hfor, Bool.false_or] at hdice
      obtain ⟨s, hs⟩ := ih hls hlater hdice
      refine ⟨s, ?_⟩
      rw [if_neg Bool.false_ne_true, hnow]
      change (do pure (now ++ (← tokensOf .math _ ls))) = _
      rw [hs]
      rfl

theorem tokenize_math_iff :
    tokenize .math text = .ok ts ↔ tokenize .dice text = .ok ts ∧ ∀ t ∈ ts, t.isForDice = false := by
  rw [tokenize, tokenize, tokensOf_math_iff fun _ => Lexeme.proper_of_mem_ofText, List.any_eq_false]
  simp

theorem unknownSymbol_of_tokenize (h : tokenize .dice text = .ok ts) (hdice : ∃ t ∈ ts, t.isForDice = true) :
    ∃ s, tokenize .math text = .error (.unknownSymbol s) :=
  unknownSymbol_of_tokensOf (fun _ => Lexeme.proper_of_mem_ofText) h (List.any_eq_true.2 hdice)

/-- A text that has tokens is not blank. -/
theorem trim_ne_nil_of_tokenize {mode : Mode} (h : tokenize mode text = .ok ts) (hts : ts ≠ []) :
    trim text.toList ≠ [] := by
  intro hnil
  rw [tokenize, ← squeeze_trim, hnil] at h
  cases h
  exact hts rfl

/-! ### Runs -/

/-- Tokens that are not for dice come to the same with any faces, and take none. -/
theorem on_evaluate_of_not_isChaining {out : List Token} (hout : ∀ t ∈ out, t.isChaining = false) {cap : Int}
    {s s' : Faces} {answer : List Operation × Operand} (h : (evaluate out cap).on s = (.ok answer, s'))
    (s₀ : Faces) : (evaluate out cap).on s₀ = (.ok answer, s₀) := by
  obtain ⟨x, rfl⟩ := exists_tree_of_evaluate h
  rw [Tree.evaluate_postorder] at h ⊢
  exact (x.still_eval hout cap).on_of_ok h s₀

theorem Operand.toDecimal_ok_iff {o : Operand} (ho : o.kind.isPlain = true) {x : Float} :
    o.toDecimal = .ok x ↔ o.toValue = .ok (.decimal x) := by
  constructor
  · intro h
    obtain ⟨v, hv, h⟩ := ok_of_bind h
    obtain ⟨y, rfl⟩ := exists_decimal_of_isPlain ho hv
    cases h
    exact hv
  · intro h
    rw [toDecimal, h]
    rfl

/-! ### The calculator -/

namespace Calculator

/-- The text is read as a formula, and has some tokens, but none for dice. -/
def Reads (text : String) : Prop :=
  ∃ ts, tokenize .dice text = .ok ts ∧ ts ≠ [] ∧ ∀ t ∈ ts, t.isForDice = false

variable {text : String} {v : Float}

theorem evaluate_ok_iff :
    evaluate text = .ok v ↔ ∃ ts out log o s, tokenize .math text = .ok ts ∧ ts ≠ [] ∧ toPostfix ts = .ok out ∧
      (Tabletop.evaluate out maxGenerations).on (.ofList []) = (.ok (log, o), s) ∧ o.toDecimal = .ok v := by
  constructor
  · intro h
    obtain ⟨ts, hts, h⟩ := ok_of_bind h
    dsimp only at h
    split at h
    · cases h
    · rename_i hne
      obtain ⟨out, hout, h⟩ := ok_of_bind h
      obtain ⟨⟨log, o⟩, hrun, h⟩ := ok_of_bind h
      exact ⟨ts, out, log, o, _, hts, mt List.isEmpty_iff.2 hne, hout, Prod.ext hrun rfl, h⟩
  · rintro ⟨ts, out, log, o, s, hts, hne, hout, hrun, hv⟩
    simp only [evaluate, hts]
    change (if ts.isEmpty = true then _ else _) = _
    rw [if_neg (mt List.isEmpty_iff.1 hne), hout]
    change (do let answer ← ((Tabletop.evaluate out maxGenerations).on (.ofList [])).1; answer.2.toDecimal) = _
    rw [hrun]
    exact hv

variable {Owner : Type} {order : Order Owner} {r : Roll Owner} {s s' : Faces}

theorem reads_of_evaluate (h : evaluate text = .ok v) : Reads text := by
  obtain ⟨ts, out, log, o, s, hts, hne, -⟩ := evaluate_ok_iff.1 h
  obtain ⟨hts, hnone⟩ := tokenize_math_iff.1 hts
  exact ⟨ts, hts, hne, hnone⟩

theorem roll_of_evaluate (h : evaluate order.command = .ok v) (s : Faces) :
    ∃ r, order.roll.on s = (.ok r, s) ∧ r.result = .decimal v := by
  obtain ⟨ts, out, log, o, s', hts, hne, hout, hrun, hv⟩ := evaluate_ok_iff.1 h
  have hplain : ∀ t ∈ out, t.isChaining = false := fun t ht =>
    not_isChaining_of_tokenize hts t (subset_of_toPostfix hout ht)
  have hvalue : o.toValue = .ok (.decimal v) := (Operand.toDecimal_ok_iff (isPlain_of_evaluate hplain _ hrun)).1 hv
  obtain ⟨hts, -⟩ := tokenize_math_iff.1 hts
  have htext : (evaluateText order.command maxGenerations).on s = (.ok (log, o), s) := by
    obtain ⟨x, rfl⟩ := exists_tree_of_evaluate hrun
    rw [evaluateText_of_postorder hts hout, ← Tree.evaluate_postorder]
    exact on_evaluate_of_not_isChaining hplain hrun s
  exact ⟨_, Order.roll_of_evaluateText (trim_ne_nil_of_tokenize hts hne) htext hvalue, rfl⟩

theorem evaluate_of_roll (hreads : Reads order.command) (h : order.roll.on s = (.ok r, s')) :
    ∃ v, evaluate order.command = .ok v ∧ r.result = .decimal v := by
  obtain ⟨ts, hts, hne, hnone⟩ := hreads
  obtain ⟨-, log, o, hrun, hvalue⟩ := Order.roll_ok h
  obtain ⟨ts', x, hts', hout, hx⟩ := evaluateText_ok hrun
  obtain rfl := Except.ok.inj (hts.symm.trans hts')
  have hplain : ∀ t ∈ x.postorder Constant.token, t.isChaining = false := fun t ht =>
    Token.not_isChaining_of_isForDice (hnone t (subset_of_toPostfix hout ht))
  rw [← Tree.evaluate_postorder] at hx
  have ho := isPlain_of_evaluate hplain _ hx
  obtain ⟨v, hv⟩ := Operand.exists_decimal_of_isPlain ho hvalue
  rw [hv] at hvalue
  exact ⟨v, evaluate_ok_iff.2 ⟨ts, _, log, o, _, tokenize_math_iff.2 ⟨hts, hnone⟩, hne, hout,
    on_evaluate_of_not_isChaining hplain hx _, (Operand.toDecimal_ok_iff ho).2 hvalue⟩, hv⟩

theorem unknownSymbol_of_evaluate {ts : List Token} (h : tokenize .dice text = .ok ts)
    (hdice : ∃ t ∈ ts, t.isForDice = true) : ∃ s, evaluate text = .error (.unknownSymbol s) := by
  obtain ⟨s, hs⟩ := unknownSymbol_of_tokenize h hdice
  refine ⟨s, ?_⟩
  rw [evaluate, hs]
  rfl

/-- The calculator gives a value exactly where the text is read without anything for dice and its roll comes
to something; that is then the value, and the roll takes no face whatever faces there are. It does not know
what is for dice. -/
theorem evaluate_iff_roll (order : Order Owner) :
    (∀ v s, evaluate order.command = .ok v ↔
      Reads order.command ∧ ∃ r, order.roll.on s = (.ok r, s) ∧ r.result = .decimal v) ∧
    (∀ r s s', Reads order.command → order.roll.on s = (.ok r, s') → ∃ v, evaluate order.command = .ok v) ∧
    ∀ ts, tokenize .dice order.command = .ok ts → (∃ t ∈ ts, t.isForDice = true) →
      ∃ what, evaluate order.command = .error (.unknownSymbol what) := by
  refine ⟨fun v s => ⟨fun h => ⟨reads_of_evaluate h, roll_of_evaluate h s⟩, ?_⟩, fun r s s' hreads hroll => ?_,
    fun ts hts hdice => unknownSymbol_of_evaluate hts hdice⟩
  · rintro ⟨hreads, r, hroll, hr⟩
    obtain ⟨w, hw, hresult⟩ := evaluate_of_roll hreads hroll
    rw [hr] at hresult
    cases hresult
    exact hw
  · obtain ⟨v, hv, -⟩ := evaluate_of_roll hreads hroll
    exact ⟨v, hv⟩

/-- A product with a sign and a bracket, and a text with a die. -/
theorem evaluate_iff_roll_product :
    let order : Order Nat := ⟨"-(3 - 1) * 2.5", "", 7⟩
    let dice : Order Nat := ⟨"2 + d6", "", 7⟩
    (∃ v r, evaluate order.command = .ok v ∧ order.roll.on (.ofList []) = (.ok r, .ofList []) ∧ r.result = .decimal v) ∧
      ∃ what, evaluate dice.command = .error (.unknownSymbol what) := by
  intro order dice
  have hvalue : (evaluate order.command).toOption.isSome = true := by decide
  obtain ⟨v, hv⟩ := Option.isSome_iff_exists.1 hvalue
  have hv := eq_ok_of_toOption hv
  obtain ⟨-, r, hroll, hr⟩ := ((evaluate_iff_roll order).1 v (.ofList [])).1 hv
  have htokens : tokenize .dice "2 + d6" = .ok [.argument (.single 2), .binary .plus, .argument (.single 1),
      .dice, .argument (.single 6)] := rfl
  exact ⟨⟨v, r, hv, hroll, hr⟩, (evaluate_iff_roll dice).2.2 _ htokens ⟨.dice, by simp, rfl⟩⟩

end Calculator

end Tabletop
