import Tabletop.Calculator
import Tabletop.Proofs.ChainRun
import Tabletop.Proofs.Failures
import Tabletop.Proofs.Foretold

/-!
# Runs without dice

The calculator refuses the operators on dice, so that its tokens are numbers, brackets, functions and
the operators on values. Such tokens make plain operands of plain ones: lists and decimals, but neither
counts nor tallies. So nothing the calculator does fails for want of faces or of a large enough double
(`Calculator.refuses_evaluate`).
-/

namespace Tabletop

open Rolling

/-! ### Plain operands -/

/-- What the operand is worth, if anything, is a decimal. -/
def Operand.Kind.isPlain (k : Operand.Kind) : Bool := k.value?.all (· = .decimal)

namespace Operand.Kind

variable {k l k' : Operand.Kind}

theorem isPlain_of_unary {u : Unary} (hu : u.token.isChaining = false) (hk : k.isPlain = true)
    (h : u.kind? k = some k') : k'.isPlain = true := by
  cases u with
  | negate =>
    cases k with
    | list n => cases h
    | number v | dice v => cases v <;> cases h <;> first | rfl | cases hk
  | function f =>
    cases k with
    | list n => cases h
    | number v | dice v => cases v <;> cases h <;> rfl
  | genesys k => cases hu

theorem isPlain_of_joined {f : Value.Kind → Value.Kind → Option Value.Kind}
    (hf : f .decimal .decimal = some .decimal) (hk : k.isPlain = true) (hl : l.isPlain = true)
    (h : joined? f k l = some k') : k'.isPlain = true := by
  obtain ⟨v, hv, h⟩ := Option.bind_eq_some_iff.1 h
  obtain ⟨w, hw, h⟩ := Option.bind_eq_some_iff.1 h
  rw [isPlain, hv] at hk
  rw [isPlain, hw] at hl
  obtain rfl : v = .decimal := of_decide_eq_true hk
  obtain rfl : w = .decimal := of_decide_eq_true hl
  rw [hf] at h
  cases h
  rfl

theorem isPlain_of_combined {op : Operator} (hk : k.isPlain = true) (hl : l.isPlain = true)
    (h : k.combined? op l = some k') : k'.isPlain = true := by
  unfold combined? at h
  split at h
  · split at h
    · cases h
      rfl
    · exact isPlain_of_joined rfl hk hl h
  · exact isPlain_of_joined rfl hk hl h
  · exact isPlain_of_joined rfl hk hl h
  · obtain ⟨v, -, h⟩ := Option.bind_eq_some_iff.1 h
    obtain ⟨_, -, h⟩ := Option.bind_eq_some_iff.1 h
    obtain ⟨w, -, h⟩ := Option.bind_eq_some_iff.1 h
    obtain ⟨_, -, h⟩ := Option.bind_eq_some_iff.1 h
    cases h
    rfl

end Operand.Kind

theorem Operand.exists_decimal_of_isPlain {o : Operand} (h : o.kind.isPlain = true) {v : Value}
    (hv : o.toValue = .ok v) : ∃ x, v = .decimal x := by
  have hkind := o.foretells_toValue
  rw [hv] at hkind
  have hvalue : o.kind.value? = some v.kind := hkind
  rw [Kind.isPlain, hvalue] at h
  cases v with
  | decimal x => exact ⟨x, rfl⟩
  | _ => cases h

theorem Operand.tame_of_isPlain {E : Error → Bool} {o : Operand} (h : o.kind.isPlain = true) : o.Tame E := by
  intro v hv
  obtain ⟨x, rfl⟩ := exists_decimal_of_isPlain h hv
  trivial

/-! ### Runs -/

/-- No dice are to come, and none were counted or read. -/
structure Machine.Plain (ts : List Token) (m : Machine) : Prop where
  tokens : ∀ t ∈ ts, t.isChaining = false
  stack : ∀ o ∈ m.stack, o.kind.isPlain = true

namespace Machine.Plain

variable {cap : Int} {t : Token} {ts : List Token} {m : Machine}

theorem step (hm : Plain (t :: ts) m) : (m.step cap t).Yields (Plain ts) := by
  obtain ⟨ht, hts⟩ := List.forall_mem_cons.1 hm.tokens
  intro s m' s' h
  have hpush {o : Operand} {stack : List Operand} {log : List Operation} (ho : o.kind.isPlain = true)
      (hstack : ∀ o ∈ stack, o ∈ m.stack) : Plain ts ⟨o :: stack, log⟩ :=
    ⟨hts, List.forall_mem_cons.2 ⟨ho, fun o h => hm.stack o (hstack o h)⟩⟩
  rcases step_ok h with ⟨c, rfl, rfl, -⟩ | ⟨u, o, stack, op, rfl, hstack, hop, rfl⟩ |
    ⟨b, l, r, stack, op, rfl, hstack, hop, rfl⟩
  · refine hpush ?_ fun o ho => ho
    cases c with
    | argument a => cases a <;> rfl
    | number x written => rfl
  · have ho := hm.stack o (hstack ▸ List.mem_cons_self)
    have hkind := u.foretold_apply o s
    rw [hop] at hkind
    exact hpush (Operand.Kind.isPlain_of_unary ht ho hkind) fun _ h => hstack ▸ List.mem_cons_of_mem _ h
  · have hr := hm.stack r (hstack ▸ List.mem_cons_self)
    have hl := hm.stack l (hstack ▸ List.mem_cons_of_mem _ List.mem_cons_self)
    have hkind := b.foretold_apply cap l r s
    rw [hop] at hkind
    cases b with
    | operator op =>
      exact hpush (Operand.Kind.isPlain_of_combined hl hr hkind) fun _ h =>
        hstack ▸ List.mem_cons_of_mem _ (List.mem_cons_of_mem _ h)
    | _ => cases ht

theorem start (hts : ∀ t ∈ ts, t.isChaining = false) : Plain ts {} := ⟨hts, List.forall_mem_nil _⟩

end Machine.Plain

theorem isPlain_of_evaluate {ts : List Token} (hts : ∀ t ∈ ts, t.isChaining = false) (cap : Int) :
    (evaluate ts cap).Yields fun (_, o) => o.kind.isPlain = true := by
  refine (Yields.foldlM_of_suffix (Machine.Plain.start hts) fun t ts m hm => hm.step).bind fun m hm => ?_
  split
  · rename_i o hstack
    exact .pure (hm.stack o (hstack ▸ List.mem_cons_self))
  · exact .throw _

/-! ### The calculator -/

theorem not_isForDice_of_tokensOf {bare : Bool} {ls : List Lexeme} {ts : List Token}
    (h : tokensOf .math bare ls = .ok ts) : ∀ l ∈ ls, l.isForDice = false := by
  intro l hl
  obtain ⟨_, now, hnow⟩ := exists_tokens_of_tokensOf h l hl
  unfold Lexeme.tokens at hnow
  split at hnow
  · cases hnow
  · rename_i hmath
    simpa using hmath

theorem not_isChaining_of_tokenize {text : String} {ts : List Token} (h : tokenize .math text = .ok ts) :
    ∀ t ∈ ts, t.isChaining = false :=
  Shorthand.not_isChaining_of_tokensOf (not_isForDice_of_tokensOf h) h

/-- Once the text is read, the calculator fails only for the formula and its numbers. -/
theorem Calculator.refuses_evaluate {E : Error → Bool} (hE : Error.OfRun E)
    (hbrackets : ∀ e, e.isOfBrackets = true → E e = true) (hempty : E .nothingToCalculate = true) {text : String}
    (htext : Refuses E (tokenize .math text)) : Refuses E (Calculator.evaluate text) := by
  unfold Calculator.evaluate
  refine htext.bind_of_ok fun ts hts => ?_
  dsimp only
  split
  · exact .error hempty
  · refine ((refuses_toPostfix ts).mono hbrackets).bind_of_ok fun out hout => ?_
    have hplain : ∀ t ∈ out, t.isChaining = false := fun t ht =>
      not_isChaining_of_tokenize hts t (subset_of_toPostfix hout ht)
    have hrun : (Tabletop.evaluate out maxGenerations).FailsOnly (E · = true) :=
      failsOnly_evaluate hE (I := Machine.Plain) (fun _ _ hm o ho => Operand.tame_of_isPlain (hm.stack o ho))
        (fun _ _ _ hm => hm.step) (.start hplain) (isForMachine_of_toPostfix hout)
        fun t ht hchain => by rw [hplain t ht] at hchain; cases hchain
    rcases hon : (Tabletop.evaluate out maxGenerations).on (Faces.ofList []) with ⟨e | ⟨log, o⟩, s⟩
    · exact .error (hrun hon)
    · exact Operand.refuses_toDecimal hE.reckoning (Operand.tame_of_isPlain (isPlain_of_evaluate hplain _ hon))

end Tabletop
