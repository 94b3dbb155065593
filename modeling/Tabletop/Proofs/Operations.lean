import Tabletop.Evaluation
import Tabletop.Proofs.Basic

/-!
# What operations make

One lemma for each operation says what it took from its operands and what it made of it, if it did
not fail.
-/

namespace Tabletop.Operand

variable {o l r : Operand} {result : Operation} {s s' : Faces}

theorem negated_ok (h : o.negated = .ok result) :
    ∃ x y, o.toValue = .ok x ∧ x.negate = .ok y ∧ result = .negated x y := by
  obtain ⟨x, hx, h⟩ := ok_of_bind h
  obtain ⟨y, hy, h⟩ := ok_of_bind h
  exact ⟨x, y, hx, hy, (Except.ok.inj h).symm⟩

theorem applied_ok {f : MathFunction} (h : o.applied f = .ok result) :
    ∃ v x, o.toValue = .ok v ∧ v.toDecimal = .ok x ∧ (f.apply x).isFinite = true ∧
      result = .applied f v (.decimal (f.apply x)) := by
  obtain ⟨v, hv, h⟩ := ok_of_bind h
  obtain ⟨x, hx, h⟩ := ok_of_bind h
  dsimp only at h
  split at h
  · exact ⟨v, x, hv, hx, ‹_›, (Except.ok.inj h).symm⟩
  · cases h

theorem read_ok {k : Genesys.Kind} (h : o.read k = .ok result) :
    ∃ p, o.toPool = .ok p ∧ result = .thrown (.read k p) := by
  obtain ⟨p, hp, h⟩ := ok_of_bind h
  exact ⟨p, hp, (Except.ok.inj h).symm⟩

theorem counted_ok {c : Conversion} (h : l.counted c r = .ok result) :
    ∃ arg p, r.toArgument = .ok arg ∧ l.toPool = .ok p ∧
      result = .thrown (.counted c arg p l.successes) := by
  obtain ⟨arg, harg, h⟩ := ok_of_bind h
  obtain ⟨p, hp, h⟩ := ok_of_bind h
  exact ⟨arg, p, harg, hp, (Except.ok.inj h).symm⟩

theorem joined_ok {op : Operator} {f : Value → Value → Except Error Value}
    (h : joined op f l r = .ok result) :
    ∃ x y z, l.toValue = .ok x ∧ r.toValue = .ok y ∧ f x y = .ok z ∧ result = .combined op x y z := by
  obtain ⟨x, hx, h⟩ := ok_of_bind h
  obtain ⟨y, hy, h⟩ := ok_of_bind h
  obtain ⟨z, hz, h⟩ := ok_of_bind h
  exact ⟨x, y, z, hx, hy, hz, (Except.ok.inj h).symm⟩

theorem computed_ok {op : Operator} {a : Arithmetic} (h : computed op a l r = .ok result) :
    ∃ v w z x, l.toValue = .ok v ∧ r.toValue = .ok w ∧ Value.ofFloat x = .ok z ∧ result = .combined op v w z := by
  obtain ⟨v, hv, h⟩ := ok_of_bind h
  obtain ⟨x, -, h⟩ := ok_of_bind h
  obtain ⟨w, hw, h⟩ := ok_of_bind h
  obtain ⟨y, -, h⟩ := ok_of_bind h
  split at h
  · obtain ⟨z, hz, h⟩ := ok_of_bind h
    exact ⟨v, w, z, _, hv, hw, hz, (Except.ok.inj h).symm⟩
  · cases h

/-- Raw pools are merged; otherwise the values are combined, to a sum, a difference or a double. -/
theorem combined_ok {op : Operator} (h : l.combined op r = .ok result) :
    (∃ x y z, l.toValue = .ok x ∧ r.toValue = .ok y ∧
        (x.add y = .ok z ∨ x.subtract y = .ok z ∨ ∃ w, Value.ofFloat w = .ok z) ∧ result = .combined op x y z) ∨
      ∃ p q pool, op.action = .merge ∧ l.rawPool? = some p ∧ r.rawPool? = some q ∧
        p.merge q = .ok pool ∧ result = .merged pool := by
  unfold combined at h
  split at h
  · split at h
    · obtain ⟨pool, hpool, h⟩ := ok_of_bind h
      exact .inr ⟨_, _, pool, ‹_›, ‹_›, ‹_›, hpool, (Except.ok.inj h).symm⟩
    · obtain ⟨x, y, z, hx, hy, hz, hresult⟩ := joined_ok h
      exact .inl ⟨x, y, z, hx, hy, .inl hz, hresult⟩
  · obtain ⟨x, y, z, hx, hy, hz, hresult⟩ := joined_ok h
    exact .inl ⟨x, y, z, hx, hy, .inl hz, hresult⟩
  · obtain ⟨x, y, z, hx, hy, hz, hresult⟩ := joined_ok h
    exact .inl ⟨x, y, z, hx, hy, .inr (.inl hz), hresult⟩
  · obtain ⟨x, y, z, w, hx, hy, hz, hresult⟩ := computed_ok h
    exact .inl ⟨x, y, z, hx, hy, .inr (.inr ⟨w, hz⟩), hresult⟩

theorem rolled_ok (h : (l.rolled r).on s = (.ok result, s')) :
    ∃ counts sides pool, l.toArgument = .ok counts ∧ r.toArgument = .ok sides ∧
      (Pool.roll counts sides).on s = (.ok pool, s') ∧ result = .thrown (.rolled pool) := by
  obtain ⟨counts, hcounts, h⟩ := Rolling.on_liftM_bind_ok h
  obtain ⟨sides, hsides, h⟩ := Rolling.on_liftM_bind_ok h
  obtain ⟨pool, s₁, hpool, h⟩ := Rolling.on_bind_ok h
  obtain ⟨hresult, rfl⟩ := Rolling.on_pure_ok h
  exact ⟨counts, sides, pool, hcounts, hsides, hpool, hresult.symm⟩

theorem rolled_ok_iff {counts sides : Argument} (hl : l.toArgument = .ok counts) (hr : r.toArgument = .ok sides) :
    (l.rolled r).on s = (.ok result, s') ↔
      ∃ pool, (Pool.roll counts sides).on s = (.ok pool, s') ∧ result = .thrown (.rolled pool) := by
  constructor
  · intro h
    obtain ⟨ns, ss, pool, hns, hss, hpool, hresult⟩ := rolled_ok h
    cases hl.symm.trans hns
    cases hr.symm.trans hss
    exact ⟨pool, hpool, hresult⟩
  · rintro ⟨pool, hpool, rfl⟩
    rw [rolled, hl, hr]
    exact Rolling.on_bind_ok_iff.2 ⟨counts, s, rfl, Rolling.on_bind_ok_iff.2 ⟨sides, s, rfl,
      Rolling.on_bind_ok_iff.2 ⟨pool, s', hpool, rfl⟩⟩⟩

theorem changed_ok {op : PoolOperator} {cap : Int}
    (h : (l.changed op cap r).on s = (.ok result, s')) :
    ∃ pool arg change, l.toPool = .ok pool ∧ r.toArgument = .ok arg ∧
      (op.mode.apply pool arg cap).on s = (.ok change, s') ∧
      result = .thrown (.changed op arg change) := by
  obtain ⟨pool, hpool, h⟩ := Rolling.on_liftM_bind_ok h
  obtain ⟨arg, harg, h⟩ := Rolling.on_liftM_bind_ok h
  obtain ⟨change, s₁, hchange, h⟩ := Rolling.on_bind_ok h
  obtain ⟨hresult, rfl⟩ := Rolling.on_pure_ok h
  exact ⟨pool, arg, change, hpool, harg, hchange, hresult.symm⟩

end Tabletop.Operand
