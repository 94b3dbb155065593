import Tabletop.Operator.PoolOperator
import Tabletop.Proofs.Yields

/-!
# How pools change, and what their loops keep

A change is made of a pool if it keeps its shapes, is not too large, and all its dice have a property
(`Change.Made`); this hangs on the dice that are kept, lined up or put in place alone. An explosion
and a chase go by generations: what every generation keeps holds at the end (`settle_yields_of`,
`chase_yields_of`), so that nothing else needs an induction on the generations that are left.
-/

namespace Tabletop

open Rolling

/-- The change keeps the shapes of the pool, and all dice in it and in its breakdown have the property. -/
structure Change.Made (p : Pool) (Q : Die → Prop) (c : Change) : Prop where
  shapes : c.pool.shapes = p.shapes
  size : c.pool.size ≤ maxPoolSize
  dice : ∀ d ∈ c.pool.dice, Q d
  shown : ∀ e ∈ c.breakdown, Q e.die

namespace Pool

variable {p : Pool} {ds : List Die} {shapes : List Shape} {c : Change} {faces : List Int} {cap : Int}

/-! ### Making a pool -/

theorem checkSize_ok_iff {n : Nat} : checkSize n = .ok () ↔ n ≤ maxPoolSize := by
  rw [checkSize]
  split <;> simp [*]

theorem ofDice_ok_iff : ofDice ds shapes = .ok p ↔ ds.length ≤ maxPoolSize ∧ p = ⟨ds, shapes⟩ := by
  rw [ofDice, ← checkSize_ok_iff]
  constructor
  · intro h
    obtain ⟨⟨⟩, hsize, h⟩ := ok_of_bind h
    exact ⟨hsize, (Except.ok.inj h).symm⟩
  · rintro ⟨hsize, rfl⟩
    rw [hsize]
    rfl

theorem changeTo_eq (p : Pool) (ds : List Die) (b : Breakdown) :
    p.changeTo ds b =
      if ds.length ≤ maxPoolSize then .ok ⟨⟨ds, p.shapes⟩, b⟩ else .error (.poolTooLarge ds.length) := by
  rw [changeTo, withDice, ofDice, checkSize]
  split <;> rfl

theorem changeTo_ok (p : Pool) {ds : List Die} (h : ds.length ≤ maxPoolSize) (b : Breakdown) :
    p.changeTo ds b = .ok ⟨⟨ds, p.shapes⟩, b⟩ :=
  (p.changeTo_eq ds b).trans (if_pos h)

theorem changeTo_ok_iff {b : Breakdown} :
    p.changeTo ds b = .ok c ↔ ds.length ≤ maxPoolSize ∧ c = ⟨⟨ds, p.shapes⟩, b⟩ := by
  rw [changeTo_eq]
  split
  · rw [Except.ok.injEq, eq_comm, and_iff_right ‹_›]
  · constructor
    · intro h
      cases h
    · intro h
      exact absurd h.1 ‹_›

/-! ### The dice of a change -/

section

variable {Q : Die → Prop}

theorem made_of_changeTo {b : Breakdown} (hd : ∀ d ∈ ds, Q d) (hb : ∀ e ∈ b, Q e.die)
    (h : p.changeTo ds b = .ok c) : c.Made p Q := by
  obtain ⟨hsize, rfl⟩ := changeTo_ok_iff.1 h
  exact ⟨rfl, hsize, hd, hb⟩

theorem made_of_keep {chosen : List (Die × Nat)} (hp : ∀ d ∈ p.dice, Q d) (hc : ∀ x ∈ chosen, x.1 ∈ p.dice)
    (h : p.keep chosen = .ok c) : c.Made p Q := by
  refine made_of_changeTo (fun d hd => ?_) (fun e he => ?_) h
  · obtain ⟨x, hx, rfl⟩ := List.mem_map.1 hd
    exact hp _ (hc x hx)
  · obtain ⟨x, hx, rfl⟩ := List.mem_map.1 he
    exact hp _ (List.fst_mem_of_mem_zipIdx hx)

theorem Chain.forall_entries {k : Chain} (h : ∀ d ∈ k.dice, Q d) : ∀ e ∈ k.entries, Q e.die := by
  obtain ⟨hroot, hextras⟩ := List.forall_mem_cons.1 h
  exact List.forall_mem_cons.2 ⟨hroot, List.forall_mem_map.2 hextras⟩

theorem made_of_lineUp {cs : List Chain} (h : ∀ k ∈ cs, ∀ d ∈ k.dice, Q d) (hc : p.lineUp cs = .ok c) :
    c.Made p Q := by
  refine made_of_changeTo (fun d hd => ?_) (fun e he => ?_) hc
  · obtain ⟨k, hk, hd⟩ := List.mem_flatMap.1 hd
    exact h k hk d hd
  · obtain ⟨k, hk, he⟩ := List.mem_flatMap.1 he
    exact Chain.forall_entries (h k hk) e he

/-- The sums of the chains are shown as they are. -/
theorem made_of_sums {cs : List Chain} (h : ∀ k ∈ cs, Q k.sum)
    (hc : p.changeTo (cs.map Chain.sum) ((cs.map Chain.sum).map fun die => { die }) = .ok c) : c.Made p Q := by
  have hsums : ∀ d ∈ cs.map Chain.sum, Q d := List.forall_mem_map.2 h
  exact made_of_changeTo hsums (List.forall_mem_map.2 hsums) hc

theorem made_of_replaceAll {rs : List Replacement} (hd : ∀ r ∈ rs, Q r.die)
    (hb : ∀ r ∈ rs, ∀ e ∈ r.entries, Q e.die) (hc : p.replaceAll rs = .ok c) : c.Made p Q := by
  refine made_of_changeTo (List.forall_mem_map.2 hd) (fun e he => ?_) hc
  obtain ⟨r, hr, he⟩ := List.mem_flatMap.1 he
  exact hb r hr e he

end

/-! ### Generations -/

/-- What every generation keeps holds once the chains have settled, and then none of them is live. -/
theorem settle_yields_of {I : Nat → List Chain → Prop}
    (hgrow : ∀ size cs, I size cs → 0 < cs.countP (Chain.isLive faces) →
      size + cs.countP (Chain.isLive faces) ≤ maxPoolSize →
      (cs.mapM (Chain.grow faces)).Yields (I (size + cs.countP (Chain.isLive faces))))
    {left size : Nat} {cs : List Chain} (h : I size cs) :
    (settle faces cap left size cs).Yields fun cs' => (∃ size', I size' cs') ∧ ∀ k ∈ cs', k.isLive faces = false := by
  have hsettled {size : Nat} {cs : List Chain} (h : I size cs) (hlive : cs.countP (Chain.isLive faces) = 0) :
      (∃ size', I size' cs) ∧ ∀ k ∈ cs, k.isLive faces = false :=
    ⟨⟨size, h⟩, fun k hk => eq_false_of_ne_true (List.countP_eq_zero.1 hlive k hk)⟩
  induction left generalizing size cs with
  | zero =>
    unfold settle
    dsimp only
    split
    · exact .pure (hsettled h ‹_›)
    · exact .throw _
  | succ left ih =>
    unfold settle
    dsimp only
    split
    · exact .pure (hsettled h ‹_›)
    · rename_i hlive
      refine Yields.bind (.liftM fun _ hcheck => checkSize_ok_iff.1 hcheck) fun _ hsize => ?_
      exact (hgrow size cs h (Nat.pos_of_ne_zero hlive) hsize).bind fun cs₁ h₁ => ih h₁

/-- If `I` holds of every die that is rolled, and what is said of the rest of a chase tells what is said
of all of it, then that holds of the whole chase. -/
theorem chase_yields_of {I : Die → Prop} {R : Die → Replacement → Prop}
    (hlast : ∀ d again, I d → faces.contains d.face = false → R d ⟨d, [{ die := d, added := again }]⟩)
    (hroll : ∀ d, I d → faces.contains d.face = true → d.reroll.Yields fun new =>
      I new ∧ ∀ r, R new r → R d { r with entries := { die := d, dropped := true } :: r.entries })
    {left : Nat} {again : Bool} {d : Die} (h : I d) : (chase faces cap left again d).Yields (R d) := by
  induction left generalizing again d with
  | zero =>
    rw [chase]
    split
    · exact .throw _
    · exact .pure (hlast d again h (eq_false_of_ne_true ‹_›))
  | succ left ih =>
    rw [chase]
    split
    · exact (hroll d h ‹_›).bind fun new ⟨hnew, hrest⟩ => (ih hnew).bind fun r hr => .pure (hrest r hr)
    · exact .pure (hlast d again h (eq_false_of_ne_true ‹_›))

end Pool

end Tabletop
