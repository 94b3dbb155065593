import Tabletop.Proofs.FiniteDoubles
import Tabletop.Proofs.Refusals
import Tabletop.Proofs.Weights

/-!
# How heavy operands become

The operands of an operation are ready for it if they are sound and their shapes may be asked for. What
the operation leaves is ready again, and heavier than they were by `growth` at most.
-/

namespace Tabletop

open Rolling

/-! ### Operands -/

namespace Throw

def weight (t : Throw) : Nat := t.pool.weight + t.value.weight

theorem natAbs_successes_le (t : Throw) : t.successes.natAbs ≤ t.value.weight := by
  cases t with
  | counted c arg pool base => exact Nat.le_refl _
  | rolled pool => exact Nat.zero_le _
  | changed op arg change => exact Nat.zero_le _
  | read kind pool => exact Nat.zero_le _

end Throw

namespace Operand

def weight : Operand → Nat
  | argument _ => 0
  | number v _ => v.weight
  | thrown t => t.weight

/-- The operand is sound, and its dice were rolled in shapes that may be asked for. -/
structure Ready (o : Operand) : Prop where
  sound : o.Sound
  asked : ∀ p ∈ o.pools, p.Asked

variable {l r o : Operand} {v : Value} {p : Pool}

theorem weight_of_toValue (h : o.toValue = .ok v) : v.weight ≤ o.weight := by
  cases o with
  | argument a =>
    obtain ⟨n, -, h⟩ := ok_of_bind h
    exact Nat.le_of_eq (Value.weight_of_ofFloat h)
  | number w written =>
    cases h
    exact Nat.le_refl _
  | thrown t =>
    cases h
    exact Nat.le_add_left _ _

theorem weight_of_toPool (h : o.toPool = .ok p) : p.weight + o.successes.natAbs ≤ o.weight := by
  cases o with
  | thrown t =>
    cases h
    exact Nat.add_le_add_left t.natAbs_successes_le _
  | _ => cases h

theorem toPool_of_rawPool? (h : o.rawPool? = some p) : o.toPool = .ok p := by
  unfold rawPool? at h
  split at h
  · split at h <;> cases h
    rfl
  · cases h

theorem Ready.asked_of_toPool (ho : o.Ready) (h : o.toPool = .ok p) : p.Asked := by
  cases o with
  | thrown t =>
    cases h
    exact ho.asked _ List.mem_cons_self
  | _ => cases h

theorem ready_argument {a : Argument} (h : a.Bounded) : (argument a).Ready := by
  refine ⟨⟨?_, List.forall_mem_nil _⟩, List.forall_mem_nil _⟩
  rintro _ ⟨⟩
  exact h

theorem ready_number (v : Value) (written : String) : (number v written).Ready := by
  refine ⟨⟨?_, List.forall_mem_nil _⟩, List.forall_mem_nil _⟩
  rintro _ ⟨⟩

/-- A count that is not too large is a double, and so is its opposite. -/
theorem tame_of_weight {E : Error → Bool} {k : Nat} (h : o.weight < 2 ^ k) (hk : k ≤ 400) : o.Tame E := by
  have hcount {n : Int} (hn : n.natAbs < 2 ^ k) : Refuses E (Value.doubleOfCount n) := by
    obtain ⟨x, hx⟩ := Option.isSome_iff_exists.1 (Number.ofInt?_isSome hn hk)
    rw [Value.doubleOfCount, hx]
    exact .ok x
  intro v hv
  have hweight := Nat.lt_of_le_of_lt (weight_of_toValue hv) h
  cases v with
  | decimal x => trivial
  | successes n => exact ⟨hcount hweight, hcount (by rwa [Int.natAbs_neg])⟩
  | genesys t => trivial

end Operand

/-! ### Counting -/

theorem natAbs_sum_le {ns : List Int} {b : Nat} (h : ∀ n ∈ ns, n.natAbs ≤ b) : (sum ns).natAbs ≤ ns.length * b := by
  induction ns with
  | nil => exact Nat.zero_le _
  | cons n ns ih =>
    obtain ⟨hn, hns⟩ := List.forall_mem_cons.1 h
    have := ih hns
    have := Int.natAbs_add_le n (sum ns)
    rw [sum_cons, List.length_cons, Nat.succ_mul]
    omega

namespace Conversion

variable {arg : Argument}

theorem natAbs_score_le (c : Conversion) (ha : arg.Bounded) (d : Die) : (c.score arg d).natAbs ≤ maxArgument := by
  have hentry {ns : List Nat} (hns : ∀ n ∈ ns, n ≤ maxArgument) (i : Nat) :
      ((ns.map Int.ofNat).getD i 0).natAbs ≤ maxArgument := by
    rw [List.getD_eq_getElem?_getD]
    cases h : (ns.map Int.ofNat)[i]? with
    | none => exact Nat.zero_le _
    | some m =>
      obtain ⟨n, hn, rfl⟩ := List.mem_map.1 (List.mem_of_getElem? h)
      exact hns n hn
  cases arg with
  | single n => cases c <;> unfold score <;> dsimp only <;> split <;> decide
  | list ns =>
    cases c with
    | target =>
      unfold score Die.successes
      dsimp only
      split
      · decide
      · exact hentry ha _
    | botch =>
      unfold score Die.botches
      dsimp only
      split
      · decide
      · exact hentry ha _

theorem natAbs_count_le (c : Conversion) {p : Pool} (hp : p.Sound) (ha : arg.Bounded) :
    (c.count p arg).value.natAbs ≤ growth := by
  have hsum : (sum (p.dice.map (c.score arg))).natAbs ≤ p.dice.length * maxArgument := by
    have hscores : ∀ n ∈ p.dice.map (c.score arg), n.natAbs ≤ maxArgument := by
      intro n hn
      obtain ⟨d, -, rfl⟩ := List.mem_map.1 hn
      exact c.natAbs_score_le ha d
    rw [← List.length_map (c.score arg)]
    exact natAbs_sum_le hscores
  have hsign : c.sign.natAbs = 1 := by cases c <;> rfl
  have hsize : p.dice.length * maxArgument ≤ maxPoolSize * maxArgument := Nat.mul_le_mul_right _ hp.size
  change (c.sign * sum (p.dice.map (c.score arg))).natAbs ≤ growth
  rw [Int.natAbs_mul, hsign, Nat.one_mul, growth, Nat.mul_comm]
  exact Nat.le_trans hsum hsize

end Conversion

/-! ### Operations -/

/-- The argument that is shown beside the operation. -/
def Operation.argument? : Operation → Option Argument
  | thrown (.changed _ arg _) | thrown (.counted _ arg _ _) => some arg
  | _ => none

/-- The operation leaves a ready operand and shows sound dice, and nothing of it is heavier than `n`. -/
structure Operation.Within (n : Nat) (op : Operation) : Prop where
  sound : op.Sound
  weight : op.operand.weight ≤ n
  asked : ∀ p ∈ op.pools, p.Asked
  shown : ∀ d ∈ op.shown, d.weight ≤ n
  argument : ∀ a, op.argument? = some a → a.Bounded

namespace Operation.Within

variable {op : Operation} {n : Nat}

theorem ready (h : op.Within n) : op.operand.Ready :=
  ⟨h.sound.operand, fun p hp => h.asked p (by cases op <;> exact hp)⟩

theorem of_value (hsound : op.Sound) {v : Value} (hop : op.operand = .ofValue v) (hv : v.weight ≤ n)
    (hpools : op.pools = []) (hshown : op.shown = []) (harg : op.argument? = none) : op.Within n :=
  ⟨hsound, by rw [hop]; exact hv, by simp [hpools], by simp [hshown], by simp [harg]⟩

theorem of_pool (hsound : op.Sound) {p : Pool} (hweight : op.operand.weight ≤ n) (hpools : op.pools = [p])
    (hp : p.Asked) (hshown : op.shown = []) (harg : ∀ a, op.argument? = some a → a.Bounded) : op.Within n :=
  ⟨hsound, hweight, by simpa [hpools] using hp, by simp [hshown], harg⟩

end Operation.Within

theorem Unary.apply_within (u : Unary) {o : Operand} (ho : o.Ready) :
    (u.apply o).Yields (Operation.Within (o.weight + growth)) := by
  intro s op s' h
  have hsound := u.sound_of_apply ho.sound h
  cases u with
  | negate =>
    obtain ⟨x, y, hx, hy, rfl⟩ := Operand.negated_ok (on_liftM_ok h).1
    have hweight := Nat.le_trans (Value.weight_of_negate hy) (Operand.weight_of_toValue hx)
    exact .of_value hsound rfl (Nat.le_add_right_of_le hweight) rfl rfl rfl
  | function f =>
    obtain ⟨v, x, -, -, -, rfl⟩ := Operand.applied_ok (on_liftM_ok h).1
    exact .of_value hsound rfl (Nat.zero_le _) rfl rfl rfl
  | genesys k =>
    obtain ⟨p, hp, rfl⟩ := Operand.read_ok (on_liftM_ok h).1
    have hpool := Operand.weight_of_toPool hp
    have htally := k.weight_tally_le (ho.sound.toPool hp)
    have hweight : p.weight + (k.tally p).weight ≤ o.weight + growth := by omega
    exact .of_pool hsound hweight rfl (ho.asked_of_toPool hp) rfl nofun

section Binary

variable {l r : Operand} {op : Operation}

theorem Operand.within_of_combined {o : Operator} (hsound : op.Sound) (hl : l.Ready) (hr : r.Ready)
    (h : l.combined o r = .ok op) : op.Within (l.weight + r.weight + growth) := by
  rcases Operand.combined_ok h with ⟨x, y, z, hx, hy, hz, rfl⟩ | ⟨p, q, pool, -, hp, hq, hpool, rfl⟩
  · have hweight : z.weight ≤ x.weight + y.weight := by
      rcases hz with hz | hz | ⟨w, hz⟩
      · exact Value.weight_of_add hz
      · exact Value.weight_of_subtract hz
      · exact Value.weight_of_ofFloat hz ▸ Nat.zero_le _
    have hx := Operand.weight_of_toValue hx
    have hy := Operand.weight_of_toValue hy
    exact .of_value hsound rfl (by omega) rfl rfl rfl
  · have hp := Operand.toPool_of_rawPool? hp
    have hq := Operand.toPool_of_rawPool? hq
    obtain ⟨hasked, hweight⟩ := Pool.merge_within hpool (hl.asked_of_toPool hp) (hr.asked_of_toPool hq)
    have hp := Operand.weight_of_toPool hp
    have hq := Operand.weight_of_toPool hq
    have hone : 1 ≤ growth := by decide
    have hpool : pool.weight + 0 ≤ l.weight + r.weight + growth := by omega
    exact .of_pool hsound hpool rfl hasked rfl nofun

/-- A pool operator leaves the pool as it was asked for, and adds no more than an operation may. -/
theorem Operand.within_of_changed {q : PoolOperator} {cap : Int} {s s' : Faces} (hsound : op.Sound) (hl : l.Ready)
    (hr : r.Ready) (h : (l.changed q cap r).on s = (.ok op, s')) : op.Within (l.weight + r.weight + growth) := by
  obtain ⟨pool, arg, change, hpool, harg, hchange, rfl⟩ := Operand.changed_ok h
  have hwithin := q.mode.apply_within (hl.sound.toPool hpool) arg cap hchange
  have hp := Operand.weight_of_toPool hpool
  have hsize : maxPoolSize ≤ growth := by decide
  have hchanged : change.Within pool (l.weight + r.weight + growth) := hwithin.mono (by omega)
  refine ⟨hsound, ?_, ?_, fun d hd => ?_, ?_⟩
  · exact hchanged.pool
  · refine List.forall_mem_singleton.2 ?_
    change ∀ s ∈ change.pool.shapes, _
    rw [hchanged.shapes]
    exact hl.asked_of_toPool hpool
  · obtain ⟨e, he, rfl⟩ := List.mem_map.1 hd
    exact hchanged.shown e he
  · rintro _ ⟨⟩
    exact hr.sound.toArgument harg

theorem Binary.apply_within (b : Binary) (hl : l.Ready) (hr : r.Ready) (cap : Int) :
    (b.apply cap l r).Yields (Operation.Within (l.weight + r.weight + growth)) := by
  intro s op s' h
  have hsound := b.sound_of_apply hl.sound hr.sound h
  cases b with
  | operator o => exact Operand.within_of_combined hsound hl hr (on_liftM_ok h).1
  | dice =>
    obtain ⟨counts, sides, pool, hcounts, hsides, hpool, rfl⟩ := Operand.rolled_ok h
    obtain ⟨hasked, hweight⟩ :=
      Pool.roll_within (hl.sound.toArgument hcounts) (hr.sound.toArgument hsides) hpool
    have hone : 1 ≤ growth := by decide
    have hpool : pool.weight + 0 ≤ l.weight + r.weight + growth := by omega
    exact .of_pool hsound hpool rfl hasked rfl nofun
  | pool q => exact Operand.within_of_changed hsound hl hr h
  | conversion c =>
    obtain ⟨arg, p, harg, hp, rfl⟩ := Operand.counted_ok (on_liftM_ok h).1
    have hpool := Operand.weight_of_toPool hp
    have hcount := c.natAbs_count_le (hl.sound.toPool hp) (hr.sound.toArgument harg)
    have hadd := Int.natAbs_add_le l.successes (c.count p arg).value
    have hweight : p.weight + (l.successes + (c.count p arg).value).natAbs ≤ l.weight + r.weight + growth := by omega
    refine .of_pool hsound hweight rfl (hl.asked_of_toPool hp) rfl ?_
    rintro _ ⟨⟩
    exact hr.sound.toArgument harg

end Binary

/-! ### The machine -/

namespace Machine

/-- The operands on the stack are ready, and not heavier together than `n`. -/
structure Within (n : Nat) (m : Machine) : Prop where
  ready : ∀ o ∈ m.stack, o.Ready
  weight : (m.stack.map Operand.weight).sum ≤ n

variable {m : Machine} {n : Nat}

theorem Within.weight_le (hm : m.Within n) {o : Operand} (ho : o ∈ m.stack) : o.weight ≤ n :=
  Nat.le_trans (List.single_le_sum (fun _ _ => Nat.zero_le _) _ (List.mem_map_of_mem ho)) hm.weight

theorem within_empty : Within 0 {} := ⟨List.forall_mem_nil _, Nat.le_refl 0⟩

theorem Within.push (hm : m.Within n) {o : Operand} (ho : o.Ready) (hweight : o.weight = 0) : (m.push o).Within n :=
  ⟨List.forall_mem_cons.2 ⟨ho, hm.ready⟩, by simpa [Machine.push, hweight] using hm.weight⟩

/-- A step adds to the weight of the stack what its operation adds. -/
theorem Within.step (hm : m.Within n) {t : Token} (ht : t.Bounded) (cap : Int) :
    (Machine.step cap m t).Yields (Within (n + growth)) := by
  intro s m' s' h
  have hready {o : Operand} (ho : o ∈ m.stack) : o.Ready := hm.ready o ho
  have hweight := hm.weight
  rcases step_ok h with ⟨c, rfl, rfl, -⟩ | ⟨u, o, stack, op, rfl, hstack, hop, rfl⟩ |
    ⟨b, l, r, stack, op, rfl, hstack, hop, rfl⟩
  · have hpushed : (m.push c.operand).Within n := by
      cases c with
      | argument a => exact hm.push (Operand.ready_argument (ht a rfl)) rfl
      | number x written => exact hm.push (Operand.ready_number _ _) rfl
    exact ⟨hpushed.ready, Nat.le_add_right_of_le hpushed.weight⟩
  · rw [hstack] at hready hweight
    have hwithin := u.apply_within (hready List.mem_cons_self) hop
    refine ⟨List.forall_mem_cons.2 ⟨hwithin.ready, fun o ho => hready (List.mem_cons_of_mem _ ho)⟩, ?_⟩
    have := hwithin.weight
    rw [List.map_cons, List.sum_cons] at hweight ⊢
    omega
  · rw [hstack] at hready hweight
    have hr := hready List.mem_cons_self
    have hl := hready (List.mem_cons_of_mem _ List.mem_cons_self)
    have hwithin := b.apply_within hl hr cap hop
    refine ⟨List.forall_mem_cons.2 ⟨hwithin.ready, fun o ho => ?_⟩, ?_⟩
    · exact hready (List.mem_cons_of_mem _ (List.mem_cons_of_mem _ ho))
    · have := hwithin.weight
      rw [List.map_cons, List.map_cons, List.sum_cons, List.sum_cons] at hweight
      rw [List.map_cons, List.sum_cons]
      omega

/-- The steps of a run add up. -/
theorem run_within {ts : List Token} (hts : ∀ t ∈ ts, t.Bounded) (cap : Int) :
    (ts.foldlM (Machine.step cap) {}).Yields (Within (growth * ts.length)) := by
  have hrun := Yields.foldlM_of_suffix (f := Machine.step cap) (l := ts) (b := {})
    (I := fun us m => us ⊆ ts ∧ ∃ n, m.Within n ∧ n + growth * us.length ≤ growth * ts.length)
    ⟨List.Subset.refl ts, 0, within_empty, Nat.le_of_eq (Nat.zero_add _)⟩ fun t us m ⟨hsub, n, hm, hn⟩ => ?_
  · exact hrun.mono fun m ⟨_, n, hm, hn⟩ => ⟨hm.ready, Nat.le_trans hm.weight (Nat.le_trans (Nat.le_add_right _ _) hn)⟩
  · rw [List.length_cons, Nat.mul_succ] at hn
    refine (hm.step (hts t (hsub List.mem_cons_self)) cap).mono fun m' hm' => ⟨?_, n + growth, hm', by omega⟩
    exact List.Subset.trans (List.subset_cons_self t us) hsub

end Machine

end Tabletop
