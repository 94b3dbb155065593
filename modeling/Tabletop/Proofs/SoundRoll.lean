import Tabletop.Proofs.Bounded
import Tabletop.Proofs.SoundPool
import Tabletop.Proofs.StackRun

/-!
# Rolls hold sound dice

On the stack of the machine every argument is bounded and every pool is sound, and so is every pool
in the log: what every operation keeps holds of whole runs (`evaluate_holds`). So all dice of a roll
are sound, whatever was rolled, kept, exploded or rolled again, in any order.
-/

namespace Tabletop

open Rolling

/-! ### Operations -/

namespace Operand

def pools : Operand → List Pool
  | thrown t => [t.pool]
  | _ => []

structure Sound (o : Operand) : Prop where
  bounded : ∀ a, o = .argument a → a.Bounded
  pools : ∀ p ∈ o.pools, p.Sound

variable {o : Operand}

theorem Sound.toPool (h : o.Sound) {p : Pool} (hp : o.toPool = .ok p) : p.Sound := by
  cases o with
  | thrown t =>
    cases hp
    exact h.pools _ List.mem_cons_self
  | _ => cases hp

theorem Sound.rawPool? (h : o.Sound) {p : Pool} (hp : o.rawPool? = some p) : p.Sound := by
  unfold Operand.rawPool? at hp
  split at hp
  · split at hp
    · cases hp
      exact h.pools _ List.mem_cons_self
    · cases hp
  · cases hp

theorem Sound.toArgument (h : o.Sound) {a : Argument} (ha : o.toArgument = .ok a) : a.Bounded := by
  unfold Operand.toArgument at ha
  split at ha
  · cases ha
    exact h.bounded _ rfl
  · obtain ⟨x, -, ha⟩ := ok_of_bind ha
    exact Argument.bounded_of_ofScalar ha

end Operand

namespace Operation

/-- The pool that an operation left, or that it counted or read. -/
def pools : Operation → List Pool
  | merged pool => [pool]
  | thrown t => [t.pool]
  | _ => []

/-- The dice that are shown beside a change. -/
def shown : Operation → List Die
  | thrown (.changed _ _ change) => change.breakdown.map Entry.die
  | _ => []

structure Sound (op : Operation) : Prop where
  pools : ∀ p ∈ op.pools, p.Sound
  shown : ∀ d ∈ op.shown, d.Sound

variable {op : Operation}

theorem Sound.operand (h : op.Sound) : op.operand.Sound := by
  refine ⟨fun a ha => ?_, fun p hp => h.pools p ?_⟩
  · cases op <;> cases ha
  · cases op <;> exact hp

theorem sound_of_pools (hshown : op.shown = []) (h : ∀ p ∈ op.pools, p.Sound) : op.Sound :=
  ⟨h, by simp [hshown]⟩

theorem sound_changed {q : PoolOperator} {arg : Argument} {c : Change} (h : c.Sound) :
    (thrown (.changed q arg c)).Sound := by
  refine ⟨List.forall_mem_singleton.2 h.pool, fun d hd => ?_⟩
  obtain ⟨e, he, rfl⟩ := List.mem_map.1 hd
  exact h.shown e he

end Operation

theorem Unary.sound_of_apply {u : Unary} {o : Operand} {s s' : Faces} {op : Operation} (ho : o.Sound)
    (h : (u.apply o).on s = (.ok op, s')) : op.Sound := by
  cases u with
  | negate =>
    obtain ⟨x, y, -, -, rfl⟩ := Operand.negated_ok (on_liftM_ok h).1
    exact Operation.sound_of_pools rfl (List.forall_mem_nil _)
  | function f =>
    obtain ⟨v, x, -, -, -, rfl⟩ := Operand.applied_ok (on_liftM_ok h).1
    exact Operation.sound_of_pools rfl (List.forall_mem_nil _)
  | genesys k =>
    obtain ⟨p, hp, rfl⟩ := Operand.read_ok (on_liftM_ok h).1
    exact Operation.sound_of_pools rfl (List.forall_mem_singleton.2 (ho.toPool hp))

theorem Binary.sound_of_apply {cap : Int} {b : Binary} {l r : Operand} {s s' : Faces}
    {op : Operation} (hl : l.Sound) (hr : r.Sound) (h : (b.apply cap l r).on s = (.ok op, s')) :
    op.Sound := by
  cases b with
  | operator o =>
    rcases Operand.combined_ok (on_liftM_ok h).1 with
      ⟨x, y, z, -, -, -, rfl⟩ | ⟨p, q, pool, -, hp, hq, hpool, rfl⟩
    · exact Operation.sound_of_pools rfl (List.forall_mem_nil _)
    · have hmerged := (hl.rawPool? hp).merge (hr.rawPool? hq) hpool
      exact Operation.sound_of_pools rfl (List.forall_mem_singleton.2 hmerged)
  | dice =>
    obtain ⟨counts, sides, pool, -, hsides, hpool, rfl⟩ := Operand.rolled_ok h
    exact Operation.sound_of_pools rfl
      (List.forall_mem_singleton.2 (Pool.roll_yields (hr.toArgument hsides) hpool))
  | pool q =>
    obtain ⟨pool, arg, change, hpool, -, hchange, rfl⟩ := Operand.changed_ok h
    exact Operation.sound_changed (q.mode.apply_yields (hl.toPool hpool) arg cap hchange)
  | conversion c =>
    obtain ⟨arg, p, -, hp, rfl⟩ := Operand.counted_ok (on_liftM_ok h).1
    exact Operation.sound_of_pools rfl (List.forall_mem_singleton.2 (hl.toPool hp))

/-! ### Runs -/

namespace Machine

variable {P : Operand → Prop} {Q : Operation → Prop} {m : Machine} {cap : Int}

/-- The operands on the stack have one property, and the operations in the log another one. -/
structure Holds (P : Operand → Prop) (Q : Operation → Prop) (m : Machine) : Prop where
  stack : ∀ o ∈ m.stack, P o
  log : ∀ op ∈ m.log, Q op

/-- An operation on such operands has its property, and what it leaves is such an operand again. -/
structure Keeps (P : Operand → Prop) (Q : Operation → Prop) (cap : Int) : Prop where
  operand : ∀ {op : Operation}, Q op → P op.operand
  unary : ∀ (u : Unary) {o : Operand}, P o → (u.apply o).Yields Q
  binary : ∀ (b : Binary) {l r : Operand}, P l → P r → (b.apply cap l r).Yields Q

/-- What an operation leaves in the place of its operands. -/
theorem Holds.ran (hm : m.Holds P Q) (hkeeps : Keeps P Q cap) {op : Operation} (hop : Q op) {stack : List Operand}
    (hstack : ∀ o ∈ stack, o ∈ m.stack) : Holds P Q ⟨op.operand :: stack, m.log ++ [op]⟩ := by
  refine ⟨List.forall_mem_cons.2 ⟨hkeeps.operand hop, fun o ho => hm.stack o (hstack o ho)⟩, ?_⟩
  exact List.forall_mem_append.2 ⟨hm.log, List.forall_mem_singleton.2 hop⟩

theorem Holds.step (hm : m.Holds P Q) (hkeeps : Keeps P Q cap) {t : Token}
    (ht : ∀ c : Constant, t = c.token → P c.operand) : (step cap m t).Yields (Holds P Q) := by
  intro s m' s' h
  rcases step_ok h with ⟨c, rfl, rfl, -⟩ | ⟨u, o, stack, op, rfl, hstack, hop, rfl⟩ |
    ⟨b, l, r, stack, op, rfl, hstack, hop, rfl⟩
  · exact ⟨List.forall_mem_cons.2 ⟨ht c rfl, hm.stack⟩, hm.log⟩
  · have ho := hm.stack o (hstack ▸ List.mem_cons_self)
    exact hm.ran hkeeps (hkeeps.unary u ho hop) fun _ h => hstack ▸ List.mem_cons_of_mem _ h
  · have hr := hm.stack r (hstack ▸ List.mem_cons_self)
    have hl := hm.stack l (hstack ▸ List.mem_cons_of_mem _ List.mem_cons_self)
    exact hm.ran hkeeps (hkeeps.binary b hl hr hop) fun _ h =>
      hstack ▸ List.mem_cons_of_mem _ (List.mem_cons_of_mem _ h)

/-- What every operation keeps holds after any tokens. -/
theorem holds_of_run (hkeeps : Keeps P Q cap) {ts : List Token}
    (hts : ∀ t ∈ ts, ∀ c : Constant, t = c.token → P c.operand) :
    (ts.foldlM (Machine.step cap) {}).Yields (Holds P Q) :=
  .foldlM ⟨List.forall_mem_nil _, List.forall_mem_nil _⟩ fun _ hm t ht => hm.step hkeeps (hts t ht)

end Machine

theorem evaluate_holds {P : Operand → Prop} {Q : Operation → Prop} {cap : Int} (hkeeps : Machine.Keeps P Q cap)
    {ts : List Token} (hts : ∀ t ∈ ts, ∀ c : Constant, t = c.token → P c.operand) :
    (evaluate ts cap).Yields fun (log, o) => (∀ op ∈ log, Q op) ∧ P o := by
  refine (Machine.holds_of_run hkeeps hts).bind fun m hm => ?_
  split
  · rename_i o hstack
    exact .pure ⟨hm.log, hm.stack o (hstack ▸ List.mem_cons_self)⟩
  · exact .throw _

theorem keeps_sound (cap : Int) : Machine.Keeps Operand.Sound Operation.Sound cap where
  operand := Operation.Sound.operand
  unary := fun u _ ho _ _ _ h => u.sound_of_apply ho h
  binary := fun b _ _ hl hr _ _ _ h => b.sound_of_apply hl hr h

theorem Constant.sound {c : Constant} (h : c.token.Bounded) : c.operand.Sound := by
  cases c with
  | argument a =>
    refine ⟨?_, List.forall_mem_nil _⟩
    rintro _ ⟨⟩
    exact h a rfl
  | number x written =>
    refine ⟨?_, List.forall_mem_nil _⟩
    rintro _ ⟨⟩

theorem evaluate_yields {ts : List Token} (hts : ∀ t ∈ ts, t.Bounded) (cap : Int) :
    (evaluate ts cap).Yields fun (log, o) => (∀ op ∈ log, op.Sound) ∧ o.Sound :=
  evaluate_holds (keeps_sound cap) fun t ht _ hc => Constant.sound (hc ▸ hts t ht)

theorem evaluateText_yields (formula : String) (cap : Int) :
    (evaluateText formula cap).Yields fun (log, o) => (∀ op ∈ log, op.Sound) ∧ o.Sound := by
  refine Yields.bind (.liftM fun ts hts => bounded_of_tokenize hts) fun ts hts => ?_
  refine Yields.bind (.liftM fun out hout t ht => hts t (subset_of_toPostfix hout ht)) fun out hout => ?_
  exact evaluate_yields hout cap

/-- All pools of a roll: those in its log, and the one that is left. -/
def poolsOf (log : List Operation) (o : Operand) : List Pool := log.flatMap Operation.pools ++ o.pools

def diceOf (log : List Operation) (o : Operand) : List Die :=
  (poolsOf log o).flatMap Pool.dice ++ log.flatMap Operation.shown

/-- Whatever a formula rolls, no pool is too large, and every die is well made: it shows faces that
it has, a compound die their sum, and a die without sides is plain and shows 0. -/
theorem dice_of_evaluateText {formula : String} {cap : Int} {s s' : Faces} {log : List Operation}
    {o : Operand} (h : (evaluateText formula cap).on s = (.ok (log, o), s')) :
    (∀ p ∈ poolsOf log o, p.size ≤ maxPoolSize) ∧
      ∀ d ∈ diceOf log o, d.sides ≤ maxArgument ∧ d.Valid ∧ (d.sides = 0 → d = .plain 0 0) ∧
        d.result = sum d.parts := by
  obtain ⟨hlog, ho⟩ := evaluateText_yields formula cap h
  have hpools : ∀ p ∈ poolsOf log o, p.Sound := by
    refine List.forall_mem_append.2 ⟨fun p hp => ?_, ho.pools⟩
    obtain ⟨op, hop, hp⟩ := List.mem_flatMap.1 hp
    exact (hlog op hop).pools p hp
  have hdice : ∀ d ∈ diceOf log o, d.Sound := by
    refine List.forall_mem_append.2 ⟨fun d hd => ?_, fun d hd => ?_⟩
    · obtain ⟨p, hp, hd⟩ := List.mem_flatMap.1 hd
      exact (hpools p hp).dice d hd
    · obtain ⟨op, hop, hd⟩ := List.mem_flatMap.1 hd
      exact (hlog op hop).shown d hd
  refine ⟨fun p hp => (hpools p hp).size, fun d hd => ?_⟩
  have hsound := hdice d hd
  exact ⟨hsound.sides_le, hsound.valid, hsound.valid.eq_of_sides, d.result_eq_sum⟩

theorem dice_of_evaluateText_reroll :
    ∃ log o s', (evaluateText "(2d6&d0)ro6" 100).on (Faces.ofList [6, 3, 5]) = (.ok (log, o), s') ∧
      o.pools.map Pool.dice = [[.plain 6 5, .plain 6 3, .plain 0 0]] ∧
      ∀ d ∈ diceOf log o, d.Valid := by
  have hrun : ((evaluateText "(2d6&d0)ro6" 100).on (Faces.ofList [6, 3, 5])).1.toOption.map
      (fun x => x.2.pools.map Pool.dice) = some [[.plain 6 5, .plain 6 3, .plain 0 0]] := by
    decide
  obtain ⟨⟨log, o⟩, hok, hdice⟩ := Option.map_eq_some_iff.1 hrun
  cases h : (evaluateText "(2d6&d0)ro6" 100).on (Faces.ofList [6, 3, 5]) with
  | mk r s' =>
    rw [h] at hok
    cases r with
    | error e => cases hok
    | ok x =>
      cases hok
      exact ⟨log, o, s', rfl, hdice, fun d hd => ((dice_of_evaluateText h).2 d hd).2.1⟩

end Tabletop
