import Tabletop.Proofs.Bounded
import Tabletop.Proofs.Material
import Tabletop.Proofs.StackRun

/-!
# What a run of tokens fails with

A run of tokens in postfix order fails because operands are missing or left over, because operands
do not suit an operation (`Error.isOfReckoning`), or because of the dice (`Error.isOfDice`). What else
it might fail with hangs on the operands alone: a count may be no double. So an invariant of the
machine under which the operands are tame tells all failures of a run (`failsOnly_evaluate`).
-/

namespace Tabletop

open Rolling

variable {E : Error → Bool}

/-- All failures of a run are of the kind `E`, apart from those of the dice and of counts that are no
doubles. -/
structure Error.OfRun (E : Error → Bool) : Prop where
  reckoning : ∀ e, e.isOfReckoning = true → E e = true
  operand : ∀ s, E (.missingOperand s) = true
  input : ∀ s, E (.missingInput s) = true
  leftover : ∀ n, E (.leftover n) = true

/-! ### Operations -/

theorem Refuses.failsOnly {α : Type} {r : Except Error α} (h : Refuses E r) :
    (liftM r : Rolling α).FailsOnly (E · = true) := .liftM h

theorem Unary.failsOnly_apply (hE : ∀ e, e.isOfReckoning = true → E e = true) {o : Operand} (ho : o.Tame E)
    (u : Unary) : (u.apply o).FailsOnly (E · = true) := by
  cases u with
  | negate => exact (o.refuses_negated.mono hE).failsOnly
  | function f => exact (Operand.refuses_applied hE ho f).failsOnly
  | genesys k => exact ((o.refuses_read k).mono hE).failsOnly

section

variable (hE : ∀ e, e.isOfReckoning = true → E e = true) (hdice : ∀ e, e.isOfDice = true → E e = true)

include hE hdice

theorem Pool.failsOnly_roll_arguments (counts sides : Argument) :
    (Pool.roll counts sides).FailsOnly (E · = true) :=
  ((Pool.refuses_shapesOf counts sides).mono hE).failsOnly.andThen fun shapes =>
    (FailsOnly.compositional hdice).deal shapes

theorem PoolMode.failsOnly_apply (mode : PoolMode) (p : Pool) (arg : Argument) (cap : Int) :
    (mode.apply p arg cap).FailsOnly (E · = true) :=
  (FailsOnly.compositional hdice).apply p cap mode (arg.refuses_scalar.mono hE).failsOnly

end

theorem Binary.failsOnly_apply (hE : ∀ e, e.isOfReckoning = true → E e = true) {b : Binary}
    (hdice : b.token.isChaining = true → ∀ e, e.isOfDice = true → E e = true) {l r : Operand} (hl : l.Tame E)
    (hr : r.Tame E) (cap : Int) : (b.apply cap l r).FailsOnly (E · = true) := by
  have hargument {o : Operand} (ho : o.Tame E) : (liftM o.toArgument : Rolling Argument).FailsOnly (E · = true) :=
    (Operand.refuses_toArgument hE ho).failsOnly
  cases b with
  | operator op => exact (Operand.refuses_combined hE hl hr op).failsOnly
  | dice =>
    exact (hargument hl).andThen fun counts => (hargument hr).andThen fun sides =>
      (Pool.failsOnly_roll_arguments hE (hdice rfl) counts sides).andThen fun _ => .pure _
  | pool q =>
    exact ((l.refuses_toPool.mono hE).failsOnly).andThen fun p => (hargument hr).andThen fun arg =>
      (q.mode.failsOnly_apply hE (hdice rfl) p arg cap).andThen fun _ => .pure _
  | conversion c => exact (Operand.refuses_counted hE hr c).failsOnly

/-! ### Runs -/

namespace Machine

variable {m : Machine} {missing : Error}

theorem failsOnly_unary {f : Operand → Rolling Operation} (hmissing : E missing = true)
    (hf : ∀ o ∈ m.stack, (f o).FailsOnly (E · = true)) : (m.unary missing f).FailsOnly (E · = true) := by
  unfold unary
  split
  · rename_i o stack hstack
    exact (hf o (hstack ▸ List.mem_cons_self)).andThen fun _ => .pure _
  · exact .throw hmissing

theorem failsOnly_binary {f : Operand → Operand → Rolling Operation} (hmissing : E missing = true)
    (hf : ∀ l ∈ m.stack, ∀ r ∈ m.stack, (f l r).FailsOnly (E · = true)) :
    (m.binary missing f).FailsOnly (E · = true) := by
  unfold binary
  split
  · rename_i r l stack hstack
    have hr : r ∈ m.stack := hstack ▸ List.mem_cons_self
    have hl : l ∈ m.stack := hstack ▸ List.mem_cons_of_mem _ List.mem_cons_self
    exact (hf l hl r hr).andThen fun _ => .pure _
  · exact .throw hmissing

theorem failsOnly_step (hE : Error.OfRun E) {t : Token} (ht : t.isForMachine = true)
    (hdice : t.isChaining = true → ∀ e, e.isOfDice = true → E e = true) (hm : ∀ o ∈ m.stack, o.Tame E)
    (cap : Int) : (step cap m t).FailsOnly (E · = true) := by
  have hunary (u : Unary) {missing : Error} (hmissing : E missing = true) :
      (m.unary missing fun o => u.apply o).FailsOnly (E · = true) :=
    failsOnly_unary hmissing fun o ho => u.failsOnly_apply hE.reckoning (hm o ho)
  have hbinary (b : Binary) (hb : b.token = t) :
      (m.binary (.missingOperand t.text) fun l r => b.apply cap l r).FailsOnly (E · = true) :=
    failsOnly_binary (hE.operand _) fun l hl r hr =>
      Binary.failsOnly_apply hE.reckoning (hb ▸ hdice) (hm l hl) (hm r hr) cap
  cases t with
  | argument a => exact .pure _
  | number x written => exact .pure _
  | opening b => cases ht
  | closing b => cases ht
  | blank => cases ht
  | negate => exact hunary .negate (hE.operand _)
  | function f => exact hunary (.function f) (hE.input _)
  | genesys k => exact hunary (.genesys k) (hE.operand _)
  | binary op => exact hbinary (.operator op) rfl
  | dice => exact hbinary .dice rfl
  | pool q => exact hbinary (.pool q) rfl
  | conversion c => exact hbinary (.conversion c) rfl

end Machine

/-- A run fails as `E` tells if a property of the tokens to come and of the machine, kept by every step,
makes all operands tame. -/
theorem failsOnly_evaluate (hE : Error.OfRun E) {cap : Int} {I : List Token → Machine → Prop}
    (htame : ∀ ts m, I ts m → ∀ o ∈ m.stack, o.Tame E)
    (hstep : ∀ t ts m, I (t :: ts) m → (Machine.step cap m t).Yields (I ts)) {ts : List Token} (hstart : I ts {})
    (hts : ∀ t ∈ ts, t.isForMachine = true)
    (hdice : ∀ t ∈ ts, t.isChaining = true → ∀ e, e.isOfDice = true → E e = true) :
    (evaluate ts cap).FailsOnly (E · = true) := by
  have hrun : (ts.foldlM (Machine.step cap) {}).FailsOnly (E · = true) := by
    refine .foldlM (I := fun us m => us ⊆ ts ∧ I us m) ⟨List.Subset.refl ts, hstart⟩ (fun t us m hI => ?_)
      fun t us m hI => ?_
    · have ht : t ∈ ts := hI.1 List.mem_cons_self
      exact Machine.failsOnly_step hE (hts t ht) (hdice t ht) (htame _ _ hI.2) cap
    · exact (hstep t us m hI.2).mono fun m' hm' => ⟨List.Subset.trans (List.subset_cons_self t us) hI.1, hm'⟩
  refine hrun.andThen fun m => ?_
  split
  · exact .pure _
  · exact .throw (hE.leftover _)

end Tabletop
