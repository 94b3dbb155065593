import Tabletop.Proofs.Yields

/-!
# What a computation fails with

`FailsOnly m E` says that whatever `m` fails with has the property `E`, with any faces. It says
nothing of the answers of `m`, which `Yields` is for.
-/

namespace Tabletop.Rolling

variable {α β : Type} {E : Error → Prop} {m : Rolling α}

def FailsOnly (m : Rolling α) (E : Error → Prop) : Prop := ∀ ⦃s e s'⦄, m.on s = (.error e, s') → E e

namespace FailsOnly

protected theorem pure (a : α) : FailsOnly (pure a) E := by
  intro s e s' h
  rw [on_pure] at h
  cases h

protected theorem throw {e : Error} (he : E e) : FailsOnly (throw e : Rolling α) E := by
  intro s e' s' h
  rw [on_throw] at h
  cases h
  exact he

protected theorem liftM {r : Except Error α} (hr : ∀ e, r = .error e → E e) :
    FailsOnly (liftM r : Rolling α) E := by
  intro s e s' h
  rw [on_liftM] at h
  exact hr e (Prod.mk.inj h).1

/-- Either the first part fails, or the rest does on what the first part yields. -/
protected theorem bind {P : α → Prop} {f : α → Rolling β} (hm : m.FailsOnly E) (hP : m.Yields P)
    (hf : ∀ a, P a → (f a).FailsOnly E) : (m >>= f).FailsOnly E := by
  intro s e s' h
  rw [on_bind] at h
  split at h
  · rename_i a s₁ ha
    exact hf a (hP ha) h
  · rename_i e' s₁ he
    cases h
    exact hm he

/-- If the rest fails as it may on any answer, there is nothing to know about the answers. -/
theorem andThen {f : α → Rolling β} (hm : m.FailsOnly E) (hf : ∀ a, (f a).FailsOnly E) :
    (m >>= f).FailsOnly E :=
  hm.bind (.any m) fun a _ => hf a

/-- A property of the list to come and of the answer so far, which every step keeps, tells how a step
may fail. -/
protected theorem foldlM {I : List α → β → Prop} {f : β → α → Rolling β} {l : List α} {b : β} (hb : I l b)
    (hfail : ∀ a l b, I (a :: l) b → (f b a).FailsOnly E)
    (hstep : ∀ a l b, I (a :: l) b → (f b a).Yields (I l)) : (l.foldlM f b).FailsOnly E := by
  induction l generalizing b with
  | nil => exact .pure b
  | cons a l ih =>
    rw [List.foldlM_cons]
    exact (hfail a l b hb).bind (hstep a l b hb) fun b' hb' => ih hb'

theorem draw (hE : ∀ n, E (.outOfFaces n)) : FailsOnly draw E := by
  rintro ⟨_ | ⟨face, rest⟩, n⟩ e s' h
  · rw [on_draw_nil] at h
    cases h
    exact hE n
  · rw [on_draw_cons] at h
    cases h

end FailsOnly

end Tabletop.Rolling
