import Mathlib.Data.List.Forall2
import Tabletop.Proofs.Basic

/-!
# What a computation yields

`Yields m P` says that whatever `m` answers has the property `P`, with any faces. It says nothing of
a computation that fails.
-/

namespace Tabletop

theorem forall_mem_of_forall₂ {α β : Type} {R : α → β → Prop} {P : β → Prop} {as : List α} {bs : List β}
    (h : List.Forall₂ R as bs) (hP : ∀ a b, R a b → P b) : ∀ b ∈ bs, P b := by
  induction h with
  | nil => exact List.forall_mem_nil _
  | cons hab _ ih => exact List.forall_mem_cons.2 ⟨hP _ _ hab, ih⟩

theorem map_eq_map_of_forall₂ {α β γ : Type} {f : α → γ} {g : β → γ} {as : List α} {bs : List β}
    (h : List.Forall₂ (fun a b => g b = f a) as bs) : bs.map g = as.map f := by
  induction h with
  | nil => rfl
  | cons hab _ ih => rw [List.map_cons, List.map_cons, hab, ih]

namespace Rolling

variable {α β : Type} {P : α → Prop} {Q : β → Prop} {m : Rolling α}

def Yields (m : Rolling α) (P : α → Prop) : Prop := ∀ ⦃s a s'⦄, m.on s = (.ok a, s') → P a

namespace Yields

theorem mono {P' : α → Prop} (h : m.Yields P) (hP : ∀ a, P a → P' a) : m.Yields P' :=
  fun _ a _ hm => hP a (h hm)

theorem any (m : Rolling α) : m.Yields fun _ => True := fun _ _ _ _ => trivial

protected theorem pure {a : α} (h : P a) : Yields (pure a) P := by
  intro s b s' hb
  obtain ⟨rfl, -⟩ := on_pure_ok hb
  exact h

protected theorem throw (e : Error) : Yields (throw e : Rolling α) P :=
  fun _ _ _ h => (on_throw_ok h).elim

protected theorem liftM {r : Except Error α} (h : ∀ a, r = .ok a → P a) :
    Yields (liftM r : Rolling α) P :=
  fun _ a _ hr => h a (on_liftM_ok hr).1

protected theorem bind {f : α → Rolling β} (hm : m.Yields P) (hf : ∀ a, P a → (f a).Yields Q) :
    (m >>= f).Yields Q := by
  intro s b s' h
  obtain ⟨a, s₁, ha, hb⟩ := on_bind_ok h
  exact hf a (hm ha) hb

/-- What a computation yields can be told from what is made of it. -/
theorem of_map {f : α → β} (h : (f <$> m).Yields Q) : m.Yields fun a => Q (f a) := by
  intro s a s' ha
  have hon : (f <$> m).on s = (.ok (f a), s') := by
    rw [map_eq_pure_bind, on_bind, ha]
    rfl
  exact h hon

/-- Each member of a list yields what stands at its place. -/
theorem mapM_forall₂ {R : α → β → Prop} {f : α → Rolling β} {l : List α} (h : ∀ a ∈ l, (f a).Yields (R a)) :
    (l.mapM f).Yields (List.Forall₂ R l) := by
  induction l with
  | nil => exact .pure .nil
  | cons a l ih =>
    obtain ⟨ha, hl⟩ := List.forall_mem_cons.1 h
    rw [List.mapM_cons]
    exact ha.bind fun b hb => (ih hl).bind fun bs hbs => .pure (.cons hb hbs)

protected theorem mapM {f : α → Rolling β} {l : List α} (h : ∀ a ∈ l, (f a).Yields Q) :
    (l.mapM f).Yields fun bs => ∀ b ∈ bs, Q b :=
  (mapM_forall₂ h).mono fun _ hbs => forall_mem_of_forall₂ hbs fun _ _ hb => hb

theorem length_mapM (f : α → Rolling β) (l : List α) :
    (l.mapM f).Yields fun bs => bs.length = l.length :=
  (mapM_forall₂ fun a _ => any (f a)).mono fun _ hbs => hbs.length_eq.symm

/-- What one member of a list yields is among what the list yields. -/
protected theorem mapM_mem {f : α → Rolling β} {l : List α} {a : α} (ha : a ∈ l)
    (h : (f a).Yields Q) : (l.mapM f).Yields fun bs => ∃ b ∈ bs, Q b := by
  induction l with
  | nil => cases ha
  | cons a' l ih =>
    rw [List.mapM_cons]
    rcases List.mem_cons.1 ha with rfl | ha
    · refine h.bind fun b hb => (any _).bind fun bs _ => .pure ⟨b, List.mem_cons_self, hb⟩
    · refine (any _).bind fun b' _ => (ih ha).bind fun bs hbs => ?_
      obtain ⟨b, hb, hQ⟩ := hbs
      exact .pure ⟨b, List.mem_cons_of_mem _ hb, hQ⟩

/-- A property of the list to come and of the answer so far holds at the end if every step keeps it. -/
theorem foldlM_of_suffix {I : List α → β → Prop} {f : β → α → Rolling β} {l : List α} {b : β} (hb : I l b)
    (h : ∀ a l b, I (a :: l) b → (f b a).Yields (I l)) : (l.foldlM f b).Yields (I []) := by
  induction l generalizing b with
  | nil => exact .pure hb
  | cons a l ih =>
    rw [List.foldlM_cons]
    exact (h a l b hb).bind fun b' hb' => ih hb'

/-- A property that every step keeps holds after any steps. -/
protected theorem foldlM {f : β → α → Rolling β} {l : List α} {b : β} (hb : Q b)
    (h : ∀ b, Q b → ∀ a ∈ l, (f b a).Yields Q) : (l.foldlM f b).Yields Q := by
  have hrun := foldlM_of_suffix (I := fun l' b => l' ⊆ l ∧ Q b) (f := f) ⟨List.Subset.refl l, hb⟩
    fun a l' b hI => (h b hI.2 a (hI.1 List.mem_cons_self)).mono fun _ hb' =>
      ⟨fun _ ha => hI.1 (List.mem_cons_of_mem _ ha), hb'⟩
  exact hrun.mono fun _ hb => hb.2

end Yields

/-- What follows a computation need only agree on what it can yield. -/
theorem bind_congr_of_yields {f g : α → Rolling β} (hm : m.Yields P) (h : ∀ a, P a → f a = g a) :
    m >>= f = m >>= g := by
  have hon (s : Faces) : (m >>= f).on s = (m >>= g).on s := by
    rw [on_bind, on_bind]
    rcases hrun : m.on s with ⟨e | a, s'⟩
    · rfl
    · change (f a).on s' = (g a).on s'
      rw [h a (hm hrun)]
  exact funext hon

end Rolling

end Tabletop
