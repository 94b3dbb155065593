import Tabletop.Faces
import Tabletop.Sum

/-!
# General lemmas

Facts about lists and about computations that may fail, used throughout.
-/

namespace Tabletop

/-- What is taken while a property holds stops where the next part does not have it. -/
theorem takeWhile_append_of_head {α : Type} {p : α → Bool} {w rest : List α}
    (hw : ∀ a ∈ w, p a = true) (hrest : ∀ a ∈ rest.head?, p a = false) :
    (w ++ rest).takeWhile p = w := by
  rw [List.takeWhile_append_of_pos hw, List.append_right_eq_self]
  cases rest with
  | nil => rfl
  | cons a rest => rw [List.takeWhile_cons_of_neg (by simp [hrest a rfl])]

/-- What is left after dropping while a property holds begins with an element that does not have it. -/
theorem head?_dropWhile {α : Type} (p : α → Bool) (l : List α) : ∀ a ∈ (l.dropWhile p).head?, p a = false := by
  intro a ha
  have := List.head?_dropWhile_not p l
  rw [Option.mem_def.1 ha] at this
  exact this

theorem dropWhile_eq_self {α : Type} {p : α → Bool} {l : List α} (h : ∀ a ∈ l.head?, p a = false) :
    l.dropWhile p = l := by
  cases l with
  | nil => rfl
  | cons a l => exact List.dropWhile_cons_of_neg (by simp [h a rfl])

theorem drop_length_takeWhile {α : Type} (p : α → Bool) (l : List α) :
    l.drop (l.takeWhile p).length = l.dropWhile p := by
  conv => lhs; arg 2; rw [← l.takeWhile_append_dropWhile (p := p)]
  exact List.drop_left

/-- What is taken while a property holds does not go past an element that does not have it. -/
theorem takeWhile_append_of_stop {α : Type} (p : α → Bool) {a : α} (ha : p a = false) (v u : List α) :
    (v ++ a :: u).takeWhile p = v.takeWhile p ∧
      (v ++ a :: u).drop (v.takeWhile p).length = v.drop (v.takeWhile p).length ++ a :: u := by
  refine ⟨?_, List.drop_append_of_le_length (List.takeWhile_prefix p).length_le⟩
  induction v with
  | nil => simp [ha]
  | cons b v ih =>
    by_cases hb : p b = true
    · simp only [List.cons_append, List.takeWhile_cons, hb, ↓reduceIte, ih]
    · simp [hb]

/-- A sum does not depend on the order of its terms. -/
theorem sum_of_perm {ns ms : List Int} (h : ns.Perm ms) : sum ns = sum ms := by
  induction h with
  | nil => rfl
  | cons n _ ih => rw [sum_cons, sum_cons, ih]
  | swap n m ns =>
    simp only [sum_cons]
    omega
  | trans _ _ ih ih' => exact ih.trans ih'

theorem eq_ok_of_toOption {ε α : Type} {r : Except ε α} {a : α} (h : r.toOption = some a) : r = .ok a := by
  cases r with
  | error e => cases h
  | ok b => rw [Option.some.inj h]

theorem ok_of_bind {α β : Type} {r : Except Error α} {f : α → Except Error β} {b : β}
    (h : r >>= f = .ok b) : ∃ a, r = .ok a ∧ f a = .ok b := by
  cases r with
  | error e => cases h
  | ok a => exact ⟨a, rfl, h⟩

/-- Either the first part fails, or the rest does on its answer. -/
theorem error_of_bind {α β : Type} {r : Except Error α} {f : α → Except Error β} {e : Error}
    (h : r >>= f = .error e) : r = .error e ∨ ∃ a, r = .ok a ∧ f a = .error e := by
  cases r with
  | error e' =>
    cases h
    exact .inl rfl
  | ok a => exact .inr ⟨a, rfl, h⟩

theorem forall_of_mapM {α β : Type} {f : α → Except Error β} {P : β → Prop} {l : List α} {bs : List β}
    (hf : ∀ a b, f a = .ok b → P b) (h : l.mapM f = .ok bs) : ∀ b ∈ bs, P b := by
  induction l generalizing bs with
  | nil =>
    cases h
    exact List.forall_mem_nil _
  | cons a l ih =>
    rw [List.mapM_cons] at h
    obtain ⟨b, hb, h⟩ := ok_of_bind h
    obtain ⟨bs', hbs, h⟩ := ok_of_bind h
    cases h
    exact List.forall_mem_cons.2 ⟨hf a b hb, ih hbs⟩

theorem mapM_ok {α β : Type} {f : α → Except Error β} {g : α → β} {l : List α} (h : ∀ a ∈ l, f a = .ok (g a)) :
    l.mapM f = .ok (l.map g) := by
  induction l with
  | nil => rfl
  | cons a l ih =>
    obtain ⟨ha, hl⟩ := List.forall_mem_cons.1 h
    rw [List.mapM_cons, ha, ih hl]
    rfl

/-- Steps of which each goes well on its own terms all go well just if those of each are met. -/
theorem foldlM_ok_iff {α σ : Type} {step : σ → α → Except Error σ} {P : α → Prop} {next : σ → α → σ} {l : List α}
    {s s' : σ} (h : ∀ a ∈ l, ∀ s s', step s a = .ok s' ↔ P a ∧ s' = next s a) :
    l.foldlM step s = .ok s' ↔ (∀ a ∈ l, P a) ∧ s' = l.foldl next s := by
  induction l generalizing s with
  | nil => exact ⟨fun h => ⟨List.forall_mem_nil _, (Except.ok.inj h).symm⟩, fun h => by rw [h.2]; rfl⟩
  | cons a l ih =>
    obtain ⟨ha, hl⟩ := List.forall_mem_cons.1 h
    rw [List.foldlM_cons, List.forall_mem_cons, List.foldl_cons, and_assoc, ← ih hl]
    constructor
    · intro hs
      obtain ⟨s₁, hstep, hs⟩ := ok_of_bind hs
      obtain ⟨hP, rfl⟩ := (ha s s₁).1 hstep
      exact ⟨hP, hs⟩
    · rintro ⟨hP, hs⟩
      rw [(ha s _).2 ⟨hP, rfl⟩]
      exact hs

theorem mapM_ok_self {α : Type} {f : α → Except Error α} {l : List α} (h : ∀ a ∈ l, f a = .ok a) :
    l.mapM f = .ok l := by
  have hmap := mapM_ok (g := id) h
  rwa [List.map_id] at hmap

namespace Rolling

variable {α β : Type}

theorem liftM_ok {r : Except Error α} {a : α} (h : r = .ok a) : (liftM r : Rolling α) = pure a := by
  rw [h]
  rfl

theorem on_bind_ok {m : Rolling α} {f : α → Rolling β} {s s'' : Faces} {b : β}
    (h : (m >>= f).on s = (.ok b, s'')) :
    ∃ a s', m.on s = (.ok a, s') ∧ (f a).on s' = (.ok b, s'') := by
  rw [on_bind] at h
  split at h
  · exact ⟨_, _, ‹_›, h⟩
  · cases h

theorem on_pure_ok {a b : α} {s s' : Faces} (h : (pure a : Rolling α).on s = (.ok b, s')) :
    a = b ∧ s = s' := by
  rw [on_pure] at h
  obtain ⟨ha, hs⟩ := Prod.mk.inj h
  exact ⟨Except.ok.inj ha, hs⟩

theorem on_liftM_ok {r : Except Error α} {b : α} {s s' : Faces}
    (h : (liftM r : Rolling α).on s = (.ok b, s')) : r = .ok b ∧ s = s' := by
  rw [on_liftM] at h
  exact Prod.mk.inj h

theorem on_liftM_bind_ok {r : Except Error α} {f : α → Rolling β} {s s' : Faces} {b : β}
    (h : (liftM r >>= f).on s = (.ok b, s')) : ∃ a, r = .ok a ∧ (f a).on s = (.ok b, s') := by
  obtain ⟨a, s₁, ha, hb⟩ := on_bind_ok h
  obtain ⟨hr, rfl⟩ := on_liftM_ok ha
  exact ⟨a, hr, hb⟩

theorem on_throw_ok {e : Error} {b : α} {s s' : Faces}
    (h : (throw e : Rolling α).on s = (.ok b, s')) : False := by
  rw [on_throw] at h
  cases h

/-- Evaluation on fixed faces tells that a computation succeeds, and what of its answer. -/
theorem exists_ok_of_toOption {m : Rolling α} {f : α → Option β} {s : Faces} {b : β}
    (h : (m.on s).1.toOption.bind f = some b) : ∃ a s', m.on s = (.ok a, s') ∧ f a = some b := by
  rcases hm : m.on s with ⟨e | a, s'⟩
  · rw [hm] at h
    cases h
  · rw [hm] at h
    exact ⟨a, s', rfl, h⟩

theorem on_bind_ok_iff {m : Rolling α} {f : α → Rolling β} {s s'' : Faces} {b : β} :
    (m >>= f).on s = (.ok b, s'') ↔
      ∃ a s', m.on s = (.ok a, s') ∧ (f a).on s' = (.ok b, s'') := by
  refine ⟨on_bind_ok, ?_⟩
  rintro ⟨a, s', ha, hb⟩
  rw [on_bind, ha]
  exact hb

theorem on_bind_pure_ok_iff {m : Rolling α} {f : α → β} {s s' : Faces} {b : β} :
    (do pure (f (← m)) : Rolling β).on s = (.ok b, s') ↔ ∃ a, m.on s = (.ok a, s') ∧ b = f a := by
  rw [on_bind_ok_iff]
  constructor
  · rintro ⟨a, s₁, ha, h⟩
    obtain ⟨rfl, rfl⟩ := on_pure_ok h
    exact ⟨a, ha, rfl⟩
  · rintro ⟨a, ha, rfl⟩
    exact ⟨a, s', ha, rfl⟩

theorem on_mapM_cons_ok_iff {f : α → Rolling β} {a : α} {l : List α} {s s' : Faces} {bs : List β} :
    ((a :: l).mapM f).on s = (.ok bs, s') ↔
      ∃ b s₁ bs', (f a).on s = (.ok b, s₁) ∧ (l.mapM f).on s₁ = (.ok bs', s') ∧ bs = b :: bs' := by
  rw [List.mapM_cons, on_bind_ok_iff]
  simp only [on_bind_pure_ok_iff, exists_and_left]

end Rolling

end Tabletop
