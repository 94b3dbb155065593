import Tabletop.Error

/-!
# Where the faces come from

Dice are rolled from a supply of faces. A roll takes faces one by one from its front, and those it
took stay taken when it fails.
-/

namespace Tabletop

/-- The faces still to come, and how many were taken before them. -/
structure Faces where
  coming : List Int
  used : Nat
deriving DecidableEq

namespace Faces

def ofList (faces : List Int) : Faces := ⟨faces, 0⟩

/-- How many faces are left. -/
def remaining (s : Faces) : Nat := s.coming.length

end Faces

section State

variable {ε σ α β : Type} {m : ExceptT ε (StateM σ) α} {s s' : σ}

theorem run_run_bind_of_ok {a : α} (h : StateT.run (ExceptT.run m) s = (.ok a, s'))
    (f : α → ExceptT ε (StateM σ) β) :
    StateT.run (ExceptT.run (m >>= f)) s = StateT.run (ExceptT.run (f a)) s' := by
  change StateT.run (ExceptT.run m >>= fun x => ExceptT.bindCont f x) s = _
  rw [StateT.run_bind, h]
  rfl

theorem run_run_bind_of_error {e : ε} (h : StateT.run (ExceptT.run m) s = (.error e, s'))
    (f : α → ExceptT ε (StateM σ) β) :
    StateT.run (ExceptT.run (m >>= f)) s = (.error e, s') := by
  change StateT.run (ExceptT.run m >>= fun x => ExceptT.bindCont f x) s = _
  rw [StateT.run_bind, h]
  rfl

end State

/-- A computation that takes faces and may fail. -/
abbrev Rolling := ExceptT Error (StateM Faces)

namespace Rolling

variable {α β : Type}

/-- The answer of a computation on a supply, and the supply it leaves. -/
def on (m : Rolling α) (s : Faces) : Except Error α × Faces := StateT.run (ExceptT.run m) s

/-- Takes the next face. -/
def draw : Rolling Int := do
  let s ← getThe Faces
  match s.coming with
  | [] => throw (.outOfFaces s.used)
  | face :: rest =>
    set (⟨rest, s.used + 1⟩ : Faces)
    pure face

@[simp] theorem on_pure (a : α) (s : Faces) : on (pure a) s = (.ok a, s) := rfl

@[simp] theorem on_throw (e : Error) (s : Faces) : on (throw e : Rolling α) s = (.error e, s) := rfl

@[simp] theorem on_draw_nil (n : Nat) : on draw ⟨[], n⟩ = (.error (.outOfFaces n), ⟨[], n⟩) := rfl

@[simp] theorem on_draw_cons (face : Int) (rest : List Int) (n : Nat) :
    on draw ⟨face :: rest, n⟩ = (.ok face, ⟨rest, n + 1⟩) := rfl

/-- A failure ends the computation; otherwise the rest goes on with the faces that are left. -/
theorem on_bind (m : Rolling α) (f : α → Rolling β) (s : Faces) :
    on (m >>= f) s =
      match on m s with
      | (.ok a, s') => on (f a) s'
      | (.error e, s') => (.error e, s') := by
  rcases h : on m s with ⟨e | a, s'⟩
  · exact run_run_bind_of_error h f
  · exact run_run_bind_of_ok h f

/-- A check that takes no face. -/
@[simp] theorem on_liftM (r : Except Error α) (s : Faces) : on (liftM r : Rolling α) s = (r, s) := by
  cases r <;> rfl

end Rolling

end Tabletop
