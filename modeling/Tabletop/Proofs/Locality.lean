import Tabletop.Proofs.Dealing

/-!
# A roll depends on the faces it takes, and on no others

`Local m` says how `m` stands to its supply. Either it takes some faces off the front and ends, and
then it ends so whatever comes after them (`EndsAfter`), or it wants more faces than there are, and
then it takes as many at least from any longer supply (`RunsOut`). The property goes along with `do`
(`Local.bind`): a part that ends leaves the next one a supply of its own, and a part that runs out
is the end. All that rolls dice draws faces through `draw`, so everything here is local, up to the
run of a formula (`evaluateText_of_agreeing_faces`).
-/

namespace Tabletop

/-- The failure is no complaint about the supply of faces. -/
def Error.sparesFaces : Error → Bool
  | outOfFaces _ => false
  | _ => true

theorem Error.sparesFaces_of_isOfReckoning (e : Error) (h : e.isOfReckoning = true) : e.sparesFaces = true := by
  cases e <;> first | rfl | cases h

namespace Rolling

variable {α β : Type} {m : Rolling α} {f : α → Rolling β} {taken rest : List Int} {r : Except Error α}

/-- Exactly these faces are taken, and what comes after them does not matter. The answer is no
complaint about the supply. -/
structure EndsAfter (m : Rolling α) (taken : List Int) (r : Except Error α) : Prop where
  enough : ∀ n, r ≠ .error (.outOfFaces n)
  on_append : ∀ rest n, m.on ⟨taken ++ rest, n⟩ = (r, ⟨rest, n + taken.length⟩)

/-- The faces do not suffice, and no longer supply is used less. -/
structure RunsOut (m : Rolling α) (faces : List Int) : Prop where
  on_eq : ∀ n, m.on ⟨faces, n⟩ = (.error (.outOfFaces (n + faces.length)), ⟨[], n + faces.length⟩)
  le_used : ∀ more n, n + faces.length ≤ (m.on ⟨faces ++ more, n⟩).2.used

def Local (m : Rolling α) : Prop :=
  ∀ faces, (∃ taken rest r, faces = taken ++ rest ∧ m.EndsAfter taken r) ∨ m.RunsOut faces

/-! ### `do` -/

namespace EndsAfter

theorem bind {r' : Except Error β} {a : α} {more : List Int} (h : m.EndsAfter taken (.ok a))
    (hf : (f a).EndsAfter more r') : (m >>= f).EndsAfter (taken ++ more) r' := by
  refine ⟨hf.enough, fun rest n => ?_⟩
  rw [on_bind, List.append_assoc, h.on_append]
  dsimp only
  rw [hf.on_append, List.length_append, Nat.add_assoc]

theorem bind_error {e : Error} (h : m.EndsAfter taken (.error e)) :
    (m >>= f).EndsAfter taken (.error e) := by
  refine ⟨fun n he => h.enough n (congrArg Except.error (Except.error.inj he)), fun rest n => ?_⟩
  rw [on_bind, h.on_append]

/-- If the first part ends, the second one may run out. -/
theorem bind_runsOut {a : α} (h : m.EndsAfter taken (.ok a)) (hf : (f a).RunsOut rest) :
    (m >>= f).RunsOut (taken ++ rest) := by
  constructor
  · intro n
    rw [on_bind, h.on_append]
    dsimp only
    rw [hf.on_eq, List.length_append, Nat.add_assoc]
  · intro more n
    have hle := hf.le_used more (n + taken.length)
    rw [on_bind, List.append_assoc, h.on_append, List.length_append]
    dsimp only
    omega

end EndsAfter

namespace Local

theorem used_le (h : m.Local) (s : Faces) : s.used ≤ (m.on s).2.used := by
  obtain ⟨faces, n⟩ := s
  rcases h faces with ⟨taken, rest, r, rfl, hends⟩ | hout
  · rw [hends.on_append]
    exact Nat.le_add_right _ _
  · rw [hout.on_eq]
    exact Nat.le_add_right _ _

/-- What ends took faces off the front. -/
theorem takes {a : α} {s s' : Faces} (h : m.Local) (hm : m.on s = (.ok a, s')) :
    ∃ taken, s.coming = taken ++ s'.coming ∧ s'.used = s.used + taken.length := by
  obtain ⟨faces, n⟩ := s
  rcases h faces with ⟨taken, rest, r, rfl, hends⟩ | hout
  · rw [hends.on_append] at hm
    cases hm
    exact ⟨taken, rfl, rfl⟩
  · rw [hout.on_eq] at hm
    cases hm

/-- From a fresh supply, the faces that are gone were used. -/
theorem eq_of_ofList {a : α} {faces : List Int} {s' : Faces} (h : m.Local) (hm : m.on (.ofList faces) = (.ok a, s')) :
    s' = ⟨s'.coming, faces.length - s'.coming.length⟩ := by
  obtain ⟨taken, hcoming, hused⟩ := h.takes hm
  obtain ⟨coming, used⟩ := s'
  obtain rfl : faces = taken ++ coming := hcoming
  obtain rfl : used = 0 + taken.length := hused
  simp

theorem liftM {r : Except Error α} (h : ∀ n, r ≠ .error (.outOfFaces n)) :
    Local (liftM r : Rolling α) := fun faces =>
  .inl ⟨[], faces, r, rfl, ⟨h, fun rest n => on_liftM r ⟨rest, n⟩⟩⟩

protected theorem pure (a : α) : Local (pure a : Rolling α) := fun faces =>
  .inl ⟨[], faces, .ok a, rfl, ⟨fun _ => nofun, fun _ _ => rfl⟩⟩

protected theorem throw {e : Error} (h : ∀ n, e ≠ .outOfFaces n) : Local (throw e : Rolling α) :=
  fun faces => .inl ⟨[], faces, .error e, rfl, ⟨fun n he => h n (Except.error.inj he), fun _ _ => rfl⟩⟩

theorem draw : Local draw := fun faces => by
  cases faces with
  | nil => exact .inr ⟨fun n => rfl, fun more n => by cases more <;> simp⟩
  | cons face rest =>
    exact .inl ⟨[face], rest, .ok face, rfl, ⟨fun _ => nofun, fun _ _ => rfl⟩⟩

protected theorem bind (hm : m.Local) (hf : ∀ a, (f a).Local) : (m >>= f).Local := by
  intro faces
  rcases hm faces with ⟨taken, rest, e | a, rfl, hends⟩ | hout
  · exact .inl ⟨taken, rest, _, rfl, hends.bind_error⟩
  · rcases hf a rest with ⟨taken', rest', r, rfl, hends'⟩ | hout
    · exact .inl ⟨taken ++ taken', rest', r, (List.append_assoc ..).symm, hends.bind hends'⟩
    · exact .inr (hends.bind_runsOut hout)
  · refine .inr ⟨fun n => by rw [on_bind, hout.on_eq], fun more n => ?_⟩
    -- the second part may come to its turn on a longer supply, but it gives no face back
    have hle := hout.le_used more n
    rw [on_bind]
    rcases hr : m.on ⟨faces ++ more, n⟩ with ⟨e | a, s⟩
    · rwa [hr] at hle
    · rw [hr] at hle
      exact Nat.le_trans hle ((hf a).used_le s)

protected theorem mapM {f : α → Rolling β} {l : List α} (h : ∀ a ∈ l, (f a).Local) :
    (l.mapM f).Local := by
  induction l with
  | nil => exact .pure _
  | cons a l ih =>
    have hl : (l.mapM f).Local := ih fun b hb => h b (by simp [hb])
    rw [List.mapM_cons]
    exact (h a (by simp)).bind fun _ => hl.bind fun _ => .pure _

protected theorem foldlM {f : β → α → Rolling β} (h : ∀ b a, (f b a).Local) (l : List α) (b : β) :
    (l.foldlM f b).Local := by
  induction l generalizing b with
  | nil => exact .pure _
  | cons a l ih =>
    rw [List.foldlM_cons]
    exact (h b a).bind ih

theorem of_refuses {r : Except Error α} (h : Refuses Error.sparesFaces r) :
    Local (MonadLift.monadLift r : Rolling α) :=
  .liftM fun n hr => by have := h _ hr; cases this

theorem of_refuses_reading {r : Except Error α} (h : Refuses Error.isOfReading r) :
    Local (MonadLift.monadLift r : Rolling α) :=
  of_refuses (h.mono fun e he => by cases e <;> first | rfl | cases he)

theorem of_refuses_reckoning {r : Except Error α} (h : Refuses Error.isOfReckoning r) :
    Local (MonadLift.monadLift r : Rolling α) :=
  of_refuses (h.mono Error.sparesFaces_of_isOfReckoning)

end Local

end Rolling

open Rolling Local

/-! ### Pools -/

theorem Rolling.Local.compositional : Compositional @Local where
  pure := .pure
  bind := .bind
  draw := draw
  refuse := fun e he => .throw fun n hn => by subst hn; cases he
  giveUp := fun what cap => .throw fun n => nofun

namespace Pool

variable (p : Pool) (faces : List Int) (cap : Int)

theorem local_roll (counts sides : Argument) : (roll counts sides).Local :=
  (of_refuses_reckoning (refuses_shapesOf _ _)).bind fun shapes => Local.compositional.deal shapes

theorem local_explodeRecursive : (p.explodeRecursive faces cap).Local :=
  Local.compositional.explodeRecursive p faces cap

theorem local_explodeAdditive : (p.explodeAdditive faces cap).Local :=
  Local.compositional.explodeAdditive p faces cap

theorem local_rerollRecursive : (p.rerollRecursive faces cap).Local :=
  Local.compositional.rerollRecursive p faces cap

theorem local_apply (mode : PoolMode) (arg : Argument) : (mode.apply p arg cap).Local :=
  Local.compositional.apply p cap mode (of_refuses_reckoning arg.refuses_scalar)

end Pool

/-! ### Formulas -/

namespace Operand

variable (l r : Operand)

/-- No failure of an operand's value is about faces, whatever the value. -/
theorem tame (o : Operand) : o.Tame Error.sparesFaces := fun v _ => v.tame rfl

theorem local_toArgument (o : Operand) : Local (MonadLift.monadLift o.toArgument : Rolling Argument) :=
  of_refuses (refuses_toArgument Error.sparesFaces_of_isOfReckoning o.tame)

theorem local_rolled : (l.rolled r).Local :=
  l.local_toArgument.bind fun counts => r.local_toArgument.bind fun sides =>
    (Pool.local_roll counts sides).bind fun _ => .pure _

theorem local_changed (op : PoolOperator) (cap : Int) : (l.changed op cap r).Local :=
  (of_refuses_reckoning l.refuses_toPool).bind fun pool => r.local_toArgument.bind fun arg =>
    (pool.local_apply cap op.mode arg).bind fun _ => .pure _

end Operand

namespace Machine

variable (m : Machine) (cap : Int) {missing : Error}

theorem local_unary {f : Operand → Rolling Operation} (hmissing : ∀ n, missing ≠ .outOfFaces n)
    (hf : ∀ o, (f o).Local) : (m.unary missing f).Local := by
  unfold unary
  split
  · exact (hf _).bind fun _ => .pure _
  · exact .throw hmissing

theorem local_binary {f : Operand → Operand → Rolling Operation}
    (hmissing : ∀ n, missing ≠ .outOfFaces n) (hf : ∀ l r, (f l r).Local) :
    (m.binary missing f).Local := by
  unfold binary
  split
  · exact (hf _ _).bind fun _ => .pure _
  · exact .throw hmissing

theorem local_step (t : Token) : (step cap m t).Local := by
  have hmissing : ∀ n, Error.missingOperand t.text ≠ .outOfFaces n := fun n h => by cases h
  have hreckoning := Error.sparesFaces_of_isOfReckoning
  cases t with
  | argument a => exact .pure _
  | number x written => exact .pure _
  | opening b => exact .throw fun n h => by cases h
  | closing b => exact .throw fun n h => by cases h
  | blank => exact .throw fun n h => by cases h
  | negate => exact m.local_unary hmissing fun o => of_refuses_reckoning o.refuses_negated
  | function f =>
    exact m.local_unary (fun n h => by cases h) fun o => of_refuses (Operand.refuses_applied hreckoning o.tame f)
  | genesys k => exact m.local_unary hmissing fun o => of_refuses_reckoning (o.refuses_read k)
  | binary op =>
    exact m.local_binary hmissing fun l r => of_refuses (Operand.refuses_combined hreckoning l.tame r.tame op)
  | dice => exact m.local_binary hmissing Operand.local_rolled
  | pool op => exact m.local_binary hmissing fun l r => l.local_changed r op cap
  | conversion c =>
    exact m.local_binary hmissing fun l r => of_refuses (Operand.refuses_counted hreckoning r.tame c)

end Machine

theorem local_evaluate (ts : List Token) (cap : Int) : (evaluate ts cap).Local := by
  have hrun : (ts.foldlM (Machine.step cap) {}).Local :=
    Local.foldlM (fun m t => Machine.local_step m cap t) ts {}
  refine hrun.bind fun m => ?_
  split
  · exact .pure _
  · exact .throw fun n h => by cases h

theorem local_evaluateText (formula : String) (cap : Int) : (evaluateText formula cap).Local :=
  (of_refuses_reading (refuses_tokenize _ formula)).bind fun ts =>
    (of_refuses_reading ((refuses_toPostfix ts).mono Error.isOfReading_of_isOfBrackets)).bind fun ts =>
      local_evaluate ts cap

/-- A formula that does not run out of faces comes to the same end, be it a roll or a failure, with
any faces that begin like those it took, and takes as many. One that runs out has taken all, and
takes no fewer if there are more. -/
theorem evaluateText_of_agreeing_faces (formula : String) (cap : Int) (xs : List Int) :
    let run (faces : List Int) := (evaluateText formula cap).on (.ofList faces)
    let used := (run xs).2.used
    ((∀ n, (run xs).1 ≠ .error (.outOfFaces n)) → ∀ ys : List Int, used ≤ ys.length →
      ys.take used = xs.take used → run ys = ((run xs).1, ⟨ys.drop used, used⟩)) ∧
    ∀ n, (run xs).1 = .error (.outOfFaces n) →
      n = xs.length ∧ used = xs.length ∧ ∀ more, xs.length ≤ (run (xs ++ more)).2.used := by
  intro run used
  rcases local_evaluateText formula cap xs with ⟨taken, rest, r, rfl, hends⟩ | hout
  · have hrun : run (taken ++ rest) = (r, ⟨rest, taken.length⟩) := by
      have := hends.on_append rest 0
      rwa [Nat.zero_add] at this
    have hused : used = taken.length := by simp only [used, hrun]
    rw [hused, hrun, List.take_left]
    refine ⟨fun _ ys hlen hagree => ?_, fun n hr => absurd hr (hends.enough n)⟩
    have hys : taken ++ ys.drop taken.length = ys := by
      rw [← hagree, List.length_take_of_le hlen, List.take_append_drop]
    have hon := hends.on_append (ys.drop taken.length) 0
    rwa [hys, Nat.zero_add] at hon
  · have hrun : run xs = (.error (.outOfFaces xs.length), ⟨[], xs.length⟩) := by
      have := hout.on_eq 0
      rwa [Nat.zero_add] at this
    have hused : used = xs.length := by simp only [used, hrun]
    rw [hused, hrun]
    refine ⟨fun henough => absurd rfl (henough _), fun n hn => ?_⟩
    refine ⟨(Error.outOfFaces.inj (Except.error.inj hn)).symm, rfl, fun more => ?_⟩
    have hle := hout.le_used more 0
    rwa [Nat.zero_add] at hle

/-- Two dice of which the first explodes take three faces; two faces are too few for them. -/
theorem evaluateText_of_agreeing_faces_explosion :
    let run (faces : List Int) := (evaluateText "2d6er6" 100).on (.ofList faces)
    (run [6, 2, 3, 5]).2 = ⟨[5], 3⟩ ∧ run [6, 2, 3, 1, 4] = ((run [6, 2, 3, 5]).1, ⟨[1, 4], 3⟩) ∧
      (run [6, 2]).1 = .error (.outOfFaces 2) ∧ 2 ≤ (run [6, 2, 3, 5]).2.used := by
  have hfaces : ((evaluateText "2d6er6" 100).on (.ofList [6, 2, 3, 5])).2 = ⟨[5], 3⟩ := by
    decide +kernel
  have hok : ((evaluateText "2d6er6" 100).on (.ofList [6, 2, 3, 5])).1.toOption.isSome := by
    decide +kernel
  have hout : (match ((evaluateText "2d6er6" 100).on (.ofList [6, 2])).1 with
      | .error (.outOfFaces n) => n
      | _ => 0) = 2 := by decide +kernel
  have hagree := evaluateText_of_agreeing_faces "2d6er6" 100
  -- from here on it does not matter which computation it is
  generalize evaluateText "2d6er6" 100 = m at *
  dsimp only at hagree ⊢
  obtain ⟨hends, -⟩ := hagree [6, 2, 3, 5]
  obtain ⟨-, hruns⟩ := hagree [6, 2]
  rw [hfaces] at hends
  split at hout
  · rename_i n hn
    obtain rfl := hout
    refine ⟨hfaces, hends (fun n hr => ?_) [6, 2, 3, 1, 4] (by decide) rfl, hn,
      (hruns 2 hn).2.2 [3, 5]⟩
    rw [hr] at hok
    cases hok
  · cases hout

end Tabletop
