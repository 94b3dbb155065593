import Tabletop.Proofs.Kinds

/-!
# What a formula comes to does not hang on the dice

Every operation is foretold by its counterpart on kinds, and so is every tree
(`Tree.foretold_eval`). A run that comes to a value is the run of a tree, so that every other run of
the same tokens, with whatever faces, logs the same tokens and comes to a value of the same kind, or
else fails for the numbers and not for the form of the formula.
-/

namespace Tabletop

open Rolling

/-! ### Operands -/

namespace Operand

theorem foretells_toValue (o : Operand) : Foretells Value.kind o.kind.value? o.toValue := by
  cases o with
  | argument a =>
    cases a with
    | single n => exact Value.foretells_ofFloat _
    | list ns => exact .form
  | number v written => exact .ok rfl
  | thrown t => exact .ok rfl

theorem foretells_toDecimal (o : Operand) :
    Foretells (fun _ => ()) (do (← o.kind.value?).decimal?) o.toDecimal :=
  (foretells_toValue o).bind Value.foretells_toDecimal

theorem foretells_ofScalar (x : Scalar) :
    Foretells Argument.form (some .single) (Argument.ofScalar x) := by
  rw [Argument.ofScalar]
  unfold Scalar.toArgument
  dsimp only
  split
  · split
    · exact .ok rfl
    · exact .material rfl
  · exact .material rfl

theorem foretells_toArgument (o : Operand) : Foretells Argument.form o.kind.form? o.toArgument := by
  have hvalue (o : Operand) : Foretells Argument.form
      (do let v ← o.kind.value?; v.decimal?; pure .single)
      (do Argument.ofScalar (.real (← o.toDecimal))) := by
    rw [← bind_assoc]
    exact (foretells_toDecimal o).bind fun x => foretells_ofScalar _
  cases o with
  | argument a =>
    cases a with
    | single n => exact .ok rfl
    | list ns => exact .ok rfl
  | number v written => exact hvalue (.number v written)
  | thrown t => exact hvalue (.thrown t)

theorem foretells_toPool (o : Operand) : Foretells (fun _ => ()) o.kind.pool? o.toPool := by
  cases o with
  | argument a => cases a <;> exact .form
  | number v written => exact .form
  | thrown t => exact .ok rfl

theorem isRaw_kind (o : Operand) : o.kind.isRaw = o.rawPool?.isSome := by
  cases o with
  | argument a => cases a <;> rfl
  | number v written => rfl
  | thrown t => cases t <;> rfl

end Operand

/-! ### Operations -/

/-- The kind of operand that an operation leaves. -/
def Operation.kind (op : Operation) : Operand.Kind := op.operand.kind

namespace Operand

variable (l r : Operand)

theorem foretells_joined {f? : Value.Kind → Value.Kind → Option Value.Kind}
    {f : Value → Value → Except Error Value} (op : Operator)
    (hf : ∀ v w, Foretells Value.kind (f? v.kind w.kind) (f v w)) :
    Foretells Operation.kind (Kind.joined? f? l.kind r.kind) (joined op f l r) :=
  (foretells_toValue l).bind fun x => (foretells_toValue r).bind fun y =>
    (hf x y).bind fun _ => .ok rfl

theorem foretells_computed (op : Operator) (a : Arithmetic) :
    Foretells Operation.kind (Kind.computed? l.kind r.kind) (computed op a l r) := by
  refine (foretells_toValue l).bind fun v => (Value.foretells_toDecimal v).bind fun x => ?_
  refine (foretells_toValue r).bind fun w => (Value.foretells_toDecimal w).bind fun y => ?_
  split
  · exact (Value.foretells_ofFloat _).bind (g := fun k => some (Kind.number k)) fun _ => .ok rfl
  · exact .material rfl

theorem foretells_combined (op : Operator) :
    Foretells Operation.kind (l.kind.combined? op r.kind) (l.combined op r) := by
  unfold combined Kind.combined?
  rw [isRaw_kind, isRaw_kind]
  cases op.action with
  | merge =>
    dsimp only
    rcases hl : l.rawPool? with _ | p
    · exact foretells_joined l r op Value.foretells_add
    rcases hr : r.rawPool? with _ | q
    · exact foretells_joined l r op Value.foretells_add
    rcases hmerge : p.merge q with e | pool
    · dsimp only
      rw [hmerge]
      exact .material (e.material_of_isOfDice (e.isOfDice_of_isOfPools (Pool.refuses_ofDice _ _ e hmerge)))
    · dsimp only
      rw [hmerge]
      exact .ok rfl
  | add => exact foretells_joined l r op Value.foretells_add
  | subtract => exact foretells_joined l r op Value.foretells_subtract
  | arithmetic a => exact foretells_computed l r op a

theorem foretells_shapesOf (counts sides : Argument) :
    Foretells (fun _ => ()) (counts.form.pair? sides.form) (Pool.shapesOf counts sides) := by
  cases counts with
  | single n => cases sides <;> exact .ok rfl
  | list ns =>
    cases sides with
    | single n => exact .ok rfl
    | list ss =>
      unfold Pool.shapesOf Argument.Form.pair?
      simp only [Argument.form]
      split
      · exact .ok rfl
      · exact .form

theorem foretold_roll (counts sides : Argument) :
    Foretold (fun _ => ()) (counts.form.pair? sides.form) (Pool.roll counts sides) := by
  rw [← bind_pure (counts.form.pair? sides.form)]
  refine Foretold.bind (.liftM (foretells_shapesOf counts sides)) fun shapes => ?_
  exact .of_failsOnly ((FailsOnly.compositional Error.material_of_isOfDice).deal shapes) fun _ => rfl

theorem foretold_rolled : Foretold Operation.kind (Binary.dice.kind? l.kind r.kind) (l.rolled r) := by
  refine Foretold.bind (.liftM (foretells_toArgument l)) fun counts => ?_
  refine Foretold.bind (.liftM (foretells_toArgument r)) fun sides => ?_
  exact (foretold_roll counts sides).bind fun pool => .pure rfl

/-- Keeping the highest or the lowest dice needs a number; all else takes any argument. -/
theorem foretold_apply (mode : PoolMode) (p : Pool) (arg : Argument) (cap : Int) :
    Foretold (fun _ => ()) (mode.take? arg.form) (mode.apply p arg cap) := by
  have hmaterial : Compositional fun m => m.FailsOnly Error.Material :=
    FailsOnly.compositional Error.material_of_isOfDice
  have htold {m : Rolling Change} (h : m.FailsOnly Error.Material) : Foretold (fun _ => ()) (some ()) m :=
    .of_failsOnly h fun _ => rfl
  cases mode with
  | keep mode =>
    cases mode with
    | high =>
      cases arg with
      | single n => exact htold (hmaterial.changeTo p _ _)
      | list ns => exact fun _ => .form
    | low =>
      cases arg with
      | single n => exact htold (hmaterial.changeTo p _ _)
      | list ns => exact fun _ => .form
    | exact => exact htold (hmaterial.changeTo p _ _)
  | explode mode =>
    cases mode with
    | once => exact htold (hmaterial.explodeOnce p _)
    | additive => exact htold (hmaterial.explodeAdditive p _ cap)
    | recursive => exact htold (hmaterial.explodeRecursive p _ cap)
  | reroll mode =>
    cases mode with
    | recursive => exact htold (hmaterial.rerollRecursive p _ cap)
    | once | better | worse => exact htold (hmaterial.rerollAll p _ _)

theorem foretold_changed (op : PoolOperator) (cap : Int) :
    Foretold Operation.kind ((Binary.pool op).kind? l.kind r.kind) (l.changed op cap r) := by
  refine Foretold.bind (.liftM (foretells_toPool l)) fun pool => ?_
  refine Foretold.bind (.liftM (foretells_toArgument r)) fun arg => ?_
  exact (foretold_apply op.mode pool arg cap).bind fun change => .pure rfl

theorem foretells_counted (c : Conversion) :
    Foretells Operation.kind ((Binary.conversion c).kind? l.kind r.kind) (l.counted c r) :=
  (foretells_toArgument r).bind fun _ => (foretells_toPool l).bind fun _ => .ok rfl

theorem foretells_negated (o : Operand) :
    Foretells Operation.kind (Unary.negate.kind? o.kind) o.negated :=
  (foretells_toValue o).bind fun x => (Value.foretells_negate x).bind fun _ => .ok rfl

theorem foretells_applied (o : Operand) (f : MathFunction) :
    Foretells Operation.kind ((Unary.function f).kind? o.kind) (o.applied f) := by
  refine (foretells_toValue o).bind fun v => (Value.foretells_toDecimal v).bind fun x => ?_
  dsimp only
  split
  · exact .ok rfl
  · exact .material rfl

theorem foretells_read (o : Operand) (k : Genesys.Kind) :
    Foretells Operation.kind ((Unary.genesys k).kind? o.kind) (o.read k) :=
  (foretells_toPool o).bind fun _ => .ok rfl

end Operand

theorem Unary.foretold_apply (u : Unary) (o : Operand) :
    Foretold Operation.kind (u.kind? o.kind) (u.apply o) := by
  cases u with
  | negate => exact .liftM o.foretells_negated
  | function f => exact .liftM (o.foretells_applied f)
  | genesys k => exact .liftM (o.foretells_read k)

theorem Binary.foretold_apply (cap : Int) (b : Binary) (l r : Operand) :
    Foretold Operation.kind (b.kind? l.kind r.kind) (b.apply cap l r) := by
  cases b with
  | operator op => exact .liftM (l.foretells_combined r op)
  | dice => exact l.foretold_rolled r
  | pool op => exact l.foretold_changed r op cap
  | conversion c => exact .liftM (l.foretells_counted r c)

/-! ### Formulas -/

/-- The kind of a tree is that of what it comes to, with any faces and any cap. -/
theorem Tree.foretold_eval (cap : Int) (x : Tree Constant) :
    Foretold (fun run : List Operation × Operand => run.2.kind) x.kind? (x.eval cap) := by
  induction x with
  | leaf c => exact .pure rfl
  | unary u x ih =>
    exact ih.bind fun ⟨log, o⟩ => (u.foretold_apply o).map fun op => rfl
  | binary b x y ihx ihy =>
    exact ihx.bind fun ⟨logx, l⟩ => ihy.bind fun ⟨logy, r⟩ =>
      (b.foretold_apply cap l r).map fun op => rfl

/-- Runs tokens in postfix order and takes the value of the operand that is left. -/
def outcome (ts : List Token) (cap : Int) : Rolling (List Operation × Value) := do
  let (log, o) ← evaluate ts cap
  let v ← o.toValue
  pure (log, v)

theorem outcome_ok {ts : List Token} {cap : Int} {s s' : Faces} {log : List Operation} {v : Value}
    (h : (outcome ts cap).on s = (.ok (log, v), s')) :
    ∃ x : Tree Constant, x.postorder Constant.token = ts ∧
      log.map Operation.token = ts.filter fun t => !t.isOperand := by
  obtain ⟨⟨log', o⟩, s₁, hrun, h⟩ := on_bind_ok h
  obtain ⟨v', s₂, -, h⟩ := on_bind_ok h
  obtain ⟨hlog, -⟩ := Prod.mk.inj (on_pure_ok h).1
  obtain ⟨x, hx⟩ := exists_tree_of_evaluate hrun
  have heval : (x.eval cap).on s = (.ok (log', o), s₁) := by
    rw [← x.evaluate_postorder, hx]
    exact hrun
  refine ⟨x, hx, ?_⟩
  rw [← hlog, x.log_of_eval heval, hx]

/-- The kind of the value is told by the tree. -/
theorem Tree.foretold_outcome (cap : Int) (x : Tree Constant) :
    Foretold (fun run : List Operation × Value => run.2.kind) (do (← x.kind?).value?)
      (outcome (x.postorder Constant.token) cap) := by
  rw [outcome, x.evaluate_postorder]
  refine (x.foretold_eval cap).bind fun ⟨log, o⟩ => ?_
  exact Foretold.map (.liftM o.foretells_toValue) fun v => rfl

/-- If a run of some tokens comes to a value, then every run of them, with any faces and any cap,
logs the same tokens and comes to a value of the same kind, or fails, but not for the form of the
formula. -/
theorem outcome_alike {ts : List Token} {cap : Int} {s s₁ : Faces} {log : List Operation} {v : Value}
    (h : (outcome ts cap).on s = (.ok (log, v), s₁)) (cap' : Int) (s' : Faces) :
    (∀ log' v' s₁', (outcome ts cap').on s' = (.ok (log', v'), s₁') →
      log'.map Operation.token = log.map Operation.token ∧ v'.kind = v.kind) ∧
    ∀ e s₁', (outcome ts cap').on s' = (.error e, s₁') → e.isAboutForm = false := by
  obtain ⟨x, hx, hlog⟩ := outcome_ok h
  have hkind := x.foretold_outcome cap s
  have hkind' := x.foretold_outcome cap' s'
  rw [hx] at hkind hkind'
  rw [h] at hkind
  have hv : (do (← x.kind?).value?) = some v.kind := hkind
  rw [hv] at hkind'
  refine ⟨fun log' v' s₁' h' => ?_, fun e s₁' h' => ?_⟩
  · obtain ⟨-, -, hlog'⟩ := outcome_ok h'
    rw [h'] at hkind'
    have hv' : some v.kind = some v'.kind := hkind'
    exact ⟨by rw [hlog, hlog'], (Option.some.inj hv').symm⟩
  · rw [h'] at hkind'
    have he : e.isAboutForm = true → some v.kind = none := hkind'
    exact eq_false_of_ne_true fun hform => nomatch he hform

/-- Two dice are rolled again and counted: here there are faces enough, and there they run out. -/
theorem outcome_alike_reroll :
    let ts : List Token := [.argument (.single 2), .argument (.single 6), .dice,
      .argument (.single 6), .pool (.reroll none), .argument (.single 5), .conversion .target]
    ∃ log s₁, (outcome ts 100).on (.ofList [3, 6, 5]) = (.ok (log, .successes 1), s₁) ∧
      log.map Operation.token = [.dice, .pool (.reroll none), .conversion .target] ∧
      (outcome ts 100).on (.ofList [2, 6]) = (.error (.outOfFaces 2), ⟨[], 2⟩) ∧
      (Error.outOfFaces 2).isAboutForm = false := by
  intro ts
  have hrun : (outcome ts 100).on (.ofList [3, 6, 5]) =
      (.ok ([.thrown (.rolled ⟨[.plain 6 3, .plain 6 6], [⟨2, 6⟩]⟩),
        .thrown (.changed (.reroll none) (.single 6) ⟨⟨[.plain 6 3, .plain 6 5], [⟨2, 6⟩]⟩,
          [{ die := .plain 6 3 }, { die := .plain 6 6, dropped := true },
            { die := .plain 6 5, added := true }]⟩),
        .thrown (.counted .target (.single 5) ⟨[.plain 6 3, .plain 6 5], [⟨2, 6⟩]⟩ 0)],
        .successes 1), ⟨[], 3⟩) := rfl
  have hfail : (outcome ts 100).on (.ofList [2, 6]) = (.error (.outOfFaces 2), ⟨[], 2⟩) := rfl
  exact ⟨_, _, hrun, rfl, hfail, (outcome_alike hrun 100 _).2 _ _ hfail⟩

end Tabletop
