import Tabletop.Operator.PoolOperator
import Tabletop.Proofs.Refusals

/-!
# What holds of all operations on dice

Rolling a pool and changing one is put together of few things by `do`: answers, faces that are drawn,
the refusals of pools, and explosions and rerolls that are given up. So a property of computations
that holds of these and goes along with `do` (`Compositional`) holds of every operation on a pool
(`Compositional.apply`), whatever the dice show.
-/

namespace Tabletop.Rolling

/-- The property holds of the parts that operations on pools are made of, and goes along with `do`. -/
structure Compositional (P : ∀ {α : Type}, Rolling α → Prop) : Prop where
  pure : ∀ {α : Type} (a : α), P (pure a : Rolling α)
  bind : ∀ {α β : Type} {m : Rolling α} {f : α → Rolling β}, P m → (∀ a, P (f a)) → P (m >>= f)
  draw : P draw
  refuse : ∀ {α : Type} (e : Error), e.isOfPools = true → P (throw e : Rolling α)
  giveUp : ∀ {α : Type} (what : String) (cap : Int), P (throw (.neverSettled what cap) : Rolling α)

namespace Compositional

variable {P : ∀ {α : Type}, Rolling α → Prop} (hP : Compositional P) {α β : Type}
variable (p : Pool) (faces : List Int) (cap : Int)

include hP

theorem check {r : Except Error α} (h : Refuses Error.isOfPools r) : P (liftM r : Rolling α) := by
  cases r with
  | ok a => exact hP.pure a
  | error e => exact hP.refuse e (h e rfl)

theorem mapM {f : α → Rolling β} (h : ∀ a, P (f a)) (l : List α) : P (l.mapM f) := by
  induction l with
  | nil => exact hP.pure []
  | cons a l ih =>
    rw [List.mapM_cons]
    exact hP.bind (h a) fun _ => hP.bind ih fun _ => hP.pure _

/-! ### Dice -/

theorem roll (sides : Nat) : P (Die.roll sides) := by
  rw [Die.roll]
  split
  · exact hP.pure _
  · exact hP.bind hP.draw fun _ => hP.pure _

theorem reroll (d : Die) : P d.reroll := by
  cases d with
  | plain sides shown => exact hP.roll sides
  | compound sides parts => exact hP.bind hP.draw fun _ => hP.pure _

/-! ### Pools -/

theorem deal (shapes : List Shape) :
    P (do
      Pool.checkSize (shapes.flatMap Shape.sizes).length
      Pool.ofDice (← (shapes.flatMap Shape.sizes).mapM Die.roll) shapes : Rolling Pool) :=
  hP.bind (hP.check (Pool.refuses_checkSize _)) fun _ => hP.bind (hP.mapM hP.roll _) fun _ =>
    hP.check (Pool.refuses_ofDice _ _)

theorem changeTo (ds : List Die) (b : Breakdown) : P (liftM (p.changeTo ds b) : Rolling Change) :=
  hP.check (p.refuses_changeTo ds b)

theorem checkTermination (what : String) : P (liftM (p.checkTermination faces what) : Rolling Unit) :=
  hP.check (p.refuses_checkTermination faces what)

theorem grow (c : Pool.Chain) : P (c.grow faces) := by
  rw [Pool.Chain.grow]
  split
  · exact hP.bind (hP.roll _) fun _ => hP.pure _
  · exact hP.pure _

theorem settle (left size : Nat) (cs : List Pool.Chain) : P (Pool.settle faces cap left size cs) := by
  induction left generalizing size cs with
  | zero =>
    unfold Pool.settle
    dsimp only
    split
    · exact hP.pure _
    · exact hP.giveUp _ _
  | succ left ih =>
    unfold Pool.settle
    dsimp only
    split
    · exact hP.pure _
    · exact hP.bind (hP.check (Pool.refuses_checkSize _)) fun _ =>
        hP.bind (hP.mapM (hP.grow faces) cs) fun cs => ih _ cs

theorem explosion : P (p.explosion faces cap) :=
  hP.bind (hP.checkTermination p faces _) fun _ => hP.settle faces cap _ _ _

theorem explodeOnce : P (p.explodeOnce faces) :=
  hP.bind (hP.checkTermination p faces _) fun _ => hP.bind (hP.mapM (hP.grow faces) _) fun _ => hP.changeTo p _ _

theorem explodeRecursive : P (p.explodeRecursive faces cap) :=
  hP.bind (hP.explosion p faces cap) fun _ => hP.changeTo p _ _

theorem explodeAdditive : P (p.explodeAdditive faces cap) :=
  hP.bind (hP.explosion p faces cap) fun _ => hP.changeTo p _ _

theorem rerollDie (preference : Pool.Preference) (d : Die) : P (Pool.rerollDie preference faces d) := by
  rw [Pool.rerollDie]
  split
  · exact hP.bind (hP.reroll d) fun _ => hP.pure _
  · exact hP.pure _

theorem rerollAll (preference : Pool.Preference) : P (p.reroll preference faces) :=
  hP.bind (hP.mapM (hP.rerollDie faces preference) _) fun _ => hP.changeTo p _ _

theorem chase (left : Nat) (again : Bool) (d : Die) : P (Pool.chase faces cap left again d) := by
  induction left generalizing again d with
  | zero =>
    rw [Pool.chase]
    split
    · exact hP.giveUp _ _
    · exact hP.pure _
  | succ left ih =>
    rw [Pool.chase]
    split
    · exact hP.bind (hP.reroll d) fun d => hP.bind (ih true d) fun _ => hP.pure _
    · exact hP.pure _

theorem rerollRecursive : P (p.rerollRecursive faces cap) :=
  hP.bind (hP.checkTermination p faces _) fun _ =>
    hP.bind (hP.mapM (hP.chase faces cap _ _) _) fun _ => hP.changeTo p _ _

/-- Only the highest and the lowest dice are kept by number. -/
theorem apply (mode : PoolMode) {arg : Argument} (harg : P (liftM arg.scalar : Rolling Nat)) :
    P (mode.apply p arg cap) := by
  cases mode with
  | keep mode =>
    cases mode with
    | high | low => exact hP.bind harg fun _ => hP.changeTo p _ _
    | exact => exact hP.changeTo p _ _
  | reroll mode =>
    cases mode with
    | recursive => exact hP.rerollRecursive p _ cap
    | once | better | worse => exact hP.rerollAll p _ _
  | explode mode =>
    cases mode with
    | once => exact hP.explodeOnce p _
    | additive => exact hP.explodeAdditive p _ cap
    | recursive => exact hP.explodeRecursive p _ cap

end Compositional

end Tabletop.Rolling
