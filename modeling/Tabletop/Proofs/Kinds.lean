import Tabletop.Proofs.Material
import Tabletop.Proofs.StackRun

/-!
# Kinds of values and operands

Values are of three kinds, and an operand is a list, a value, or dice that lie on the table, which
have a value too. What kind of operand an operation makes hangs on the kinds of its own operands
alone: `Tree.kind?` tells the kind of a formula before anything is rolled, or that it has none.

`Foretells` says what such telling is worth: an answer has the kind that was told, and where a kind
was told, the failure is not about the form of the formula. It goes along with `do`
(`Foretells.bind`), as the actions on values show.
-/

namespace Tabletop

open Rolling

/-! ### Kinds -/

inductive Value.Kind where
  | decimal
  | successes
  | genesys
deriving DecidableEq

def Value.kind : Value → Value.Kind
  | decimal _ => .decimal
  | successes _ => .successes
  | genesys _ => .genesys

namespace Value.Kind

/-- Symbols are no number. -/
def decimal? : Value.Kind → Option Unit
  | genesys => none
  | _ => some ()

def negate? : Value.Kind → Option Value.Kind
  | genesys => none
  | k => some k

/-- Symbols go with symbols, successes stay successes among themselves. -/
def add? : Value.Kind → Value.Kind → Option Value.Kind
  | genesys, genesys => some genesys
  | genesys, _ | _, genesys => none
  | successes, successes => some successes
  | _, _ => some decimal

def subtract? (k l : Value.Kind) : Option Value.Kind := do k.add? (← l.negate?)

end Value.Kind

/-- A number, or a list of so many. -/
inductive Argument.Form where
  | single
  | list (length : Nat)
deriving DecidableEq

def Argument.form : Argument → Argument.Form
  | single _ => .single
  | list ns => .list ns.length

def Argument.Form.pair? : Argument.Form → Argument.Form → Option Unit
  | list n, list m => if n = m then some () else none
  | _, _ => some ()

inductive Operand.Kind where
  | list (length : Nat)
  | number (v : Value.Kind)
  /-- Dice on the table, which are raw if their value is a decimal. -/
  | dice (v : Value.Kind)
deriving DecidableEq

def Operand.kind : Operand → Operand.Kind
  | argument (.single _) => .number .decimal
  | argument (.list ns) => .list ns.length
  | number v _ => .number v.kind
  | thrown t => .dice t.value.kind

namespace Operand.Kind

def value? : Operand.Kind → Option Value.Kind
  | list _ => none
  | number v | dice v => some v

def form? : Operand.Kind → Option Argument.Form
  | list n => some (.list n)
  | number v | dice v => do
    v.decimal?
    pure .single

def pool? : Operand.Kind → Option Unit
  | dice _ => some ()
  | _ => none

def isRaw : Operand.Kind → Bool
  | dice .decimal => true
  | _ => false

def joined? (f : Value.Kind → Value.Kind → Option Value.Kind) (l r : Operand.Kind) :
    Option Operand.Kind := do
  let v ← l.value?
  let w ← r.value?
  pure (.number (← f v w))

def computed? (l r : Operand.Kind) : Option Operand.Kind := do
  let v ← l.value?
  v.decimal?
  let w ← r.value?
  w.decimal?
  pure (.number .decimal)

/-- Raw dice are merged with raw dice; all else is added. -/
def combined? (op : Operator) (l r : Operand.Kind) : Option Operand.Kind :=
  match op.action with
  | .merge => if l.isRaw && r.isRaw then some (.dice .decimal) else joined? Value.Kind.add? l r
  | .add => joined? Value.Kind.add? l r
  | .subtract => joined? Value.Kind.subtract? l r
  | .arithmetic _ => computed? l r

end Operand.Kind

/-- The highest and the lowest dice are kept by number, and not by a list. -/
def PoolMode.take? : PoolMode → Argument.Form → Option Unit
  | keep .high, .list _ | keep .low, .list _ => none
  | _, _ => some ()

def Unary.kind? (k : Operand.Kind) : Unary → Option Operand.Kind
  | negate => do
    let v ← k.value?
    pure (.number (← v.negate?))
  | function _ => do
    let v ← k.value?
    v.decimal?
    pure (.number .decimal)
  | genesys _ => do
    k.pool?
    pure (.dice .genesys)

def Binary.kind? (l r : Operand.Kind) : Binary → Option Operand.Kind
  | operator op => l.combined? op r
  | dice => do
    let counts ← l.form?
    let sides ← r.form?
    counts.pair? sides
    pure (.dice .decimal)
  | pool op => do
    l.pool?
    let arg ← r.form?
    op.mode.take? arg
    pure (.dice .decimal)
  | conversion _ => do
    let _ ← r.form?
    l.pool?
    pure (.dice .successes)

/-- The kind of what a formula comes to, whatever the dice show. -/
def Tree.kind? : Tree Constant → Option Operand.Kind
  | leaf c => some c.operand.kind
  | unary u x => do u.kind? (← x.kind?)
  | binary b x y => do
    let l ← x.kind?
    let r ← y.kind?
    b.kind? l r

/-! ### Foretelling -/

section Foretells

variable {α β κ κ' : Type} {kind : α → κ} {kind' : β → κ'} {k? : Option κ}

/-- An answer is of the kind that was told, and a failure about form is one where none was told. -/
def Foretells (kind : α → κ) (k? : Option κ) : Except Error α → Prop
  | .ok a => k? = some (kind a)
  | .error e => e.isAboutForm = true → k? = none

namespace Foretells

protected theorem ok {a : α} {k : κ} (h : k = kind a) : Foretells kind (some k) (.ok a) :=
  congrArg some h

theorem form {e : Error} : Foretells kind none (.error e) := fun _ => rfl

theorem material {e : Error} (he : e.Material) : Foretells kind k? (.error e) := by
  intro h
  rw [he] at h
  cases h

theorem bind {r : Except Error α} {f : α → Except Error β} {g : κ → Option κ'}
    (h : Foretells kind k? r) (hf : ∀ a, Foretells kind' (g (kind a)) (f a)) :
    Foretells kind' (k? >>= g) (r >>= f) := by
  cases r with
  | ok a =>
    have hk : k? = some (kind a) := h
    rw [hk]
    exact hf a
  | error e =>
    intro he
    have hk : k? = none := h he
    rw [hk]
    rfl

/-- After a part that is told to succeed comes what is told of the rest. -/
theorem andThen {r : Except Error α} {f : α → Except Error β} {k : κ} {l? : Option κ'}
    (h : Foretells kind (some k) r) (hf : ∀ a, Foretells kind' l? (f a)) :
    Foretells kind' l? (r >>= f) :=
  h.bind (g := fun _ => l?) hf

end Foretells

/-- What was told comes true with any faces. -/
def Rolling.Foretold (kind : α → κ) (k? : Option κ) (m : Rolling α) : Prop :=
  ∀ s, Foretells kind k? (m.on s).1

namespace Rolling.Foretold

protected theorem liftM {r : Except Error α} (h : Foretells kind k? r) :
    Foretold kind k? (liftM r : Rolling α) := by
  intro s
  rw [on_liftM]
  exact h

protected theorem pure {a : α} {k : κ} (h : k = kind a) :
    Foretold kind (some k) (pure a : Rolling α) := by
  intro s
  rw [on_pure]
  exact .ok h

theorem bind {m : Rolling α} {f : α → Rolling β} {g : κ → Option κ'}
    (h : Foretold kind k? m) (hf : ∀ a, Foretold kind' (g (kind a)) (f a)) :
    Foretold kind' (k? >>= g) (m >>= f) := by
  intro s
  rw [on_bind]
  have hs := h s
  rcases hm : m.on s with ⟨e | a, s'⟩
  · rw [hm] at hs
    intro he
    have hk : k? = none := hs he
    rw [hk]
    rfl
  · rw [hm] at hs
    have hk : k? = some (kind a) := hs
    rw [hk]
    exact hf a s'

/-- What is left of an answer may keep its kind. -/
theorem map {m : Rolling α} {f : α → β} {kind' : β → κ} (h : Foretold kind k? m)
    (hf : ∀ a, kind a = kind' (f a)) : Foretold kind' k? (do pure (f (← m))) := by
  rw [← bind_pure k?]
  exact h.bind fun a => .pure (hf a)

/-- A computation without failures about form may be told to succeed. -/
theorem of_failsOnly {m : Rolling α} {k : κ} (hm : m.FailsOnly Error.Material)
    (hk : ∀ a, k = kind a) : Foretold kind (some k) m := by
  intro s
  rcases h : m.on s with ⟨e | a, s'⟩
  · exact .material (hm h)
  · exact .ok (hk a)

end Rolling.Foretold

end Foretells

/-! ### Values -/

namespace Value

theorem foretells_ofFloat (x : Float) : Foretells kind (some .decimal) (ofFloat x) := by
  rw [ofFloat]
  split
  · exact .ok rfl
  · exact .material rfl

theorem foretells_doubleOfCount (n : Int) :
    Foretells (fun _ => ()) (some ()) (doubleOfCount n) := by
  rw [doubleOfCount]
  split
  · exact .ok rfl
  · exact .material rfl

theorem foretells_toDecimal (v : Value) : Foretells (fun _ => ()) v.kind.decimal? v.toDecimal := by
  cases v with
  | decimal x => exact .ok rfl
  | successes n => exact foretells_doubleOfCount n
  | genesys t => exact .form

theorem foretells_negate (v : Value) : Foretells kind v.kind.negate? v.negate := by
  cases v with
  | decimal x => exact foretells_ofFloat _
  | successes n => exact .ok rfl
  | genesys t => exact .form

theorem foretells_add (v w : Value) : Foretells kind (v.kind.add? w.kind) (v.add w) := by
  have hdecimal (y : Value) (k? : Option Value.Kind) (f : Float → Except Error Value)
      (hk : (do y.kind.decimal?; some Kind.decimal) = k?)
      (hf : ∀ x, Foretells kind (some .decimal) (f x)) :
      Foretells kind k? (y.toDecimal >>= f) := by
    rw [← hk]
    exact (foretells_toDecimal y).bind hf
  cases v with
  | decimal x =>
    refine hdecimal w _ _ ?_ fun y => foretells_ofFloat _
    cases w <;> rfl
  | successes n =>
    cases w with
    | successes m => exact .ok rfl
    | decimal y => exact (foretells_doubleOfCount n).andThen fun _ => foretells_ofFloat _
    | genesys t => exact .form
  | genesys t =>
    cases w with
    | genesys u => exact .ok rfl
    | _ => exact .form

theorem foretells_subtract (v w : Value) :
    Foretells kind (v.kind.subtract? w.kind) (v.subtract w) :=
  (foretells_negate w).bind fun w' => foretells_add v w'

end Value

end Tabletop
