import Tabletop.Tray

/-!
# Racks

A rack holds one tray for each scope. A tray is made when its scope is opened for the first time.
-/

namespace Tabletop

variable {Scope Owner : Type} [DecidableEq Scope]

/-- The trays by their scopes, in the order in which they were made. -/
structure Rack (Scope Owner : Type) where
  capacity : Int
  trays : List (Scope × Tray Owner)

namespace Rack

def ofCapacity (capacity : Int) : Rack Scope Owner := ⟨capacity, []⟩

def tray? (r : Rack Scope Owner) (scope : Scope) : Option (Tray Owner) := r.trays.lookup scope

/-- The tray of a scope, and the rack that has it. -/
def opened (r : Rack Scope Owner) (scope : Scope) : Except Error (Tray Owner × Rack Scope Owner) :=
  match r.tray? scope with
  | some t => .ok (t, r)
  | none => do
    let t ← Tray.ofCapacity r.capacity
    pure (t, { r with trays := r.trays ++ [(scope, t)] })

/-- The rack with another tray in the place of a scope's tray. -/
def put (r : Rack Scope Owner) (scope : Scope) (t : Tray Owner) : Rack Scope Owner :=
  { r with trays := r.trays.map fun (s, old) => (s, if s = scope then t else old) }

end Rack

end Tabletop
