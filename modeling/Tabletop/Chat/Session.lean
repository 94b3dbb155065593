import Tabletop.Chat.Message
import Tabletop.Rack

/-!
# Sessions

A session has the trays of all places, and the faces that dice will show. Commands are computations
on it that may send messages and may fail (`Serving`): what was changed and sent before a failure
stays so.
-/

namespace Tabletop.Chat

/-- Players and the places they play in are known by numbers. -/
abbrev Trays := Rack Int Int

structure Session where
  trays : Trays
  faces : Faces

def Session.start (faces : List Int) : Session := ⟨.ofCapacity trayCapacity, .ofList faces⟩

/-- A session in the course of a command, and the messages that the command has sent. -/
structure Exchange extends Session where
  sent : List String := []

/-- Why a command came to no good end. -/
inductive Failure where
  /-- The player may not use the command here. -/
  | refused
  /-- The text that the command needs was not given. -/
  | missing
  | error (e : Error)

/-- A computation in the course of a command. -/
abbrev Serving := ExceptT Failure (StateM Exchange)

namespace Serving

variable {α : Type}

/-- What a computation comes to, and the exchange that it leaves. -/
def on (m : Serving α) (x : Exchange) : Except Failure α × Exchange := StateT.run (ExceptT.run m) x

/-- A check that leaves everything as it is. -/
def check (r : Except Error α) : Serving α := ExceptT.mk fun x => (r.mapError .error, x)

/-- Work that is handed to a worker, who may fail instead of doing it. -/
def work (failure : Option Error) (m : Rolling α) : Serving α := ExceptT.mk fun x =>
  match failure with
  | some e => (.error (.error e), x)
  | none =>
    match m.on x.faces with
    | (r, faces) => (r.mapError .error, { x with faces })

/-- The tray of a scope, which is made when it is opened for the first time. -/
def opened (scope : Int) : Serving (Tray Int) := ExceptT.mk fun x =>
  match x.trays.opened scope with
  | .ok (t, trays) => (.ok t, { x with trays })
  | .error e => (.error (.error e), x)

/-- Stores a roll in the tray of a scope. -/
def store (scope : Int) (r : Roll Int) : Serving Unit := ExceptT.mk fun x =>
  match x.trays.tray? scope with
  | some t => (.ok (), { x with trays := x.trays.put scope (t.push r) })
  | none => (.ok (), x)

/-- Sends a text to the player, as far as it may be sent. -/
def reply (text : String) : Serving Unit := ExceptT.mk fun x =>
  (.ok (), { x with sent := x.sent ++ [shortened text] })

end Serving

end Tabletop.Chat
