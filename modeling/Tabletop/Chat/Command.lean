import Tabletop.Calculator
import Tabletop.Chat.Session
import Tabletop.Request
import Tabletop.Shorthand

/-!
# Chat commands

Players roll by commands. The rolls made in a guild, or in a channel outside of guilds, share one
tray. A command does what it says and sends the result. Whatever failure ends it before is told to the
player, except that the player may not use it at all. How names and comments are escaped for the chat
client is a parameter of all commands.
-/

namespace Tabletop.Chat

open Text

inductive Command where
  | roll
  | vroll
  | reroll
  | revise
  | history
  | calculate
  | shorthand (system : GameSystem)
deriving DecidableEq

namespace Command

def all : List Command :=
  [roll, vroll, reroll, revise, history, calculate, shorthand .chronicles, shorthand .exalted,
   shorthand .narrative, shorthand .storyShaper, shorthand .rollAndKeep]

def name : Command → String
  | roll => "roll"
  | vroll => "vroll"
  | reroll => "reroll"
  | revise => "revise"
  | history => "history"
  | calculate => "calc"
  | shorthand .chronicles => "cofd"
  | shorthand .exalted => "exalted"
  | shorthand .narrative => "genesys"
  | shorthand .storyShaper => "storyshaper"
  | shorthand .rollAndKeep => "l5r"

def ofName? (name : String) : Option Command := all.find? fun c => c.name = name

end Command

/-- What may keep a command from running its course. -/
inductive Obstacle where
  /-- The text that the command needs was not given. -/
  | missing
  /-- The player may not use the command here. -/
  | check
  /-- The worker that rolls and calculates fails, or takes too long. -/
  | worker (e : Error)

/-- A command as it comes in. -/
structure Call where
  command : Command
  text : String
  user : Int
  displayName : String
  guild : Option Int
  channel : Int
  obstacle : Option Obstacle

/-- The rolls of a tray, numbered from the oldest. -/
def listing (escape : String → String) (t : Tray Int) : String :=
  String.intercalate "\n" (t.rolls.zipIdx.map fun (r, i) => s!"{i + 1}. " ++ r.format escape "" false)

/-- The command of a request, out of the shorthand of a system if it was given in one. -/
def inNotation (system : Option GameSystem) (command : String) : Except Error String :=
  match system with
  | some system => system.toNotation command
  | none => .ok command

/-- How an error is told to the player. -/
def apology (e : Error) : String :=
  if e.isForPlayers then "Roll error.\n" ++ codeBlock e.message else e.message

namespace Call

/-- The place whose tray the command uses. -/
def scope (c : Call) : Int := c.guild.getD c.channel

/-- What a revision adds to the latest roll. -/
def addition (c : Call) : String := String.ofList (Request.normal (cut ':' c.text.toList).1)

/-- What a revision calls the roll. -/
def remark (c : Call) : String := String.ofList (trim (cut ':' c.text.toList).2)

/-- How the worker fails, if it does. -/
def workerFailure (c : Call) : Option Error :=
  match c.obstacle with
  | some (.worker e) => some e
  | _ => none

/-- Has an order rolled by a worker, and then stores all the rolls. -/
def rollInto (c : Call) (order : Order Int) (times : Nat) : Serving (List (Roll Int)) := do
  let rs ← Serving.work c.workerFailure (order.rollMany times)
  rs.forM (Serving.store c.scope)
  pure rs

variable (escape : String → String) (c : Call)

/-- Sends the rolls as they are shown, each on lines of its own. -/
def announce (verbose : Bool) (rs : List (Roll Int)) : Serving Unit :=
  Serving.reply (String.intercalate "\n" (rs.map fun r => r.format escape (escape c.displayName) verbose))

/-- Rolls a request, in dice notation or in the shorthand of a system. -/
def rollRequest (text : String) (system : Option GameSystem) (verbose : Bool) : Serving Unit := do
  let request ← Serving.check (Request.parse text)
  let command ← Serving.check (inNotation system request.command)
  let _ ← Serving.opened c.scope
  let rs ← c.rollInto ⟨command, request.comment, c.user⟩ request.times
  c.announce escape verbose rs

/-- Rolls once what a tray says to roll. -/
def rollFrom (order : Tray Int → Except Error (Order Int)) : Serving Unit := do
  let t ← Serving.opened c.scope
  let order ← Serving.check (order t)
  let rs ← c.rollInto order 1
  c.announce escape false rs

/-- Sends the rolls of the tray. -/
def announceHistory : Serving Unit := do
  let t ← Serving.opened c.scope
  if t.rolls.isEmpty then Serving.reply "No rolls yet."
  else Serving.reply (listing escape t)

/-- Sends the value of an expression. -/
def calculate : Serving Unit := do
  let answer ← Serving.work c.workerFailure (liftM (Calculator.answer c.text))
  Serving.reply answer

/-- What the command does. Without modifiers the Story Shaper adds nothing. -/
def body : Serving Unit :=
  match c.command with
  | .roll => c.rollRequest escape c.text none false
  | .vroll => c.rollRequest escape c.text none true
  | .reroll => c.rollFrom escape Tray.rerollOrder
  | .revise => c.rollFrom escape fun t => t.revisionOrder ⟨c.addition, c.remark, c.user⟩
  | .history => c.announceHistory escape
  | .calculate => c.calculate
  | .shorthand .storyShaper =>
    c.rollRequest escape (if c.text.isEmpty then "+0" else c.text) (some .storyShaper) false
  | .shorthand system => c.rollRequest escape c.text (some system) false

/-- Runs the command, if nothing stands in its way from the first. -/
def run : Serving Unit :=
  match c.obstacle with
  | some .check => throw .refused
  | some .missing => throw .missing
  | _ => c.body escape

/-- Tells the player of a failure. -/
def apologize : Failure → Serving Unit
  | .refused => pure ()
  | .missing =>
    Serving.reply ("What do you want me to roll? " ++ helpNotice none (some c.command.name))
  | .error e => Serving.reply (apology e)

/-- Runs the command, and tells the player if it fails. -/
def serve : Serving Unit :=
  tryCatch (c.run escape) fun f => do
    c.apologize f
    throw f

end Call

/-- Answers a command: whether it failed, the session that it leaves, and the messages that it sent. -/
def Session.answer (escape : String → String) (s : Session) (c : Call) : Except Failure Unit × Exchange :=
  (c.serve escape).on ⟨s, []⟩

end Tabletop.Chat
