import Tabletop.Limits

/-!
# Sending messages

A message that is too long is cut off, with a note of how much is missing. How it is sent hangs on
where it goes: commands are answered by a reply, or by a follow-up once they were acknowledged.
-/

namespace Tabletop.Chat

inductive Method where
  | reply
  | followup
  | send
deriving DecidableEq

def Method.name : Method → String
  | reply => "reply"
  | followup => "followup"
  | send => "send"

inductive Place where
  /-- A command typed as a message. -/
  | context
  /-- A command from a menu, not yet acknowledged. -/
  | pending
  /-- A command from a menu, already acknowledged. -/
  | deferred
  | channel
deriving DecidableEq

/-- The text as far as it may be sent. -/
def shortened (text : String) : String :=
  let cs := text.toList
  if maxMessageLength < cs.length then
    String.ofList (cs.take maxMessageLength) ++
      s!" ... (message too long, truncated {cs.length - maxMessageLength} characters.)"
  else text

/-- How a text is sent to a place, and what of it. A follow-up needs a text, if only an empty one. -/
def deliver (place : Place) (text : Option String) : Method × Option String :=
  let text := text.map shortened
  match place with
  | .context | .pending => (.reply, text)
  | .deferred => (.followup, some (text.getD ""))
  | .channel => (.send, text)

/-- Sends a text as an answer to a command, after the mention of its author if that is wanted. -/
def respond (place : Place) (mention : Option String) (text : Option String) :
    Method × Option String :=
  let text :=
    match place, mention, text with
    | .channel, _, _ => text
    | _, some author, some body => some (if body.isEmpty then body else author ++ " " ++ body)
    | _, _, _ => text
  deliver place text

/-- The sign that commands begin with, unless another one is chosen. -/
def defaultSummons : String := "~!"

/-- How to ask for help, on one command or in general. -/
def helpNotice (summons : Option String) (command : Option String) : String :=
  let about :=
    match command with
    | some name => " " ++ name
    | none => ""
  s!"See \x60{summons.getD defaultSummons}help{about}\x60."

end Tabletop.Chat
