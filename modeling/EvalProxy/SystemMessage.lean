/-
# System messages

A configured system message at the head of a conversation, in place of those that the harness sent
or combined with them.

Main definition: `Settings.apply`.
-/
import EvalProxy.Settings
namespace EvalProxy.SystemMessage

/-- What becomes of the system messages that are already there: they are dropped, or the configured
text goes before or after theirs. -/
inductive Strategy where
  | replace
  | prepend
  | append
  deriving DecidableEq

/-- The configured text and strategy. -/
structure Settings where
  text : String
  strategy : Strategy

/-- The strategy of a name. -/
def Strategy.ofName (name : String) : Strategy :=
  if name = "prepend" then .prepend else if name = "append" then .append else .replace

/-- The form of the settings. -/
def form : Form :=
  .ofFields "system_message" "SystemMessageConfig"
    [Json.required "system_message" .text,
     Json.defaulted "strategy" (.text "replace") (.choice ["replace", "prepend", "append"])]

/-- Settings from their normal form. The text must not be empty. -/
def Settings.read (value : Json) : Except Failure Settings := do
  let v ← form.read value
  let text := Json.asText (Json.field v "system_message")
  if text.isEmpty then .error (.settings "system_message: system_message must not be empty")
  else .ok ⟨text, .ofName (Json.asText (Json.field v "strategy"))⟩

/-- The configured text combined with the existing one. -/
def Settings.combine (s : Settings) (existing : String) : String :=
  match s.strategy with
  | .replace => s.text
  | .prepend => s.text ++ "\n" ++ existing
  | .append => existing ++ "\n" ++ s.text

/-- Whether a message is one of the system. -/
def isSystem (message : Json) : Bool :=
  match message.member? "role" with
  | some (.text role) => role == "system"
  | _ => false

/-- The content of a message, if it is a text. -/
def content? (message : Json) : Option String := (message.member? "content").bind Json.text?

/-- The text of the system message that a conversation gets. -/
def Settings.contentFor (s : Settings) (messages : List Json) : String :=
  match (messages.filter isSystem).filterMap content? with
  | [] => s.text
  | existing => s.combine ("\n".intercalate existing)

/-- A conversation with exactly one system message, at its head. -/
def Settings.applyMessages (s : Settings) (messages : List Json) : List Json :=
  Json.ofMembers [("role", .text "system"), ("content", .text (s.contentFor messages))]
    :: messages.filter fun m => !isSystem m

/-- A request body with the system message in its conversation; a body without one stays as it
is. -/
def Settings.apply (s : Settings) (body : Json) : Json :=
  match body.member? "messages" with
  | some (.array messages) => body.withMember "messages" (.array (s.applyMessages messages))
  | _ => body

end EvalProxy.SystemMessage
