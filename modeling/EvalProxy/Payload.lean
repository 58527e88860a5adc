/-
# Request parameters

Top-level parameters of a request body that are removed, added and renamed, in this order.

Main definition: `Settings.apply`.
-/
import EvalProxy.Settings
namespace EvalProxy.Payload

/-- The parameters to add, to remove, and to rename from an old to a new name. -/
structure Settings where
  add : List (String × Json)
  remove : List String
  rename : List (String × String)

/-- The form of the settings. -/
def form : Form :=
  .ofFields "payload_modifier" "PayloadConfig"
    [Json.defaulted "params_to_add" (.object []) (.dict .any),
     Json.defaulted "params_to_remove" (.array []) (.list .text),
     Json.defaulted "params_to_rename" (.object []) (.dict .text)]

/-- Settings from their normal form. They must ask for something. -/
def Settings.read (value : Json) : Except Failure Settings := do
  let v ← form.read value
  let s : Settings :=
    ⟨Json.asMembers (Json.field v "params_to_add"),
      (Json.asArray (Json.field v "params_to_remove")).map Json.asText,
      (Json.asMembers (Json.field v "params_to_rename")).map fun m => (m.1, Json.asText m.2)⟩
  if s.add.isEmpty && s.remove.isEmpty && s.rename.isEmpty then
    .error (.settings ("payload_modifier: at least one of params_to_add, params_to_remove, "
      ++ "params_to_rename is required"))
  else .ok s

/-- The members with one of them moved to a new name, if it is there. -/
def moveMember (members : List (String × Json)) (pair : String × String) : List (String × Json) :=
  match Assoc.get? pair.1 members with
  | some v => Assoc.insert pair.2 v (Assoc.erase pair.1 members)
  | none => members

/-- The members after removals, additions and renames. -/
def Settings.applyMembers (s : Settings) (members : List (String × Json)) : List (String × Json) :=
  let kept := s.remove.foldl (fun ms key => Assoc.erase key ms) members
  let extended := s.add.foldl (fun ms m => Assoc.insert m.1 m.2 ms) kept
  s.rename.foldl moveMember extended

/-- A request body with its parameters changed; only an object has parameters. -/
def Settings.apply (s : Settings) (body : Json) : Except Failure Json :=
  match body with
  | .object members => .ok (.object (s.applyMembers members))
  | _ => .error (.invalidRequest "request body must be a JSON object")

end EvalProxy.Payload
