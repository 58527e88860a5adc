/-
# Failures

Everything that can go wrong, by cause, with the wording of each cause and the HTTP answer that a
failed call gets.

Main definitions: `Failure`, `Failure.message`, `Failure.response`.
-/
import EvalProxy.Cache.Diagnosis
import EvalProxy.Http.Message
namespace EvalProxy

/-- What went wrong. `settings` is a configuration that cannot be used and `layering` one whose
sources cannot be combined; `storage` is a cache that cannot be opened, `database` an operation on
an open one, and `model` a call that the model did not answer. -/
inductive Failure where
  | settings (detail : String)
  | layering (detail : String)
  | cacheMiss (diagnosis : Cache.Diagnosis)
  | storage (detail : String)
  | database (detail : String)
  | exporting (detail : String)
  | model (detail : String)
  | file (detail : String)
  | json (detail : String)
  | http (detail : String)
  | invalidRequest (detail : String)
  | internal (detail : String)

namespace Failure

/-- The wording of a failure. -/
def message : Failure → String
  | settings d => s!"Configuration error: {d}"
  | layering d => s!"Config parsing error: {d}"
  | cacheMiss d => d.message
  | storage d => s!"Cache storage error: {d}"
  | database d => s!"SQLite error: {d}"
  | exporting d => s!"Cache export error: {d}"
  | model d => s!"Upstream error: {d}"
  | file d => s!"IO error: {d}"
  | json d => s!"JSON error: {d}"
  | http d => s!"HTTP error: {d}"
  | invalidRequest d => s!"Invalid request: {d}"
  | internal d => s!"Internal error: {d}"

/-- Whether the configuration is to blame. -/
def isSettings : Failure → Bool
  | settings _ | layering _ => true
  | _ => false

/-- The HTTP status of a failed call and the word for its kind. -/
def status : Failure → Nat × String
  | invalidRequest _ => (400, "invalid_request_error")
  | settings _ | layering _ => (500, "configuration_error")
  | cacheMiss _ => (500, "cache_miss_error")
  | model _ | http _ => (502, "upstream_error")
  | storage _ | database _ | exporting _ => (500, "storage_error")
  | file _ | json _ | internal _ => (500, "api_error")

/-- What a diagnosis adds to the answer of a failed call. -/
def details : Failure → List (String × Json)
  | cacheMiss d =>
    ("request", .text d.request) ::
      match d.closest with
      | none => []
      | some s =>
        [("similar_request", .text s.request), ("similarity_score", .float s.score),
         ("diff", .text s.diff)]
  | _ => []

/-- The body of the answer to a failed call. -/
def body (f : Failure) : Json :=
  Json.ofMembers
    [("type", .text "error"),
     ("error",
       Json.ofMembers ([("type", .text f.status.2), ("message", .text f.message)] ++ f.details))]

/-- The media type of JSON. -/
def jsonType : Bytes := Text.encode "application/json"

/-- The answer to a failed call. -/
def response (f : Failure) (context : Context) : Response :=
  { status := f.status.1, headers := [("content-type", [jsonType])],
    body := Text.encode f.body.compact, context := context }

end Failure

end EvalProxy
