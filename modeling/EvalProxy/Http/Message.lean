/-
# Calls

A call on its way through the proxy: what the evaluation harness asks, what comes back, and what is
known about the call itself.

Main definitions: `Context`, `Request`, `Response`, `Verdict`.
-/
import EvalProxy.Http.Headers
import EvalProxy.Json.Parse
import EvalProxy.Json.Print
namespace EvalProxy

/-- What is known about a call: the identifier that its log lines share, the fingerprint that a
cache gave its request, and whether its response came from a cache. -/
structure Context where
  requestId : String
  fingerprint : Option String
  fromCache : Bool

/-- The context of a call that just arrived. -/
def Context.arrived (requestId : String) : Context := ⟨requestId, none, false⟩

/-- A call on its way to the model. -/
structure Request where
  method : String
  path : String
  headers : Headers
  body : Json
  context : Context

/-- An answer on its way back to the harness. -/
structure Response where
  status : Nat
  headers : Headers
  body : Bytes
  context : Context

/-- What the model answers. -/
structure Reply where
  status : Nat
  headers : Headers
  body : Bytes

/-- The response that a reply makes for a call. -/
def Reply.toResponse (r : Reply) (context : Context) : Response :=
  { status := r.status, headers := r.headers, body := r.body, context := context }

/-- What becomes of a request: it goes on, or it is answered. -/
inductive Verdict where
  | proceed (request : Request)
  | answer (response : Response)

/-- Whether the model answered the call. -/
def Response.isSuccess (r : Response) : Bool := r.status == 200

/-- The body as a JSON value, if it is one. -/
def Response.json? (r : Response) : Option Json := (Json.parseText r.body).toOption

/-- The response with the text of a JSON value as its body. -/
def Response.withJson (r : Response) (v : Json) : Response :=
  { r with body := Text.encode v.compact }

end EvalProxy
