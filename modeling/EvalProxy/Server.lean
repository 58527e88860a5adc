/-
# The HTTP surface

What the proxy answers to an HTTP request. Two paths tell about the proxy itself; everything else
is a call that goes through the chain. Every answer carries the identifier of its request.

Main definition: `Server.respond`.
-/
import EvalProxy.Pipeline
import EvalProxy.Text.Integer
namespace EvalProxy

/-- An HTTP request as it arrives. -/
structure HttpRequest where
  method : String
  target : String
  headers : Headers
  body : Bytes

namespace Server

/-! ## Requests -/

/-- The field that carries the identifier of a request. -/
def idName : String := "x-request-id"

/-- The characters behind a scheme and its authority, if a target has them. -/
def behindAuthority (cs : List Char) : List Char :=
  let scheme := cs.takeWhile fun c => c.isAlphanum || c == '+' || c == '-' || c == '.'
  match cs.drop scheme.length with
  | ':' :: '/' :: '/' :: rest => rest.dropWhile fun c => c != '/' && c != '?' && c != '#'
  | _ => cs

/-- The path of a target, without its query. -/
def pathOf (target : String) : String :=
  let path := (behindAuthority target.toList).takeWhile fun c => c != '?' && c != '#'
  if path.isEmpty then "/" else String.ofList path

/-- The number that a field value spells in decimal, if it does. -/
def decimal? (value : Bytes) : Option Nat := (Headers.plain? value).bind Text.natural?

/-- The length that a request announces for its body, if it does. -/
def announced? (h : Headers) : Option Nat := (h.get? "content-length").bind decimal?

/-- Whether the announced length is above a limit. -/
def announcesTooMuch (h : Headers) (limit : Nat) : Bool :=
  match announced? h with
  | some n => limit < n
  | none => false

/-- The largest body of a call that is ever taken. -/
def largestBody : Nat := 2 * 1024 * 1024

/-- The largest body of a call that is taken under a limit: never more than was announced. -/
def bodyLimit (h : Headers) (limit : Nat) : Nat :=
  min (min limit ((announced? h).getD limit)) largestBody

/-- The value of an empty body is `null`. -/
def parseBody (body : Bytes) : Except Failure Json :=
  if body.isEmpty then .ok .null
  else
    (Json.parseText body).mapError fun m => .invalidRequest s!"JSON deserialization error: {m}"

/-- The identifier of a call: the one that its request carries, or a fresh one. -/
def callId (h : Headers) (w : World) : String × World :=
  match (h.get? idName).bind Headers.plain? with
  | some id => (id, w)
  | none =>
    let (name, w) := w.freshName
    (s!"req_{name}", w)

/-! ## Answers -/

/-- An answer in plain text. -/
def plainReply (status : Nat) (text : String) : Reply :=
  ⟨status, [("content-type", [Text.encode "text/plain; charset=utf-8"])], Text.encode text⟩

/-- An answer without its context. -/
def toReply (r : Response) : Reply := ⟨r.status, r.headers, r.body⟩

/-- A failure as an answer. -/
def failureReply (f : Failure) : Reply := toReply (f.response (.arrived ""))

/-- The answer of a call. A status outside the range of HTTP is a failure of the model. -/
def outcomeReply : Except Failure Response → Reply
  | .error f => failureReply f
  | .ok r =>
    if 100 ≤ r.status && r.status < 1000 then toReply r
    else
      failureReply (.model s!"invalid upstream status {r.status}: invalid status code")

/-- How the proxy is. -/
def healthReply (components : List String) (w : World) : Reply :=
  let body :=
    Json.object
      [("status", .text "healthy"), ("components", .array (components.map .text)),
       ("uptime_seconds", .nat (w.now / 1000)), ("timestamp", .text w.stamp)]
  ⟨200, [("content-type", [Failure.jsonType])], Text.encode body.compact⟩

/-- What the proxy counted. -/
def metricsReply (w : World) : Reply :=
  ⟨200, [("content-type", [Text.encode "text/plain; version=0.0.4"])],
    Text.encode (Metrics.exposition w.events)⟩

/-- A method that a path does not admit. -/
def wrongMethod : Reply := ⟨405, [("allow", [Text.encode "GET,HEAD"])], []⟩

/-- A body above a limit that was announced. -/
def announcedTooLarge : Reply := plainReply 413 "length limit exceeded"

/-- A body above a limit that was not announced. -/
def bodyTooLarge : Reply :=
  plainReply 413 "Failed to buffer the request body: length limit exceeded"

/-! ## Responding -/

variable {ι κ : Type} [Stage ι] [Hook κ]

/-- Takes a call through the chain. -/
def proxy (ask : Request → World → Except Failure Response × World) (p : Pipeline ι κ)
    (r : HttpRequest) (w : World) : Reply × Pipeline ι κ × World :=
  let (id, w) := callId r.headers w
  match parseBody r.body with
  | .error f => (failureReply f, p, w)
  | .ok body =>
    let request : Request := ⟨r.method, pathOf r.target, r.headers, body, .arrived id⟩
    let (outcome, p, w) := p.process ask request w
    (outcomeReply outcome, p, w)

/-- Whether a method reads. -/
def isRead (method : String) : Bool := method == "GET" || method == "HEAD"

/-- Answers by path. -/
def route (ask : Request → World → Except Failure Response × World) (maxBody : Nat)
    (p : Pipeline ι κ) (r : HttpRequest) (w : World) : Reply × Pipeline ι κ × World :=
  match pathOf r.target with
  | "/health" =>
    (if isRead r.method then healthReply p.context.components w else wrongMethod, p, w)
  | "/metrics" => (if isRead r.method then metricsReply w else wrongMethod, p, w)
  | _ =>
    if bodyLimit r.headers maxBody < r.body.length then (bodyTooLarge, p, w) else proxy ask p r w

/-- An answer with its length, and without its body if only the head is asked for. -/
def sized (method : String) (r : Reply) : Reply :=
  let headers :=
    if r.headers.contains "content-length" then r.headers
    else r.headers.append "content-length" (Text.encode (toString r.body.length))
  { r with headers := headers, body := if method == "HEAD" then [] else r.body }

/-- An answer with the identifier of its request, unless it has one. -/
def identified (id : Bytes) (r : Reply) : Reply :=
  if r.headers.contains idName then r else { r with headers := r.headers.append idName id }

/-- Gives a request an identifier, unless it has one. -/
def identify (r : HttpRequest) (w : World) : HttpRequest × World :=
  if r.headers.contains idName then (r, w)
  else
    let (id, w) := w.freshId
    ({ r with headers := r.headers.append idName (Text.encode id) }, w)

/-- Answers a request, whose body may have at most `maxBody` octets. -/
def respond (ask : Request → World → Except Failure Response × World) (maxBody : Nat)
    (p : Pipeline ι κ) (r : HttpRequest) (w : World) : Reply × Pipeline ι κ × World :=
  let (r, w) := identify r w
  let id := (r.headers.get? idName).getD []
  let (reply, p, w) :=
    if announcesTooMuch r.headers maxBody then (announcedTooLarge, p, w)
    else route ask maxBody p r w
  (identified id (sized r.method reply), p, w)

end Server

end EvalProxy
