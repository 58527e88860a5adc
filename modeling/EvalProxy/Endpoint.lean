/-
# The model endpoint

Calls that no stage answers are forwarded to the model. The fields that describe a single hop are
left out on both ways, and every forwarded call is counted unless its answer breaks off.

Main definition: `Endpoint.send`.
-/
import EvalProxy.World
namespace EvalProxy.Endpoint

/-- What the network makes of a request: the model is not reached, its answer breaks off, or it
comes whole. -/
inductive Delivery where
  | unreachable (detail : String)
  | brokenOff (detail : String)
  | whole (reply : Reply)

/-- The header fields that a forwarded request carries: those of the call, and what clients say when
the call does not. -/
def requestHeaders (h : Headers) : Headers :=
  let kept := h.forwardable
  let typed :=
    if kept.contains "content-type" then kept else kept.append "content-type" Failure.jsonType
  if typed.contains "accept" then typed else typed.append "accept" (Text.encode "*/*")

/-- The request as it goes to the model. -/
def outgoing (r : Request) : Request := { r with headers := requestHeaders r.headers }

/-- The failure of a call that did not reach the model. -/
def notReached (detail : String) : Failure := .model s!"HTTP error: {detail}"

/-- The failure of a call whose answer broke off. -/
def brokeOff (detail : String) : Failure := .model s!"Failed to read response body: {detail}"

/-- Forwards a call over a network. A call that does not reach the model is counted with status
zero. -/
def send (network : Request → Delivery) (r : Request) (w : World) :
    Except Failure Response × World :=
  let seconds := w.latency / 1000
  match network (outgoing r) with
  | .unreachable detail => (.error (notReached detail), w.note (.model 0 seconds))
  | .brokenOff detail => (.error (brokeOff detail), w)
  | .whole reply =>
    let kept := { reply with headers := reply.headers.forwardable }
    (.ok (kept.toResponse r.context), w.note (.model reply.status seconds))

end EvalProxy.Endpoint
