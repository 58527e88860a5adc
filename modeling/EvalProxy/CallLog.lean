/-
# Logging calls

Requests and responses written to the log, with secrets redacted and long bodies cut, up to a number
of calls.

Main definitions: `Logger.onRequest`, `Logger.onResponse`.
-/
import EvalProxy.Redaction
import EvalProxy.Settings
import EvalProxy.World
namespace EvalProxy.CallLog

/-- How many calls are logged, and how many characters of a body. -/
structure Settings where
  maxCalls : Option Nat
  maxBody : Nat

/-- The form of the settings of a logging component. -/
def form (component : String) : Form :=
  .ofFields component "LoggingInterceptorConfig"
    [Json.optional "max_logged" .u64, Json.defaulted "max_body_chars" (.int 2000) .usize]

/-- Settings from their normal form. -/
def Settings.read (component : String) (value : Json) : Except Failure Settings := do
  let v ← (form component).read value
  .ok ⟨Json.asNat? (Json.field v "max_logged"), Json.asNat (Json.field v "max_body_chars")⟩

/-- A log and the number of calls in it. -/
structure Logger where
  settings : Settings
  logged : Nat

namespace Logger

/-- A log without calls. -/
def fresh (s : Settings) : Logger := ⟨s, 0⟩

/-- Whether no more calls are logged. -/
def isFull (l : Logger) : Bool :=
  match l.settings.maxCalls with
  | some max => max ≤ l.logged
  | none => false

/-- Writes a line, if the log is not full. -/
def write (l : Logger) (line : LogLine) (w : World) : Logger × World :=
  if l.isFull then (l, w) else ({ l with logged := l.logged + 1 }, w.log line)

/-- The line of a request. -/
def requestLine (s : Settings) (r : Request) : LogLine :=
  .outgoing r.context.requestId r.method r.path (Redaction.headersText r.headers)
    (Redaction.bodyText r.body.compact s.maxBody)

/-- The line of a response. -/
def responseLine (s : Settings) (r : Response) : LogLine :=
  .incoming r.context.requestId r.status r.context.fromCache (Redaction.headersText r.headers)
    (Redaction.bodyText (Text.lossy r.body) s.maxBody)

/-- Logs a request, which goes on as it is. -/
def onRequest (l : Logger) (r : Request) (w : World) : Except Failure Verdict × Logger × World :=
  (.ok (.proceed r), l.write (requestLine l.settings r) w)

/-- Logs a response, which stays as it is. -/
def onResponse (l : Logger) (r : Response) (w : World) :
    Except Failure Response × Logger × World :=
  (.ok r, l.write (responseLine l.settings r) w)

end Logger

end EvalProxy.CallLog
