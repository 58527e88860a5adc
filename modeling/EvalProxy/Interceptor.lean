/-
# Interceptors and hooks

The stages and hooks that the proxy comes with, under the names that configurations use.

Main definitions: `Interceptor`, `LifecycleHook`.
-/
import EvalProxy.Cache.Interceptor
import EvalProxy.CallLog
import EvalProxy.Chain
import EvalProxy.Hooks.Report
import EvalProxy.Hooks.RunMetadata
import EvalProxy.Payload
import EvalProxy.Progress
import EvalProxy.Reasoning
import EvalProxy.Stats.Recorder
import EvalProxy.SystemMessage
namespace EvalProxy

/-- A stage that the proxy comes with. -/
inductive Interceptor where
  | caching (c : Caching)
  | stats (r : Stats.Recorder)
  | progress (t : Progress.Tracker)
  | reasoning (s : Reasoning.Settings)
  | payload (s : Payload.Settings)
  | systemMessage (s : SystemMessage.Settings)
  | requestLog (l : CallLog.Logger)
  | responseLog (l : CallLog.Logger)

namespace Interceptor

/-- The name of a stage. -/
def name : Interceptor → String
  | caching _ => "caching"
  | stats _ => "response_stats"
  | progress _ => "progress_tracking"
  | reasoning _ => "reasoning"
  | payload _ => "payload_modifier"
  | systemMessage _ => "system_message"
  | requestLog _ => "request_logging"
  | responseLog _ => "response_logging"

/-- An outcome with the stage that an action leaves put back into place. -/
def wrap {σ α : Type} (put : σ → Interceptor) (result : α × σ × World) : α × Interceptor × World :=
  (result.1, put result.2.1, result.2.2)

/-- Takes a request. -/
def onRequest (i : Interceptor) (r : Request) (w : World) :
    Except Failure Verdict × Interceptor × World :=
  match i with
  | caching c => wrap caching (c.onRequest r w)
  | requestLog l => wrap requestLog (l.onRequest r w)
  | payload s =>
    match s.apply r.body with
    | .ok body => (.ok (.proceed { r with body := body }), i, w)
    | .error e => (.error e, i, w)
  | systemMessage s => (.ok (.proceed { r with body := s.apply r.body }), i, w)
  | stats _ | progress _ | reasoning _ | responseLog _ => (.ok (.proceed r), i, w)

/-- Takes a response. -/
def onResponse (i : Interceptor) (r : Response) (w : World) :
    Except Failure Response × Interceptor × World :=
  match i with
  | caching c => wrap caching (c.onResponse r w)
  | stats s => wrap stats (s.onResponse r w)
  | progress t => wrap progress (t.onResponse r w)
  | responseLog l => wrap responseLog (l.onResponse r w)
  | reasoning s => (.ok (Reasoning.onResponse s r), i, w)
  | payload _ | systemMessage _ | requestLog _ => (.ok r, i, w)

/-- Gets ready for the first call. -/
def onStart (i : Interceptor) (w : World) : Except Failure Unit × Interceptor × World :=
  match i with
  | caching c => wrap caching (c.onStart w)
  | stats s => wrap stats (s.onStart w)
  | progress t => wrap progress (t.onStart w)
  | _ => (.ok (), i, w)

/-- Winds up after the last call. -/
def onShutdown (i : Interceptor) (w : World) : Except Failure Unit × Interceptor × World :=
  match i with
  | caching c => wrap caching (c.onShutdown w)
  | stats s => wrap stats (s.onShutdown w)
  | progress t => wrap progress (t.onShutdown w)
  | _ => (.ok (), i, w)

/-- The time that a stage waits for. -/
def timer? : Interceptor → Option Nat
  | progress t => t.timer
  | _ => none

/-- What a stage does at the time that it waits for. -/
def fire (i : Interceptor) (w : World) : Interceptor × World :=
  match i with
  | progress t =>
    let (t, w) := t.fire w.now w
    (progress t, w)
  | _ => (i, w)

end Interceptor

instance : Stage Interceptor where
  name := Interceptor.name
  onRequest := Interceptor.onRequest
  onResponse := Interceptor.onResponse
  onStart := Interceptor.onStart
  onShutdown := Interceptor.onShutdown
  timer? := Interceptor.timer?
  fire := Interceptor.fire

/-! ## Hooks -/

/-- A hook that the proxy comes with. -/
inductive LifecycleHook where
  | runMetadata (s : RunMetadata.Settings)
  | report (s : Report.Settings)

instance : Hook LifecycleHook where
  name
    | .runMetadata _ => "run_metadata"
    | .report _ => "post_eval_report"
  run
    | .runMetadata s => RunMetadata.run s
    | .report s => Report.run s

end EvalProxy
