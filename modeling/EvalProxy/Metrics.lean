/-
# Metrics

What the proxy counts. Everything that happened is kept as a list of events, latest first; counters
and histograms are read off it, and `exposition` writes them as text.

Main definitions: `Event`, `samples`, `exposition`.
-/
import EvalProxy.Assoc
import EvalProxy.Decimal.Layout
namespace EvalProxy.Metrics

/-! ## Events -/

/-- Something that is counted. A `request` went through the whole chain; a `model` call was
forwarded to the model, with status zero if no answer came; a save was `skipped` because of a limit
on what `kind` names. -/
inductive Event where
  | request (status : Nat) (cached : Bool) (seconds : Float)
  | model (status : Nat) (seconds : Float)
  | cacheHit
  | cacheMiss
  | cacheWrite
  | skipped (kind : String)
  | progress (delivered : Bool)
  | failure (interceptor : String)

/-- The events so far, latest first. -/
abbrev Log := List Event

/-! ## Families -/

/-- What a family of samples is. -/
inductive Kind where
  | counter
  | histogram (bounds : List Float)

/-- A family of samples under one name. -/
structure Family where
  name : String
  help : String
  kind : Kind

/-- A label of a sample: its name and value. -/
abbrev Label := String × String

/-- Calls through the chain. -/
def requests : Family :=
  ⟨"adapter_requests_total", "Total calls processed by the adapter pipeline", .counter⟩

/-- How long calls through the chain took. -/
def requestDuration : Family :=
  ⟨"adapter_request_duration_seconds", "Pipeline latency in seconds",
    .histogram [0.005, 0.01, 0.05, 0.1, 0.5, 1.0, 2.5, 5.0, 10.0, 30.0, 60.0, 120.0]⟩

/-- Failures in the response phase. -/
def failures : Family :=
  ⟨"adapter_interceptor_failures_total", "Response-phase interceptor failures", .counter⟩

/-- Calls forwarded to the model. -/
def modelCalls : Family :=
  ⟨"adapter_upstream_calls_total", "Calls forwarded to the model endpoint", .counter⟩

/-- How long the model took. -/
def modelDuration : Family :=
  ⟨"adapter_upstream_duration_seconds", "Model endpoint latency in seconds",
    .histogram [0.1, 0.25, 0.5, 1.0, 2.5, 5.0, 10.0, 30.0, 60.0, 120.0, 300.0]⟩

/-- Hits, misses and writes of caches. -/
def cacheOperations : Family :=
  ⟨"adapter_cache_operations_total", "Total cache operations", .counter⟩

/-- Saves that a limit prevented. -/
def savesSkipped : Family :=
  ⟨"adapter_cache_saves_skipped_total", "Saves skipped at the save limit", .counter⟩

/-- Progress reports, delivered or not. -/
def progressReports : Family :=
  ⟨"adapter_progress_reports_total", "Progress reports emitted", .counter⟩

/-- All families in the order of their names. -/
def families : List Family :=
  [cacheOperations, savesSkipped, failures, progressReports, requestDuration, requests,
   modelCalls, modelDuration]

/-! ## Observations -/

/-- What an event adds to one family: the labels of the sample, in the order of their names, and the
amount. -/
structure Observation where
  family : Family
  labels : List Label
  amount : Float

/-- The text of a truth value in a label. -/
def flagText (b : Bool) : String := if b then "true" else "false"

/-- The observations that an event stands for. -/
def Event.observations : Event → List Observation
  | request status cached seconds =>
    [⟨requests, [("cached", flagText cached), ("status_code", toString status)], 1⟩,
     ⟨requestDuration, [("cached", flagText cached)], seconds⟩]
  | model status seconds =>
    [⟨modelCalls, [("status_code", toString status)], 1⟩,
     ⟨modelDuration, [("status_code", toString status)], seconds⟩]
  | cacheHit => [⟨cacheOperations, [("operation", "hit")], 1⟩]
  | cacheMiss => [⟨cacheOperations, [("operation", "miss")], 1⟩]
  | cacheWrite => [⟨cacheOperations, [("operation", "write")], 1⟩]
  | skipped kind => [⟨savesSkipped, [("kind", kind)], 1⟩]
  | progress delivered =>
    [⟨progressReports, [("status", if delivered then "success" else "failure")], 1⟩]
  | failure interceptor => [⟨failures, [("interceptor", interceptor)], 1⟩]

/-- A sample: its labels and the amounts observed, in their order. -/
structure Sample where
  labels : List Label
  amounts : List Float

/-- Whether label values stand in increasing order. -/
def labelsBefore : List Label → List Label → Bool
  | [], [] => false
  | [], _ => true
  | _, [] => false
  | (_, v) :: rest, (_, w) :: rest' => if v = w then labelsBefore rest rest' else v < w

/-- The samples with an amount observed under labels, kept in the order of the label values. -/
def observe (labels : List Label) (amount : Float) : List Sample → List Sample
  | [] => [⟨labels, [amount]⟩]
  | s :: rest =>
    if s.labels = labels then ⟨labels, s.amounts ++ [amount]⟩ :: rest
    else if labelsBefore labels s.labels then ⟨labels, [amount]⟩ :: s :: rest
    else s :: observe labels amount rest

/-- The samples of a family. -/
def samples (log : Log) (family : Family) : List Sample :=
  (log.reverse.flatMap Event.observations).foldl
    (fun acc o => if o.family.name = family.name then observe o.labels o.amount acc else acc) []

/-! ## Text -/

/-- A character inside a label value. -/
def escapeChar (c : Char) : List Char :=
  if c = '\\' then ['\\', '\\']
  else if c = '"' then ['\\', '"']
  else if c = '\n' then ['\\', 'n']
  else [c]

/-- A label as text. -/
def labelText (l : Label) : String :=
  s!"{l.1}=\"" ++ String.ofList (l.2.toList.flatMap escapeChar) ++ "\""

/-- The name of a sample with its labels. -/
def sampleName (name : String) (labels : List Label) : String :=
  match labels with
  | [] => name
  | _ => name ++ "\x7b" ++ ",".intercalate (labels.map labelText) ++ "\x7d"

/-- A line of the exposition. -/
def line (name : String) (labels : List Label) (value : Float) : String :=
  sampleName name labels ++ " " ++ Decimal.Layout.plain.write value ++ "\n"

/-- A count as a float. -/
def countValue (n : Nat) : Float := (UInt64.ofNat n).toFloat

/-- The sum of observed amounts, added in their order. -/
def total (amounts : List Float) : Float := amounts.foldl (· + ·) 0

/-- The lines of a sample. -/
def Sample.lines (f : Family) (s : Sample) : String :=
  match f.kind with
  | .counter => line f.name s.labels (total s.amounts)
  | .histogram bounds =>
    let bucket (bound : String) (n : Nat) : String :=
      line (f.name ++ "_bucket") (s.labels ++ [("le", bound)]) (countValue n)
    String.join
        (bounds.map fun b => bucket (Decimal.Layout.plain.write b) (s.amounts.countP (· ≤ b)))
      ++ bucket "+Inf" s.amounts.length
      ++ line (f.name ++ "_sum") s.labels (total s.amounts)
      ++ line (f.name ++ "_count") s.labels (countValue s.amounts.length)

/-- The word for a kind of family. -/
def Kind.text : Kind → String
  | counter => "counter"
  | histogram _ => "histogram"

/-- The lines of a family; one without samples has none. -/
def Family.lines (log : Log) (f : Family) : String :=
  match samples log f with
  | [] => ""
  | ss =>
    s!"# HELP {f.name} {f.help}\n# TYPE {f.name} {f.kind.text}\n"
      ++ String.join (ss.map (·.lines f))

/-- All samples as text. -/
def exposition (log : Log) : String := String.join (families.map (·.lines log))

/-- The counters, and the counts of the histograms, under their full names. -/
def counts (log : Log) : Dict Nat :=
  families.foldl
    (fun d f =>
      let name := match f.kind with
        | .counter => f.name
        | .histogram _ => f.name ++ "_count"
      (samples log f).foldl (fun d s => d.insert (sampleName name s.labels) s.amounts.length) d)
    Dict.empty

end EvalProxy.Metrics
