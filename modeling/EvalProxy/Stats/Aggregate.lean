/-
# Response statistics

What is known about all responses of a run together. Means are updated one response at a time: the
new mean is the old one plus the distance of the new value from it divided by the number of values.
The numbers that means are made of are a parameter.

Main definitions: `Aggregate`, `Aggregate.record`.
-/
import EvalProxy.Usage
import EvalProxy.Settings
namespace EvalProxy.Stats

/-! ## Settings -/

/-- Where the statistics are kept, what is collected, and how often they are saved; an interval of
zero saves at the end only. -/
structure Settings where
  directory : Option String
  metricsFile : Option String
  tokens : Bool
  finishReasons : Bool
  toolCalls : Bool
  saveInterval : Nat

/-- The form of the settings. -/
def form : Form :=
  .ofFields "response_stats" "StatsConfig"
    [Json.optional "cache_dir" .path, Json.optional "metrics_file" .path,
     Json.defaulted "collect_token_stats" (.bool true) .flag,
     Json.defaulted "collect_finish_reasons" (.bool true) .flag,
     Json.defaulted "collect_tool_calls" (.bool true) .flag,
     Json.defaulted "save_interval" (.int 0) .u64, Json.defaulted "log_interval" (.int 0) .u64]

/-- Settings from their normal form. -/
def Settings.read (value : Json) : Except Failure Settings := do
  let v ← form.read value
  .ok
    { directory := (Json.field v "cache_dir").text?
      metricsFile := (Json.field v "metrics_file").text?
      tokens := Json.asBool (Json.field v "collect_token_stats")
      finishReasons := Json.asBool (Json.field v "collect_finish_reasons")
      toolCalls := Json.asBool (Json.field v "collect_tool_calls")
      saveInterval := Json.asNat (Json.field v "save_interval") }

/-! ## Numbers -/

/-- Numbers that means are made of. -/
class Quantity (α : Type) extends Add α, Sub α, Div α where
  ofNat : Nat → α
  atLeast : α → α → Bool

instance : Quantity Float where
  ofNat n := (UInt64.ofNat n).toFloat
  atLeast x y := y ≤ x

/-- The mean of `n` values from the mean of all but the last, and the last. -/
def runningMean {α : Type} [Quantity α] (mean : Option α) (x : α) (n : Nat) : α :=
  match mean with
  | some m => if 1 < n then m + (x - m) / Quantity.ofNat n else x
  | none => x

/-- The largest of some values from the largest of all but the last, and the last. -/
def runningMax {α : Type} (atLeast : α → α → Bool) (largest : Option α) (x : α) : α :=
  match largest with
  | some m => if atLeast m x then m else x
  | none => x

/-- A count with one more, up to the largest 64-bit count. -/
def bump (n : Nat) : Nat := Usage.cappedAdd n 1

/-- The counts with one more at a key. -/
def bumpAt (counts : Dict Nat) (key : String) : Dict Nat :=
  counts.insert key (bump ((counts.get? key).getD 0))

/-! ## The aggregate -/

/-- A mean and a largest value. -/
structure Spread (α β : Type) where
  mean : Option α
  largest : Option β

/-- The spread of no values. -/
def Spread.empty {α β : Type} : Spread α β := ⟨none, none⟩

/-- The statistics of all responses so far. `successful` counts those that reported usage. -/
structure Aggregate (α : Type) where
  count : Nat
  successful : Nat
  promptTokens : Spread α Nat
  completionTokens : Spread α Nat
  totalTokens : Spread α Nat
  latency : Spread α α
  toolCalls : Nat
  statusCodes : Dict Nat
  finishReasons : Dict Nat
  runId : Nat
  lastUpdated : Option String

namespace Aggregate

variable {α : Type} [Quantity α]

/-- The statistics of no responses. -/
def empty : Aggregate α :=
  { count := 0, successful := 0, promptTokens := .empty, completionTokens := .empty,
    totalTokens := .empty, latency := .empty, toolCalls := 0, statusCodes := .empty,
    finishReasons := .empty, runId := 0, lastUpdated := none }

/-- The spread with a count of tokens added as the `n`-th value. -/
def addTokens (s : Spread α Nat) (tokens n : Nat) : Spread α Nat :=
  ⟨some (runningMean s.mean (Quantity.ofNat tokens) n),
    some (runningMax (fun m x => decide (x ≤ m)) s.largest tokens)⟩

/-- The spread with a latency added as the `n`-th value. -/
def addLatency (s : Spread α α) (latency : α) (n : Nat) : Spread α α :=
  ⟨some (runningMean s.mean latency n), some (runningMax Quantity.atLeast s.largest latency)⟩

/-- The statistics with the usage of a response added. -/
def addUsage (settings : Settings) (u : Usage) (latency : α) (a : Aggregate α) : Aggregate α :=
  let n := bump a.successful
  let tokens (s : Spread α Nat) (count : Nat) : Spread α Nat :=
    if settings.tokens then addTokens s count n else s
  { a with
    successful := n
    promptTokens := tokens a.promptTokens u.promptTokens
    completionTokens := tokens a.completionTokens u.completionTokens
    totalTokens := tokens a.totalTokens u.totalTokens
    latency := addLatency a.latency latency n
    toolCalls := if settings.toolCalls then Usage.cappedAdd a.toolCalls u.toolCalls else a.toolCalls
    finishReasons :=
      if settings.finishReasons then u.finishReasons.foldl bumpAt a.finishReasons
      else a.finishReasons }

/-- The statistics with a response added: its status, its usage if it reported any, and how long it
took; `stamp` is the time of the update. -/
def record (settings : Settings) (status : Nat) (usage : Option Usage) (latency : α)
    (stamp : String) (a : Aggregate α) : Aggregate α :=
  let counted :=
    { a with count := bump a.count, statusCodes := bumpAt a.statusCodes (toString status) }
  let added := match usage with
    | some u => counted.addUsage settings u latency
    | none => counted
  { added with lastUpdated := some stamp }

end Aggregate

/-! ## As JSON -/

/-- Counts by key. -/
def countsJson (counts : Dict Nat) : Json :=
  .object (counts.entries.map fun e => (e.1, Json.nat e.2))

/-- A float, or `null` for what no number stands for. -/
def floatJson (x : Option Float) : Json :=
  match x with
  | some x => if x.isNaN || x.isInf then .null else .float x
  | none => .null

/-- The members that statistics are written as. -/
def Aggregate.members (a : Aggregate Float) : List (String × Json) :=
  let largest (n : Option Nat) : Json := Json.ofOption Json.nat n
  [("count", .nat a.count), ("successful_count", .nat a.successful),
   ("avg_prompt_tokens", floatJson a.promptTokens.mean),
   ("avg_completion_tokens", floatJson a.completionTokens.mean),
   ("avg_total_tokens", floatJson a.totalTokens.mean),
   ("max_prompt_tokens", largest a.promptTokens.largest),
   ("max_completion_tokens", largest a.completionTokens.largest),
   ("max_total_tokens", largest a.totalTokens.largest),
   ("avg_latency_ms", floatJson a.latency.mean),
   ("max_latency_ms", floatJson a.latency.largest),
   ("tool_calls_count", .nat a.toolCalls),
   ("status_codes", countsJson a.statusCodes), ("finish_reason", countsJson a.finishReasons),
   ("run_id", .nat a.runId), ("last_updated", Json.ofOption Json.text a.lastUpdated)]

/-- The statistics as a JSON object. -/
def Aggregate.toJson (a : Aggregate Float) : Json := Json.ofMembers a.members

/-- The shape of saved statistics; what is absent counts as nothing. -/
def shape : Json.Shape :=
  .record "ResponseStats" false
    [Json.defaulted "count" (.int 0) .u64, Json.defaulted "successful_count" (.int 0) .u64,
     Json.optional "avg_prompt_tokens" .float, Json.optional "avg_completion_tokens" .float,
     Json.optional "avg_total_tokens" .float,
     Json.optional "max_prompt_tokens" .u64, Json.optional "max_completion_tokens" .u64,
     Json.optional "max_total_tokens" .u64,
     Json.optional "avg_latency_ms" .float, Json.optional "max_latency_ms" .float,
     Json.defaulted "tool_calls_count" (.int 0) .u64,
     Json.defaulted "status_codes" (.object []) (.dict .u64),
     Json.defaulted "finish_reason" (.object []) (.dict .u64),
     Json.defaulted "run_id" (.int 0) .u64, Json.optional "last_updated" .text]

/-- Counts from an object of counts. -/
def countsOf (v : Json) : Dict Nat :=
  Dict.ofList ((Json.asMembers v).map fun m => (m.1, Json.asNat m.2))

/-- The statistics from their normal form. -/
def Aggregate.ofJson (v : Json) : Aggregate Float :=
  let f := Json.field v
  let tokens (name : String) : Spread Float Nat :=
    ⟨Json.asFloat? (f s!"avg_{name}_tokens"), Json.asNat? (f s!"max_{name}_tokens")⟩
  { count := Json.asNat (f "count")
    successful := Json.asNat (f "successful_count")
    promptTokens := tokens "prompt"
    completionTokens := tokens "completion"
    totalTokens := tokens "total"
    latency := ⟨Json.asFloat? (f "avg_latency_ms"), Json.asFloat? (f "max_latency_ms")⟩
    toolCalls := Json.asNat (f "tool_calls_count")
    statusCodes := countsOf (f "status_codes")
    finishReasons := countsOf (f "finish_reason")
    runId := Json.asNat (f "run_id")
    lastUpdated := (f "last_updated").text? }

/-- The statistics that a text spells, or what is wrong with it. -/
def Aggregate.parse (text : Bytes) : Except String (Aggregate Float) :=
  (shape.parseText text).map Aggregate.ofJson

end EvalProxy.Stats
