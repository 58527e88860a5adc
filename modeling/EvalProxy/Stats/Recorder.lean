/-
# Keeping statistics

A recorder adds every response that the model gave to its statistics and keeps them in two files: a
state file, from which the next run goes on, and one member of a metrics file that other tools may
write to as well.

Main definitions: `Recorder.load`, `Recorder.save`, `Recorder.onResponse`.
-/
import EvalProxy.Stats.Aggregate
import EvalProxy.World
namespace EvalProxy.Stats

/-- Statistics and where they are kept. -/
structure Recorder where
  settings : Settings
  statePath : String
  metricsPath : String
  stats : Aggregate Float

namespace Recorder

/-- The directory, below the output directory, of a state file for which none is configured. -/
def stateDirectory : String := "response_stats"

/-- The name of the state file. -/
def stateName : String := "response_stats.json"

/-- The name of a metrics file for which none is configured. -/
def metricsName : String := "adapter_metrics.json"

/-- The member of the metrics file that holds the statistics. -/
def metricsKey : String := "response_stats"

/-- A recorder without responses. -/
def fresh (settings : Settings) (outputDirectory : String) : Recorder :=
  let below (name : String) := Files.Path.join outputDirectory name
  { settings := settings
    statePath := Files.Path.join (settings.directory.getD (below stateDirectory)) stateName
    metricsPath := settings.metricsFile.getD (below metricsName)
    stats := .empty }

/-- The statistics at the start of a run that goes on from them. -/
def nextRun (a : Aggregate Float) : Aggregate Float :=
  { a with runId := (a.runId + 1) % UInt64.size }

/-- Goes on from the state file, if there is one. -/
def load (r : Recorder) (t : Files.Tree) : Except Failure Recorder :=
  if !t.contains r.statePath then .ok r
  else
    match t.read r.statePath with
    | .error e => .error (.file e.message)
    | .ok content =>
      match Aggregate.parse content with
      | .error m => .error (.settings s!"corrupt stats state {r.statePath}: {m}")
      | .ok a => .ok { r with stats := nextRun a }

/-- The object that a metrics file holds; anything else counts as the empty one. -/
def metricsObject (t : Files.Tree) (path : String) : Json :=
  match t.read path with
  | .ok content =>
    match Json.parseText content with
    | .ok (.object members) => .object members
    | _ => .object []
  | .error _ => .object []

/-- Writes both files, each as a whole; the metrics file keeps its other members. `name` tells the
temporary files from all others. Gives the files in any case. -/
def save (r : Recorder) (t : Files.Tree) (name : String) : Files.Tree × Option Files.Fault :=
  let value := r.stats.toJson
  match t.replace r.statePath name (Text.encode value.pretty) with
  | (t, some e) => (t, some e)
  | (t, none) =>
    let metrics := (metricsObject t r.metricsPath).withMember metricsKey value
    t.replace r.metricsPath name (Text.encode metrics.pretty)

/-- The recorder with a response added. -/
def record (r : Recorder) (response : Response) (latency : Float) (stamp : String) : Recorder :=
  { r with
    stats :=
      r.stats.record r.settings response.status (Usage.ofBody? response.body) latency stamp }

/-- Whether the statistics are due to be saved. -/
def isDue (r : Recorder) : Bool :=
  0 < r.settings.saveInterval && r.stats.count % r.settings.saveInterval == 0

/-- Saves the statistics in the world. -/
def saveIn (r : Recorder) (w : World) : Except Failure Unit × World :=
  let (name, w) := w.freshName
  let (tree, fault) := r.save w.tree name
  let outcome := match fault with
    | none => .ok ()
    | some e => .error (.file e.message)
  (outcome, { w with tree := tree })

/-- Takes a response, which stays as it is; one from a cache is not counted. -/
def onResponse (r : Recorder) (response : Response) (w : World) :
    Except Failure Response × Recorder × World :=
  if response.context.fromCache then (.ok response, r, w)
  else
    let r := r.record response w.latency w.stamp
    let w := if r.isDue then (r.saveIn w).2 else w
    (.ok response, r, w)

/-- Goes on from the state file. -/
def onStart (r : Recorder) (w : World) : Except Failure Unit × Recorder × World :=
  match r.load w.tree with
  | .ok r => (.ok (), r, w)
  | .error e => (.error e, r, w)

/-- Saves the statistics. -/
def onShutdown (r : Recorder) (w : World) : Except Failure Unit × Recorder × World :=
  let (outcome, w) := r.saveIn w
  (outcome, r, w)

end Recorder

end EvalProxy.Stats
