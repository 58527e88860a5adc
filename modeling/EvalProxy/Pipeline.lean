/-
# Pipelines

A chain with the hooks around an evaluation. The hooks before it and the stages are started once; at
the end the stages are shut down and the hooks after it run, once.

Main definitions: `Pipeline`, `Pipeline.build`, `Pipeline.start`, `Pipeline.process`,
`Pipeline.shutdown`.
-/
import EvalProxy.Config.Adapter
import EvalProxy.Registry
namespace EvalProxy

/-- A chain with its hooks, and whether it was started and shut down. -/
structure Pipeline (ι κ : Type) where
  stages : List ι
  preHooks : List κ
  postHooks : List κ
  context : HookContext
  started : Bool
  stopped : Bool

namespace Pipeline

variable {ι κ : Type} [Stage ι] [Hook κ]

/-! ## Assembly -/

/-- A pipeline of the given components; there must be one. -/
def assemble (stages : List ι) (preHooks postHooks : List κ) (outputDirectory : String) :
    Except Failure (Pipeline ι κ) :=
  if stages.isEmpty && preHooks.isEmpty && postHooks.isEmpty then
    .error (.settings
      "adapter has no enabled interceptors or hooks; refusing to run a no-op proxy")
  else
    let names := stages.map Stage.name ++ preHooks.map Hook.name ++ postHooks.map Hook.name
    .ok
      { stages := stages, preHooks := preHooks, postHooks := postHooks,
        context := ⟨outputDirectory, names⟩, started := false, stopped := false }

/-- Builds the components that are used, in order, up to the first that fails. -/
def buildAll {α : Type} (make : String → Json → World → Except Failure α × World) :
    List ComponentConfig → World → Except Failure (List α) × World
  | [], w => (.ok [], w)
  | c :: rest, w =>
    if c.enabled then
      match make c.name c.settings w with
      | (.error e, w) => (.error e, w)
      | (.ok a, w) =>
        let (outcome, w) := buildAll make rest w
        (outcome.map (a :: ·), w)
    else buildAll make rest w

/-- The pipeline of a configuration. -/
def build (r : Registry ι κ) (c : AdapterConfig) (w : World) :
    Except Failure (Pipeline ι κ) × World :=
  let interceptor (name : String) (s : Json) := r.buildInterceptor name s c.outputDirectory
  let hook (name : String) (s : Json) := r.buildHook name s c.outputDirectory
  match buildAll interceptor c.interceptors w with
  | (.error e, w) => (.error e, w)
  | (.ok stages, w) =>
    match buildAll hook c.preHooks w with
    | (.error e, w) => (.error e, w)
    | (.ok preHooks, w) =>
      match buildAll hook c.postHooks w with
      | (.error e, w) => (.error e, w)
      | (.ok postHooks, w) => (assemble stages preHooks postHooks c.outputDirectory, w)

/-! ## Life -/

/-- Runs hooks in order, up to the first that fails. -/
def runHooks (c : HookContext) : List κ → World → Except Failure Unit × World
  | [], w => (.ok (), w)
  | h :: rest, w =>
    match Hook.run h c w with
    | (.ok (), w) => runHooks c rest w
    | (.error e, w) => (.error e, w)

/-- Runs all hooks in order, whatever fails. -/
def runAllHooks (c : HookContext) : List κ → World → World
  | [], w => w
  | h :: rest, w => runAllHooks c rest (Hook.run h c w).2

/-- Runs the hooks before the evaluation and starts the stages, the first time only. -/
def start (p : Pipeline ι κ) (w : World) : Except Failure Unit × Pipeline ι κ × World :=
  if p.started then (.ok (), p, w)
  else
    let p := { p with started := true }
    match runHooks p.context p.preHooks w with
    | (.error e, w) => (.error e, p, w)
    | (.ok (), w) =>
      let (outcome, stages, w) := Chain.start p.stages w
      (outcome, { p with stages := stages }, w)

/-- Takes a call through the chain; `ask` sends a request to the model. -/
def process (ask : Request → World → Except Failure Response × World) (p : Pipeline ι κ)
    (r : Request) (w : World) : Except Failure Response × Pipeline ι κ × World :=
  let (outcome, stages, w) := Chain.process ask p.stages r w
  (outcome, { p with stages := stages }, w)

/-- Shuts the stages down and runs the hooks after the evaluation, the first time only. -/
def shutdown (p : Pipeline ι κ) (w : World) : Pipeline ι κ × World :=
  if p.stopped then (p, w)
  else
    let (stages, w) := Chain.shutdown p.stages w
    ({ p with stages := stages, stopped := true }, runAllHooks p.context p.postHooks w)

/-- Lets time pass. -/
def advance (p : Pipeline ι κ) (milliseconds : Nat) (w : World) : Pipeline ι κ × World :=
  let (stages, w) := Chain.advance p.stages milliseconds w
  ({ p with stages := stages }, w)

end Pipeline

end EvalProxy
