/-
# Chains

A call passes a chain of stages: every stage takes the request in order until one answers it or
fails; if none does, the model is asked. Then every stage takes the response in the same order. A
stage that fails on a response is passed over.

Main definitions: `Stage`, `requestPhase`, `responsePhase`, `process`.
-/
import EvalProxy.World
namespace EvalProxy

/-- What a stage of a chain does. Each action gives its outcome, the stage afterwards and the world
afterwards. A stage may wait for a time; `fire` is what it does then. -/
class Stage (ι : Type) where
  name : ι → String
  onRequest : ι → Request → World → Except Failure Verdict × ι × World
  onResponse : ι → Response → World → Except Failure Response × ι × World
  onStart : ι → World → Except Failure Unit × ι × World
  onShutdown : ι → World → Except Failure Unit × ι × World
  timer? : ι → Option Nat := fun _ => none
  fire : ι → World → ι × World := fun s w => (s, w)

namespace Chain

variable {ι : Type} [Stage ι]

/-- Takes a request through the stages until one answers it or fails. -/
def requestPhase : List ι → Request → World → Except Failure Verdict × List ι × World
  | [], r, w => (.ok (.proceed r), [], w)
  | s :: rest, r, w =>
    match Stage.onRequest s r w with
    | (.ok (.proceed r), s, w) =>
      let (outcome, rest, w) := requestPhase rest r w
      (outcome, s :: rest, w)
    | (outcome, s, w) => (outcome, s :: rest, w)

/-- Takes a response through all stages. A stage that fails is counted and passed over. -/
def responsePhase : List ι → Response → World → Response × List ι × World
  | [], r, w => (r, [], w)
  | s :: rest, r, w =>
    match Stage.onResponse s r w with
    | (.ok r, s, w) =>
      let (r, rest, w) := responsePhase rest r w
      (r, s :: rest, w)
    | (.error _, s, w) =>
      let (r, rest, w) := responsePhase rest r (w.note (.failure (Stage.name s)))
      (r, s :: rest, w)

/-- Takes a response through all stages and counts the call. -/
def finish (stages : List ι) (r : Response) (w : World) :
    Except Failure Response × List ι × World :=
  let (r, stages, w) := responsePhase stages r w
  (.ok r, stages, w.note (.request r.status r.context.fromCache (w.latency / 1000)))

/-- Takes a call through the chain; `ask` sends a request to the model. -/
def process (ask : Request → World → Except Failure Response × World) (stages : List ι)
    (r : Request) (w : World) : Except Failure Response × List ι × World :=
  match requestPhase stages r w with
  | (.error e, stages, w) => (.error e, stages, w)
  | (.ok (.answer r), stages, w) => finish stages r w
  | (.ok (.proceed r), stages, w) =>
    match ask r w with
    | (.error e, w) => (.error e, stages, w)
    | (.ok r, w) => finish stages r w

section

variable {ask : Request → World → Except Failure Response × World} {stages stages' : List ι}
  {r q : Request} {w w' : World}

/-- A call that a stage refuses ends there. -/
theorem process_of_refused (ask : Request → World → Except Failure Response × World) {e : Failure}
    (h : requestPhase stages r w = (.error e, stages', w')) :
    process ask stages r w = (.error e, stages', w') := by
  rw [process, h]

/-- A call that a stage answers takes that answer through all stages. -/
theorem process_of_answered (ask : Request → World → Except Failure Response × World) {p : Response}
    (h : requestPhase stages r w = (.ok (.answer p), stages', w')) :
    process ask stages r w = finish stages' p w' := by
  rw [process, h]

/-- A call that the model does not answer ends there. -/
theorem process_of_unanswered (h : requestPhase stages r w = (.ok (.proceed q), stages', w'))
    {e : Failure} (hfails : (ask q w').1 = .error e) :
    process ask stages r w = (.error e, stages', (ask q w').2) := by
  rw [process, h]
  dsimp only
  rw [show ask q w' = (.error e, (ask q w').2) by rw [← hfails]]

/-- A call that the model answers takes its reply through all stages. -/
theorem process_of_replied (h : requestPhase stages r w = (.ok (.proceed q), stages', w'))
    {p : Response} (hreplies : (ask q w').1 = .ok p) :
    process ask stages r w = finish stages' p (ask q w').2 := by
  rw [process, h]
  dsimp only
  rw [show ask q w' = (.ok p, (ask q w').2) by rw [← hreplies]]

end

/-- Starts the stages in order, up to the first that fails. -/
def start : List ι → World → Except Failure Unit × List ι × World
  | [], w => (.ok (), [], w)
  | s :: rest, w =>
    match Stage.onStart s w with
    | (.ok (), s, w) =>
      let (outcome, rest, w) := start rest w
      (outcome, s :: rest, w)
    | (.error e, s, w) => (.error e, s :: rest, w)

/-- Shuts all stages down in order, whatever fails. -/
def shutdown : List ι → World → List ι × World
  | [], w => ([], w)
  | s :: rest, w =>
    let (_, s, w) := Stage.onShutdown s w
    let (rest, w) := shutdown rest w
    (s :: rest, w)

/-! ## Timers -/

/-- The earliest time that a stage waits for. -/
def nextDue : List ι → Option Nat
  | [] => none
  | s :: rest =>
    match Stage.timer? s, nextDue rest with
    | some a, some b => some (min a b)
    | some a, none => some a
    | none, other => other

/-- Fires the first stage that waits for a time. -/
def fireFirst (due : Nat) : List ι → World → List ι × World
  | [], w => ([], w)
  | s :: rest, w =>
    if Stage.timer? s = some due then
      let (s, w) := Stage.fire s w
      (s :: rest, w)
    else
      let (rest, w) := fireFirst due rest w
      (s :: rest, w)

/-- Fires what is due before a time, in the order of time, at most `fuel` times. What is due at that
very time stays due until more time passes. -/
def fireUntil (limit : Nat) : Nat → List ι → World → List ι × World
  | 0, stages, w => (stages, { w with now := limit })
  | fuel + 1, stages, w =>
    match nextDue stages with
    | some due =>
      if due < limit then
        let (stages, w) := fireFirst due stages { w with now := due }
        fireUntil limit fuel stages w
      else (stages, { w with now := limit })
    | none => (stages, { w with now := limit })

/-- Lets time pass. A stage fires at most once every second. -/
def advance (stages : List ι) (milliseconds : Nat) (w : World) : List ι × World :=
  fireUntil (w.now + milliseconds) (stages.length * (milliseconds / 1000 + 1)) stages w

end Chain

/-! ## Stages of two kinds -/

namespace Stage

variable {ι κ : Type}

/-- What an action on a stage of the first kind gives. -/
def left {α : Type} (r : α × ι × World) : α × (ι ⊕ κ) × World := (r.1, .inl r.2.1, r.2.2)

/-- What an action on a stage of the second kind gives. -/
def right {α : Type} (r : α × κ × World) : α × (ι ⊕ κ) × World := (r.1, .inr r.2.1, r.2.2)

instance [Stage ι] [Stage κ] : Stage (ι ⊕ κ) where
  name
    | .inl s => name s
    | .inr s => name s
  onRequest
    | .inl s, r, w => left (onRequest s r w)
    | .inr s, r, w => right (onRequest s r w)
  onResponse
    | .inl s, r, w => left (onResponse s r w)
    | .inr s, r, w => right (onResponse s r w)
  onStart
    | .inl s, w => left (onStart s w)
    | .inr s, w => right (onStart s w)
  onShutdown
    | .inl s, w => left (onShutdown s w)
    | .inr s, w => right (onShutdown s w)
  timer?
    | .inl s => timer? s
    | .inr s => timer? s
  fire
    | .inl s, w => ((fire s w).map .inl id)
    | .inr s, w => ((fire s w).map .inr id)

end Stage

end EvalProxy
