/-
# Probes

Components for rehearsals: a probe notes every phase that it goes through. It can be told to fail
in a phase, to answer a request, and to change the body of a response.

Main definition: `Probe`.
-/
import EvalProxy.Chain
import EvalProxy.Hooks.Context
namespace EvalProxy

/-- A component that notes what happens to it. -/
structure Probe where
  name : String
  failing : List String
  answer : Option String
  body : Option String

namespace Probe

/-- Notes a phase; the outcome of the phase, if it is not to fail. -/
def visit {α : Type} (p : Probe) (phase : String) (outcome : α) (w : World) :
    Except Failure α × World :=
  let w := { w with trace := s!"{phase}:{p.name}" :: w.trace }
  if p.failing.contains phase then (.error (.internal s!"probe {p.name} {phase}"), w)
  else (.ok outcome, w)

/-- What becomes of a request. -/
def verdict (p : Probe) (r : Request) : Verdict :=
  match p.answer with
  | some text => .answer ⟨200, [], Text.encode text, r.context⟩
  | none => .proceed r

/-- The response with its body changed, if it is to be. -/
def changed (p : Probe) (r : Response) : Response :=
  match p.body with
  | some text => { r with body := Text.encode text }
  | none => r

/-- An outcome with the probe, which stays the same. -/
def keeping {α : Type} (p : Probe) (result : α × World) : α × Probe × World :=
  (result.1, p, result.2)

end Probe

instance : Stage Probe where
  name p := p.name
  onRequest p r w := p.keeping (p.visit "req" (p.verdict r) w)
  onResponse p r w := p.keeping (p.visit "resp" (p.changed r) w)
  onStart p w := p.keeping (p.visit "start" () w)
  onShutdown p w := p.keeping (p.visit "stop" () w)

instance : Hook Probe where
  name p := p.name
  run p _ w := p.visit "hook" () w

end EvalProxy
