/-
# Hooks

Actions that run once before the first call of an evaluation or after its last.

Main definition: `Hook`.
-/
import EvalProxy.World
namespace EvalProxy

/-- What hooks are told: the directory for results, and the names of all active components. -/
structure HookContext where
  outputDirectory : String
  components : List String

/-- What a hook does: its outcome, and the world afterwards. -/
class Hook (κ : Type) where
  name : κ → String
  run : κ → HookContext → World → Except Failure Unit × World

instance {κ ι : Type} [Hook κ] [Hook ι] : Hook (κ ⊕ ι) where
  name
    | .inl h => Hook.name h
    | .inr h => Hook.name h
  run
    | .inl h => Hook.run h
    | .inr h => Hook.run h

/-- Writes a file into the output directory, which is made if needed. -/
def HookContext.writeResult (c : HookContext) (name : String) (content : Json) (w : World) :
    Except Failure Unit × World :=
  match w.createDirectories c.outputDirectory with
  | (.error e, w) => (.error e, w)
  | (.ok (), w) =>
    w.writeFile (Files.Path.join c.outputDirectory name) (Text.encode content.pretty)

end EvalProxy
