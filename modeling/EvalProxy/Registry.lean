/-
# The registry

Components are built by name. A preset is a name for another component with default settings that
lie under the settings given at each use. A name is never bound anew.

Main definitions: `Registry`, `Registry.addPreset`, `Registry.builtins`.
-/
import EvalProxy.Interceptor
namespace EvalProxy

/-- Builds a component from its settings and the output directory. -/
abbrev Factory (α : Type) := Json → String → World → Except Failure α × World

/-- The factories of one kind of component by name. -/
abbrev Factories (α : Type) := Dict (Factory α)

/-- Settings over defaults, member by member; `null` takes the defaults as they are, and what is no
object replaces them. -/
def mergeSettings (defaults given : Json) : Json :=
  match defaults, given with
  | .object base, .object extra =>
    .object (extra.foldl (fun acc m => Assoc.insert m.1 m.2 acc) base)
  | _, .null => defaults
  | _, _ => given

namespace Factories

variable {α β : Type}

/-- The factories with one more; `noun` names the kind of component. -/
def add (fs : Factories α) (noun name : String) (f : Factory α) : Except Failure (Factories α) :=
  if fs.contains name then .error (.settings s!"{noun} '{name}' is already registered")
  else .ok (fs.insert name f)

/-- The factories with a preset. -/
def addPreset (fs : Factories α) (noun name base : String) (defaults : Json) :
    Except Failure (Factories α) :=
  match fs.get? base with
  | none => .error (.settings s!"preset '{name}' refers to unknown {noun} '{base}'")
  | some f => fs.add noun name fun given => f (mergeSettings defaults given)

/-- Builds a component. -/
def build (fs : Factories α) (noun name : String) (settings : Json) (outputDirectory : String)
    (w : World) : Except Failure α × World :=
  match fs.get? name with
  | some f => f settings outputDirectory w
  | none => (.error (.settings s!"unknown {noun} '{name}'"), w)

/-- The factories with what they build taken for something else. -/
def map (f : α → β) (fs : Factories α) : Factories β :=
  ⟨fs.entries.map fun e => (e.1, fun settings directory w =>
      let (outcome, w) := e.2 settings directory w
      (outcome.map f, w)),
    fs.ordered.mapValues fun _ make settings directory w =>
      let (outcome, w) := make settings directory w
      (outcome.map f, w)⟩

end Factories

/-- The factories of interceptors and of hooks. -/
structure Registry (ι κ : Type) where
  interceptors : Factories ι
  hooks : Factories κ

/-- The two kinds of components. -/
inductive ComponentKind where
  | interceptor
  | hook
  deriving DecidableEq

namespace Registry

variable {ι κ ι' κ' : Type}

/-- The registry without components. -/
def empty : Registry ι κ := ⟨Dict.empty, Dict.empty⟩

/-- How messages name interceptors. -/
def interceptorNoun : String := "interceptor"

/-- How messages name hooks. -/
def hookNoun : String := "hook"

/-- The registry with an interceptor. -/
def addInterceptor (r : Registry ι κ) (name : String) (f : Factory ι) :
    Except Failure (Registry ι κ) :=
  (r.interceptors.add interceptorNoun name f).map fun fs => { r with interceptors := fs }

/-- The registry with a hook. -/
def addHook (r : Registry ι κ) (name : String) (f : Factory κ) : Except Failure (Registry ι κ) :=
  (r.hooks.add hookNoun name f).map fun fs => { r with hooks := fs }

/-- The registry with a preset. -/
def addPreset (r : Registry ι κ) (kind : ComponentKind) (name base : String) (defaults : Json) :
    Except Failure (Registry ι κ) :=
  match kind with
  | .interceptor =>
    (r.interceptors.addPreset interceptorNoun name base defaults).map fun fs =>
      { r with interceptors := fs }
  | .hook =>
    (r.hooks.addPreset hookNoun name base defaults).map fun fs => { r with hooks := fs }

/-- Builds an interceptor. -/
def buildInterceptor (r : Registry ι κ) (name : String) (settings : Json) (directory : String)
    (w : World) : Except Failure ι × World :=
  r.interceptors.build interceptorNoun name settings directory w

/-- Builds a hook. -/
def buildHook (r : Registry ι κ) (name : String) (settings : Json) (directory : String)
    (w : World) : Except Failure κ × World :=
  r.hooks.build hookNoun name settings directory w

/-- The registry with its components taken for something else. -/
def map (f : ι → ι') (g : κ → κ') (r : Registry ι κ) : Registry ι' κ' :=
  ⟨r.interceptors.map f, r.hooks.map g⟩

/-! ## What the proxy comes with -/

/-- A factory of components that need nothing but their settings. -/
def plain {σ α : Type} (read : Json → Except Failure σ) (make : σ → α) : Factory α :=
  fun settings _ w => ((read settings).map make, w)

/-- Builds a cache. -/
def buildCaching : Factory Interceptor := fun settings directory w =>
  match Cache.Settings.read settings with
  | .error e => (.error e, w)
  | .ok s =>
    let (outcome, w) :=
      Caching.create
        { s with directory := some (s.directory.getD (World.cacheDirectory directory)) } w
    (outcome.map Interceptor.caching, w)

/-- Builds a recorder of statistics. -/
def buildStats : Factory Interceptor := fun settings directory w =>
  ((Stats.Settings.read settings).map fun s => .stats (.fresh s directory), w)

/-- Builds a report. -/
def buildReport : Factory LifecycleHook := fun settings directory w =>
  ((Report.Settings.read settings).map fun s =>
    .report { s with directory := some (s.directory.getD (World.cacheDirectory directory)) }, w)

/-- The interceptors that the proxy comes with. -/
def builtinInterceptors : Factories Interceptor :=
  Dict.ofList
    [("caching", buildCaching), ("response_stats", buildStats),
     ("progress_tracking", plain Progress.Settings.read fun s => .progress (.fresh s)),
     ("reasoning", plain Reasoning.Settings.read .reasoning),
     ("payload_modifier", plain Payload.Settings.read .payload),
     ("system_message", plain SystemMessage.Settings.read .systemMessage),
     ("request_logging",
       plain (CallLog.Settings.read "request_logging") fun s => .requestLog (.fresh s)),
     ("response_logging",
       plain (CallLog.Settings.read "response_logging") fun s => .responseLog (.fresh s))]

/-- The hooks that the proxy comes with. -/
def builtinHooks : Factories LifecycleHook :=
  Dict.ofList
    [("run_metadata", plain RunMetadata.Settings.read .runMetadata),
     ("post_eval_report", buildReport)]

/-- The registry of everything that the proxy comes with. -/
def builtins : Registry Interceptor LifecycleHook := ⟨builtinInterceptors, builtinHooks⟩

end Registry

end EvalProxy
