/-
# Discovery

Before a pipeline is built, the registry may grow: by the presets of named modules, and by those
that the manifests in some directories declare. What was registered before something fails stays.

Main definitions: `Catalog`, `Catalog.builtins`, `discover`.
-/
import EvalProxy.Config.Adapter
import EvalProxy.Discovery.Preset
namespace EvalProxy

/-- The presets of each module by the module's name. -/
abbrev Catalog := Dict (List Preset)

namespace Catalog

/-- Presets for evaluations that run again over a filled cache. -/
def evalPresets : List Preset :=
  [⟨"strict_cache", "caching", .interceptor,
      .ofMembers [("reuse_cached_responses", .bool true), ("test_mode", .bool true)]⟩,
   ⟨"replay_cache", "caching", .interceptor,
      .ofMembers [("reuse_cached_responses", .bool true), ("save_requests", .bool false)]⟩]

/-- The modules that the proxy comes with. -/
def builtins : Catalog := Dict.ofList [("eval_presets", evalPresets)]

end Catalog

namespace Discovery

variable {ι κ : Type}

/-- Registers presets in order, up to the first that fails. -/
def registerAll : List Preset → Registry ι κ → Except Failure Unit × Registry ι κ
  | [], r => (.ok (), r)
  | p :: rest, r =>
    match p.register r with
    | .ok r => registerAll rest r
    | .error e => (.error e, r)

/-- Registers the presets of modules in order, up to the first that fails. -/
def loadModules (catalog : Catalog) :
    List String → Registry ι κ → Except Failure Unit × Registry ι κ
  | [], r => (.ok (), r)
  | m :: rest, r =>
    match catalog.get? m with
    | none =>
      let known := ", ".intercalate catalog.keys
      (.error (.settings s!"unknown component module '{m}' (available: {known})"), r)
    | some presets =>
      match registerAll presets r with
      | (.ok (), r) => loadModules catalog rest r
      | failed => failed

/-- The manifests in a directory, in the order of their names. -/
def manifests (t : Files.Tree) (directory : String) : Except Failure (List String) :=
  match t.list directory with
  | .error e => .error (.settings s!"cannot scan discovery dir {directory}: {e.message}")
  | .ok names =>
    let isManifest (name : String) : Bool := Files.Path.extension? name == some "toml"
    .ok ((names.filter isManifest).map (Files.Path.join directory))

/-- Registers what manifests declare in order, up to the first that fails. -/
def loadManifests (t : Files.Tree) :
    List String → Registry ι κ → Except Failure Unit × Registry ι κ
  | [], r => (.ok (), r)
  | path :: rest, r =>
    match (Preset.ofFile t path).bind fun p => p.register r with
    | .ok r => loadManifests t rest r
    | .error e => (.error e, r)

/-- Registers the manifests of directories in order, up to the first that fails. -/
def loadDirectories (t : Files.Tree) :
    List String → Registry ι κ → Except Failure Unit × Registry ι κ
  | [], r => (.ok (), r)
  | directory :: rest, r =>
    match manifests t directory with
    | .error e => (.error e, r)
    | .ok paths =>
      match loadManifests t paths r with
      | (.ok (), r) => loadDirectories t rest r
      | failed => failed

end Discovery

/-- Registers everything that a configuration names: modules first, then directories. Gives the
registry in any case. -/
def discover {ι κ : Type} (catalog : Catalog) (c : DiscoveryConfig) (t : Files.Tree)
    (r : Registry ι κ) : Except Failure Unit × Registry ι κ :=
  match Discovery.loadModules catalog c.modules r with
  | (.ok (), r) => Discovery.loadDirectories t c.directories r
  | failed => failed

end EvalProxy
