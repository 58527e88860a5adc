/-
# The configured chain

Which components a run uses, with their settings, and where further ones are found.

Main definitions: `AdapterConfig`, `AdapterConfig.activeNames`.
-/
import EvalProxy.Json.Shape
namespace EvalProxy

/-- A component of a run: its name, whether it is used, and its settings. -/
structure ComponentConfig where
  name : String
  enabled : Bool
  settings : Json

/-- Where further components are found: named modules, and directories of manifests. -/
structure DiscoveryConfig where
  modules : List String
  directories : List String

/-- The components of a run and the directory for its results. -/
structure AdapterConfig where
  outputDirectory : String
  interceptors : List ComponentConfig
  preHooks : List ComponentConfig
  postHooks : List ComponentConfig
  discovery : DiscoveryConfig

/-! ## Shapes -/

namespace ComponentConfig

/-- The shape of a component. -/
def shape : Json.Shape :=
  .record "ComponentConfig" false
    [Json.required "name" .text, Json.defaulted "enabled" (.bool true) .flag,
     Json.defaulted "config" .null .any]

/-- A component from its normal form. -/
def ofJson (v : Json) : ComponentConfig :=
  ⟨Json.asText (Json.field v "name"), Json.asBool (Json.field v "enabled"), Json.field v "config"⟩

/-- A component as JSON. -/
def toJson (c : ComponentConfig) : Json :=
  .ofMembers [("name", .text c.name), ("enabled", .bool c.enabled), ("config", c.settings)]

end ComponentConfig

namespace DiscoveryConfig

/-- What is found when nothing is configured. -/
def unset : Json := Json.ofMembers [("modules", .array []), ("dirs", .array [])]

/-- The shape of the sources of components. -/
def shape : Json.Shape :=
  .record "DiscoveryConfig" false
    [Json.defaulted "modules" (.array []) (.list .text),
     Json.defaulted "dirs" (.array []) (.list .path)]

/-- The sources of components from their normal form. -/
def ofJson (v : Json) : DiscoveryConfig :=
  ⟨(Json.asArray (Json.field v "modules")).map Json.asText,
    (Json.asArray (Json.field v "dirs")).map Json.asText⟩

/-- The sources of components as JSON. -/
def toJson (c : DiscoveryConfig) : Json :=
  .ofMembers
    [("modules", .array (c.modules.map .text)), ("dirs", .array (c.directories.map .text))]

end DiscoveryConfig

namespace AdapterConfig

/-- The directory for results for which none is configured. -/
def defaultOutput : String := "./adapter_output"

/-- The shape of the chain. -/
def shape : Json.Shape :=
  .record "AdapterConfig" false
    [Json.defaulted "output_dir" (.text defaultOutput) .path,
     Json.defaulted "interceptors" (.array []) (.list ComponentConfig.shape),
     Json.defaulted "pre_eval_hooks" (.array []) (.list ComponentConfig.shape),
     Json.defaulted "post_eval_hooks" (.array []) (.list ComponentConfig.shape),
     Json.defaulted "discovery" DiscoveryConfig.unset DiscoveryConfig.shape]

/-- The chain from its normal form. -/
def ofJson (v : Json) : AdapterConfig :=
  let components (key : String) : List ComponentConfig :=
    (Json.asArray (Json.field v key)).map ComponentConfig.ofJson
  { outputDirectory := Json.asText (Json.field v "output_dir")
    interceptors := components "interceptors"
    preHooks := components "pre_eval_hooks"
    postHooks := components "post_eval_hooks"
    discovery := DiscoveryConfig.ofJson (Json.field v "discovery") }

/-- The chain as JSON. -/
def toJson (c : AdapterConfig) : Json :=
  let components (cs : List ComponentConfig) : Json := .array (cs.map ComponentConfig.toJson)
  .ofMembers
    [("output_dir", .text c.outputDirectory), ("interceptors", components c.interceptors),
     ("pre_eval_hooks", components c.preHooks), ("post_eval_hooks", components c.postHooks),
     ("discovery", c.discovery.toJson)]

/-- The names of the components that are used, in order. -/
def activeNames (c : AdapterConfig) : List String :=
  ((c.interceptors ++ c.preHooks ++ c.postHooks).filter (·.enabled)).map (·.name)

end AdapterConfig

end EvalProxy
