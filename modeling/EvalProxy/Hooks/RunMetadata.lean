/-
# Run metadata

A file that says with what a run was started: its identifier, the version of the proxy, the time,
and the components.

Main definition: `run`.
-/
import EvalProxy.Hooks.Context
import EvalProxy.Settings
namespace EvalProxy.RunMetadata

/-- The version of the proxy. -/
def version : String := "0.3.1"

/-- The name of the file. -/
structure Settings where
  fileName : String

/-- The form of the settings. -/
def form : Form :=
  .ofFields "run_metadata" "RunMetadataConfig"
    [Json.defaulted "file_name" (.text "run_metadata.json") .text]

/-- Settings from their normal form. -/
def Settings.read (value : Json) : Except Failure Settings := do
  let v ← form.read value
  .ok ⟨Json.asText (Json.field v "file_name")⟩

/-- The content of the file; its members stand in this order. -/
def content (runId startedAt : String) (components : List String) : Json :=
  .object
    [("run_id", .text runId), ("adapter_version", .text version), ("started_at", .text startedAt),
     ("components", .array (components.map .text))]

/-- Writes the file. -/
def run (s : Settings) (c : HookContext) (w : World) : Except Failure Unit × World :=
  let (runId, w) := w.freshId
  c.writeResult s.fileName (content runId w.stamp c.components) w

end EvalProxy.RunMetadata
