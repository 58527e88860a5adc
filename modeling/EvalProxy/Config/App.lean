/-
# The configuration

Everything that can be configured: where the proxy listens, where the model is, how the proxy logs,
and the chain. Documents are laid over the defaults.

Main definitions: `AppConfig`, `AppConfig.ofSources`, `AppConfig.ofDocument`.
-/
import EvalProxy.Config.Adapter
import EvalProxy.Config.Conform
import EvalProxy.Failure
import EvalProxy.Toml.Parse
namespace EvalProxy

/-- Where the proxy listens, and the largest body that it takes. -/
structure ServerConfig where
  host : String
  port : Nat
  maxBody : Nat

/-- Where the model is, and how many seconds it may take to connect to it. -/
structure ModelConfig where
  url : String
  connectSeconds : Nat

/-- The least level that is logged, and the format of the log. -/
structure LogConfig where
  level : String
  format : String

/-- The configuration of the proxy. -/
structure AppConfig where
  server : ServerConfig
  model : ModelConfig
  log : LogConfig
  adapter : AdapterConfig

/-! ## Shapes -/

/-- A number of a network port. -/
def Json.Shape.port : Json.Shape := .natural "u16" (UInt16.size - 1)

/-- The settings of a record for which none are given. -/
def Json.Shape.unset : Json.Shape → Json
  | .record _ _ fields => .ofMembers (fields.filterMap fun f => f.fallback.map fun v => (f.key, v))
  | _ => .null

namespace ServerConfig

/-- The shape of the server settings. -/
def shape : Json.Shape :=
  .record "ServerConfig" false
    [Json.defaulted "host" (.text "127.0.0.1") .text, Json.defaulted "port" (.int 3825) .port,
     Json.defaulted "max_body_bytes" (.int 52428800) .usize]

/-- The server settings from their normal form. -/
def ofJson (v : Json) : ServerConfig :=
  ⟨Json.asText (Json.field v "host"), Json.asNat (Json.field v "port"),
    Json.asNat (Json.field v "max_body_bytes")⟩

/-- The server settings as JSON. -/
def toJson (c : ServerConfig) : Json :=
  .ofMembers [("host", .text c.host), ("port", .nat c.port), ("max_body_bytes", .nat c.maxBody)]

end ServerConfig

namespace ModelConfig

/-- The shape of the model settings. -/
def shape : Json.Shape :=
  .record "UpstreamConfig" false
    [Json.defaulted "url" (.text "http://127.0.0.1:8000/v1/chat/completions") .text,
     Json.defaulted "connect_timeout_seconds" (.int 10) .u64]

/-- The model settings from their normal form. -/
def ofJson (v : Json) : ModelConfig :=
  ⟨Json.asText (Json.field v "url"), Json.asNat (Json.field v "connect_timeout_seconds")⟩

/-- The model settings as JSON. -/
def toJson (c : ModelConfig) : Json :=
  .ofMembers [("url", .text c.url), ("connect_timeout_seconds", .nat c.connectSeconds)]

end ModelConfig

namespace LogConfig

/-- The shape of the log settings. -/
def shape : Json.Shape :=
  .record "LoggingConfig" false
    [Json.defaulted "level" (.text "info") .text, Json.defaulted "format" (.text "pretty") .text]

/-- The log settings from their normal form. -/
def ofJson (v : Json) : LogConfig :=
  ⟨Json.asText (Json.field v "level"), Json.asText (Json.field v "format")⟩

/-- The log settings as JSON. -/
def toJson (c : LogConfig) : Json :=
  .ofMembers [("level", .text c.level), ("format", .text c.format)]

end LogConfig

namespace AppConfig

/-- The shape of the configuration. -/
def shape : Json.Shape :=
  .record "AppConfig" false
    [Json.defaulted "server" ServerConfig.shape.unset ServerConfig.shape,
     Json.defaulted "upstream" ModelConfig.shape.unset ModelConfig.shape,
     Json.defaulted "logging" LogConfig.shape.unset LogConfig.shape,
     Json.defaulted "adapter" AdapterConfig.shape.unset AdapterConfig.shape]

/-- The configuration from its normal form. -/
def ofJson (v : Json) : AppConfig :=
  ⟨.ofJson (Json.field v "server"), .ofJson (Json.field v "upstream"),
    .ofJson (Json.field v "logging"), .ofJson (Json.field v "adapter")⟩

/-- The configuration as JSON. -/
def toJson (c : AppConfig) : Json :=
  .ofMembers
    [("server", c.server.toJson), ("upstream", c.model.toJson), ("logging", c.log.toJson),
     ("adapter", c.adapter.toJson)]

/-! ## Sources -/

/-- The defaults as the source below all others. Lists have no defaults: one that is not given is
empty. -/
def defaults : Setting :=
  .ofJson none
    (.ofMembers
      [("server", ServerConfig.shape.unset), ("upstream", ModelConfig.shape.unset),
       ("logging", LogConfig.shape.unset),
       ("adapter", .ofMembers [("output_dir", .text AdapterConfig.defaultOutput)])])

/-- The configuration that sources make, the first at the bottom. -/
def ofSources (sources : List (List (String × Setting))) : Except Failure AppConfig :=
  ((sources.foldl Setting.lay defaults).conform shape |>.map ofJson).mapError fun r =>
    .settings r.message

/-- The entries of a document, under the name of its file if it comes from one. -/
def documentEntries (source : Option String) (text : String) :
    Except Failure (List (String × Setting)) :=
  match Toml.document? text with
  | some table => .ok (Setting.ofTomlEntries source table)
  | none => .error (.settings "TOML parse error")

/-- The configuration of a document. -/
def ofDocument (text : String) : Except Failure AppConfig := do
  let entries ← documentEntries none text
  ofSources [entries]

end AppConfig

end EvalProxy
