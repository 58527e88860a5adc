/-
# Starting up

What the proxy does before it serves: it reads its arguments and its configuration, finds its
components, builds and starts the pipeline, and checks the address to listen at.

Main definitions: `Startup.run`, `Halt.exitCode`, `Halt.errorText`.
-/
import EvalProxy.CommandLine
import EvalProxy.Config.Load
import EvalProxy.Discovery.Catalog
import EvalProxy.Http.Address
import EvalProxy.Pipeline
namespace EvalProxy

/-- Why the proxy does not get to serve. -/
inductive Halt where
  | usage (stop : UsageStop)
  | failed (f : Failure)
  | badAddress

namespace Halt

/-- Whether a stop answers a question. -/
def isAnswer : UsageStop → Bool
  | .help | .version => true
  | _ => false

/-- The exit code. -/
def exitCode : Halt → Nat
  | usage stop => if isAnswer stop then 0 else 2
  | failed _ | badAddress => 1

/-- The cause that is shown below a failure's own message, for failures that pass one on. -/
def cause? : Failure → Option String
  | .layering d | .database d | .exporting d | .file d | .json d | .http d => some d
  | _ => none

/-- The message of a failure with its cause. -/
def failureText (f : Failure) : String :=
  match cause? f with
  | some cause => s!"Error: {f.message}\n\nCaused by:\n    {cause}\n"
  | none => s!"Error: {f.message}\n"

/-- How the program is called. -/
def usageText : String := "Usage: eval-adapter [OPTIONS]\n"

/-- What a stop says about the arguments. -/
def stopText : UsageStop → String
  | .unknownArgument => "error: unexpected argument found\n\n" ++ usageText
  | .missingValue => "error: a value is required but none was supplied\n\n" ++ usageText
  | .badValue => "error: invalid value for '--port <PORT>'\n\n" ++ usageText
  | .repeated => "error: an argument cannot be used multiple times\n\n" ++ usageText
  | .extraValue => "error: unexpected value found\n\n" ++ usageText
  | .help | .version => ""

/-- What is written to the error output. -/
def errorText : Halt → String
  | usage stop => stopText stop
  | failed f => failureText f
  | badAddress => "Error: invalid socket address syntax\n"

/-- The options and what they are for. -/
def helpText : String :=
  "Intercepting adapter proxy for language model evaluation runs\n\n" ++ usageText ++ "\nOptions:\n"
    ++ "  -c, --config <CONFIG>              Configuration file (TOML). Defaults to "
    ++ "~/.eval-adapter/config.toml when present [env: EVAL_ADAPTER_CONFIG=]\n"
    ++ "      --host <HOST>                  Address to bind\n"
    ++ "  -p, --port <PORT>                  Port to listen on\n"
    ++ "      --upstream-url <UPSTREAM_URL>  Model endpoint to forward to\n"
    ++ "      --output-dir <OUTPUT_DIR>      Directory for caches, stats and reports\n"
    ++ "      --log-level <LOG_LEVEL>        "
    ++ "Log level override (trace, debug, info, warn, error)\n"
    ++ "  -h, --help                         Print help\n"
    ++ "  -V, --version                      Print version\n"

/-- What is written to the output. -/
def outputText : Halt → String
  | usage .help => helpText
  | usage .version => s!"eval-adapter {RunMetadata.version}\n"
  | _ => ""

end Halt

namespace Startup

/-- A proxy that is ready to serve. -/
structure Ready where
  config : AppConfig
  pipeline : Pipeline Interceptor LifecycleHook

/-- Builds the pipeline of a configuration, with the components that it discovers. -/
def build (c : AdapterConfig) (w : World) :
    Except Failure (Pipeline Interceptor LifecycleHook) × World :=
  match discover Catalog.builtins c.discovery w.tree Registry.builtins with
  | (.error e, _) => (.error e, w)
  | (.ok (), registry) => Pipeline.build registry c w

/-- The address that a server listens at. -/
def address (c : ServerConfig) : String := s!"{c.host}:{c.port}"

/-- Builds and starts the pipeline of a configuration. -/
def launch (c : AppConfig) (w : World) : Except Halt Ready × World :=
  match build c.adapter w with
  | (.error e, w) => (.error (.failed e), w)
  | (.ok p, w) =>
    match p.start w with
    | (.error e, _, w) => (.error (.failed e), w)
    | (.ok (), p, w) =>
      if Address.isSocketAddress (address c.server) then (.ok ⟨c, p⟩, w)
      else (.error .badAddress, w)

/-- The configuration that arguments and surroundings make. -/
def configure (args : List String) (s : Surroundings) : Except Halt AppConfig := do
  let o ← (CommandLine.parse args s.environment).mapError Halt.usage
  let c ← (AppConfig.load s o.config).mapError Halt.failed
  .ok (o.apply c)

/-- Starts the proxy with the arguments behind its name; `stamp` is the time of day. -/
def run (args : List String) (s : Surroundings) (stamp : String) : Except Halt Ready × World :=
  let model (_ : List Request) : Except Failure Reply := .error (.model "not connected")
  let w := { World.initial model fun _ => false with tree := s.tree, stamp := stamp }
  match configure args s with
  | .error h => (.error h, w)
  | .ok c => launch c w

end Startup

end EvalProxy
