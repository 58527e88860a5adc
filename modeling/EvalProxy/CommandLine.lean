/-
# The command line

The options of the proxy and how arguments are read: an option in its long form has its value
behind an equals sign or in the next argument, one in its short form also directly behind its
letter. What is given on the command line takes the place of what is configured.

Main definitions: `Overrides`, `CommandLine.parse`, `Overrides.apply`.
-/
import EvalProxy.Config.App
namespace EvalProxy

/-- What the command line sets: the configuration file, and values that go before configured
ones. -/
structure Overrides where
  config : Option String
  host : Option String
  port : Option Nat
  modelUrl : Option String
  outputDirectory : Option String
  logLevel : Option String

/-- Why reading stops: an argument that is not known, a value that is missing or must not be empty,
a value that spells no port, an option given twice, a value for an option that takes none, or a
question for help or for the version. -/
inductive UsageStop where
  | unknownArgument
  | missingValue
  | badValue
  | repeated
  | extraValue
  | help
  | version
  deriving DecidableEq

namespace Overrides

/-- Nothing is set. -/
def none : Overrides := ⟨.none, .none, .none, .none, .none, .none⟩

/-- The configuration with what is set in place of what it has. -/
def apply (o : Overrides) (c : AppConfig) : AppConfig :=
  { server :=
      { c.server with host := o.host.getD c.server.host, port := o.port.getD c.server.port }
    model := { c.model with url := o.modelUrl.getD c.model.url }
    log := { c.log with level := o.logLevel.getD c.log.level }
    adapter :=
      { c.adapter with outputDirectory := o.outputDirectory.getD c.adapter.outputDirectory } }

end Overrides

namespace CommandLine

/-! ## Options -/

/-- The options that take a value. -/
inductive Opt where
  | config
  | host
  | port
  | modelUrl
  | outputDirectory
  | logLevel

/-- What a name stands for. -/
inductive Flag where
  | valued (o : Opt)
  | help
  | version

/-- What a long name stands for. -/
def long? (name : String) : Option Flag :=
  match name with
  | "config" => some (.valued .config)
  | "host" => some (.valued .host)
  | "port" => some (.valued .port)
  | "upstream-url" => some (.valued .modelUrl)
  | "output-dir" => some (.valued .outputDirectory)
  | "log-level" => some (.valued .logLevel)
  | "help" => some .help
  | "version" => some .version
  | _ => none

/-- What a letter stands for. -/
def short? (c : Char) : Option Flag :=
  if c = 'c' then some (.valued .config)
  else if c = 'p' then some (.valued .port)
  else if c = 'h' then some .help
  else if c = 'V' then some .version
  else none

/-- A value put into a place that must be free. -/
def fill {α : Type} (place : Option α) (v : α) : Except UsageStop (Option α) :=
  match place with
  | some _ => .error .repeated
  | none => .ok (some v)

/-- A path, which must not be empty. -/
def pathValue (s : String) : Except UsageStop String :=
  if s.isEmpty then .error .missingValue else .ok s

/-- The number of a port. -/
def portValue (s : String) : Except UsageStop Nat :=
  match Text.integer? s with
  | some n => if 0 ≤ n && n < UInt16.size then .ok n.toNat else .error .badValue
  | none => .error .badValue

/-- What is set, with a value for an option. An option given twice is refused before its value is
read. -/
def set (given : Overrides) (o : Opt) (s : String) : Except UsageStop Overrides :=
  match o with
  | .config => do
    let _ ← fill given.config s
    .ok { given with config := some (← pathValue s) }
  | .host => do .ok { given with host := ← fill given.host s }
  | .port => do
    let _ ← fill given.port 0
    .ok { given with port := some (← portValue s) }
  | .modelUrl => do .ok { given with modelUrl := ← fill given.modelUrl s }
  | .outputDirectory => do
    let _ ← fill given.outputDirectory s
    .ok { given with outputDirectory := some (← pathValue s) }
  | .logLevel => do .ok { given with logLevel := ← fill given.logLevel s }

/-! ## Arguments -/

/-- An option whose value stands in an argument of its own, and that value once it is read. It is
set when the next option comes, or at the end. -/
abbrev Pending := Option (Opt × Option String)

/-- Sets the option that is pending; it must have got its value. -/
def settle (given : Overrides) : Pending → Except UsageStop Overrides
  | none => .ok given
  | some (_, none) => .error .missingValue
  | some (o, some s) => set given o s

/-- An option with the value that is attached to it, if one is. -/
def take (given : Overrides) (pending : Pending) (o : Opt) (attached : Option String) :
    Except UsageStop (Overrides × Pending) := do
  let given ← settle given pending
  match attached with
  | some s => .ok (← set given o s, none)
  | none => .ok (given, some (o, none))

/-- The text behind a letter with the equals sign taken off, if there is any. -/
def attachedTo (cs : List Char) : Option String :=
  match cs with
  | [] => none
  | '=' :: rest => some (String.ofList rest)
  | _ => some (String.ofList cs)

/-- Letters behind a single dash. -/
def letters (given : Overrides) (pending : Pending) :
    List Char → Except UsageStop (Overrides × Pending)
  | [] => .ok (given, pending)
  | c :: rest =>
    match short? c with
    | none => .error .unknownArgument
    | some (.valued o) => take given pending o (attachedTo rest)
    | some .help => (settle given pending).bind fun _ => .error .help
    | some .version => (settle given pending).bind fun _ => .error .version

/-- A name behind two dashes, with the value behind its equals sign if it has one. -/
def name (given : Overrides) (pending : Pending) (cs : List Char) :
    Except UsageStop (Overrides × Pending) :=
  let key := cs.takeWhile (· ≠ '=')
  let attached := match cs.drop key.length with
    | _ :: rest => some (String.ofList rest)
    | [] => none
  match long? (String.ofList key), attached with
  | none, _ => .error .unknownArgument
  | some (.valued o), attached => take given pending o attached
  | some .help, none => (settle given pending).bind fun _ => .error .help
  | some .version, none => (settle given pending).bind fun _ => .error .version
  | some .help, some _ | some .version, some _ => .error .extraValue

/-- An argument that is no option: the value of the one that is pending. -/
def value (given : Overrides) (pending : Pending) (s : String) :
    Except UsageStop (Overrides × Pending) :=
  match pending with
  | some (o, none) => .ok (given, some (o, some s))
  | _ => .error .unknownArgument

/-- Reads arguments in order. Behind two dashes alone nothing may follow. -/
def arguments (given : Overrides) (pending : Pending) :
    List String → Except UsageStop Overrides
  | [] => settle given pending
  | a :: rest =>
    if a = "--" then if rest.isEmpty then settle given pending else .error .unknownArgument
    else do
      let (given, pending) ← match a.toList with
        | '-' :: '-' :: cs => name given pending cs
        | '-' :: c :: cs => letters given pending (c :: cs)
        | _ => value given pending a
      arguments given pending rest

/-- The variable that names the configuration file when no argument does. -/
def configVariable : String := "EVAL_ADAPTER_CONFIG"

/-- The value of an environment variable. -/
def valueOf? (environment : List (String × String)) (name : String) : Option String :=
  (environment.find? fun v => v.1 == name).map (·.2)

/-- What the arguments behind the program's name set. -/
def parse (args : List String) (environment : List (String × String)) :
    Except UsageStop Overrides := do
  let given ← arguments .none none args
  match given.config, valueOf? environment configVariable with
  | none, some path => set given .config path
  | _, _ => .ok given

end CommandLine

end EvalProxy
