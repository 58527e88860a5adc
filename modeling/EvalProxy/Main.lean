/-
# The program

The command line of the proxy: it reads the arguments, the environment and the configuration file,
and starts the proxy up to the point where it would listen. It tells the address or why it does not
get that far, and leaves the exit code that goes with it.

Main definition: `main`.
-/
import EvalProxy.Startup
namespace EvalProxy.Program

/-- The variables in the octets of an environment: a name, an equals sign and a value each, behind
every one of them a zero. -/
def environmentPairs (octets : Bytes) : List (String × String) :=
  let cut := octets.foldr (fun b acc =>
    match b == 0, acc with
    | true, _ => [] :: acc
    | false, first :: rest => (b :: first) :: rest
    | false, [] => [[b]]) []
  cut.filterMap fun cs =>
    let name := cs.takeWhile (· != 0x3D)
    match cs.drop name.length with
    | _ :: value => some (Text.lossy name, Text.lossy value)
    | [] => none

/-- The tree with a file, and the directories that lead to it. -/
def withFile (t : Files.Tree) (path : String) (content : Bytes) : Files.Tree :=
  match (t.createParent path).bind fun t => t.write path content with
  | .ok t => t
  | .error _ => t

/-- The name of the configuration file, if the arguments or the environment give one. -/
def configName? (args : List String) (environment : List (String × String)) : Option String :=
  ((CommandLine.parse args environment).toOption).bind (·.config)

/-- The octets of a file; a file that cannot be read has none. -/
def octets? (path : String) : IO (Option Bytes) := do
  try
    let content ← IO.FS.readBinFile path
    return some content.data.toList
  catch _ => return none

/-- The files at some paths. -/
def readFiles (paths : List String) : IO Files.Tree :=
  paths.foldlM (fun t path => do
    match ← octets? path with
    | some content => return withFile t path content
    | none => return t) .empty

/-- What the program finds around it: the environment, and the configuration file. -/
def surroundings (args : List String) : IO Surroundings := do
  let environment := environmentPairs ((← octets? "/proc/self/environ").getD [])
  let home := (CommandLine.valueOf? environment "HOME").getD "."
  let here := (CommandLine.valueOf? environment "PWD").getD "."
  let tree ← readFiles (AppConfig.filePaths home (configName? args environment))
  return ⟨tree, environment, here, home⟩

end EvalProxy.Program

/-- Starts the proxy with the arguments behind the program's name. -/
def main (args : List String) : IO UInt32 := do
  match (EvalProxy.Startup.run args (← EvalProxy.Program.surroundings args) "").1 with
  | .ok ready =>
    IO.println s!"Ready to serve on {EvalProxy.Startup.address ready.config.server}"
    return 0
  | .error h =>
    IO.print h.outputText
    IO.eprint h.errorText
    return h.exitCode.toUInt32
