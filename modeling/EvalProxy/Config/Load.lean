/-
# Loading the configuration

The configuration of a run: the defaults, over them a file, and over that the environment. A file
that is named must be there; without a name a file in the home directory is read if it is there.

Main definitions: `Surroundings`, `AppConfig.load`.
-/
import EvalProxy.Config.App
import EvalProxy.Files.Tree
namespace EvalProxy

/-- What a run finds around it: files, environment variables, and the paths of the working directory
and of the home directory. -/
structure Surroundings where
  tree : Files.Tree
  environment : List (String × String)
  workingDirectory : String
  home : String

/-- The formats of configuration files. -/
inductive FileFormat where
  | toml
  | json

namespace FileFormat

/-- The extension of files in a format. -/
def extension : FileFormat → String
  | toml => "toml"
  | json => "json"

/-- All formats. -/
def all : List FileFormat := [toml, json]

/-- The format of files with an extension. -/
def ofExtension? (e : String) : Option FileFormat := all.find? fun f => f.extension == e

/-- What the root of a configuration file must be. -/
def rootExpectation : String := "a map"

/-- A fault in a file. -/
def inFile (source m : String) : Failure := .settings s!"{m} in {source}"

/-- The entries of a file's text; `source` is the name that messages give the file. -/
def entries (f : FileFormat) (source text : String) : Except Failure (List (String × Setting)) :=
  match f with
  | toml => AppConfig.documentEntries (some source) text
  | json =>
    match Json.parseText (Text.encode text) with
    | .error m => .error (inFile source m)
    | .ok v =>
      match Setting.ofJson (some source) v with
      | .group _ es => .ok es
      | other =>
        let refusal := Refusal.conversion other.kindText rootExpectation "" (some source)
        .error (inFile source refusal.message)

end FileFormat

namespace AppConfig

/-! ## Files -/

/-- Whether there is a file at a path. -/
def isFile (t : Files.Tree) (path : String) : Bool :=
  match t.find path with
  | .ok (some (.file _)) | .ok (some (.database _)) => true
  | _ => false

/-- A path with an extension put behind it. -/
def extended? (path extension : String) : Option String := do
  let name ← Files.Path.fileName? path
  let longer := name ++ "." ++ extension
  match Files.Path.parent? path with
  | some directory => some (Files.Path.join directory longer)
  | none => some longer

/-- The paths with an extension put behind a name, each with its format. -/
def extendedPaths (name : String) : List (String × FileFormat) :=
  FileFormat.all.filterMap fun f => (extended? name f.extension).map fun path => (path, f)

/-- The file that a name stands for, with its format: the file itself, or else one with an extension
put behind the name. -/
def findFile (s : Surroundings) (name : String) : Except Failure (String × FileFormat) :=
  if isFile s.tree name then
    match (Files.Path.extension? name).bind FileFormat.ofExtension? with
    | some f => .ok (name, f)
    | none =>
      let path := Files.Path.join s.workingDirectory name
      .error (.settings s!"configuration file \"{path}\" is not of a registered file format")
  else
    match (extendedPaths name).find? fun c => isFile s.tree c.1 with
    | some c => .ok c
    | none => .error (.settings s!"configuration file \"{name}\" not found")

/-- The octets of the mark that may stand in front of a file. -/
def byteOrderMark : Bytes := [0xEF, 0xBB, 0xBF]

/-- The text of a file without the mark in front of it; octets that are no UTF-8 are replaced. -/
def fileText (content : Bytes) : String :=
  Text.lossy (if byteOrderMark.isPrefixOf content then content.drop 3 else content)

/-- The name that messages give a file. -/
def sourceName (path : String) : String := "/".intercalate (Files.Path.names path)

/-- The entries of the file that a name stands for. -/
def fileEntries (s : Surroundings) (name : String) : Except Failure (List (String × Setting)) := do
  let (path, format) ← findFile s name
  let content ← (s.tree.read path).mapError fun e => Failure.settings e.message
  format.entries (sourceName path) (fileText content)

/-! ## The environment -/

/-- What the names of environment variables start with, in lower case. -/
def variableStart : List Char := "eval_adapter__".toList

/-- A text with its pairs of low lines replaced by points. -/
def pointed : List Char → List Char
  | '_' :: '_' :: rest => '.' :: pointed rest
  | c :: rest => c :: pointed rest
  | [] => []

/-- How messages name the environment. -/
def environmentSource : String := "the environment"

/-- The key path and the value that a variable sets, if it is one of the proxy's. -/
def variableEntry? (v : String × String) : Option (String × Setting) :=
  let name := (Text.lowered v.1).toList
  if variableStart.isPrefixOf name then
    some (String.ofList (pointed (name.drop variableStart.length)),
      .text (some environmentSource) v.2)
  else none

/-! ## Loading -/

/-- The file that is read when none is named. -/
def defaultPath (home : String) : String := Files.Path.join home ".eval-adapter/config.toml"

/-- The entries of the configuration file. -/
def chosenEntries (s : Surroundings) (path : Option String) :
    Except Failure (List (String × Setting)) :=
  match path with
  | some name => fileEntries s name
  | none =>
    match findFile s (defaultPath s.home) with
    | .ok _ => fileEntries s (defaultPath s.home)
    | .error _ => .ok []

/-- The paths at which the configuration file may be. -/
def filePaths (home : String) (path : Option String) : List String :=
  let name := path.getD (defaultPath home)
  name :: (extendedPaths name).map (·.1)

/-- The configuration of a run; `path` is the file that is named. -/
def load (s : Surroundings) (path : Option String) : Except Failure AppConfig := do
  let file ← chosenEntries s path
  ofSources [file, s.environment.filterMap variableEntry?]

end AppConfig

end EvalProxy
