/-
# Paths

The text of a file path, cut into its parts and put together again. Empty parts and single dots say
nothing; two dots take back the part before them.

Main definitions: `parts`, `join`, `parent?`, `extension?`, `withExtension`.
-/
namespace EvalProxy.Files.Path

/-- The pieces of a text between slashes. -/
def pieces : List Char → List (List Char)
  | [] => [[]]
  | c :: rest =>
    if c = '/' then [] :: pieces rest
    else
      match pieces rest with
      | [] => [[c]]
      | p :: ps => (c :: p) :: ps

/-- The pieces of a path that name something, two dots among them. -/
def names (path : String) : List String :=
  ((pieces path.toList).filter fun p => !p.isEmpty && p != ['.']).map String.ofList

/-- Whether a path starts at the root of the file system. -/
def isAbsolute (path : String) : Bool := path.toList.head? == some '/'

/-- The parts that lead from the working directory to what a path names. -/
def parts (path : String) : List String :=
  let steps := (names path).foldl (fun acc n => if n = ".." then acc.drop 1 else n :: acc) []
  if isAbsolute path then "/" :: steps.reverse else steps.reverse

/-- A path below another one. An absolute path stands for itself. -/
def join (directory path : String) : String :=
  if directory.isEmpty || isAbsolute path then path
  else if directory.toList.getLast? == some '/' then directory ++ path
  else directory ++ "/" ++ path

/-- The text without slashes, and without single dots behind a slash, at its end. `reversed` is the
text from its end. -/
def trimEnd (reversed : List Char) : List Char :=
  match reversed with
  | '/' :: rest => if rest.isEmpty then ['/'] else trimEnd rest
  | '.' :: '/' :: rest => trimEnd ('/' :: rest)
  | other => other
termination_by reversed.length

/-- The characters of the last part of a path, and those before it from their end. -/
def splitLast (path : String) : List Char × List Char :=
  let reversed := trimEnd path.toList.reverse
  let last := reversed.takeWhile (· ≠ '/')
  (last.reverse, reversed.drop last.length)

/-- The path without its last part, if it has one. -/
def parent? (path : String) : Option String :=
  let (last, before) := splitLast path
  if last.isEmpty then none else some (String.ofList (trimEnd before).reverse)

/-- The last part of a path, if it names something. -/
def fileName? (path : String) : Option String :=
  let last := (splitLast path).1
  if last.isEmpty || last == ['.'] || last == ['.', '.'] then none else some (String.ofList last)

/-- A file name before and after its last dot; a dot at the start does not count. -/
def splitExtension (name : String) : String × Option String :=
  let reversed := name.toList.reverse
  let after := reversed.takeWhile (· ≠ '.')
  let before := reversed.drop (after.length + 1)
  if before.isEmpty then (name, none)
  else (String.ofList before.reverse, some (String.ofList after.reverse))

/-- The text after the last dot of the last part. -/
def extension? (path : String) : Option String := do
  let name ← fileName? path
  (splitExtension name).2

/-- The path with another text after the last dot of its last part. -/
def withExtension (path extension : String) : String :=
  match fileName? path with
  | none => path
  | some name =>
    let changed := (splitExtension name).1 ++ "." ++ extension
    match parent? path with
    | some directory => join directory changed
    | none => changed

end EvalProxy.Files.Path
