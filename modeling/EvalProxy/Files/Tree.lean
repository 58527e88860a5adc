/-
# Trees of files

The files below the working directory: ordinary files, directories and cache databases, each at its
path. Every operation says how it fails; a write may also fail midway, and then leaves the part of
the file that the disk took.

Main definitions: `Tree`, `Tree.read`, `Tree.put`, `Tree.createDirectories`, `Tree.replace`.
-/
import EvalProxy.Cache.Store
import EvalProxy.Files.Path
namespace EvalProxy.Files

/-! ## Faults -/

/-- Why an operation on files fails. -/
inductive Fault where
  | missing
  | taken
  | notDirectory
  | isDirectory
  | nameTooLong
  | notText
  | badName
  | denied
  | noSpace

/-- The wording of a fault. -/
def Fault.message : Fault → String
  | missing => "No such file or directory (os error 2)"
  | taken => "File exists (os error 17)"
  | notDirectory => "Not a directory (os error 20)"
  | isDirectory => "Is a directory (os error 21)"
  | nameTooLong => "File name too long (os error 36)"
  | notText => "stream did not contain valid UTF-8"
  | badName => "file name contained an unexpected NUL byte"
  | denied => "Permission denied (os error 13)"
  | noSpace => "No space left on device (os error 28)"

/-! ## Trees -/

/-- What stands at a path. -/
inductive Node where
  | file (content : Bytes)
  | directory
  | database (store : Cache.Store)

/-- What a disk does with a file that is written: it takes all of it, does not let it be opened, or
breaks off after some octets. -/
inductive Uptake where
  | takes
  | refuses (e : Fault)
  | breaksOff (count : Nat) (e : Fault)

/-- The nodes below the working directory by their normal paths, and what the disk does with a file
that is written at some parts. -/
structure Tree where
  nodes : Dict Node
  disk : List String → Bytes → Uptake

namespace Tree

/-- The tree without files, on a disk that takes everything. -/
def empty : Tree := ⟨.empty, fun _ _ => .takes⟩

/-- The normal path of parts. -/
def key (parts : List String) : String := "/".intercalate parts

/-- The node at parts; no parts lead to the working directory itself. -/
def node? (t : Tree) (parts : List String) : Option Node :=
  if parts.isEmpty then some .directory else t.nodes.get? (key parts)

/-- The tree with a node at parts. -/
def withNode (t : Tree) (parts : List String) (n : Node) : Tree :=
  { t with nodes := t.nodes.insert (key parts) n }

/-- The tree without the node at parts. -/
def without (t : Tree) (parts : List String) : Tree :=
  { t with nodes := t.nodes.erase (key parts) }

/-- The largest number of octets in a name. -/
def maxName : Nat := 255

/-- Walks to where the parts lead, through directories only; `walked` are the parts so far. -/
def walk (t : Tree) (walked : List String) : List String → Except Fault (Option Node)
  | [] => .ok (t.node? walked)
  | p :: rest =>
    match t.node? walked with
    | some .directory =>
      if p.toList.contains '\x00' then .error .badName
      else if maxName < p.utf8ByteSize then .error .nameTooLong
      else walk t (walked ++ [p]) rest
    | some _ => .error .notDirectory
    | none => .error .missing

/-- The node at a path; the way there must lead through directories. -/
def find (t : Tree) (path : String) : Except Fault (Option Node) :=
  if path.isEmpty then .error .missing else t.walk [] (Path.parts path)

/-- Whether there is anything at a path. -/
def contains (t : Tree) (path : String) : Bool :=
  match t.find path with
  | .ok (some _) => true
  | _ => false

/-- The content of a file. -/
def read (t : Tree) (path : String) : Except Fault Bytes := do
  match ← t.find path with
  | some (.file content) => .ok content
  | some .directory => .error .isDirectory
  | some (.database _) => .ok []
  | none => .error .missing

/-- The text of a file. -/
def readText (t : Tree) (path : String) : Except Fault String := do
  let content ← t.read path
  match Text.decode? content with
  | some s => .ok s
  | none => .error .notText

/-- The tree with a file at a path, which takes the place of the one that was there. -/
def write (t : Tree) (path : String) (content : Bytes) : Except Fault Tree := do
  match ← t.find path with
  | some .directory => .error .isDirectory
  | _ => .ok (t.withNode (Path.parts path) (.file content))

/-- Writes a file to the disk. If the disk breaks off, the file holds the octets that it took. Gives
the tree in any case. -/
def put (t : Tree) (path : String) (content : Bytes) : Tree × Option Fault :=
  match t.write path content with
  | .error e => (t, some e)
  | .ok written =>
    match t.disk (Path.parts path) content with
    | .takes => (written, none)
    | .refuses e => (t, some e)
    | .breaksOff count e =>
      (t.withNode (Path.parts path) (.file (content.take count)), some e)

/-- The tree with a directory at every prefix of the parts; `walked` are the parts so far. -/
def makeDirectories (t : Tree) (walked : List String) : List String → Except Fault Tree
  | [] => .ok t
  | p :: rest =>
    let here := walked ++ [p]
    if p.toList.contains '\x00' then .error .badName
    else if maxName < p.utf8ByteSize then .error .nameTooLong
    else
      match t.node? here with
      | some .directory => makeDirectories t here rest
      | some _ => .error (if rest.isEmpty then .taken else .notDirectory)
      | none => makeDirectories (t.withNode here .directory) here rest

/-- The tree with a directory at a path and at everything on the way there. -/
def createDirectories (t : Tree) (path : String) : Except Fault Tree :=
  t.makeDirectories [] (Path.parts path)

/-- The tree with the directory of a path, if the path names one. -/
def createParent (t : Tree) (path : String) : Except Fault Tree :=
  match Path.parent? path with
  | some directory => t.createDirectories directory
  | none => .ok t

/-- The tree without the file at a path. -/
def remove (t : Tree) (path : String) : Tree := t.without (Path.parts path)

/-- The tree with a file moved to another path, where it takes the place of what was there. -/
def rename (t : Tree) (source target : String) : Except Fault Tree := do
  match ← t.find source with
  | none => .error .missing
  | some n =>
    match ← t.find target with
    | some .directory => .error .isDirectory
    | _ => .ok ((t.without (Path.parts source)).withNode (Path.parts target) n)

/-- Replaces a file as a whole: the content goes to a temporary file beside it, which then takes its
place. The directory is made if needed; if the temporary file cannot be moved, it goes. `name` tells
the temporary file from all others. Gives the tree in any case. -/
def replace (t : Tree) (path name : String) (content : Bytes) : Tree × Option Fault :=
  match t.createParent path with
  | .error e => (t, some e)
  | .ok t =>
    let temporary := Path.withExtension path s!"json.{name}.tmp"
    match t.put temporary content with
    -- what the disk took of the temporary file stays there
    | (t, some e) => (t, some e)
    | (written, none) =>
      match written.rename temporary path with
      | .error e => (written.remove temporary, some e)
      | .ok replaced => (replaced, none)

/-- The names in a directory, in their order. -/
def list (t : Tree) (path : String) : Except Fault (List String) := do
  match ← t.find path with
  | some .directory =>
    let parts := Path.parts path
    let start := if parts.isEmpty then [] else (key parts).toList ++ ['/']
    let below (k : String) : Option String :=
      let cs := k.toList
      if start.isPrefixOf cs then
        let name := cs.drop start.length
        -- what lies deeper is not in the directory itself
        if name.isEmpty || name.contains '/' then none else some (String.ofList name)
      else none
    .ok (t.nodes.keys.filterMap below)
  | some _ => .error .notDirectory
  | none => .error .missing

/-- The paths of all files other than databases. -/
def files (t : Tree) : List String :=
  t.nodes.entries.filterMap fun e =>
    match e.2 with
    | .file _ => some e.1
    | _ => none

end Tree

end EvalProxy.Files
