/-
# Cache exports

All three tables of a cache as one value, and its binary form: a version number of four octets and
three maps, each the number of its entries and the entries, every text and every octet string behind
its length. Numbers stand with their lowest octet first; lengths take eight octets.

Main definitions: `Export`, `Export.encode`, `Export.decode?`.
-/
import EvalProxy.Assoc
import EvalProxy.Text.Bytes
namespace EvalProxy.Cache

/-- The entries of a cache, with the version of the format. -/
structure Export where
  version : Nat
  requests : Dict Bytes
  responses : Dict Bytes
  headers : Dict (Dict String)

/-- The version of the format that is written and understood. -/
def Export.currentVersion : Nat := 1

/-- An export without entries. -/
def Export.empty : Export := ⟨currentVersion, .empty, .empty, .empty⟩

/-- Whether there are no entries. -/
def Export.isEmpty (e : Export) : Bool :=
  e.requests.size == 0 && e.responses.size == 0 && e.headers.size == 0

/-! ## Writing -/

/-- A number in a given number of octets, the lowest first. -/
def littleEndian : Nat → Nat → Bytes
  | 0, _ => []
  | width + 1, n => UInt8.ofNat (n % 256) :: littleEndian width (n / 256)

/-- A length. -/
def encodeLength (n : Nat) : Bytes := littleEndian 8 n

/-- Octets behind their length. -/
def encodeBytes (b : Bytes) : Bytes := encodeLength b.length ++ b

/-- A text behind its length in octets. -/
def encodeText (s : String) : Bytes := encodeBytes (Text.encode s)

/-- A map: the number of entries, and each key and value. -/
def encodeDict {α : Type} (value : α → Bytes) (d : Dict α) : Bytes :=
  encodeLength d.size ++ d.entries.flatMap fun e => encodeText e.1 ++ value e.2

/-- The binary form of an export. -/
def Export.encode (e : Export) : Bytes :=
  littleEndian 4 e.version ++ encodeDict encodeBytes e.requests
    ++ encodeDict encodeBytes e.responses
    ++ encodeDict (encodeDict encodeText) e.headers

/-! ## Reading -/

/-- A reader takes a value from the front of octets and gives the rest. -/
abbrev Reader (α : Type) := Bytes → Option (α × Bytes)

/-- A given number of octets. -/
def takeBytes (n : Nat) : Reader Bytes := fun b =>
  if n ≤ b.length then some (b.take n, b.drop n) else none

/-- The number that octets spell, the lowest first. -/
def ofLittleEndian : Bytes → Nat
  | [] => 0
  | b :: rest => b.toNat + 256 * ofLittleEndian rest

/-- A number of a given width. -/
def readNumber (width : Nat) : Reader Nat := fun b => do
  let (octets, rest) ← takeBytes width b
  some (ofLittleEndian octets, rest)

/-- Octets behind their length. -/
def readBytes : Reader Bytes := fun b => do
  let (length, rest) ← readNumber 8 b
  takeBytes length rest

/-- A text behind its length. -/
def readText : Reader String := fun b => do
  let (octets, rest) ← readBytes b
  let s ← Text.decode? octets
  some (s, rest)

/-- A number of entries. Each takes octets, so the octets bound how many can be read. -/
def readEntries {α : Type} (value : Reader α) : Nat → Nat → Reader (List (String × α))
  | _, 0, b => some ([], b)
  | 0, _ + 1, _ => none
  | fuel + 1, count + 1, b => do
    let (key, b) ← readText b
    let (v, b) ← value b
    let (entries, b) ← readEntries value fuel count b
    some ((key, v) :: entries, b)

/-- A map; of several entries at one key the last stays. -/
def readDict {α : Type} (value : Reader α) : Reader (Dict α) := fun b => do
  let (count, rest) ← readNumber 8 b
  let (entries, rest) ← readEntries value rest.length count rest
  some (Dict.ofList entries, rest)

/-- An export at the front of octets, and the rest. -/
def readExport : Reader Export := fun b => do
  let (version, b) ← readNumber 4 b
  let (requests, b) ← readDict readBytes b
  let (responses, b) ← readDict readBytes b
  let (headers, b) ← readDict (readDict readText) b
  some (⟨version, requests, responses, headers⟩, b)

/-- The export that octets start with, if they do; what follows it does not matter. -/
def Export.decode? (b : Bytes) : Option Export := (readExport b).map (·.1)

end EvalProxy.Cache
