/-
# Header fields

The header fields of a message. Names are in lower case; each name has its values in their order,
and names stand in the order in which they first appeared. `normalize` joins the values of a name
into one text, and `ofMap` splits such texts again.

Main definitions: `Headers`, `Headers.normalize`, `Headers.ofMap`, `Headers.forwardable`.
-/
import EvalProxy.Assoc
import EvalProxy.Text.Bytes
namespace EvalProxy

/-- Header fields: each name once, with its values. -/
abbrev Headers := List (String × List Bytes)

namespace Headers

/-! ## Names and values -/

/-- The largest length of a field name. -/
def maxNameLength : Nat := 65535

/-- Whether a character may stand in a field name. -/
def isTokenChar (c : Char) : Bool :=
  c.isAlphanum || "!#$%&'*+-.^_`|~".toList.contains c

/-- A field name in lower case, if the text is one. -/
def name? (s : String) : Option String :=
  if s.toList.all isTokenChar && !s.isEmpty && s.length ≤ maxNameLength then
    some (String.ofList (s.toList.map Char.toLower))
  else none

/-- Whether an octet may stand in a field value: all but controls other than the tab. -/
def isValueOctet (b : UInt8) : Bool := (0x20 ≤ b && b != 0x7F) || b == 0x09

/-- Whether octets can be a field value. -/
def isValue (value : Bytes) : Bool := value.all isValueOctet

/-- Whether an octet is visible ASCII, a blank or a tab. -/
def isPlainOctet (b : UInt8) : Bool := (0x20 ≤ b && b < 0x7F) || b == 0x09

/-- A field value as text, if it is plain ASCII. -/
def plain? (value : Bytes) : Option String :=
  if value.all isPlainOctet then Text.decode? value else none

/-! ## Access -/

/-- The values of a field in their order. -/
def values (h : Headers) (name : String) : List Bytes :=
  match h with
  | [] => []
  | (n, vs) :: rest => if n = name then vs else values rest name

/-- The first value of a field. -/
def get? (h : Headers) (name : String) : Option Bytes := (values h name).head?

/-- Whether a field has a value. -/
def contains (h : Headers) (name : String) : Bool := h.any (·.1 == name)

/-- The fields with a value added after those that the name has. -/
def append (h : Headers) (name : String) (value : Bytes) : Headers :=
  match h with
  | [] => [(name, [value])]
  | (n, vs) :: rest =>
    if n = name then (n, vs ++ [value]) :: rest else (n, vs) :: append rest name value

/-- The fields with a value in place of those that the name has. -/
def set (h : Headers) (name : String) (value : Bytes) : Headers :=
  match h with
  | [] => [(name, [value])]
  | (n, vs) :: rest => if n = name then (n, [value]) :: rest else (n, vs) :: set rest name value

/-- The fields without a name. -/
def remove (h : Headers) (name : String) : Headers := h.filter (·.1 != name)

/-- The fields that a list of single values spells. -/
def ofList (fields : List (String × Bytes)) : Headers :=
  fields.foldl (fun h f => append h f.1 f.2) []

/-- Every value of every field. -/
def toList (h : Headers) : List (String × Bytes) := h.flatMap fun f => f.2.map fun v => (f.1, v)

/-- What a field holds after a value was added. -/
theorem values_append (h : Headers) (name name' : String) (value : Bytes) :
    values (append h name value) name'
      = if name = name' then values h name' ++ [value] else values h name' := by
  induction h with
  | nil => by_cases e : name = name' <;> simp [append, values, e]
  | cons f rest ih =>
    obtain ⟨n, vs⟩ := f
    simp only [append]
    by_cases hn : n = name
    · subst hn
      by_cases e : n = name' <;> simp [values, e]
    · rw [if_neg hn]
      by_cases e : n = name'
      · have : name ≠ name' := fun heq => hn (e.trans heq.symm)
        simp [values, e, this]
      · simp [values, e, ih]

/-- What a field holds after it was set. -/
theorem values_set (h : Headers) (name name' : String) (value : Bytes) :
    values (set h name value) name' = if name = name' then [value] else values h name' := by
  induction h with
  | nil => by_cases e : name = name' <;> simp [set, values, e]
  | cons f rest ih =>
    obtain ⟨n, vs⟩ := f
    simp only [set]
    by_cases hn : n = name
    · subst hn
      by_cases e : n = name' <;> simp [values, e]
    · rw [if_neg hn]
      by_cases e : n = name'
      · have : name ≠ name' := fun heq => hn (e.trans heq.symm)
        simp [values, e, this]
      · simp [values, e, ih]

/-! ## Normal form -/

/-- The character between joined values, which no value holds. -/
def separator : Char := '\n'

/-- Texts joined by the separator. -/
def joinChars : List (List Char) → List Char
  | [] => []
  | [t] => t
  | t :: rest => t ++ separator :: joinChars rest

/-- A text cut at the separators; there is always at least one piece. -/
def splitChars : List Char → List (List Char)
  | [] => [[]]
  | c :: rest =>
    if c = separator then [] :: splitChars rest
    else
      match splitChars rest with
      | [] => [[c]]
      | t :: ts => (c :: t) :: ts

/-- The values of a field as one text; octets that are no UTF-8 are replaced. -/
def joined (vs : List Bytes) : String :=
  String.ofList (joinChars (vs.map fun v => (Text.lossy v).toList))

/-- The values that a joined text holds, in order. -/
def pieces (text : String) : List Bytes :=
  (splitChars text.toList).map fun cs => Text.encode (String.ofList cs)

/-- The fields as a map from names to joined texts. -/
def normalize (h : Headers) : Dict String := Dict.ofList (h.map fun f => (f.1, joined f.2))

/-- The fields with all valid values of one name added. -/
def appendAll (h : Headers) (name : String) (vs : List Bytes) : Headers :=
  vs.foldl (fun h v => if isValue v then append h name v else h) h

/-- The fields that a map from names to joined texts holds; names and values that no field can have
are left out. -/
def ofMap (map : Dict String) : Headers :=
  map.entries.foldl
    (fun h e =>
      match name? e.1 with
      | some name => appendAll h name (pieces e.2)
      | none => h) []

/-! ## Hops -/

/-- Fields that describe a single hop. -/
def hopNames : List String :=
  ["host", "content-length", "connection", "transfer-encoding", "accept-encoding",
   "content-encoding", "upgrade"]

/-- The fields that are passed on. -/
def forwardable (h : Headers) : Headers := h.filter fun f => !hopNames.contains f.1

end Headers

end EvalProxy
