/-
# Shapes of JSON values

A `Shape` says what a JSON value must look like: the settings of a component, the usage block of a
response, a stored header map. `Shape.conform` checks a value against a shape and brings it into the
shape's normal form, in which every field of a record is present. A record may also be given as the
array of its fields in their order.

Main definitions: `Shape`, `Field`, `Shape.conform`, `Mismatch` messages.
-/
import EvalProxy.Json.Print
import EvalProxy.Text.Shown
namespace EvalProxy.Json

/-! ## Shapes -/

mutual

/-- What a JSON value must look like. -/
inductive Shape where
  /-- Any value. -/
  | any
  /-- A truth value. -/
  | flag
  /-- A whole number from zero to a limit, under the name that messages give the type. -/
  | natural (name : String) (limit : Nat)
  /-- Any number, read as a float. -/
  | float
  /-- A string. -/
  | text
  /-- A string that names a file. -/
  | path
  /-- A string from a list of choices. -/
  | choice (choices : List String)
  /-- An array. -/
  | list (item : Shape)
  /-- An object with arbitrary keys. -/
  | dict (value : Shape)
  /-- An object with given fields; a closed one admits no others. -/
  | record (name : String) (closed : Bool) (fields : List Field)

/-- A field of a record: its key, whether `null` is admitted, the value that stands for an absent
field, and the shape. -/
inductive Field where
  | mk (key : String) (nullable : Bool) (fallback : Option Json) (shape : Shape)

end

/-- The key of a field. -/
def Field.key : Field → String
  | .mk key .. => key

/-- Whether a field may be `null`. -/
def Field.nullable : Field → Bool
  | .mk _ nullable .. => nullable

/-- The value of an absent field. -/
def Field.fallback : Field → Option Json
  | .mk _ _ fallback _ => fallback

/-- The shape of a field's value. -/
def Field.shape : Field → Shape
  | .mk _ _ _ shape => shape

/-- A field that must be given. -/
def required (key : String) (shape : Shape) : Field := .mk key false none shape

/-- A field with a default. -/
def defaulted (key : String) (fallback : Json) (shape : Shape) : Field :=
  .mk key false (some fallback) shape

/-- A field that may be absent or `null`. -/
def optional (key : String) (shape : Shape) : Field := .mk key true (some .null) shape

/-- A field that may be absent from an object, or `null`, but not missing from an array. -/
def nullable (key : String) (shape : Shape) : Field := .mk key true none shape

/-- The largest unsigned number of 64 bits. -/
def maxU64 : Nat := UInt64.size - 1

/-- A 64-bit count. -/
def Shape.u64 : Shape := .natural "u64" maxU64

/-- A size in memory. -/
def Shape.usize : Shape := .natural "usize" maxU64

/-! ## Messages -/

/-- The kind of a value, as messages name it. -/
def kindText : Json → String
  | .null => "null"
  | .bool b => s!"boolean `{b}`"
  | .int n => s!"integer `{n}`"
  | .float x => s!"floating point `{Decimal.Layout.json.write x}`"
  | .text s => s!"string {Text.shown s}"
  | .array _ => "sequence"
  | .object _ => "map"

/-- What a shape expects, as messages name it. -/
def Shape.expectation : Shape → String
  | .any => "any value"
  | .flag => "a boolean"
  | .natural name _ => name
  | .float => "f64"
  | .text => "a string"
  | .path => "path string"
  | .choice _ => "string or map"
  | .list _ => "a sequence"
  | .dict _ => "a map"
  | .record name _ _ => s!"struct {name}"

/-- A value of the wrong kind. -/
def wrongKind (found expected : String) : String := s!"invalid type: {found}, expected {expected}"

/-- A value of the right kind that is out of range. -/
def wrongValue (found expected : String) : String := s!"invalid value: {found}, expected {expected}"

/-- A list of the wrong length. -/
def wrongLength (length : Nat) (expected : String) : String :=
  s!"invalid length {length}, expected {expected}"

/-- Names in code quotes, as messages list what is admitted. -/
def listed (names : List String) : String :=
  match names.map fun n => s!"`{n}`" with
  | [] => "nothing"
  | [a] => s!"expected {a}"
  | [a, b] => s!"expected {a} or {b}"
  | all => "expected one of " ++ ", ".intercalate all

/-- A field that the record does not have. -/
def unknownField (key : String) (fields : List Field) : String :=
  match fields with
  | [] => s!"unknown field `{key}`, there are no fields"
  | _ => s!"unknown field `{key}`, {listed (fields.map Field.key)}"

/-- A choice that is not offered. -/
def unknownChoice (name : String) (choices : List String) : String :=
  s!"unknown variant `{name}`, {listed choices}"

/-- A field that must be given and is not. -/
def missingField (key : String) : String := s!"missing field `{key}`"

/-- A field that is given twice. -/
def duplicateField (key : String) : String := s!"duplicate field `{key}`"

/-- A record with its number of fields. -/
def recordOf (name : String) (count : Nat) : String :=
  s!"struct {name} with {count} " ++ if count = 1 then "element" else "elements"

/-! ## Conformity -/

/-- A whole number as a float. -/
def intToFloat (n : Int) : Float :=
  if n < 0 then -(UInt64.ofNat n.natAbs).toFloat else (UInt64.ofNat n.natAbs).toFloat

/-- A scalar in the normal form of a shape. -/
def Shape.conformScalar (shape : Shape) (v : Json) : Except String Json :=
  match shape, v with
  | .any, v => .ok v
  | .flag, .bool b => .ok (.bool b)
  | .natural name limit, .int n =>
    if n < 0 || (limit : Int) < n then .error (wrongValue (kindText (.int n)) name)
    else .ok (.int n)
  | .float, .int n => .ok (.float (intToFloat n))
  | .float, .float x => .ok (.float x)
  | .text, .text s => .ok (.text s)
  | .path, .text s => .ok (.text s)
  | .choice choices, .text s =>
    if choices.contains s then .ok (.text s) else .error (unknownChoice s choices)
  | .choice choices, .object [(k, w)] =>
    if choices.contains k then
      if w.isNull then .ok (.text k) else .error (wrongKind (kindText w) "unit")
    else .error (unknownChoice k choices)
  | .choice _, .object _ => .error (wrongValue "map" "map with a single key")
  | shape, v => .error (wrongKind (kindText v) shape.expectation)

/-- The value of a field that an object does not give. -/
def Field.absent (f : Field) : Except String Json :=
  match f.fallback with
  | some v => .ok v
  | none => if f.nullable then .ok .null else .error (missingField f.key)

/-- The fields of a record with the values given for them, absent ones filled in. -/
def fillFields (given : List (String × Json)) : List Field → Except String (List (String × Json))
  | [] => .ok []
  | f :: rest => do
    let v ← match Assoc.get? f.key given with
      | some v => .ok v
      | none => f.absent
    let tail ← fillFields given rest
    .ok ((f.key, v) :: tail)

/-- The values of the fields that an array does not reach; `index` is the place of the first. -/
def fillPlaces (name : String) (count index : Nat) :
    List Field → Except String (List (String × Json))
  | [] => .ok []
  | f :: rest =>
    match f.fallback with
    | some v => do
      let tail ← fillPlaces name count (index + 1) rest
      .ok ((f.key, v) :: tail)
    | none => .error (wrongLength index (recordOf name count))

mutual

/-- The normal form of a value of a shape, or what is wrong with it. -/
def conformTo (shape : Shape) : Json → Except String Json
  | .array items =>
    match shape with
    | .any => .ok (.array items)
    | .list item => do
      let vs ← conformItems item items
      .ok (.array vs)
    | .record name _ fields => do
      let given ← conformPlaces name fields.length 0 fields items
      if fields.length < items.length then
        .error (wrongLength items.length "fewer elements in array")
      else .ok (ofMembers given)
    | shape => shape.conformScalar (.array items)
  | .object members =>
    match shape with
    | .any => .ok (.object members)
    | .dict value => do
      let vs ← conformValues value members
      .ok (.object vs)
    | .record _ closed fields => do
      let given ← conformMembers closed fields members
      let all ← fillFields given fields
      .ok (ofMembers all)
    | shape => shape.conformScalar (.object members)
  | .null => shape.conformScalar .null
  | .bool b => shape.conformScalar (.bool b)
  | .int n => shape.conformScalar (.int n)
  | .float x => shape.conformScalar (.float x)
  | .text s => shape.conformScalar (.text s)

/-- The elements of a list. -/
def conformItems (item : Shape) : List Json → Except String (List Json)
  | [] => .ok []
  | v :: rest => do
    let w ← conformTo item v
    let ws ← conformItems item rest
    .ok (w :: ws)

/-- The values of a dictionary. -/
def conformValues (value : Shape) : List (String × Json) → Except String (List (String × Json))
  | [] => .ok []
  | (k, v) :: rest => do
    let w ← conformTo value v
    let ws ← conformValues value rest
    .ok ((k, w) :: ws)

/-- The members of a record that are fields of it. -/
def conformMembers (closed : Bool) (fields : List Field) :
    List (String × Json) → Except String (List (String × Json))
  | [] => .ok []
  | (k, v) :: rest =>
    match fields.find? fun f => f.key == k with
    | some f => do
      let w ← if f.nullable && v.isNull then .ok .null else conformTo f.shape v
      let ws ← conformMembers closed fields rest
      .ok ((k, w) :: ws)
    | none =>
      if closed then .error (unknownField k fields) else conformMembers closed fields rest

/-- The elements of an array as the fields of a record; `index` is the place of the first. -/
def conformPlaces (name : String) (count index : Nat) (fields : List Field) :
    List Json → Except String (List (String × Json))
  | [] => fillPlaces name count index fields
  | v :: rest =>
    match fields with
    | [] => .ok []
    | f :: fields => do
      let w ← if f.nullable && v.isNull then .ok .null else conformTo f.shape v
      let ws ← conformPlaces name count (index + 1) fields rest
      .ok ((f.key, w) :: ws)

end

/-- The normal form of a value of a shape, or what is wrong with it. -/
def Shape.conform (shape : Shape) (v : Json) : Except String Json := conformTo shape v

/-! ## Reading normal forms -/

/-- The value of a field in a normal form. -/
def field (v : Json) (key : String) : Json := (v.member? key).getD .null

/-- A truth value; anything else counts as false. -/
def asBool : Json → Bool
  | .bool b => b
  | _ => false

/-- A whole number; anything else counts as zero. -/
def asNat : Json → Nat
  | .int n => n.toNat
  | _ => 0

/-- A whole number, if the value is one. -/
def asNat? : Json → Option Nat
  | .int n => some n.toNat
  | _ => none

/-- A float, if the value is one. -/
def asFloat? : Json → Option Float
  | .float x => some x
  | _ => none

/-- A text; anything else counts as the empty one. -/
def asText (v : Json) : String := v.text?.getD ""

/-- The elements of an array; anything else has none. -/
def asArray (v : Json) : List Json := v.array?.getD []

/-- The members of an object; anything else has none. -/
def asMembers (v : Json) : List (String × Json) := v.object?.getD []

end EvalProxy.Json
