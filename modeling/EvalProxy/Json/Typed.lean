/-
# Reading JSON text of a given shape

Reads a text straight into the normal form of a shape, so that a mismatch is reported at its place
in the text and before any fault that comes later. Members that a record does not know are skipped:
they must be well formed, but may nest at any depth and hold escapes that spell no character.

Main definition: `Shape.parse`.
-/
import EvalProxy.Json.Parse
import EvalProxy.Json.Shape
namespace EvalProxy.Json

/-! ## Skipping -/

mutual

/-- Skips a value. -/
def skipValue : Nat → Bytes → Except Fault Bytes
  | 0, s => .error (.next .eofInValue s)
  | fuel + 1, s =>
    match skipBlanks s with
    | [] => .error (.next .eofInValue [])
    | b :: rest =>
      if b = 0x22 then skipString rest
      else if b = 0x7B then skipMembers fuel true rest
      else if b = 0x5B then skipItems fuel true rest
      else if b = 0x6E then readWord nullTail rest
      else if b = 0x74 then readWord trueTail rest
      else if b = 0x66 then readWord falseTail rest
      else if b = 0x2D then skipNumber rest
      else if isDigit b then skipNumber (b :: rest)
      else .error (.next .expectedValue (b :: rest))

/-- Skips the elements of an array and its closing bracket. -/
def skipItems : Nat → Bool → Bytes → Except Fault Bytes
  | 0, _, s => .error (.next .eofInList s)
  | fuel + 1, first, s =>
    match skipBlanks s with
    | [] => .error (.next .eofInList [])
    | b :: rest =>
      if b = 0x5D then .ok rest
      else if first then do
        let rest ← skipValue fuel (b :: rest)
        skipItems fuel false rest
      else if b = 0x2C then do
        let rest ← skipValue fuel rest
        skipItems fuel false rest
      else .error (.next .expectedCommaOrBracket (b :: rest))

/-- Skips the members of an object and its closing brace. -/
def skipMembers : Nat → Bool → Bytes → Except Fault Bytes
  | 0, _, s => .error (.next .eofInObject s)
  | fuel + 1, first, s =>
    match skipBlanks s with
    | [] => .error (.next .eofInObject [])
    | b :: rest =>
      if b = 0x7D then .ok rest
      else if first then skipMember fuel (b :: rest)
      else if b = 0x2C then skipMember fuel rest
      else .error (.next .expectedCommaOrBrace (b :: rest))

/-- Skips a member and all that follow it. -/
def skipMember : Nat → Bytes → Except Fault Bytes
  | 0, s => .error (.next .eofInObject s)
  | fuel + 1, s =>
    match skipBlanks s with
    | [] => .error (.next .eofInObject [])
    | b :: rest =>
      if b = 0x22 then do
        let rest ← skipString rest
        let rest ← readColon rest
        let rest ← skipValue fuel rest
        skipMembers fuel false rest
      else .error (.next .keyNoString (b :: rest))

end

/-! ## Mismatches -/

/-- The value that starts here is not of the expected kind: the fault stands after a scalar, and
before an array or an object. -/
def mismatchAt (expected : String) (s : Bytes) : Fault :=
  let after (v : Json) (rest : Bytes) : Fault :=
    .at (.mismatch (wrongKind (kindText v) expected)) rest
  let word (v : Json) (tail rest : Bytes) : Fault :=
    match readWord tail rest with
    | .ok rest => after v rest
    | .error f => f
  let number (negative : Bool) (s : Bytes) : Fault :=
    match readNumber negative s with
    | .ok (n, rest) => after n.toJson rest
    | .error f => f
  match s with
  | [] => .next .expectedValue []
  | b :: rest =>
    if b = 0x22 then
      match readString rest with
      | .ok (t, rest) => after (.text t) rest
      | .error f => f
    else if b = 0x7B then after (.object []) (b :: rest)
    else if b = 0x5B then after (.array []) (b :: rest)
    else if b = 0x6E then word .null nullTail rest
    else if b = 0x74 then word (.bool true) trueTail rest
    else if b = 0x66 then word (.bool false) falseTail rest
    else if b = 0x2D then number true rest
    else if isDigit b then number false (b :: rest)
    else .next .expectedValue (b :: rest)

/-- A mismatch found inside an object, reported after the closing brace if that comes next. -/
def inObject (message : String) (s : Bytes) : Fault :=
  match skipBlanks s with
  | [] => .at (.mismatch message) []
  | b :: rest => .at (.mismatch message) (if b = 0x7D then rest else b :: rest)

/-- The end of an array that stands for a record. -/
def closeRecord (s : Bytes) : Except Fault Bytes :=
  match skipBlanks s with
  | [] => .error (.next .eofInList [])
  | b :: rest =>
    if b = 0x5D then .ok rest
    else if b = 0x2C then
      match skipBlanks rest with
      | [] => .error (.next .trailingCharacters [])
      | c :: after =>
        .error (.next (if c = 0x5D then .trailingComma else .trailingCharacters) (c :: after))
    else .error (.next .trailingCharacters (b :: rest))

/-! ## Reading -/

/-- A scalar of a shape that is not `any`; blanks before it are skipped. -/
def readScalar (shape : Shape) (s : Bytes) : Except Fault (Json × Bytes) :=
  let judged (v : Json) (rest : Bytes) : Except Fault (Json × Bytes) :=
    match shape.conformScalar v with
    | .ok w => .ok (w, rest)
    | .error message => .error (.at (.mismatch message) rest)
  match skipBlanks s with
  | [] => .error (.next .eofInValue [])
  | b :: rest =>
    match shape with
    | .flag =>
      if b = 0x74 then (readWord trueTail rest).map fun rest => (.bool true, rest)
      else if b = 0x66 then (readWord falseTail rest).map fun rest => (.bool false, rest)
      else .error (mismatchAt shape.expectation (b :: rest))
    | .natural .. | .float =>
      if b = 0x2D then do
        let (n, rest) ← readNumber true rest
        judged n.toJson rest
      else if isDigit b then do
        let (n, rest) ← readNumber false (b :: rest)
        judged n.toJson rest
      else .error (mismatchAt shape.expectation (b :: rest))
    | .text | .path =>
      if b = 0x22 then do
        let (t, rest) ← readString rest
        .ok (.text t, rest)
      else .error (mismatchAt shape.expectation (b :: rest))
    | .choice _ =>
      if b = 0x22 then do
        let (t, rest) ← readString rest
        judged (.text t) rest
      else .error (mismatchAt shape.expectation (b :: rest))
    | _ => .error (mismatchAt shape.expectation (b :: rest))

mutual

/-- A value of a shape. -/
def readShape : Nat → Nat → Shape → Bytes → Except Fault (Json × Bytes)
  | 0, _, _, s => .error (.next .eofInValue s)
  | fuel + 1, depth, shape, s =>
    match skipBlanks s with
    | [] => .error (.next .eofInValue [])
    | b :: rest =>
      match shape with
      | .any => readValue fuel depth (b :: rest)
      | .list item =>
        if b = 0x5B then
          if depth ≤ 1 then .error (.next .tooDeep (b :: rest))
          else do
            let (vs, rest) ← readShapeItems fuel (depth - 1) item true rest
            .ok (.array vs, rest)
        else .error (mismatchAt shape.expectation (b :: rest))
      | .dict value =>
        if b = 0x7B then
          if depth ≤ 1 then .error (.next .tooDeep (b :: rest))
          else do
            let (vs, rest) ← readShapeValues fuel (depth - 1) value true rest
            .ok (ofMembers vs, rest)
        else .error (mismatchAt shape.expectation (b :: rest))
      | .record name closed fields =>
        if b = 0x7B then
          if depth ≤ 1 then .error (.next .tooDeep (b :: rest))
          else do
            let (given, rest) ← readShapeMembers fuel (depth - 1) closed fields [] true rest
            match fillFields given fields with
            | .ok all => .ok (ofMembers all, rest)
            | .error message => .error (.at (.mismatch message) rest)
        else if b = 0x5B then
          if depth ≤ 1 then .error (.next .tooDeep (b :: rest))
          else do
            let (given, rest) ← readShapePlaces fuel (depth - 1) name fields.length 0 fields rest
            let rest ← closeRecord rest
            .ok (ofMembers given, rest)
        else .error (mismatchAt shape.expectation (b :: rest))
      | shape => readScalar shape (b :: rest)

/-- The elements of a list. -/
def readShapeItems : Nat → Nat → Shape → Bool → Bytes → Except Fault (List Json × Bytes)
  | 0, _, _, _, s => .error (.next .eofInList s)
  | fuel + 1, depth, item, first, s => do
    match ← nextElement first s with
    | .finished rest => .ok ([], rest)
    | .more rest =>
      let (v, rest) ← readShape fuel depth item rest
      let (vs, rest) ← readShapeItems fuel depth item false rest
      .ok (v :: vs, rest)

/-- The entries of a dictionary. -/
def readShapeValues : Nat → Nat → Shape → Bool → Bytes →
    Except Fault (List (String × Json) × Bytes)
  | 0, _, _, _, s => .error (.next .eofInObject s)
  | fuel + 1, depth, value, first, s => do
    match ← nextMember first s with
    | .finished rest => .ok ([], rest)
    | .more rest =>
      let (key, rest) ← readString rest
      let rest ← readColon rest
      let (v, rest) ← readShape fuel depth value rest
      let (vs, rest) ← readShapeValues fuel depth value false rest
      .ok ((key, v) :: vs, rest)

/-- The members of a record; `given` holds the fields read so far. -/
def readShapeMembers : Nat → Nat → Bool → List Field → List (String × Json) → Bool → Bytes →
    Except Fault (List (String × Json) × Bytes)
  | 0, _, _, _, _, _, s => .error (.next .eofInObject s)
  | fuel + 1, depth, closed, fields, given, first, s => do
    match ← nextMember first s with
    | .finished rest => .ok (given, rest)
    | .more rest =>
      let (key, rest) ← readString rest
      match fields.find? fun f => f.key == key with
      | some f =>
        if (Assoc.get? key given).isSome then .error (inObject (duplicateField key) rest)
        else
          let rest ← readColon rest
          let (v, rest) ← readField fuel depth f rest
          readShapeMembers fuel depth closed fields ((key, v) :: given) false rest
      | none =>
        if closed then .error (inObject (unknownField key fields) rest)
        else
          let rest ← readColon rest
          let rest ← skipValue (3 * rest.length + 3) rest
          readShapeMembers fuel depth closed fields given false rest

/-- The elements of an array that stands for a record; `index` is the place of the first. -/
def readShapePlaces : Nat → Nat → String → Nat → Nat → List Field → Bytes →
    Except Fault (List (String × Json) × Bytes)
  | 0, _, _, _, _, _, s => .error (.next .eofInList s)
  | _ + 1, _, _, _, _, [], s => .ok ([], s)
  | fuel + 1, depth, name, count, index, f :: fields, s => do
    match ← nextElement (index == 0) s with
    | .finished rest =>
      match fillPlaces name count index (f :: fields) with
      | .ok given => .ok (given, 0x5D :: rest)
      | .error message => .error (.at (.mismatch message) rest)
    | .more rest =>
      let (v, rest) ← readField fuel depth f rest
      let (given, rest) ← readShapePlaces fuel depth name count (index + 1) fields rest
      .ok ((f.key, v) :: given, rest)

/-- The value of a field: `null` where the field admits it, or a value of its shape. -/
def readField : Nat → Nat → Field → Bytes → Except Fault (Json × Bytes)
  | 0, _, _, s => .error (.next .eofInValue s)
  | fuel + 1, depth, f, s =>
    match skipBlanks s with
    | [] => .error (.next .eofInValue [])
    | b :: rest =>
      if f.nullable && b == 0x6E then (readWord nullTail rest).map fun rest => (.null, rest)
      else readShape fuel depth f.shape (b :: rest)

end

/-- The normal form of the value that a text holds. -/
def Shape.parse (shape : Shape) (s : Bytes) : Except Fault Json := do
  let (v, rest) ← readShape (4 * s.length + 4) maxDepth shape s
  readEnd rest
  .ok v

/-- The normal form of the value that a text holds, or the wording of the first fault. -/
def Shape.parseText (shape : Shape) (s : Bytes) : Except String Json :=
  (shape.parse s).mapError (·.describe s)

end EvalProxy.Json
