/-
# Reading JSON text

The reader of JSON values. Objects keep the last value of a repeated key and list their members in
key order. Arrays and objects may nest `maxDepth` deep at most.

Main definition: `Json.parse`.
-/
import EvalProxy.Json.Lexical
namespace EvalProxy.Json

/-- One more than the number of arrays and objects that may be open at once. -/
def maxDepth : Nat := 128

/-- Reads a colon. -/
def readColon (s : Bytes) : Except Fault Bytes :=
  match skipBlanks s with
  | [] => .error (.next .eofInObject [])
  | b :: rest => if b = 0x3A then .ok rest else .error (.next .expectedColon (b :: rest))

/-- What comes next in a list: its end, or an element that starts in the given octets. -/
inductive Continuation where
  | finished (rest : Bytes)
  | more (rest : Bytes)

/-- Looks for an element of a list; `first` says that none was read yet. -/
def nextElement (first : Bool) (s : Bytes) : Except Fault Continuation :=
  match skipBlanks s with
  | [] => .error (.next .eofInList [])
  | b :: rest =>
    if b = 0x5D then .ok (.finished rest)
    else if first then .ok (.more (b :: rest))
    else if b = 0x2C then
      match skipBlanks rest with
      | [] => .error (.next .eofInValue [])
      | c :: after =>
        if c = 0x5D then .error (.next .trailingComma (c :: after)) else .ok (.more (c :: after))
    else .error (.next .expectedCommaOrBracket (b :: rest))

/-- Looks for a member of an object, of which it reads the opening quote. -/
def nextMember (first : Bool) (s : Bytes) : Except Fault Continuation :=
  match skipBlanks s with
  | [] => .error (.next .eofInObject [])
  | b :: rest =>
    if b = 0x7D then .ok (.finished rest)
    else if first then
      if b = 0x22 then .ok (.more rest) else .error (.next .keyNoString (b :: rest))
    else if b = 0x2C then
      match skipBlanks rest with
      | [] => .error (.next .eofInValue [])
      | c :: after =>
        if c = 0x22 then .ok (.more after)
        else if c = 0x7D then .error (.next .trailingComma (c :: after))
        else .error (.next .keyNoString (c :: after))
    else .error (.next .expectedCommaOrBrace (b :: rest))

mutual

/-- A value. Of a call for a value and the call for a list around it one reads an octet, so twice
the number of octets is fuel enough. -/
def readValue : Nat → Nat → Bytes → Except Fault (Json × Bytes)
  | 0, _, s => .error (.next .eofInValue s)
  | fuel + 1, depth, s =>
    match skipBlanks s with
    | [] => .error (.next .eofInValue [])
    | b :: rest =>
      if b = 0x22 then do
        let (t, rest) ← readString rest
        .ok (.text t, rest)
      else if b = 0x7B then
        if depth ≤ 1 then .error (.next .tooDeep (b :: rest))
        else do
          let (members, rest) ← readMembers fuel (depth - 1) true rest
          .ok (.object (Assoc.ofList members), rest)
      else if b = 0x5B then
        if depth ≤ 1 then .error (.next .tooDeep (b :: rest))
        else do
          let (items, rest) ← readItems fuel (depth - 1) true rest
          .ok (.array items, rest)
      else if b = 0x6E then do
        let rest ← readWord nullTail rest
        .ok (.null, rest)
      else if b = 0x74 then do
        let rest ← readWord trueTail rest
        .ok (.bool true, rest)
      else if b = 0x66 then do
        let rest ← readWord falseTail rest
        .ok (.bool false, rest)
      else if b = 0x2D then do
        let (n, rest) ← readNumber true rest
        .ok (n.toJson, rest)
      else if isDigit b then do
        let (n, rest) ← readNumber false (b :: rest)
        .ok (n.toJson, rest)
      else .error (.next .expectedValue (b :: rest))

/-- The elements of an array up to its closing bracket. -/
def readItems : Nat → Nat → Bool → Bytes → Except Fault (List Json × Bytes)
  | 0, _, _, s => .error (.next .eofInList s)
  | fuel + 1, depth, first, s => do
    match ← nextElement first s with
    | .finished rest => .ok ([], rest)
    | .more rest =>
      let (v, rest) ← readValue fuel depth rest
      let (items, rest) ← readItems fuel depth false rest
      .ok (v :: items, rest)

/-- The members of an object up to its closing brace, in the order of the text. -/
def readMembers : Nat → Nat → Bool → Bytes → Except Fault (List (String × Json) × Bytes)
  | 0, _, _, s => .error (.next .eofInObject s)
  | fuel + 1, depth, first, s => do
    match ← nextMember first s with
    | .finished rest => .ok ([], rest)
    | .more rest =>
      let (key, rest) ← readString rest
      let rest ← readColon rest
      let (v, rest) ← readValue fuel depth rest
      let (members, rest) ← readMembers fuel depth false rest
      .ok ((key, v) :: members, rest)

end

/-- Checks that only blanks are left. -/
def readEnd (s : Bytes) : Except Fault Unit :=
  match skipBlanks s with
  | [] => .ok ()
  | rest => .error (.next .trailingCharacters rest)

/-- The value that a text holds. -/
def parse (s : Bytes) : Except Fault Json := do
  let (v, rest) ← readValue (2 * s.length + 2) maxDepth s
  readEnd rest
  .ok v

/-- The value that a text holds, or the wording of its first fault. -/
def parseText (s : Bytes) : Except String Json := (parse s).mapError (·.describe s)

end EvalProxy.Json
