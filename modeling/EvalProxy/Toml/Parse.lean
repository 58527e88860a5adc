/-
# Reading configuration files

A document is a list of lines: headers of tables, headers of elements in lists of tables, and pairs
of a key and a value. `Toml.document?` reads it and gives its table in key order.

Main definitions: `readValue`, `Draft.add?`, `document?`.
-/
import EvalProxy.Toml.Number
namespace EvalProxy.Toml

/-! ## Values -/

/-- Whether a character may stand in a number, a date or a word. -/
def isTokenChar (c : Char) : Bool :=
  c.isAlphanum || c == '_' || c == '+' || c == '-' || c == '.' || c == ':'

/-- Whether characters are a date and nothing else. -/
def isDate (cs : List Char) : Bool :=
  match Moment.ofChars? cs with
  | some (.date _) => true
  | _ => false

/-- The characters of a token, and the rest. A date goes on behind a single blank if a digit follows
there. -/
def readToken (cs : List Char) : List Char × List Char :=
  let token := cs.takeWhile isTokenChar
  match cs.drop token.length with
  | ' ' :: d :: rest =>
    if isDate token && d.isDigit then
      let time := (d :: rest).takeWhile isTokenChar
      (token ++ ' ' :: time, (d :: rest).drop time.length)
    else (token, ' ' :: d :: rest)
  | rest => (token, rest)

/-- The value that a token spells. -/
def ofToken? (cs : List Char) : Option Toml :=
  if cs = ['t', 'r', 'u', 'e'] then some (.flag true)
  else if cs = ['f', 'a', 'l', 's', 'e'] then some (.flag false)
  else
    match int? cs with
    | some n => some (.int n)
    | none =>
      match float? cs with
      | some x => some (.float x)
      | none => (Moment.ofChars? cs).map .moment

/-- How deep arrays and tables may lie in each other. -/
def maxNesting : Nat := 79

mutual

/-- A value; `levels` is how many arrays and tables may still lie in each other. -/
def readValue : Nat → Nat → List Char → Option (Toml × List Char)
  | 0, _, _ => none
  | _, _, [] => none
  | fuel + 1, levels, c :: rest =>
    match quoting? c with
    | some q => do
      let (s, rest) ← readText q rest
      some (.text s, rest)
    | none =>
      if c = '[' then
        if levels = 0 then none
        else do
          let (items, rest) ← readItems fuel (levels - 1) rest
          some (.array items, rest)
      else if c = '{' then
        if levels = 0 then none
        else do
          let (entries, rest) ← readPairs fuel (levels - 1) true [] rest
          some (.table (finishedEntries entries), rest)
      else do
        let (token, rest) := readToken (c :: rest)
        let v ← ofToken? token
        some (v, rest)

/-- The elements of an array and its closing bracket. A comma may follow the last element. -/
def readItems : Nat → Nat → List Char → Option (List Toml × List Char)
  | 0, _, _ => none
  | fuel + 1, levels, cs =>
    match skipLines false cs with
    | ']' :: rest => some ([], rest)
    | cs => do
      let (v, rest) ← readValue fuel levels cs
      match skipLines false rest with
      | ']' :: rest => some ([v], rest)
      | ',' :: rest =>
        let (vs, rest) ← readItems fuel levels rest
        some (v :: vs, rest)
      | _ => none

/-- The pairs of a table within a line and its closing brace, put into `entries`. -/
def readPairs : Nat → Nat → Bool → Entries → List Char → Option (Entries × List Char)
  | 0, _, _, _, _ => none
  | fuel + 1, levels, first, entries, cs =>
    match first, skipSpaces cs with
    | true, '}' :: rest => some (entries, rest)
    | _, cs => do
      let (path, key, rest) ← readPath cs
      let rest ← Moment.skip? '=' rest
      let (v, rest) ← readValue fuel levels (skipSpaces rest)
      let entries ← addKey? path key v entries
      match skipSpaces rest with
      | '}' :: rest => some (entries, rest)
      | ',' :: rest => readPairs fuel levels false entries rest
      | _ => none

end

/-! ## Documents -/

/-- A line that says something. -/
inductive Statement where
  | header (path : List String) (key : String)
  | element (path : List String) (key : String)
  | pair (path : List String) (key : String) (v : Toml)

/-- A document so far, and the table that its pairs go to. -/
structure Draft where
  root : Entries
  place : List String

/-- The document before its first line. -/
def Draft.empty : Draft := ⟨[], []⟩

/-- The document with one more line. -/
def Draft.add? (d : Draft) : Statement → Option Draft
  | .header path key => do
    let root ← openTable? path key d.root
    some ⟨root, path ++ [key]⟩
  | .element path key => do
    let root ← openElement? path key d.root
    some ⟨root, path ++ [key]⟩
  | .pair path key v => do
    let root ← update? false (fun _ entries => addKey? path key v entries) .headed d.place d.root
    some ⟨root, d.place⟩

/-- A line that begins with neither a blank nor a comment; the rest of the line is left. -/
def readStatement (cs : List Char) : Option (Statement × List Char) :=
  match cs with
  | '[' :: '[' :: rest => do
    let (path, key, rest) ← readPath rest
    let rest ← Moment.skip? ']' rest
    let rest ← Moment.skip? ']' rest
    some (.element path key, rest)
  | '[' :: rest => do
    let (path, key, rest) ← readPath rest
    let rest ← Moment.skip? ']' rest
    some (.header path key, rest)
  | _ => do
    let (path, key, rest) ← readPath cs
    let rest ← Moment.skip? '=' rest
    let rest := skipSpaces rest
    let (v, rest) ← readValue (2 * rest.length + 2) maxNesting rest
    some (.pair path key v, rest)

/-- Reads line after line. Each takes characters, so their number bounds how many lines there
are. -/
def readLines : Nat → Draft → List Char → Option Draft
  | 0, _, _ => none
  | fuel + 1, d, cs =>
    match skipLines false cs with
    | [] => some d
    | cs => do
      let (statement, rest) ← readStatement cs
      let d ← d.add? statement
      let rest ← endLine? rest
      readLines fuel d rest

/-- The mark that may stand in front of a document. -/
def byteOrderMark : Char := '\uFEFF'

/-- The table of a document, if it is well formed. -/
def document? (text : String) : Option (List (String × Toml)) :=
  let cs := match text.toList with
    | c :: rest => if c = byteOrderMark then rest else c :: rest
    | [] => []
  (readLines (cs.length + 1) .empty cs).map fun d => finishedEntries d.root

end EvalProxy.Toml
