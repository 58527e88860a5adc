/-
# Lines, keys and texts of configuration files

Readers for blanks, comments, keys and quoted texts on character lists. Each gives what it read and
the characters after it, or nothing if the text is not well formed.

Main definitions: `skipLines`, `endLine?`, `readQuoted`, `readBlock`, `readKeys`.
-/
import EvalProxy.Text.Bytes
import EvalProxy.Toml.Basic
namespace EvalProxy.Toml

/-! ## Blanks and comments -/

/-- Whether a character is a blank inside a line. -/
def isSpace (c : Char) : Bool := c == ' ' || c == '\t'

/-- Whether a character may stand in a comment or in a quoted text: all but controls other than the
tab. -/
def isTextChar (c : Char) : Bool := c == '\t' || (0x20 ≤ c.toNat && c.toNat != 0x7F)

/-- The characters from the first that is no blank. -/
def skipSpaces (cs : List Char) : List Char := cs.dropWhile isSpace

/-- The characters behind blanks, line ends and comments. A comment ends with its line; where it
holds a character that no comment may hold, that character is left. -/
def skipLines (inComment : Bool) : List Char → List Char
  | [] => []
  | '\n' :: rest => skipLines false rest
  | '\r' :: '\n' :: rest => skipLines false rest
  | c :: rest =>
    if inComment then if isTextChar c then skipLines true rest else c :: rest
    else if isSpace c then skipLines false rest
    else if c = '#' then skipLines true rest
    else c :: rest

/-- The characters behind a line end. -/
def skipNewline? : List Char → Option (List Char)
  | '\n' :: rest => some rest
  | '\r' :: '\n' :: rest => some rest
  | _ => none

/-- The characters behind a comment, if there is one. -/
def skipComment (cs : List Char) : List Char :=
  match cs with
  | '#' :: rest => rest.dropWhile isTextChar
  | _ => cs

/-- The characters behind the rest of a line, on which only a comment may stand. -/
def endLine? (cs : List Char) : Option (List Char) :=
  match skipComment (skipSpaces cs) with
  | [] => some []
  | rest => skipNewline? rest

/-! ## Quoted texts -/

/-- How a text is quoted: the quote, and whether a backslash begins an escape. -/
structure Quoting where
  quote : Char
  escapes : Bool

/-- Quotes around a text with escapes. -/
def Quoting.basic : Quoting := ⟨'"', true⟩

/-- Quotes around a text that stands for itself. -/
def Quoting.literal : Quoting := ⟨'\'', false⟩

/-- The quoting that a quote begins. -/
def quoting? (c : Char) : Option Quoting :=
  if c = '"' then some .basic else if c = '\'' then some .literal else none

/-- The number that hexadecimal digits spell. -/
def hexNumber? (cs : List Char) : Option Nat :=
  cs.foldlM (fun n c => (Text.hexValue? (UInt8.ofNat (min c.toNat 255))).map (n * 16 + ·)) 0

/-- The character of a code point in a number of hexadecimal digits. -/
def codePoint? (width : Nat) (cs : List Char) : Option Char := do
  let digits := cs.take width
  let n ← hexNumber? digits
  if digits.length = width && n.isValidChar then some (Char.ofNat n) else none

/-- The character that an escape behind its backslash stands for, and how many characters the escape
takes. -/
def escape? : List Char → Option (Char × Nat)
  | 'b' :: _ => some ('\x08', 1)
  | 't' :: _ => some ('\t', 1)
  | 'n' :: _ => some ('\n', 1)
  | 'f' :: _ => some ('\x0c', 1)
  | 'r' :: _ => some ('\r', 1)
  | '"' :: _ => some ('"', 1)
  | '\\' :: _ => some ('\\', 1)
  | 'u' :: rest => (codePoint? 4 rest).map fun c => (c, 5)
  | 'U' :: rest => (codePoint? 8 rest).map fun c => (c, 9)
  | _ => none

/-- A text on one line up to its closing quote; `acc` holds what was read, last first. -/
def readQuoted (q : Quoting) (acc : List Char) (cs : List Char) : Option (String × List Char) :=
  match cs with
  | [] => none
  | c :: rest =>
    if c = q.quote then some (String.ofList acc.reverse, rest)
    else if q.escapes && c = '\\' then
      match escape? rest with
      | some (e, length) => readQuoted q (e :: acc) (rest.drop length)
      | none => none
    else if isTextChar c then readQuoted q (c :: acc) rest
    else none
termination_by cs.length
decreasing_by all_goals simp [List.length_drop]; try omega

/-- The characters behind a line end that is taken back, with the blanks and line ends after it. -/
def continuation? (cs : List Char) : Option (List Char) :=
  (skipNewline? (skipSpaces cs)).map fun rest =>
    rest.drop (rest.takeWhile fun c => isSpace c || c == '\n' || c == '\r').length

/-- The number of quotes that end a text over several lines. -/
def blockQuotes : Nat := 3

/-- A text over several lines up to its closing quotes. Fewer quotes belong to the text, and so do
up to two in front of the closing ones. -/
def readBlock (q : Quoting) (acc : List Char) (cs : List Char) : Option (String × List Char) :=
  match cs with
  | [] => none
  | '\n' :: rest => readBlock q ('\n' :: acc) rest
  | '\r' :: '\n' :: rest => readBlock q ('\n' :: acc) rest
  | c :: rest =>
    if c = q.quote then
      let more := (rest.takeWhile (· == q.quote)).length
      let after := rest.drop more
      if more + 1 < blockQuotes then readBlock q (List.replicate (more + 1) c ++ acc) after
      else if more + 1 < 2 * blockQuotes then
        some (String.ofList (List.replicate (more + 1 - blockQuotes) c ++ acc).reverse, after)
      else none
    else if q.escapes && c = '\\' then
      match continuation? rest with
      | some after =>
        if after.length ≤ rest.length then readBlock q acc after else none
      | none =>
        match escape? rest with
        | some (e, length) => readBlock q (e :: acc) (rest.drop length)
        | none => none
    else if isTextChar c then readBlock q (c :: acc) rest
    else none
termination_by cs.length
decreasing_by all_goals simp [List.length_drop]; try omega

/-- A quoted text whose first quote is read. Three quotes begin a text over several lines, in which
a line end at the very start does not count. -/
def readText (q : Quoting) (cs : List Char) : Option (String × List Char) :=
  match cs with
  | a :: b :: rest =>
    if a = q.quote && b = q.quote then readBlock q [] ((skipNewline? rest).getD rest)
    else readQuoted q [] cs
  | _ => readQuoted q [] cs

/-! ## Keys -/

/-- Whether a character may stand in a key without quotes. -/
def isKeyChar (c : Char) : Bool := c.isAlphanum || c == '_' || c == '-'

/-- A key without dots. -/
def readKey (cs : List Char) : Option (String × List Char) :=
  match cs with
  | [] => none
  | c :: rest =>
    match quoting? c with
    | some q => readQuoted q [] rest
    | none =>
      let key := cs.takeWhile isKeyChar
      if key.isEmpty then none else some (String.ofList key, cs.drop key.length)

/-- The largest number of keys in a path. -/
def maxKeys : Nat := 79

/-- Keys with dots between them, at most a given number. -/
def readKeys : Nat → List Char → Option (List String × List Char)
  | 0, _ => none
  | more + 1, cs => do
    let (key, rest) ← readKey (skipSpaces cs)
    match skipSpaces rest with
    | '.' :: rest =>
      let (keys, rest) ← readKeys more rest
      some (key :: keys, rest)
    | rest => some ([key], rest)

/-- A path of keys: all but the last, the last, and the characters after them. -/
def readPath (cs : List Char) : Option (List String × String × List Char) := do
  let (keys, rest) ← readKeys maxKeys cs
  let last ← keys.getLast?
  some (keys.dropLast, last, rest)

end EvalProxy.Toml
