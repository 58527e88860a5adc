/-
# Redaction

Secrets taken out of texts before they are logged: bearer tokens and API keys inside a text, and the
whole value of header fields that carry credentials.

Main definitions: `sanitize`, `headerText`, `bodyText`.
-/
import EvalProxy.Http.Headers
import EvalProxy.Text.Blank
namespace EvalProxy.Redaction

/-! ## Replacement -/

/-- A pattern at the start of a text: how many characters it covers, at least one, and what takes
their place. -/
abbrev Pattern := List Char → Option (Nat × List Char)

/-- The text with every occurrence of a pattern replaced, from the left, without overlaps; the first
`skip` characters belong to an occurrence that is already replaced. -/
def replaceFrom (p : Pattern) : Nat → List Char → List Char
  | _, [] => []
  | skip + 1, _ :: rest => replaceFrom p skip rest
  | 0, c :: rest =>
    match p (c :: rest) with
    | some (length, text) => text ++ replaceFrom p (length - 1) rest
    | none => c :: replaceFrom p 0 rest

/-- The text with every occurrence of a pattern replaced. -/
def replaceAll (p : Pattern) (s : List Char) : List Char := replaceFrom p 0 s

/-! ## Patterns -/

/-- Whether a text starts with a word in any letter case. -/
def startsWithWord : List Char → List Char → Bool
  | [], _ => true
  | _, [] => false
  | w :: word, c :: rest => w == c.toLower && startsWithWord word rest

/-- Whether a character may stand in a bearer token. Letter case is ignored, so the two letters
outside ASCII whose other case is `s` or `k` count too. -/
def isTokenChar (c : Char) : Bool :=
  c.isAlphanum || "._~+/=-".toList.contains c || c == '\u017f' || c == '\u212a'

/-- Whether a character may stand in an API key. -/
def isKeyChar (c : Char) : Bool := c.isAlphanum || c == '_' || c == '-'

/-- The word before a token. -/
def bearerWord : List Char := "bearer".toList

/-- What stands for a token. -/
def tokenMark : List Char := "[REDACTED_TOKEN]".toList

/-- What an API key starts with. -/
def keyStart : List Char := "sk-".toList

/-- What stands for an API key. -/
def keyMark : List Char := "[REDACTED_API_KEY]".toList

/-- The least number of characters after the start of an API key. -/
def minKeyLength : Nat := 8

/-- The word `bearer`, blanks and a token; only the token is replaced. -/
def bearerToken : Pattern := fun s =>
  if startsWithWord bearerWord s then
    let rest := s.drop bearerWord.length
    let blanks := rest.takeWhile Text.isBlank
    let token := (rest.drop blanks.length).takeWhile isTokenChar
    if blanks.isEmpty || token.isEmpty then none
    else
      let kept := bearerWord.length + blanks.length
      some (kept + token.length, s.take kept ++ tokenMark)
  else none

/-- An API key. -/
def apiKey : Pattern := fun s =>
  if keyStart.isPrefixOf s then
    let key := (s.drop keyStart.length).takeWhile isKeyChar
    if minKeyLength ≤ key.length then some (keyStart.length + key.length, keyMark) else none
  else none

/-! ## Texts -/

/-- The characters of a text with tokens and then keys replaced. -/
def sanitizeChars (s : List Char) : List Char := replaceAll apiKey (replaceAll bearerToken s)

/-- A text with tokens and keys replaced. -/
def sanitize (s : String) : String := String.ofList (sanitizeChars s.toList)

/-- Header fields that carry credentials. -/
def secretNames : List String := ["authorization", "x-api-key", "api-key", "proxy-authorization"]

/-- The logged value of a header field. -/
def headerText (name value : String) : String :=
  if secretNames.contains (String.ofList (name.toList.map Char.toLower)) then "[REDACTED]"
  else sanitize value

/-- A text cut to a number of characters, with a note of how many are left out. -/
def truncate (text : String) (limit : Nat) : String :=
  let cs := text.toList
  if cs.length ≤ limit then text
  else String.ofList (cs.take limit) ++ s!"... [{cs.length - limit} more chars]"

/-- The logged text of a body. -/
def bodyText (body : String) (limit : Nat) : String := truncate (sanitize body) limit

/-- The logged text of header fields. -/
def headersText (h : Headers) : String :=
  ", ".intercalate (h.toList.map fun f =>
    f.1 ++ ": " ++ headerText f.1 ((Headers.plain? f.2).getD "<binary>"))

end EvalProxy.Redaction
