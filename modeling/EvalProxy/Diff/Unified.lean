/-
# Unified diffs

The differences of two texts line by line, in hunks with three lines of context, under a header that
names the two texts, and how alike two texts are character by character.

Main definitions: `unified`, `similarityWithin`.
-/
import EvalProxy.Diff.Compaction
namespace EvalProxy.Diff

/-! ## Lines -/

/-- The lines of a text with their endings: a line feed, a carriage return, or both in that order.
`line` holds the characters of the line that is being read, last first. -/
def splitLines (line : List Char) : List Char → List String
  | [] => if line.isEmpty then [] else [String.ofList line.reverse]
  | '\r' :: '\n' :: rest => String.ofList ('\n' :: '\r' :: line).reverse :: splitLines [] rest
  | c :: rest =>
    if c = '\n' || c = '\r' then String.ofList (c :: line).reverse :: splitLines [] rest
    else splitLines (c :: line) rest

/-- The lines of a text with their endings. -/
def lines (s : String) : Array String := (splitLines [] s.toList).toArray

/-- Whether a line has an ending. -/
def endsLine (line : String) : Bool :=
  match line.toList.getLast? with
  | some c => c == '\n' || c == '\r'
  | none => false

/-! ## Hunks -/

/-- The number of kept lines around a change. -/
def context : Nat := 3

/-- The last `context` lines of a kept block. -/
def Block.lastLines (b : Block) : Block :=
  let cut := b.oldLength - context
  ⟨true, b.old + cut, b.oldLength - cut, b.new + cut, b.newLength - cut⟩

/-- The first `context` lines of a kept block. -/
def Block.firstLines (b : Block) : Block :=
  { b with oldLength := min b.oldLength context, newLength := min b.newLength context }

/-- The blocks with the first cut to its last lines, if it is kept. -/
def trimFirst : List Block → List Block
  | [] => []
  | b :: rest => (if b.kept then b.lastLines else b) :: rest

/-- The blocks with the last cut to its first lines, if it is kept. -/
def trimLast : List Block → List Block
  | [] => []
  | [b] => [if b.kept then b.firstLines else b]
  | b :: rest => b :: trimLast rest

/-- Cuts the blocks into hunks at kept blocks of more than twice the context. `hunk` holds the
blocks of the hunk that is being built, last first; a hunk that only keeps is dropped at the
end. -/
def cutHunks (hunk : List Block) : List Block → List (List Block)
  | [] => if hunk.all (·.kept) then [] else [hunk.reverse]
  | b :: rest =>
    if b.kept && 2 * context < b.oldLength then
      (b.firstLines :: hunk).reverse :: cutHunks [b.lastLines] rest
    else cutHunks (b :: hunk) rest

/-- The hunks of a script. -/
def hunks (bs : List Block) : List (List Block) := cutHunks [] (trimLast (trimFirst bs))

/-! ## Text -/

/-- A range of lines as a hunk's header gives it: an empty one names the line before it. -/
def rangeText (start length : Nat) : String :=
  if length = 1 then s!"{start + 1}"
  else if length = 0 then s!"{start},0"
  else s!"{start + 1},{length}"

/-- The header of a hunk. -/
def hunkHeader (hunk : List Block) : String :=
  match hunk.head?, hunk.getLast? with
  | some first, some last =>
    let old := rangeText first.old (last.oldEnd - first.old)
    let new := rangeText first.new (last.newEnd - first.new)
    s!"@@ -{old} +{new} @@\n"
  | _, _ => ""

/-- A line behind its mark. -/
def markedLine (mark line : String) : String :=
  if endsLine line then mark ++ line else mark ++ line ++ "\n\\ No newline at end of file\n"

/-- The lines of a range behind their mark. -/
def markedLines (mark : String) (ls : Array String) (start length : Nat) : String :=
  String.join ((ls.toList.drop start |>.take length).map (markedLine mark))

/-- The lines of a block: kept ones, or the old ones and then the new ones. -/
def blockText (old new : Array String) (b : Block) : String :=
  if b.kept then markedLines " " old b.old b.oldLength
  else markedLines "-" old b.old b.oldLength ++ markedLines "+" new b.new b.newLength

/-- The unified diff of two texts under the names `cached` and `incoming`; equal texts have an empty
one. -/
def unified (old new : String) : String :=
  let a := lines old
  let b := lines new
  match hunks (compare none a b) with
  | [] => ""
  | hs =>
    "--- cached\n+++ incoming\n"
      ++ String.join (hs.map fun h => hunkHeader h ++ String.join (h.map (blockText a b)))

/-! ## Similarity -/

/-- The number of elements that a comparison keeps. -/
def keptLength (bs : List Block) : Nat :=
  bs.foldl (fun n b => if b.kept then n + b.oldLength else n) 0

open Float.Model in
/-- A number of single precision in double precision, which holds every such number. -/
def widen (x : Float32) : Float :=
  match x.toModel.unpack with
  | .finite s m e _ => .ofModel (.pack (UnpackedFloat.round .binary64 s m e))
  | special => .ofModel (.pack special)

/-- A count in single precision. Counts stop at the largest 64-bit number, which no text
reaches. -/
def toSingle (n : Nat) : Float32 := (UInt64.ofNatClamp n).toFloat32

/-- How alike two texts look to a comparison with some patience, from zero to a hundred: twice the
characters kept over all characters, in single precision. Two empty texts are alike. When the time
for a comparison is up, what it has not looked at counts as different; how many rounds of it fit in
that time is up to the machine. -/
def similarityWithin (patience : Option Nat) (a b : String) : Float :=
  if a.isEmpty && b.isEmpty then 100.0
  else
    let x := a.toList.toArray
    let y := b.toList.toArray
    let kept := toSingle (keptLength (compare patience x y))
    let all := toSingle (x.size + y.size)
    widen (2.0 * kept / all) * 100.0

/-- How alike two texts are, whatever time it takes to compare them. -/
def similarity (a b : String) : Float := similarityWithin none a b

end EvalProxy.Diff
