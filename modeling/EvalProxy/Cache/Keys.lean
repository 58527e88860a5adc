/-
# Listing keys

The keys of a table are read a page at a time, in their order. A `Cursor` holds the keys of its page
that are still to come; writes between two steps show in the pages that are read after them.

Main definitions: `Cursor.next`, `Store.keys`.
-/
import EvalProxy.Cache.Store
namespace EvalProxy.Cache

/-- The number of keys on a full page. -/
def pageSize : Nat := 256

/-- The first keys of a table behind a given one, at most a page of them. -/
def Store.page (s : Store) (t : Table) (after : Option String) : Except Failure (List String) :=
  if s.lost || s.faults.scans t then .error broken
  else
    let isBehind (key : String) : Bool :=
      match after with
      | some last => last < key
      | none => true
    .ok (((s.table t).keys.filter isBehind).take pageSize)

/-- A place in the listing of a table: the last key given out, the rest of the page, and whether no
page follows. -/
structure Cursor where
  table : Table
  last : Option String
  buffer : List String
  exhausted : Bool

namespace Cursor

/-- The place before the first key. -/
def start (t : Table) : Cursor := ⟨t, none, [], false⟩

/-- Gives out the next key of the buffer. -/
def pop (c : Cursor) : Option (Except Failure String) × Cursor :=
  match c.buffer with
  | [] => (none, c)
  | key :: rest => (some (.ok key), { c with last := some key, buffer := rest })

/-- Gives out the next key, reading a page when the buffer is empty. After a short page or a failure
no page is read any more. -/
def next (s : Store) (c : Cursor) : Option (Except Failure String) × Cursor :=
  if c.buffer.isEmpty && !c.exhausted then
    match s.page c.table c.last with
    | .error e => (some (.error e), { c with exhausted := true })
    | .ok keys => pop { c with buffer := keys, exhausted := keys.length < pageSize }
  else pop c

/-- Gives out at most `count` keys, and the place after them. -/
def take (s : Store) : Nat → Cursor → Except Failure (List String × Cursor)
  | 0, c => .ok ([], c)
  | count + 1, c =>
    match c.next s with
    | (none, c) => .ok ([], c)
    | (some (.error e), _) => .error e
    | (some (.ok key), c) => do
      let (keys, c) ← take s count c
      .ok (key :: keys, c)

/-- All keys that are still to come. -/
def rest (s : Store) (c : Cursor) : Except Failure (List String) :=
  (c.take s ((s.table c.table).size + c.buffer.length + 1)).map (·.1)

end Cursor

/-- All keys of a table, in their order. -/
def Store.keys (s : Store) (t : Table) : Except Failure (List String) := (Cursor.start t).rest s

end EvalProxy.Cache
