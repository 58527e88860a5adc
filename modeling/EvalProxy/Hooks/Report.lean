/-
# The report of a run

The stored responses with their requests, in the order of their fingerprints, up to a number of
them. What is JSON is shown as JSON, anything else as text.

Main definitions: `collectEntries`, `run`.
-/
import EvalProxy.Cache.Keys
import EvalProxy.Hooks.Context
import EvalProxy.Settings
namespace EvalProxy.Report

/-- The cache to read, the name of the report, and the largest number of entries. -/
structure Settings where
  directory : Option String
  fileName : String
  maxEntries : Option Nat

/-- The form of the settings. -/
def form : Form :=
  .ofFields "post_eval_report" "ReportConfig"
    [Json.optional "cache_dir" .path,
     Json.defaulted "report_file" (.text "eval_report.json") .text,
     Json.optional "max_entries" .usize]

/-- Settings from their normal form. -/
def Settings.read (value : Json) : Except Failure Settings := do
  let v ← form.read value
  .ok ⟨(Json.field v "cache_dir").text?, Json.asText (Json.field v "report_file"),
    Json.asNat? (Json.field v "max_entries")⟩

/-- A stored response and its request, which is `null` if it was not stored. -/
structure Entry where
  fingerprint : String
  request : Json
  response : Json

/-- Stored octets as JSON, or else as a text. -/
def decode (value : Option Bytes) : Json :=
  match value with
  | none => .null
  | some b =>
    match Json.parseText b with
    | .ok v => v
    | .error _ => .text (Text.lossy b)

/-- The entry of a key. -/
def entry (s : Cache.Store) (key : String) : Except Failure Entry := do
  let request ← s.get .requests key
  let response ← s.get .responses key
  .ok ⟨key, decode request, decode response⟩

/-- The entries of the next keys, at most `count` of them. Each is read before the next key is
asked for. -/
def collect (s : Cache.Store) : Nat → Cache.Cursor → Except Failure (List Entry)
  | 0, _ => .ok []
  | count + 1, c =>
    match c.next s with
    | (none, _) => .ok []
    | (some (.error e), _) => .error e
    | (some (.ok key), c) => do
      let first ← entry s key
      let others ← collect s count c
      .ok (first :: others)

/-- The first entries of a store, at most `max` of them; without a bound one step more than there
are keys, which finds that there are no others. -/
def collectEntries (s : Cache.Store) (max : Option Nat) : Except Failure (List Entry) :=
  collect s (max.getD ((s.table .responses).size + 1)) (.start .responses)

/-- An entry as JSON; its members stand in this order. -/
def Entry.toJson (e : Entry) : Json :=
  .object [("fingerprint", .text e.fingerprint), ("request", e.request), ("response", e.response)]

/-- The entries of the cache in a directory; a missing one has none. -/
def readEntries (directory : String) (max : Option Nat) (w : World) :
    Except Failure (List Entry) × World :=
  if w.tree.contains directory then
    match w.openStore directory with
    | (.error e, w) => (.error e, w)
    | (.ok place, w) => (collectEntries (w.store place) max, w)
  else (.ok [], w)

/-- Writes the report. -/
def run (s : Settings) (c : HookContext) (w : World) : Except Failure Unit × World :=
  match readEntries (s.directory.getD (World.cacheDirectory c.outputDirectory)) s.maxEntries w with
  | (.error e, w) => (.error e, w)
  | (.ok entries, w) => c.writeResult s.fileName (.array (entries.map Entry.toJson)) w

end EvalProxy.Report
