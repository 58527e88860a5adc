/-
# Caching

Responses are stored under the fingerprint of their request and replayed when the request comes
again. In test mode a request that is not stored fails with a diagnosis instead of reaching the
model. Trouble with the store never fails a call.

Main definitions: `Cache.onRequest`, `Cache.onResponse`, `Cache.export`, `Cache.merge`.
-/
import EvalProxy.Cache.Closest
import EvalProxy.Cache.Export
import EvalProxy.Cache.SaveLimit
import EvalProxy.Metrics
import EvalProxy.Settings
namespace EvalProxy

namespace Cache

/-! ## Settings -/

/-- How a cache works: where it is kept, whether stored responses are reused, what is saved and how
often, and the files that are merged into it at first and written at last. -/
structure Settings where
  directory : Option String
  reuse : Bool
  saveRequests : Bool
  saveResponses : Bool
  maxRequests : Option Nat
  maxResponses : Option Nat
  testMode : Bool
  importPath : Option String
  exportPath : Option String

/-- The form of the settings. -/
def form : Form :=
  .ofFields "caching" "CachingConfig"
    [Json.optional "cache_dir" .path,
     Json.defaulted "reuse_cached_responses" (.bool true) .flag,
     Json.defaulted "save_requests" (.bool false) .flag,
     Json.defaulted "save_responses" (.bool true) .flag,
     Json.optional "max_saved_requests" .u64, Json.optional "max_saved_responses" .u64,
     Json.defaulted "test_mode" (.bool false) .flag,
     Json.optional "import_path" .path, Json.optional "export_path" .path]

/-- Settings from their normal form. -/
def Settings.read (value : Json) : Except Failure Settings := do
  let v ← form.read value
  .ok
    { directory := (Json.field v "cache_dir").text?
      reuse := Json.asBool (Json.field v "reuse_cached_responses")
      saveRequests := Json.asBool (Json.field v "save_requests")
      saveResponses := Json.asBool (Json.field v "save_responses")
      maxRequests := Json.asNat? (Json.field v "max_saved_requests")
      maxResponses := Json.asNat? (Json.field v "max_saved_responses")
      testMode := Json.asBool (Json.field v "test_mode")
      importPath := (Json.field v "import_path").text?
      exportPath := (Json.field v "export_path").text? }

/-! ## Counters -/

/-- What a cache counts. Hits and misses start at zero and grow by one with each call, so that their
64 bits never run out: they are natural numbers. -/
structure Counters where
  hits : Nat
  misses : Nat
  requests : SaveLimit
  responses : SaveLimit

/-- The counters of a new cache. -/
def Counters.fresh (s : Settings) : Counters := ⟨0, 0, .fresh s.maxRequests, .fresh s.maxResponses⟩

end Cache

/-- A cache at work: its settings, its store, its counters, and the events it caused, latest
first. -/
structure Cache where
  settings : Cache.Settings
  store : Cache.Store
  counters : Cache.Counters
  events : Metrics.Log

namespace Cache

/-- The cache with an event noted. -/
def note (c : Cache) (e : Metrics.Event) : Cache := { c with events := e :: c.events }

/-! ## Replay -/

/-- The field that marks a replayed response. -/
def markName : String := "x-adapter-cache"

/-- The value of that field. -/
def markValue : Bytes := Text.encode "hit"

/-- The header fields of a replayed response: the stored ones, a media type if they have none, and
the mark. -/
def replayHeaders (map : Dict String) : Headers :=
  let stored := Headers.ofMap map
  let typed :=
    if stored.contains "content-type" then stored
    else stored.set "content-type" Failure.jsonType
  typed.set markName markValue

/-- The stored response of a fingerprint. -/
def lookup (store : Store) (key : String) : Except Failure (Option Reply) := do
  match ← store.get .responses key with
  | none => .ok none
  | some body =>
    let map ← store.getHeaders key
    -- a body without header fields is replayed with those that every replay has
    .ok (some ⟨200, replayHeaders (map.getD .empty), body⟩)

/-! ## Saving -/

/-- Saves the text of a request, if the limit admits it. -/
def saveRequest (c : Cache) (key text : String) : Cache :=
  match c.counters.requests.acquire with
  | (false, _) => c.note (.skipped "requests")
  | (true, limit) =>
    { c with
      counters := { c.counters with requests := limit }
      store := match c.store.put .requests key (Text.encode text) with
        | .ok store => store
        | .error _ => c.store }

/-- Writes the body and then the header fields of a response; whether both were written, and the
store afterwards. -/
def writeResponse (store : Store) (key : String) (r : Response) : Bool × Store :=
  match store.put .responses key r.body with
  | .error _ => (false, store)
  | .ok written =>
    match written.putHeaders key r.headers with
    | .error _ => (false, written)
    | .ok both => (true, both)

/-- Saves a response, if the limit admits it. -/
def saveResponse (c : Cache) (key : String) (r : Response) : Cache :=
  match c.counters.responses.acquire with
  | (false, _) => c.note (.skipped "responses")
  | (true, limit) =>
    let (complete, store) := writeResponse c.store key r
    let saved := { c with counters := { c.counters with responses := limit }, store := store }
    if complete then saved.note .cacheWrite else saved

/-! ## Calls -/

/-- What is told about a request that is not stored. -/
def diagnose (store : Store) (key text : String) : Diagnosis :=
  { fingerprint := key, request := text,
    closest := match closest store text key with
      | .ok found => found
      | .error _ => none }

/-- Takes a request: it gets its fingerprint, is saved if requests are, and is answered if its
response is stored. -/
def onRequest (c : Cache) (r : Request) : Except Failure Verdict × Cache :=
  let key := fingerprint r.body
  let text := canonicalText r.body
  let r := { r with context := { r.context with fingerprint := some key } }
  let c := if c.settings.saveRequests then c.saveRequest key text else c
  if !c.settings.reuse then (.ok (.proceed r), c)
  else
    match lookup c.store key with
    | .ok (some reply) =>
      let counters := { c.counters with hits := c.counters.hits + 1 }
      (.ok (.answer (reply.toResponse { r.context with fromCache := true })),
        { c with counters := counters }.note .cacheHit)
    | _ =>
      let counters := { c.counters with misses := c.counters.misses + 1 }
      let missed := { c with counters := counters }.note .cacheMiss
      if c.settings.testMode then (.error (.cacheMiss (diagnose c.store key text)), missed)
      else (.ok (.proceed r), missed)

/-- Takes a response: a successful one from the model is saved under the fingerprint of its call. -/
def onResponse (c : Cache) (r : Response) : Cache :=
  if r.context.fromCache || !c.settings.saveResponses || !r.isSuccess then c
  else
    match r.context.fingerprint with
    | some key => c.saveResponse key r
    | none => c

/-! ## Export and import -/

/-- The values at some keys of a table. -/
def collect (store : Store) (t : Table) (keys : List String) :
    Except Failure (List (String × Bytes)) := do
  let found ← keys.mapM fun key => do
    let value ← store.get t key
    .ok (value.map fun v => (key, v))
  .ok (found.filterMap id)

/-- All entries of a store. -/
def exportStore (store : Store) : Except Failure Export := do
  let requests ← collect store .requests (← store.keys .requests)
  let responses ← collect store .responses (← store.keys .responses)
  let headerKeys ← store.keys .headers
  let headers ← headerKeys.mapM fun key => do
    let map ← store.getHeaders key
    .ok (map.map fun m => (key, m))
  .ok ⟨Export.currentVersion, .ofList requests, .ofList responses, .ofList (headers.filterMap id)⟩

/-- How many entries an import stored, and how many it could not. -/
structure Summary where
  requests : Nat
  responses : Nat
  headers : Nat
  failed : Nat

/-- Stores a request of an export, whatever the limit. -/
def importRequest (s : Summary × Cache) (e : String × Bytes) : Summary × Cache :=
  let (sum, c) := s
  match c.store.put .requests e.1 e.2 with
  | .ok store =>
    ({ sum with requests := sum.requests + 1 },
      { c with store := store,
               counters := { c.counters with requests := c.counters.requests.record } })
  | .error _ => ({ sum with failed := sum.failed + 1 }, c)

/-- Stores a response of an export, whatever the limit. -/
def importResponse (s : Summary × Cache) (e : String × Bytes) : Summary × Cache :=
  let (sum, c) := s
  match c.store.put .responses e.1 e.2 with
  | .ok store =>
    ({ sum with responses := sum.responses + 1 },
      { c with store := store,
               counters := { c.counters with responses := c.counters.responses.record } })
  | .error _ => ({ sum with failed := sum.failed + 1 }, c)

/-- Stores a header map of an export. -/
def importHeaders (s : Summary × Cache) (e : String × Dict String) : Summary × Cache :=
  let (sum, c) := s
  match c.store.putHeaderMap e.1 e.2 with
  | .ok store => ({ sum with headers := sum.headers + 1 }, { c with store := store })
  | .error _ => ({ sum with failed := sum.failed + 1 }, c)

/-- Merges an export into the store; entries that cannot be written are passed over. -/
def merge (c : Cache) (e : Export) : Summary × Cache :=
  let start : Summary × Cache := (⟨0, 0, 0, 0⟩, c)
  let requests := e.requests.entries.foldl importRequest start
  let responses := e.responses.entries.foldl importResponse requests
  e.headers.entries.foldl importHeaders responses

/-- Merges the export that the content of a file spells. A content that spells none, or one of
another version, is refused as a whole. -/
def importContent (c : Cache) (path : String) (content : Bytes) : Except Failure Summary × Cache :=
  match Export.decode? content with
  | none => (.error (.settings s!"corrupt cache export {path}: malformed content"), c)
  | some e =>
    if e.version = Export.currentVersion then
      let (sum, merged) := c.merge e
      (.ok sum, merged)
    else
      (.error (.settings s!"cache export {path} has unsupported format version {e.version}"), c)

end Cache

end EvalProxy
