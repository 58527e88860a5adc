/-
# The caching stage

A cache as a stage of a chain: its store lies in memory or in a database file of the world.

Main definitions: `Caching`, `Caching.create`, `Caching.onRequest`, `Caching.onResponse`.
-/
import EvalProxy.Cache.Caching
import EvalProxy.World
namespace EvalProxy

/-- A cache whose store lies elsewhere. -/
structure Caching where
  settings : Cache.Settings
  place : Location
  counters : Cache.Counters

namespace Caching

/-- The cache over its store. -/
def cache (c : Caching) (w : World) : Cache := ⟨c.settings, w.store c.place, c.counters, w.events⟩

/-- Puts the store and the events of a cache back into the world. -/
def settle (c : Caching) (w : World) (after : Cache) : Caching × World :=
  ({ c with counters := after.counters },
    { w.withStore c.place after.store with events := after.events })

/-- A cache over a store that is already open. -/
def onPlace (settings : Cache.Settings) (place : Location) : Caching :=
  ⟨settings, place, .fresh settings⟩

/-- The directory of a cache for which none is configured. -/
def defaultDirectory : String := "./adapter_output/cache"

/-- Merges an export file into the store. -/
def importFile (c : Caching) (path : String) (w : World) :
    Except Failure Cache.Summary × Caching × World :=
  match w.tree.read path with
  | .error e => (.error (.settings s!"cannot read cache export {path}: {e.message}"), c, w)
  | .ok content =>
    let (outcome, after) := (c.cache w).importContent path content
    (outcome, c.settle w after)

/-- Writes all entries to an export file. -/
def exportFile (c : Caching) (path : String) (w : World) : Except Failure Unit × World :=
  match Cache.exportStore (w.store c.place) with
  | .error e => (.error e, w)
  | .ok e =>
    match w.tree.createParent path with
    | .error e => (.error (.file e.message), w)
    | .ok tree => { w with tree := tree }.writeFile path e.encode

/-- Opens a cache and merges the configured export into it. -/
def create (settings : Cache.Settings) (w : World) : Except Failure Caching × World :=
  match w.openStore (settings.directory.getD defaultDirectory) with
  | (.error e, w) => (.error e, w)
  | (.ok place, w) =>
    let c := onPlace settings place
    match settings.importPath with
    | none => (.ok c, w)
    | some path =>
      match c.importFile path w with
      | (.error e, _, w) => (.error e, w)
      | (.ok _, c, w) => (.ok c, w)

/-- Takes a request. -/
def onRequest (c : Caching) (r : Request) (w : World) : Except Failure Verdict × Caching × World :=
  let (outcome, after) := (c.cache w).onRequest r
  (outcome, c.settle w after)

/-- Takes a response, which stays as it is. -/
def onResponse (c : Caching) (r : Response) (w : World) :
    Except Failure Response × Caching × World :=
  (.ok r, c.settle w ((c.cache w).onResponse r))

/-- Fails if the stored responses cannot be counted. -/
def onStart (c : Caching) (w : World) : Except Failure Unit × Caching × World :=
  (((w.store c.place).size .responses).map fun _ => (), c, w)

/-- Writes the configured export. -/
def onShutdown (c : Caching) (w : World) : Except Failure Unit × Caching × World :=
  match c.settings.exportPath with
  | none => (.ok (), c, w)
  | some path =>
    let (outcome, w) := c.exportFile path w
    (outcome, c, w)

end Caching

end EvalProxy
