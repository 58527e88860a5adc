/-
# Around the chain

Everything that the components of a chain share: the files, the model and the progress listener with
what was sent to them, the events and log lines so far, and the clock.

Main definitions: `World`, `World.askModel`, `World.openStore`.
-/
import EvalProxy.Files.Tree
import EvalProxy.Metrics
namespace EvalProxy

/-- A logged call: the request that goes out or the response that comes in. -/
inductive LogLine where
  | outgoing (requestId method path headers body : String)
  | incoming (requestId : String) (status : Nat) (cached : Bool) (headers body : String)

/-- A progress report: where it goes, and how many samples it tells of. -/
structure Report where
  url : String
  samples : Nat

/-- The place of a cache store: in memory, or in a database file. -/
inductive Location where
  | memory
  | file (path : String)

/-- What the components of a chain share. Lists have their latest element first. `model` and
`listener` answer the latest of the requests and reports that they are given; `latency` is how many
milliseconds a call takes, `now` the milliseconds on the clock, and `stamp` the time of day. -/
structure World where
  tree : Files.Tree
  memory : Cache.Store
  events : Metrics.Log
  logs : List LogLine
  trace : List String
  model : List Request → Except Failure Reply
  asked : List Request
  listener : List Report → Bool
  reports : List Report
  now : Nat
  latency : Float
  stamp : String
  serial : Nat

namespace World

/-- The world before anything happened, in which the model and the listener answer as given. -/
def initial (model : List Request → Except Failure Reply) (listener : List Report → Bool) : World :=
  { tree := .empty, memory := .empty, events := [], logs := [], trace := [], model := model,
    asked := [], listener := listener, reports := [], now := 0, latency := 0, stamp := "",
    serial := 0 }

/-- The world with an event noted. -/
def note (w : World) (e : Metrics.Event) : World := { w with events := e :: w.events }

/-- The world with a log line written. -/
def log (w : World) (line : LogLine) : World := { w with logs := line :: w.logs }

/-- A name that was not given out before, as 32 hexadecimal digits. -/
def freshName (w : World) : String × World :=
  let digits := Nat.toDigits 16 w.serial
  (String.ofList (List.replicate (32 - digits.length) '0' ++ digits),
    { w with serial := w.serial + 1 })

/-- A fresh name in groups of eight, four, four, four and twelve digits. -/
def freshId (w : World) : String × World :=
  let (name, w) := w.freshName
  let cs := name.toList
  let group (start length : Nat) := String.ofList ((cs.drop start).take length)
  ("-".intercalate [group 0 8, group 8 4, group 12 4, group 16 4, group 20 12], w)

/-! ## The model and the listener -/

/-- Sends a request to the model. -/
def askModel (r : Request) (w : World) : Except Failure Response × World :=
  let asked := r :: w.asked
  ((w.model asked).map (·.toResponse r.context), { w with asked := asked })

/-- Sends a report to the listener and notes whether it was accepted. -/
def report (w : World) (r : Report) : World :=
  let reports := r :: w.reports
  { w with reports := reports }.note (.progress (w.listener reports))

/-! ## Files -/

/-- Writes a file; what the disk took of it stays there. -/
def writeFile (w : World) (path : String) (content : Bytes) : Except Failure Unit × World :=
  match w.tree.put path content with
  | (tree, none) => (.ok (), { w with tree := tree })
  | (tree, some e) => (.error (.file e.message), { w with tree := tree })

/-- Makes a directory and everything on the way there. -/
def createDirectories (w : World) (path : String) : Except Failure Unit × World :=
  match w.tree.createDirectories path with
  | .ok tree => (.ok (), { w with tree := tree })
  | .error e => (.error (.file e.message), w)

/-! ## Stores -/

/-- A store that has no tables. -/
def noStore : Cache.Store := { Cache.Store.empty with lost := true }

/-- The store at a location. -/
def store (w : World) : Location → Cache.Store
  | .memory => w.memory
  | .file path =>
    match w.tree.find path with
    | .ok (some (.database s)) => s
    | _ => noStore

/-- The world with another store at a location that has one. -/
def withStore (w : World) (place : Location) (s : Cache.Store) : World :=
  match place with
  | .memory => { w with memory := s }
  | .file path =>
    match w.tree.find path with
    | .ok (some (.database _)) =>
      { w with tree := w.tree.withNode (Files.Path.parts path) (.database s) }
    | _ => w

/-- The directory of a cache, below the output directory, for which none is configured. -/
def cacheDirectory (outputDirectory : String) : String := Files.Path.join outputDirectory "cache"

/-- The name of the database file in a cache directory. -/
def databaseName : String := "cache.db"

/-- Opens the store in a directory, which is made if needed; gives its location. -/
def openStore (w : World) (directory : String) : Except Failure Location × World :=
  match w.tree.createDirectories directory with
  | .error e =>
    (.error (.storage s!"Failed to create cache directory {directory}: {e.message}"), w)
  | .ok tree =>
    let w := { w with tree := tree }
    let path := Files.Path.join directory databaseName
    let placed (s : Cache.Store) : Except Failure Location × World :=
      (.ok (.file path), { w with tree := tree.withNode (Files.Path.parts path) (.database s) })
    match tree.find path with
    | .ok none => placed .empty
    | .ok (some (.file content)) =>
      if content.isEmpty then placed .empty
      else (.error (.storage "Failed to set pragmas: file is not a database"), w)
    | .ok (some (.database s)) => placed s.opened
    | _ =>
      (.error (.storage
        s!"Failed to open cache database: unable to open database file: {path}"), w)

end World

end EvalProxy
