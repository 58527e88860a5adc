/-
# Progress

How many samples were processed, told to a listener and written to a file: every so many samples,
when a timer fires, and at the end. The first calls may be left out. A count is claimed when it is
due and delivered later; a delivery that a larger count has overtaken is dropped.

Main definitions: `Tally.record`, `Tally.takePending`, `Tracker.emit`.
-/
import EvalProxy.Settings
import EvalProxy.World
namespace EvalProxy.Progress

/-- Where progress goes and when: the listener, every how many samples and every how many seconds it
is told, how many calls are left out at first, and the file. -/
structure Settings where
  url : Option String
  interval : Nat
  seconds : Option Nat
  skipFirst : Nat
  file : Option String

/-- The form of the settings. -/
def form : Form :=
  .ofFields "progress_tracking" "ProgressConfig"
    [Json.optional "progress_url" .text, Json.defaulted "interval" (.int 1) .u64,
     Json.optional "interval_secs" .u64, Json.defaulted "skip_initial_requests" (.int 0) .u64,
     Json.optional "progress_file" .path]

/-- Settings from their normal form. -/
def Settings.read (value : Json) : Except Failure Settings := do
  let v ← form.read value
  .ok
    { url := (Json.field v "progress_url").text?
      interval := Json.asNat (Json.field v "interval")
      seconds := Json.asNat? (Json.field v "interval_secs")
      skipFirst := Json.asNat (Json.field v "skip_initial_requests")
      file := (Json.field v "progress_file").text? }

/-! ## Counting -/

/-- How many samples were processed, up to which of them a report was claimed, and how many calls
were left out. All three start at zero and count calls, so that their 64 bits never run out: they
are natural numbers, unlike the counters of the statistics, which may be loaded with any value. -/
structure Tally where
  processed : Nat
  lastReported : Nat
  skipped : Nat

namespace Tally

/-- The tally before the first call. -/
def zero : Tally := ⟨0, 0, 0⟩

/-- Counts a call; claims a report if one is due. -/
def record (s : Settings) (t : Tally) : Option Nat × Tally :=
  if t.skipped < s.skipFirst then (none, { t with skipped := t.skipped + 1 })
  else
    let processed := t.processed + 1
    if 0 < s.interval && processed % s.interval == 0 then
      (some processed, { t with processed := processed, lastReported := processed })
    else (none, { t with processed := processed })

/-- Claims a report if samples were processed since the last claim. -/
def takePending (t : Tally) : Option Nat × Tally :=
  if t.processed = t.lastReported then (none, t)
  else (some t.processed, { t with lastReported := t.processed })

end Tally

/-! ## Delivery -/

/-- A tally, the largest count delivered, and when the timer fires next, if it runs. -/
structure Tracker where
  settings : Settings
  tally : Tally
  sent : Nat
  timer : Option Nat

namespace Tracker

/-- A tracker before the first call. -/
def fresh (s : Settings) : Tracker := ⟨s, .zero, 0, none⟩

/-- Writes a count to the file, whether or not that succeeds. -/
def writeCount (s : Settings) (count : Nat) (w : World) : World :=
  match s.file with
  | some path => (w.writeFile path (Text.encode (toString count))).2
  | none => w

/-- Tells the listener a count. -/
def tellCount (s : Settings) (count : Nat) (w : World) : World :=
  match s.url with
  | some url => w.report ⟨url, count⟩
  | none => w

/-- Delivers a claimed count, unless a count as large was delivered before. -/
def emit (t : Tracker) (count : Nat) (w : World) : Tracker × World :=
  if count ≤ t.sent then (t, w)
  else ({ t with sent := count }, tellCount t.settings count (writeCount t.settings count w))

/-- Delivers a claimed count, if one is claimed. -/
def emitClaimed (t : Tracker) (claim : Option Nat) (w : World) : Tracker × World :=
  match claim with
  | some count => t.emit count w
  | none => (t, w)

/-- Delivers what is not yet reported. -/
def flush (t : Tracker) (w : World) : Tracker × World :=
  let (claim, tally) := t.tally.takePending
  { t with tally := tally }.emitClaimed claim w

/-- The milliseconds between two firings of the timer, if there is one. -/
def period? (s : Settings) : Option Nat :=
  match s.seconds with
  | some 0 => none
  | some n => some (n * 1000)
  | none => none

/-- Whether a report goes anywhere. -/
def delivers (s : Settings) : Bool := s.file.isSome || s.url.isSome

/-- Sets a timer that is due again, if reports take time. -/
def rewind (t : Tracker) (now : Nat) : Tracker :=
  match t.timer, period? t.settings with
  | some due, some period =>
    if delivers t.settings && due ≤ now then { t with timer := some (due + period) } else t
  | _, _ => t

/-- Takes a response, which stays as it is, and counts it. A timer that is due fires while a report
is on its way and finds nothing else to report. -/
def onResponse (t : Tracker) (r : Response) (w : World) :
    Except Failure Response × Tracker × World :=
  let (claim, tally) := t.tally.record t.settings
  match claim with
  | some count =>
    let (t, w) := { t with tally := tally }.emit count w
    (.ok r, t.rewind w.now, w)
  | none => (.ok r, { t with tally := tally }, w)

/-- Starts the timer anew. -/
def onStart (t : Tracker) (w : World) : Except Failure Unit × Tracker × World :=
  match period? t.settings with
  | some period => (.ok (), { t with timer := some (w.now + period) }, w)
  | none => (.ok (), t, w)

/-- Stops the timer and delivers what is not yet reported. -/
def onShutdown (t : Tracker) (w : World) : Except Failure Unit × Tracker × World :=
  let (t, w) := { t with timer := none }.flush w
  (.ok (), t, w)

/-- Fires the timer: it is set again, and what is not yet reported is delivered. -/
def fire (t : Tracker) (due : Nat) (w : World) : Tracker × World :=
  let next := (period? t.settings).map (due + ·)
  { t with timer := next }.flush w

end Tracker

end EvalProxy.Progress
