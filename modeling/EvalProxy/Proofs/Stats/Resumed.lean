/-
# Runs that go on from each other

A recorder that is started, takes some responses and is stopped makes a run, and the next run goes
on from what it saved. However responses are cut into runs, the last run ends with the statistics of
a single run over all of them, but for the values of means and latencies, which go through the text
of the state file, and for the number of the run.

Main definitions: `Recorder.run`, `Recorder.runs`.
Main statement: `Recorder.restarts_are_invisible`.
-/
import EvalProxy.Proofs.Stats.Record
import EvalProxy.Proofs.Stats.Saved
namespace EvalProxy.Stats

open Decimal (IsDuration)
open Json (maxU64)

/-! ## Responses -/

/-- A response that comes to a recorder, how many milliseconds it took, and the time of day. -/
structure Arrival where
  response : Response
  latency : Float
  stamp : String

namespace Arrival

/-- The world in which a response comes. -/
def arrive (x : Arrival) (w : World) : World := { w with latency := x.latency, stamp := x.stamp }

/-- Statistics after a response came. -/
def addTo (settings : Settings) (a : Aggregate Float) (x : Arrival) : Aggregate Float :=
  if x.response.context.fromCache then a
  else a.record settings x.response.status (Usage.ofBody? x.response.body) x.latency x.stamp

end Arrival

/-- Sound statistics stay so after a response. -/
theorem Sound.addTo {a : Aggregate Float} (h : Sound a) (settings : Settings) {x : Arrival}
    (hx : IsDuration x.latency) : Sound (x.addTo settings a) := by
  rw [Arrival.addTo]
  split
  · exact h
  · exact h.record settings _ (fun _ hu => Usage.fits_of_ofBody? hu)
      (Decimal.moderate_of_isDuration hx) _

/-- Akin statistics stay so after the same response. -/
theorem Akin.addTo {a b : Aggregate Float} (h : Akin a b) (settings : Settings) (x : Arrival) :
    Akin (x.addTo settings a) (x.addTo settings b) := by
  rw [Arrival.addTo, Arrival.addTo]
  split
  · exact h
  · exact h.record settings _ _ _ _ _ _

theorem runId_addTo (settings : Settings) (a : Aggregate Float) (x : Arrival) :
    (x.addTo settings a).runId = a.runId := by
  rw [Arrival.addTo]
  split
  · rfl
  · exact runId_record ..

/-- Statistics after some responses came, one after the other. -/
def addAll (settings : Settings) (a : Aggregate Float) (xs : List Arrival) : Aggregate Float :=
  xs.foldl (fun a x => x.addTo settings a) a

section AddAll

variable {a b : Aggregate Float} (settings : Settings)

theorem addAll_append (xs ys : List Arrival) :
    addAll settings a (xs ++ ys) = addAll settings (addAll settings a xs) ys :=
  List.foldl_append

/-- Sound statistics stay so after any responses. -/
theorem Sound.addAll (h : Sound a) {xs : List Arrival} (hxs : ∀ x ∈ xs, IsDuration x.latency) :
    Sound (addAll settings a xs) := by
  induction xs generalizing a with
  | nil => exact h
  | cons x xs ih =>
    have hx := h.addTo settings (hxs x List.mem_cons_self)
    exact ih hx fun y hy => hxs y (List.mem_cons_of_mem x hy)

/-- Akin statistics stay so after the same responses. -/
theorem Akin.addAll (h : Akin a b) (xs : List Arrival) :
    Akin (addAll settings a xs) (addAll settings b xs) := by
  induction xs generalizing a b with
  | nil => exact h
  | cons x xs ih => exact ih (h.addTo settings x)

theorem runId_addAll (xs : List Arrival) : (addAll settings a xs).runId = a.runId := by
  induction xs generalizing a with
  | nil => rfl
  | cons x xs ih => exact ih.trans (runId_addTo settings a x)

end AddAll

/-- The number of the run is of no account. -/
theorem Akin.nextRun {a b : Aggregate Float} (h : Akin a b) : Akin a (Recorder.nextRun b) :=
  ⟨h.count, h.successful, h.prompt, h.completion, h.total, h.latency, h.toolCalls, h.statusCodes,
    h.finishReasons⟩

/-- Sound statistics stay so in the next run. -/
theorem Sound.nextRun {a : Aggregate Float} (h : Sound a) : Sound (Recorder.nextRun a) := by
  have hfits : (a.runId + 1) % UInt64.size ≤ maxU64 :=
    Nat.le_of_lt_succ (Nat.mod_lt _ (by decide))
  exact ⟨h.count, h.successful, h.prompt, h.completion, h.total, h.latency, h.toolCalls,
    h.statusCodes, h.finishReasons, hfits⟩

/-! ## Runs -/

namespace Recorder

/-- Takes responses as they come. -/
def takeAll (r : Recorder) (w : World) : List Arrival → Recorder × World
  | [] => (r, w)
  | x :: rest =>
    let (_, r, w) := r.onResponse x.response (x.arrive w)
    takeAll r w rest

/-- A run of a recorder: how its start and its stop went, what became of the recorder, and the
world that it left. -/
structure Run where
  started : Except Failure Unit
  stopped : Except Failure Unit
  recorder : Recorder
  world : World

/-- The run of a fresh recorder over some responses. -/
def run (settings : Settings) (outputDirectory : String) (w : World) (xs : List Arrival) : Run :=
  let (started, r, w) := (fresh settings outputDirectory).onStart w
  let (r, w) := r.takeAll w xs
  let (stopped, r, w) := r.onShutdown w
  { started := started, stopped := stopped, recorder := r, world := w }

/-- Runs over the parts of a sequence of responses, each in the world that the one before it
left. -/
def runs (settings : Settings) (outputDirectory : String) (w : World) :
    List (List Arrival) → List Run
  | [] => []
  | part :: rest =>
    let first := run settings outputDirectory w part
    first :: runs settings outputDirectory first.world rest

/-- Taking responses changes the statistics of a recorder only. -/
theorem takeAll_eq (r : Recorder) (w : World) (xs : List Arrival) :
    (r.takeAll w xs).1 = { r with stats := addAll r.settings r.stats xs } := by
  induction xs generalizing r w with
  | nil => rfl
  | cons x xs ih =>
    have hstep : (r.onResponse x.response (x.arrive w)).2.1
        = { r with stats := x.addTo r.settings r.stats } := by
      rw [onResponse, Arrival.addTo]
      split
      · rfl
      · rfl
    rw [takeAll]
    dsimp only
    rw [ih, hstep]
    rfl

section Resumed

variable {settings : Settings} {directory : String}

/-- A run that starts in this world starts from statistics akin to these, and of this number. -/
def Ready (settings : Settings) (directory : String) (w : World) (a : Aggregate Float) (n : Nat) :
    Prop :=
  ∃ b, (fresh settings directory).load w.tree = .ok { fresh settings directory with stats := b } ∧
    Akin a b ∧ Sound b ∧ b.runId = n

/-- Where no statistics are saved a run starts from empty ones. -/
theorem ready_of_new {w : World}
    (h : w.tree.contains (fresh settings directory).statePath = false) :
    Ready settings directory w .empty 0 := by
  refine ⟨.empty, ?_, .refl _, sound_empty, rfl⟩
  rw [load, h]
  rfl

/-- Where statistics are saved a run starts from them, and is the next one. -/
theorem ready_of_keeps {w : World} {a : Aggregate Float}
    (h : Keeps w.tree (fresh settings directory).statePath a) :
    Ready settings directory w a ((a.runId + 1) % UInt64.size) := by
  obtain ⟨b, hload, hakin, hsound, hrun⟩ := exists_load_of_keeps h
  refine ⟨nextRun b, hload, hakin.nextRun, hsound.nextRun, ?_⟩
  rw [← hrun]
  rfl

/-- **A run** goes on from the statistics that it starts from, and leaves its own for the next
one. -/
theorem Ready.run {w : World} {a : Aggregate Float} {n : Nat} (h : Ready settings directory w a n)
    {xs : List Arrival} (hxs : ∀ x ∈ xs, IsDuration x.latency) :
    (run settings directory w xs).started = .ok () ∧
      Akin (addAll settings a xs) (run settings directory w xs).recorder.stats ∧
      (run settings directory w xs).recorder.stats.runId = n ∧
      ((run settings directory w xs).stopped = .ok () →
        Ready settings directory (run settings directory w xs).world (addAll settings a xs)
          ((n + 1) % UInt64.size)) := by
  obtain ⟨b, hload, hakin, hsound, rfl⟩ := h
  -- what the recorder is when the run stops
  set stopping : Recorder :=
    { fresh settings directory with stats := addAll settings b xs } with hstopping
  set w' := (takeAll { fresh settings directory with stats := b } w xs).2 with hw'
  have hrun : Recorder.run settings directory w xs
      = ⟨.ok (), (stopping.saveIn w').1, stopping, (stopping.saveIn w').2⟩ := by
    have htaken : takeAll { fresh settings directory with stats := b } w xs = (stopping, w') :=
      Prod.ext (takeAll_eq _ w xs) rfl
    rw [Recorder.run, onStart, hload]
    dsimp only
    rw [htaken]
    rfl
  rw [hrun]
  have hsound' : Sound stopping.stats := hsound.addAll settings hxs
  have hakin' : Akin (addAll settings a xs) stopping.stats := hakin.addAll settings xs
  have hnumber : stopping.stats.runId = b.runId := runId_addAll settings xs
  refine ⟨rfl, hakin', hnumber, fun hstopped => ?_⟩
  obtain ⟨c, hloaded, hc, hready⟩ :=
    @ready_of_keeps settings directory _ _ (keeps_of_saveIn hsound' rfl hstopped)
  rw [hnumber] at hready
  exact ⟨c, hloaded, hakin'.trans hc, hready⟩

/-- **Runs that go on from each other** start, and the last one ends with the statistics of all
responses. -/
theorem Ready.runs {w : World} {a : Aggregate Float} {n : Nat} (h : Ready settings directory w a n)
    {parts : List (List Arrival)} (hparts : ∀ part ∈ parts, ∀ x ∈ part, IsDuration x.latency)
    (hstopped : ∀ r ∈ runs settings directory w parts, r.stopped = .ok ()) :
    (∀ r ∈ runs settings directory w parts, r.started = .ok ()) ∧
      ∀ last ∈ (runs settings directory w parts).getLast?,
        Akin (addAll settings a parts.flatten) last.recorder.stats ∧
          (n + parts.length ≤ UInt64.size → last.recorder.stats.runId + 1 = n + parts.length) := by
  induction parts generalizing w a n with
  | nil =>
    rw [Recorder.runs]
    exact ⟨List.forall_mem_nil _, by simp⟩
  | cons part rest ih =>
    rw [Recorder.runs] at hstopped ⊢
    rw [List.forall_mem_cons] at hparts hstopped ⊢
    obtain ⟨hstarted, hakin, hnumber, hnext⟩ := h.run hparts.1
    obtain ⟨hstarts, hlast⟩ := ih (hnext hstopped.1) hparts.2 hstopped.2
    refine ⟨⟨hstarted, hstarts⟩, ?_⟩
    rw [List.flatten_cons, addAll_append, List.getLast?_cons]
    cases rest with
    | nil =>
      intro last hmem
      obtain rfl := Option.some.inj hmem
      refine ⟨?_, fun _ => ?_⟩
      · rwa [List.flatten_nil]
      · exact congrArg (· + 1) hnumber
    | cons part' rest =>
      have hsome : (Recorder.runs settings directory (Recorder.run settings directory w part).world
          (part' :: rest)).getLast? ≠ none := by
        simp [Recorder.runs]
      obtain ⟨last, hgets⟩ := Option.ne_none_iff_exists'.1 hsome
      rw [hgets] at hlast ⊢
      intro _ hmem
      obtain rfl := Option.some.inj hmem
      obtain ⟨hall, hcount⟩ := hlast last rfl
      refine ⟨hall, fun hroom => ?_⟩
      have hmore : 0 < (part' :: rest).length := Nat.succ_pos _
      rw [List.length_cons] at hroom ⊢
      rw [Nat.mod_eq_of_lt (by omega)] at hcount
      exact (hcount (by omega)).trans (by omega)

/-- **Restarts are invisible.** However responses, whose latencies are durations, are cut into runs
over a directory without a state file, if every run saves when it stops, then all of them start, and
the last one ends with statistics that agree with those of a single run over all responses: the same
counts, those by status code and by finish reason among them, and the same largest numbers of
tokens, with a mean wherever there is one. The runs are numbered from zero. -/
theorem restarts_are_invisible {w : World}
    (hnew : w.tree.contains (fresh settings directory).statePath = false)
    {parts : List (List Arrival)} (hparts : ∀ part ∈ parts, ∀ x ∈ part, IsDuration x.latency)
    (hstopped : ∀ r ∈ runs settings directory w parts, r.stopped = .ok ()) :
    (∀ r ∈ runs settings directory w parts, r.started = .ok ()) ∧
      ∀ last ∈ (runs settings directory w parts).getLast?,
        Akin (run settings directory w parts.flatten).recorder.stats last.recorder.stats ∧
          (parts.length ≤ UInt64.size → last.recorder.stats.runId = parts.length - 1) := by
  have hready := ready_of_new hnew
  obtain ⟨hstarted, hlast⟩ := hready.runs hparts hstopped
  refine ⟨hstarted, fun last hmem => ?_⟩
  obtain ⟨hakin, hnumber⟩ := hlast last hmem
  have hall : ∀ x ∈ parts.flatten, IsDuration x.latency := by
    intro x hx
    obtain ⟨part, hpart, hx⟩ := List.mem_flatten.1 hx
    exact hparts part hpart x hx
  obtain ⟨-, hsingle, -, -⟩ := hready.run hall
  exact ⟨hsingle.symm.trans hakin, fun hroom => by omega⟩

end Resumed

/-- A completion, a restart, and a failed call. -/
theorem restarts_are_invisible_once :
    let settings : Settings := ⟨some "s", some "m", true, true, true, 0⟩
    let w : World := .initial (fun _ => .ok ⟨200, [], []⟩) fun _ => true
    let usage : Bytes := Text.encode "\x7b\"usage\":\x7b\"total_tokens\":5\x7d\x7d"
    let x : Arrival := ⟨⟨200, [], usage, .arrived "a"⟩, 250, "noon"⟩
    let y : Arrival := ⟨⟨500, [], [], .arrived "b"⟩, 3, "night"⟩
    let last := run settings "" (run settings "" w [x]).world [y]
    w.tree.contains (fresh settings "").statePath = false ∧
      (∀ r ∈ runs settings "" w [[x], [y]], r.stopped = .ok ()) ∧
      (∀ r ∈ runs settings "" w [[x], [y]], r.started = .ok ()) ∧
      Akin (run settings "" w [x, y]).recorder.stats last.recorder.stats ∧
      last.recorder.stats.runId = 1 := by
  intro settings w usage x y last
  have hnew : w.tree.contains (fresh settings "").statePath = false := by decide +kernel
  have hparts : ∀ part ∈ [[x], [y]], ∀ z ∈ part, IsDuration z.latency := by
    have hx : IsDuration 250 := ⟨by decide +kernel, by decide +kernel⟩
    have hy : IsDuration 3 := ⟨by decide +kernel, by decide +kernel⟩
    simpa [x, y] using ⟨hx, hy⟩
  have hoks : (runs settings "" w [[x], [y]]).all (·.stopped.isOk) = true := by decide +kernel
  have hstopped : ∀ r ∈ runs settings "" w [[x], [y]], r.stopped = .ok () := by
    intro r hr
    have hok := List.all_eq_true.1 hoks r hr
    cases houtcome : r.stopped with
    | ok => rfl
    | error e =>
      rw [houtcome] at hok
      cases hok
  obtain ⟨hstarted, hlast⟩ := restarts_are_invisible hnew hparts hstopped
  have hmem : (runs settings "" w [[x], [y]]).getLast? = some last := by
    rw [runs, runs, runs, List.getLast?_cons_cons, List.getLast?_singleton]
  obtain ⟨hakin, hnumber⟩ := hlast last hmem
  exact ⟨hnew, hstopped, hstarted, hakin, hnumber (by decide)⟩

end Recorder

end EvalProxy.Stats
