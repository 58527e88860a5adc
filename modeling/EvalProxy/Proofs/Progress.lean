/-
# Progress reports

A count is claimed when a call is counted or when what is pending is taken, and emitted at any later
time; meanwhile others may be claimed and emitted. In whatever order that happens, reports never go
backwards and none is lost.

Main definitions: `Flight`, `Step`, `Run`.
Main statements: `InOrder.run`, `reports_never_go_backwards`.
-/
import EvalProxy.Progress
namespace EvalProxy.Progress

/-! ## Claims -/

/-- What a tally becomes when it may claim a count: a count that it claims exceeds all that were
claimed before. -/
structure Tally.Claims (t : Tally) (claim : Option Nat) (t' : Tally) : Prop where
  claimed : ∀ n, claim = some n → t.lastReported < n ∧ t'.lastReported = n
  unclaimed : claim = none → t'.lastReported = t.lastReported
  bounded : t'.lastReported ≤ t'.processed

/-- A tally never reports less than before. -/
theorem Tally.Claims.le {t t' : Tally} {claim : Option Nat} (h : t.Claims claim t') :
    t.lastReported ≤ t'.lastReported := by
  cases claim with
  | none => exact Nat.le_of_eq (h.unclaimed rfl).symm
  | some n =>
    obtain ⟨hlt, heq⟩ := h.claimed n rfl
    rw [heq]
    exact Nat.le_of_lt hlt

/-- What counting a call does: the call is left out, or counted without a claim or with one. -/
theorem Tally.record_cases (s : Settings) (t : Tally) :
    (t.skipped < s.skipFirst ∧ t.record s = (none, { t with skipped := t.skipped + 1 })) ∨
    t.record s = (none, { t with processed := t.processed + 1 }) ∨
    t.record s = (some (t.processed + 1), ⟨t.processed + 1, t.processed + 1, t.skipped⟩) := by
  unfold Tally.record
  split
  · rename_i hskips
    exact Or.inl ⟨hskips, rfl⟩
  · right
    dsimp only
    split
    · exact Or.inr rfl
    · exact Or.inl rfl

/-- What taking the pending count does: it claims all that was processed, if that is more than was
claimed. -/
theorem Tally.takePending_cases (t : Tally) :
    (t.processed = t.lastReported ∧ t.takePending = (none, t)) ∨
    (t.processed ≠ t.lastReported ∧
      t.takePending = (some t.processed, ⟨t.processed, t.processed, t.skipped⟩)) := by
  unfold Tally.takePending
  split
  · rename_i heq
    exact Or.inl ⟨heq, rfl⟩
  · rename_i hne
    exact Or.inr ⟨hne, rfl⟩

variable {t : Tally}

/-- Counting a call claims no count that was claimed before. -/
theorem Tally.claims_record (h : t.lastReported ≤ t.processed) (s : Settings) :
    t.Claims (t.record s).1 (t.record s).2 := by
  rcases t.record_cases s with ⟨-, hrecord⟩ | hrecord | hrecord
  · rw [hrecord]
    exact ⟨by simp, fun _ => rfl, h⟩
  · rw [hrecord]
    exact ⟨by simp, fun _ => rfl, Nat.le_succ_of_le h⟩
  · rw [hrecord]
    refine ⟨?_, by simp, Nat.le_refl _⟩
    intro n hn
    obtain rfl : t.processed + 1 = n := by simpa using hn
    exact ⟨Nat.lt_succ_of_le h, rfl⟩

/-- Taking the pending count claims none that was claimed before. -/
theorem Tally.claims_takePending (h : t.lastReported ≤ t.processed) :
    t.Claims t.takePending.1 t.takePending.2 := by
  rcases t.takePending_cases with ⟨-, htaken⟩ | ⟨hne, htaken⟩
  · rw [htaken]
    exact ⟨by simp, fun _ => rfl, h⟩
  · rw [htaken]
    refine ⟨?_, by simp, Nat.le_refl _⟩
    intro n hn
    obtain rfl : t.processed = n := by simpa using hn
    exact ⟨Nat.lt_of_le_of_ne h (Ne.symm hne), rfl⟩

/-! ## Deliveries -/

/-- What emitting a count does: nothing if a count as large was delivered, and otherwise the count
is the last that was delivered, and stands in the file and goes to the listener. -/
theorem Tracker.emit_cases (t : Tracker) (count : Nat) (w : World) :
    (count ≤ t.sent ∧ t.emit count w = (t, w)) ∨
    (t.sent < count ∧ t.emit count w =
      ({ t with sent := count },
        Tracker.tellCount t.settings count (Tracker.writeCount t.settings count w))) := by
  unfold Tracker.emit
  split
  · rename_i hstale
    exact Or.inl ⟨hstale, rfl⟩
  · rename_i hnew
    exact Or.inr ⟨Nat.lt_of_not_le hnew, rfl⟩

/-- The file is no report. -/
theorem Tracker.reports_writeCount (s : Settings) (count : Nat) (w : World) :
    (Tracker.writeCount s count w).reports = w.reports := by
  unfold Tracker.writeCount
  split
  · unfold World.writeFile
    split
    · rfl
    · rfl
  · rfl

/-- The listener, if there is one, is told of the count. -/
theorem Tracker.reports_tellCount {s : Settings} {url : String} (hurl : s.url = some url)
    (count : Nat) (w : World) :
    (Tracker.tellCount s count w).reports = ⟨url, count⟩ :: w.reports := by
  rw [Tracker.tellCount, hurl]
  rfl

/-! ## Steps -/

/-- What happens to a tracker: a call is counted or the pending count is taken, either of which may
claim a count; a claimed count is emitted, and delivered unless a larger one has overtaken it; or
something that has nothing to do with reports. -/
inductive Event where
  | counted (claim : Option Nat)
  | pending (claim : Option Nat)
  | emitted (count : Nat) (delivered : Bool)
  | aside

namespace Event

/-- The count that an event claims. -/
def claim? : Event → Option Nat
  | counted claim => claim
  | pending claim => claim
  | _ => none

/-- The count that an event emits. -/
def emission? : Event → Option Nat
  | emitted count _ => some count
  | _ => none

/-- The count that an event delivers. -/
def delivery? : Event → Option Nat
  | emitted count true => some count
  | _ => none

/-- A call is counted. -/
def isCounted : Event → Bool
  | counted _ => true
  | _ => false

end Event

/-- The counts that were claimed, in order. -/
def claimed (es : List Event) : List Nat := es.filterMap Event.claim?

/-- The counts that were emitted, in order. -/
def emitted (es : List Event) : List Nat := es.filterMap Event.emission?

/-- The counts that were delivered, in order. -/
def delivered (es : List Event) : List Nat := es.filterMap Event.delivery?

/-- The last count that was delivered, or zero. -/
def lastDelivered (es : List Event) : Nat := (delivered es).getLast?.getD 0

/-- The pending count was taken, and no call was counted since. -/
def Flushed (es : List Event) : Prop :=
  ∃ past claim rest, es = past ++ .pending claim :: rest ∧ ∀ e ∈ rest, e.isCounted = false

/-- A tracker, the claimed counts that are still to be emitted, and the world. -/
structure Flight where
  tracker : Tracker
  outstanding : List Nat
  world : World

namespace Flight

/-- A tracker before the first call. -/
def start (s : Settings) (w : World) : Flight := ⟨.fresh s, [], w⟩

/-- The tally may have claimed a count. -/
def claims (f : Flight) (taken : Option Nat × Tally) : Flight :=
  { f with
    tracker := { f.tracker with tally := taken.2 }
    outstanding := taken.1.toList ++ f.outstanding }

/-- A claimed count is emitted. -/
def emits (f : Flight) (count : Nat) : Flight :=
  ⟨(f.tracker.emit count f.world).1, f.outstanding.erase count, (f.tracker.emit count f.world).2⟩

end Flight

/-- One step. A count is emitted once for each time that it was claimed. Aside from that the timer
may be set or stopped, and anything may happen in the world but a report to the listener. -/
inductive Step (f : Flight) : Event → Flight → Prop where
  | counted :
      Step f (.counted (f.tracker.tally.record f.tracker.settings).1)
        (f.claims (f.tracker.tally.record f.tracker.settings))
  | pending : Step f (.pending f.tracker.tally.takePending.1) (f.claims f.tracker.tally.takePending)
  | emitted (count : Nat) (hclaimed : count ∈ f.outstanding) :
      Step f (.emitted count (f.tracker.sent < count)) (f.emits count)
  | aside (timer : Option Nat) (w : World) (hquiet : w.reports = f.world.reports) :
      Step f .aside { f with tracker := { f.tracker with timer := timer }, world := w }

/-- Counting a call is a step. -/
theorem Step.of_record {f : Flight} (claim : Option Nat) {tally : Tally}
    (h : f.tracker.tally.record f.tracker.settings = (claim, tally)) :
    Step f (.counted claim) (f.claims (claim, tally)) := by
  have hstep := Step.counted (f := f)
  rw [h] at hstep
  exact hstep

/-- Steps one after another, in any order. -/
inductive Run (f : Flight) : List Event → Flight → Prop where
  | nil : Run f [] f
  | snoc {es : List Event} {g g' : Flight} {e : Event} (run : Run f es g) (step : Step g e g') :
      Run f (es ++ [e]) g'

/-! ## What happened so far -/

section

variable {es : List Event} {e : Event}

theorem claimed_concat : claimed (es ++ [e]) = claimed es ++ e.claim?.toList := by
  cases h : e.claim? <;> simp [claimed, h]

theorem emitted_concat : emitted (es ++ [e]) = emitted es ++ e.emission?.toList := by
  cases h : e.emission? <;> simp [emitted, h]

theorem delivered_concat : delivered (es ++ [e]) = delivered es ++ e.delivery?.toList := by
  cases h : e.delivery? <;> simp [delivered, h]

theorem countP_concat :
    (es ++ [e]).countP (·.isCounted) = es.countP (·.isCounted) + if e.isCounted then 1 else 0 := by
  simp

/-- What is delivered is emitted. -/
theorem mem_emitted_of_mem_delivered {n : Nat} (h : n ∈ delivered es) : n ∈ emitted es := by
  obtain ⟨e, he, hdelivery⟩ := List.mem_filterMap.1 h
  refine List.mem_filterMap.2 ⟨e, he, ?_⟩
  unfold Event.delivery? at hdelivery
  split at hdelivery
  · exact hdelivery
  · simp at hdelivery

/-- Taking the pending count flushes, and only counting a call undoes it. -/
theorem flushed_concat (h : Flushed (es ++ [e])) :
    (∃ claim, e = .pending claim) ∨ e.isCounted = false ∧ Flushed es := by
  obtain ⟨past, claim, rest, heq, hrest⟩ := h
  rcases rest.eq_nil_or_concat with rfl | ⟨rest', last, rfl⟩
  · obtain ⟨-, hlast⟩ := List.append_inj' heq rfl
    exact Or.inl ⟨claim, by simpa using hlast⟩
  · right
    have heq' : es ++ [e] = (past ++ .pending claim :: rest') ++ [last] := by
      rw [heq]
      simp
    obtain ⟨hes, hlast⟩ := List.append_inj' heq' rfl
    obtain rfl : e = last := by simpa using hlast
    exact ⟨hrest e (by simp), past, claim, rest', hes, fun e' he' => hrest e' (by simp [he'])⟩

end

/-! ## What was claimed -/

/-- What holds of a tally: the claims so far increase, and the latest of them is what the tally has
reported; calls are counted or left out; and once everything is flushed all that was processed is
reported. -/
structure Tallied (s : Settings) (es : List Event) (t : Tally) : Prop where
  bounded : t.lastReported ≤ t.processed
  counted : t.skipped + t.processed = es.countP (·.isCounted)
  skipped : t.skipped ≤ s.skipFirst
  increasing : (claimed es).Pairwise (· < ·)
  latest : ∀ n ∈ claimed es, n ≤ t.lastReported
  reported : t.lastReported = 0 ∨ t.lastReported ∈ claimed es
  flushed : Flushed es → t.lastReported = t.processed

namespace Tallied

variable {s : Settings} {es : List Event} {e : Event} {t t' : Tally} {claim : Option Nat}

/-- **A claim** exceeds all claims before it. -/
theorem claims (h : Tallied s es t) (hclaims : t.Claims claim t') (hclaim : e.claim? = claim)
    (hcounted : t'.skipped + t'.processed =
      t.skipped + t.processed + if e.isCounted then 1 else 0)
    (hskipped : t'.skipped ≤ s.skipFirst)
    (hflushed : Flushed (es ++ [e]) → t'.lastReported = t'.processed) :
    Tallied s (es ++ [e]) t' := by
  refine ⟨hclaims.bounded, ?_, hskipped, ?_, ?_, ?_, hflushed⟩
  · rw [countP_concat, ← h.counted]
    exact hcounted
  · rw [claimed_concat, hclaim]
    refine List.pairwise_append.2 ⟨h.increasing, ?_, ?_⟩
    · cases claim <;> simp
    · intro n hn m hm
      exact Nat.lt_of_le_of_lt (h.latest n hn) (hclaims.claimed m (Option.mem_toList.1 hm)).1
  · intro n hn
    rw [claimed_concat, hclaim] at hn
    rcases List.mem_append.1 hn with hn | hn
    · exact Nat.le_trans (h.latest n hn) hclaims.le
    · exact Nat.le_of_eq (hclaims.claimed n (Option.mem_toList.1 hn)).2.symm
  · rw [claimed_concat, hclaim]
    cases claim with
    | none =>
      rw [hclaims.unclaimed rfl, Option.toList_none, List.append_nil]
      exact h.reported
    | some m =>
      rw [(hclaims.claimed m rfl).2]
      exact Or.inr (by simp)

/-- Counting a call may claim. -/
theorem record (h : Tallied s es t) :
    Tallied s (es ++ [.counted (t.record s).1]) (t.record s).2 := by
  have hflushed : ¬ Flushed (es ++ [.counted (t.record s).1]) := by
    intro hflushed
    rcases flushed_concat hflushed with ⟨claim, he⟩ | ⟨he, -⟩
    · simp at he
    · simp [Event.isCounted] at he
  have hskipped := h.skipped
  refine h.claims (Tally.claims_record h.bounded s) rfl ?_ ?_ fun hf => absurd hf hflushed
  · rcases t.record_cases s with ⟨-, hrecord⟩ | hrecord | hrecord
    · rw [hrecord]
      simp only [Event.isCounted, if_true]
      omega
    · rw [hrecord]
      simp only [Event.isCounted, if_true]
      omega
    · rw [hrecord]
      simp only [Event.isCounted, if_true]
      omega
  · rcases t.record_cases s with ⟨hskips, hrecord⟩ | hrecord | hrecord
    · rw [hrecord]
      exact hskips
    · rw [hrecord]
      exact hskipped
    · rw [hrecord]
      exact hskipped

/-- Taking the pending count may claim, and leaves nothing to report. -/
theorem takePending (h : Tallied s es t) :
    Tallied s (es ++ [.pending t.takePending.1]) t.takePending.2 := by
  have hskipped := h.skipped
  rcases t.takePending_cases with ⟨heq, htaken⟩ | ⟨-, htaken⟩
  · refine h.claims (Tally.claims_takePending h.bounded) rfl ?_ ?_ ?_
    · rw [htaken]
      rfl
    · rw [htaken]
      exact hskipped
    · rw [htaken]
      exact fun _ => heq.symm
  · refine h.claims (Tally.claims_takePending h.bounded) rfl ?_ ?_ ?_
    · rw [htaken]
      rfl
    · rw [htaken]
      exact hskipped
    · rw [htaken]
      exact fun _ => rfl

/-- Nothing else that happens changes what was claimed. -/
theorem other (h : Tallied s es t) (hclaim : e.claim? = none) (hcounted : e.isCounted = false)
    (hpending : ∀ claim, e ≠ .pending claim) : Tallied s (es ++ [e]) t := by
  refine h.claims ⟨by simp, fun _ => rfl, h.bounded⟩ hclaim ?_ h.skipped ?_
  · rw [hcounted]
    rfl
  · intro hflushed
    rcases flushed_concat hflushed with ⟨claim, he⟩ | ⟨-, hflushed⟩
    · exact absurd he (hpending claim)
    · exact h.flushed hflushed

end Tallied

/-! ## What was delivered -/

/-- What holds of the largest count so far that was delivered, and of the reports that the listener
was given: deliveries increase, nothing that was emitted exceeds the last of them, and the listener
hears of all of them in order. -/
structure Relayed (s : Settings) (w : World) (es : List Event) (sent : Nat)
    (reports : List Report) : Prop where
  overtaken : ∀ n ∈ emitted es, n ≤ sent
  emitted : sent = 0 ∨ sent ∈ emitted es
  increasing : (delivered es).Pairwise (· < ·)
  last : lastDelivered es = sent
  heard : ∀ url, s.url = some url →
    reports = ((delivered es).map (Report.mk url)).reverse ++ w.reports

namespace Relayed

variable {s : Settings} {w : World} {es : List Event} {e : Event} {sent n : Nat}
  {reports reports' : List Report}

/-- What emits nothing changes nothing. -/
theorem other (h : Relayed s w es sent reports) (hemission : e.emission? = none)
    (hdelivery : e.delivery? = none) : Relayed s w (es ++ [e]) sent reports := by
  have hemitted : Progress.emitted (es ++ [e]) = Progress.emitted es := by
    rw [emitted_concat, hemission, Option.toList_none, List.append_nil]
  have hdelivered : delivered (es ++ [e]) = delivered es := by
    rw [delivered_concat, hdelivery, Option.toList_none, List.append_nil]
  constructor
  · rw [hemitted]
    exact h.overtaken
  · rw [hemitted]
    exact h.emitted
  · rw [hdelivered]
    exact h.increasing
  · rw [lastDelivered, hdelivered]
    exact h.last
  · rw [hdelivered]
    exact h.heard

/-- A count that a larger one has overtaken is not delivered. -/
theorem stale (h : Relayed s w es sent reports) (hstale : n ≤ sent) :
    Relayed s w (es ++ [.emitted n false]) sent reports := by
  have hdelivered : delivered (es ++ [.emitted n false]) = delivered es := by
    rw [delivered_concat]
    exact List.append_nil _
  constructor
  · intro m hm
    rw [emitted_concat] at hm
    rcases List.mem_append.1 hm with hm | hm
    · exact h.overtaken m hm
    · rw [List.mem_singleton.1 hm]
      exact hstale
  · rw [emitted_concat]
    exact h.emitted.imp_right (List.mem_append_left _)
  · rw [hdelivered]
    exact h.increasing
  · rw [lastDelivered, hdelivered]
    exact h.last
  · rw [hdelivered]
    exact h.heard

/-- **A count that exceeds all that were delivered** is delivered. -/
theorem deliver (h : Relayed s w es sent reports) (hnew : sent < n)
    (htold : ∀ url, s.url = some url → reports' = ⟨url, n⟩ :: reports) :
    Relayed s w (es ++ [.emitted n true]) n reports' := by
  have hdelivered : delivered (es ++ [.emitted n true]) = delivered es ++ [n] := delivered_concat
  constructor
  · intro m hm
    rw [emitted_concat] at hm
    rcases List.mem_append.1 hm with hm | hm
    · exact Nat.le_of_lt (Nat.lt_of_le_of_lt (h.overtaken m hm) hnew)
    · exact Nat.le_of_eq (List.mem_singleton.1 hm)
  · rw [emitted_concat]
    exact Or.inr (List.mem_append_right _ (List.mem_singleton.2 rfl))
  · rw [hdelivered]
    refine List.pairwise_append.2 ⟨h.increasing, List.pairwise_singleton _ _, ?_⟩
    intro m hm k hk
    rw [List.mem_singleton.1 hk]
    exact Nat.lt_of_le_of_lt (h.overtaken m (mem_emitted_of_mem_delivered hm)) hnew
  · rw [lastDelivered, hdelivered, List.getLast?_concat]
    rfl
  · intro url hurl
    rw [hdelivered, htold url hurl, h.heard url hurl]
    simp

end Relayed

/-! ## Order -/

/-- What holds however the steps are ordered: beside what holds of claims and of deliveries, each
claimed count was emitted or is outstanding. -/
structure InOrder (s : Settings) (w : World) (es : List Event) (f : Flight) : Prop where
  settings : f.tracker.settings = s
  tallied : Tallied s es f.tracker.tally
  relayed : Relayed s w es f.tracker.sent f.world.reports
  outstanding : (emitted es ++ f.outstanding).Perm (claimed es)

namespace InOrder

variable {s : Settings} {w : World} {es : List Event} {e : Event} {f f' : Flight}

/-- Before the first call everything is in order. -/
theorem start (s : Settings) (w : World) : InOrder s w [] (.start s w) where
  settings := rfl
  tallied := ⟨Nat.le_refl _, rfl, Nat.zero_le _, .nil, by simp [claimed], Or.inl rfl, fun _ => rfl⟩
  relayed := ⟨by simp [emitted], Or.inl rfl, .nil, rfl, fun _ _ => rfl⟩
  outstanding := .nil

/-- A claimed count is outstanding. -/
theorem perm_claims (h : InOrder s w es f) {claim : Option Nat} (hclaim : e.claim? = claim)
    (hemission : e.emission? = none) :
    (emitted (es ++ [e]) ++ (claim.toList ++ f.outstanding)).Perm (claimed (es ++ [e])) := by
  rw [emitted_concat, hemission, Option.toList_none, List.append_nil, claimed_concat, hclaim]
  refine .trans ?_ (h.outstanding.append_right _)
  rw [List.append_assoc]
  exact List.perm_append_comm.append_left _

/-- An emitted count is outstanding no longer. -/
theorem perm_emits (h : InOrder s w es f) {n : Nat} (hn : n ∈ f.outstanding) (delivers : Bool) :
    (emitted (es ++ [.emitted n delivers]) ++ f.outstanding.erase n).Perm
      (claimed (es ++ [.emitted n delivers])) := by
  have hclaimed : claimed (es ++ [.emitted n delivers]) = claimed es := by
    rw [claimed_concat]
    exact List.append_nil _
  rw [hclaimed, emitted_concat, List.append_assoc]
  refine .trans (.append_left _ ?_) h.outstanding
  exact (List.perm_cons_erase hn).symm

/-- **One step** keeps the order. -/
theorem step (h : InOrder s w es f) (hstep : Step f e f') : InOrder s w (es ++ [e]) f' := by
  cases hstep with
  | counted =>
    rw [h.settings]
    exact ⟨h.settings, h.tallied.record, h.relayed.other rfl rfl, h.perm_claims rfl rfl⟩
  | pending =>
    exact ⟨h.settings, h.tallied.takePending, h.relayed.other rfl rfl, h.perm_claims rfl rfl⟩
  | emitted n hn =>
    have htallied (delivers : Bool) :
        Tallied s (es ++ [.emitted n delivers]) f.tracker.tally := h.tallied.other rfl rfl (by simp)
    rcases f.tracker.emit_cases n f.world with ⟨hstale, hemit⟩ | ⟨hnew, hemit⟩
    · rw [Flight.emits, hemit, decide_eq_false (Nat.not_lt_of_le hstale)]
      exact ⟨h.settings, htallied false, h.relayed.stale hstale, h.perm_emits hn false⟩
    · rw [Flight.emits, hemit, decide_eq_true hnew]
      refine ⟨h.settings, htallied true, h.relayed.deliver hnew ?_, h.perm_emits hn true⟩
      intro url hurl
      rw [h.settings, Tracker.reports_tellCount hurl, Tracker.reports_writeCount]
  | aside timer w' hquiet =>
    refine ⟨h.settings, h.tallied.other rfl rfl (by simp), ?_, ?_⟩
    · show Relayed s w _ f.tracker.sent w'.reports
      rw [hquiet]
      exact h.relayed.other rfl rfl
    · have hclaim : Event.aside.claim? = none := rfl
      exact h.perm_claims hclaim rfl

/-- **Any number of steps, in any order,** keep it. -/
theorem run (hrun : Run (.start s w) es f) : InOrder s w es f := by
  induction hrun with
  | nil => exact start s w
  | snoc _ hstep ih => exact ih.step hstep

/-- Once nothing is outstanding, what was delivered last is what the tally has reported. -/
theorem lastDelivered_eq (h : InOrder s w es f) (hnone : f.outstanding = []) :
    lastDelivered es = f.tracker.tally.lastReported := by
  have hperm := h.outstanding
  rw [hnone, List.append_nil] at hperm
  rw [h.relayed.last]
  apply Nat.le_antisymm
  · rcases h.relayed.emitted with hzero | hmem
    · rw [hzero]
      exact Nat.zero_le _
    · exact h.tallied.latest _ (hperm.mem_iff.1 hmem)
  · rcases h.tallied.reported with hzero | hmem
    · rw [hzero]
      exact Nat.zero_le _
    · exact h.relayed.overtaken _ (hperm.mem_iff.2 hmem)

end InOrder

/-- **Reports never go backwards and none is lost.** However counted calls, taken pending counts and
emissions follow one another, each claimed count being emitted once: no count is claimed twice; what
is delivered increases, and is what the listener hears; the tally has reported at most what was
processed, and counts or leaves out every call; with nothing outstanding the last delivered count is
the reported one, and all that was processed, if the pending count was taken after the last call. -/
theorem reports_never_go_backwards {s : Settings} {w : World} {es : List Event} {f : Flight}
    (h : Run (.start s w) es f) :
    (claimed es).Nodup ∧ (delivered es).Pairwise (· < ·) ∧
    (∀ url, s.url = some url →
      f.world.reports = ((delivered es).map (Report.mk url)).reverse ++ w.reports) ∧
    f.tracker.tally.lastReported ≤ f.tracker.tally.processed ∧
    f.tracker.tally.skipped + f.tracker.tally.processed = es.countP (·.isCounted) ∧
    f.tracker.tally.skipped ≤ s.skipFirst ∧
    (claimed es = [] → f.tracker.tally.lastReported = 0) ∧
    (f.outstanding = [] → lastDelivered es = f.tracker.tally.lastReported) ∧
    (f.outstanding = [] → Flushed es → lastDelivered es = f.tracker.tally.processed) := by
  have horder := InOrder.run h
  have htallied := horder.tallied
  refine ⟨?_, horder.relayed.increasing, horder.relayed.heard, htallied.bounded, htallied.counted,
    htallied.skipped, ?_, horder.lastDelivered_eq, ?_⟩
  · exact htallied.increasing.imp fun hlt => Nat.ne_of_lt hlt
  · intro hnone
    rcases htallied.reported with hzero | hmem
    · exact hzero
    · rw [hnone] at hmem
      simp at hmem
  · intro hnone hflushed
    rw [horder.lastDelivered_eq hnone]
    exact htallied.flushed hflushed

/-- After a call that is left out, the count of two is claimed and then that of three, which is
delivered first: the smaller is dropped, and the listener hears of the larger only. -/
theorem reports_overtaken :
    let s : Settings := ⟨some "u", 2, none, 1, none⟩
    let w : World := .initial (fun _ => .ok ⟨200, [], []⟩) fun _ => true
    let es : List Event := [.counted none, .counted none, .counted (some 2), .counted none,
      .pending (some 3), .emitted 3 true, .emitted 2 false]
    ∃ f, Run (.start s w) es f ∧ f.world.reports = [⟨"u", 3⟩] ∧
      lastDelivered es = f.tracker.tally.processed := by
  intro s w es
  have hstart : Run (.start s w) [] ⟨⟨s, ⟨0, 0, 0⟩, 0, none⟩, [], w⟩ := .nil
  have hskipped : Run (.start s w) (es.take 1) ⟨⟨s, ⟨0, 0, 1⟩, 0, none⟩, [], w⟩ :=
    hstart.snoc (.of_record none rfl)
  have hone : Run (.start s w) (es.take 2) ⟨⟨s, ⟨1, 0, 1⟩, 0, none⟩, [], w⟩ :=
    hskipped.snoc (.of_record none (by simp [Tally.record, s]))
  have htwo : Run (.start s w) (es.take 3) ⟨⟨s, ⟨2, 2, 1⟩, 0, none⟩, [2], w⟩ :=
    hone.snoc (.of_record (some 2) (by simp [Tally.record, s]))
  have hthree : Run (.start s w) (es.take 4) ⟨⟨s, ⟨3, 2, 1⟩, 0, none⟩, [2], w⟩ :=
    htwo.snoc (.of_record none (by simp [Tally.record, s]))
  have htaken : Run (.start s w) (es.take 5) ⟨⟨s, ⟨3, 3, 1⟩, 0, none⟩, [3, 2], w⟩ :=
    hthree.snoc .pending
  have hnew : Run (.start s w) (es.take 6) ⟨⟨s, ⟨3, 3, 1⟩, 3, none⟩, [2], w.report ⟨"u", 3⟩⟩ :=
    htaken.snoc (.emitted 3 (by decide))
  have hrun : Run (.start s w) es ⟨⟨s, ⟨3, 3, 1⟩, 3, none⟩, [], w.report ⟨"u", 3⟩⟩ :=
    hnew.snoc (.emitted 2 (by decide))
  obtain ⟨-, -, hheard, -, -, -, -, -, hlast⟩ := reports_never_go_backwards hrun
  refine ⟨_, hrun, hheard "u" rfl, hlast rfl ?_⟩
  exact ⟨es.take 4, some 3, es.drop 5, rfl, by simp [es, Event.isCounted]⟩

/-! ## What a tracker does -/

/-- Setting the timer again changes nothing else. -/
theorem Tracker.rewind_eq (t : Tracker) (now : Nat) :
    t.rewind now = { t with timer := (t.rewind now).timer } := by
  unfold Tracker.rewind
  split
  · split
    · rfl
    · rfl
  · rfl

/-- Steps in which so many calls are counted lead from one state to another. -/
def Leads (calls : Nat) (f f' : Flight) : Prop :=
  ∃ es, Run f es f' ∧ es.countP (·.isCounted) = calls

section

variable {calls : Nat} {f g : Flight} {t : Tracker} {outstanding : List Nat} {w : World}

theorem Leads.refl (f : Flight) : Leads 0 f f := ⟨[], .nil, rfl⟩

/-- A step more leads further, by a call if it counts one. -/
theorem Leads.step {e : Event} (h : Leads calls f g) {g' : Flight} (hstep : Step g e g') :
    Leads (calls + if e.isCounted then 1 else 0) f g' := by
  obtain ⟨es, hrun, hcalls⟩ := h
  refine ⟨es ++ [e], hrun.snoc hstep, ?_⟩
  rw [countP_concat, hcalls]

/-- A count that is claimed and emitted at once leaves outstanding what was. -/
theorem Leads.emitClaimed {claim : Option Nat}
    (h : Leads calls f ⟨t, claim.toList ++ outstanding, w⟩) :
    Leads calls f ⟨(t.emitClaimed claim w).1, outstanding, (t.emitClaimed claim w).2⟩ := by
  cases claim with
  | none => exact h
  | some n =>
    have hstep := Step.emitted (f := ⟨t, n :: outstanding, w⟩) n List.mem_cons_self
    rw [Flight.emits, List.erase_cons_head] at hstep
    exact h.step hstep

/-- Taking and emitting the pending count is made of steps. -/
theorem Leads.flush (h : Leads calls f ⟨t, outstanding, w⟩) :
    Leads calls f ⟨(t.flush w).1, outstanding, (t.flush w).2⟩ :=
  Leads.emitClaimed (h.step .pending)

/-- Setting or stopping the timer is a step. -/
theorem Leads.timed (h : Leads calls f ⟨t, outstanding, w⟩) (timer : Option Nat) :
    Leads calls f ⟨{ t with timer := timer }, outstanding, w⟩ :=
  h.step (.aside timer w rfl)

variable (t outstanding w)

/-- **A response** counts one call and emits what that claims. -/
theorem leads_onResponse (r : Response) :
    Leads 1 ⟨t, outstanding, w⟩ ⟨(t.onResponse r w).2.1, outstanding, (t.onResponse r w).2.2⟩ := by
  have hcounted := (Leads.refl ⟨t, outstanding, w⟩).step .counted
  have hemitted := Leads.emitClaimed hcounted
  unfold Tracker.onResponse
  cases hclaim : (t.tally.record t.settings).1 with
  | none =>
    rw [hclaim] at hemitted
    simp only [hclaim]
    exact hemitted
  | some n =>
    rw [hclaim] at hemitted
    simp only [hclaim]
    rw [Tracker.rewind_eq]
    exact hemitted.timed _

/-- Starting a tracker counts and emits nothing. -/
theorem leads_onStart :
    Leads 0 ⟨t, outstanding, w⟩ ⟨(t.onStart w).2.1, outstanding, (t.onStart w).2.2⟩ := by
  unfold Tracker.onStart
  split
  · exact (Leads.refl _).timed _
  · exact Leads.refl _

/-- **The timer** takes the pending count and emits it. -/
theorem leads_fire (due : Nat) :
    Leads 0 ⟨t, outstanding, w⟩ ⟨(t.fire due w).1, outstanding, (t.fire due w).2⟩ :=
  ((Leads.refl _).timed _).flush

/-- **Shutting down** takes the pending count and emits it. -/
theorem leads_onShutdown :
    Leads 0 ⟨t, outstanding, w⟩ ⟨(t.onShutdown w).2.1, outstanding, (t.onShutdown w).2.2⟩ :=
  ((Leads.refl _).timed _).flush

end

end EvalProxy.Progress
