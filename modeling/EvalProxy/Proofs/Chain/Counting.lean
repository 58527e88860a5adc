/-
# What stages count

Caches count hits and misses of requests, statistics and trackers count responses, and no stage by
itself counts a call or asks the model.

Main definitions: `Quiet`, `Interceptor.totalHits`.
Main statements: `Cache.counted_onRequest`, `Interceptor.quiet_onRequest`,
`Interceptor.quiet_onResponse`.
-/
import EvalProxy.Proofs.Interceptor
import EvalProxy.Proofs.Metrics
import Mathlib.Algebra.Ring.Nat
namespace EvalProxy

open Metrics (SameCalls)

/-- Whether a request is answered. -/
def isAnswer : Except Failure Verdict → Bool
  | .ok (.answer _) => true
  | _ => false

/-! ## Single stages -/

namespace Cache

/-- Nothing but the limits of saves and the events differs, and no call is counted. -/
structure Uncounted (c c' : Cache) : Prop where
  hits : c'.counters.hits = c.counters.hits
  misses : c'.counters.misses = c.counters.misses
  calls : SameCalls c.events c'.events

theorem uncounted_noted (c : Cache) (r : Request) : c.Uncounted (c.noted r) := by
  unfold noted
  split
  · unfold saveRequest
    split
    · exact ⟨rfl, rfl, Metrics.sameCalls_cons (by simp) _⟩
    · exact ⟨rfl, rfl, .refl _⟩
  · exact ⟨rfl, rfl, .refl _⟩

/-- **A request** counts a hit if it is answered and otherwise a miss, if responses are reused. -/
theorem counted_onRequest (c : Cache) (r : Request) :
    let after := (c.onRequest r).2.counters
    SameCalls c.events (c.onRequest r).2.events ∧
      after.hits = c.counters.hits + (if isAnswer (c.onRequest r).1 then 1 else 0) ∧
      (c.settings.reuse = true →
        after.hits + after.misses = c.counters.hits + c.counters.misses + 1) ∧
      (c.settings.reuse = false →
        after.hits = c.counters.hits ∧ after.misses = c.counters.misses) := by
  intro after
  have hnoted := uncounted_noted c r
  have hcalls (e : Metrics.Event)
      (he : ∀ status cached seconds, e ≠ .request status cached seconds) :
      SameCalls c.events (e :: (c.noted r).events) :=
    hnoted.calls.trans (Metrics.sameCalls_cons he _)
  rcases onRequest_cases c r with
    ⟨hreuse, h⟩ | ⟨hreuse, reply, -, h⟩ | ⟨hreuse, -, -, d, h⟩ | ⟨hreuse, -, -, h⟩
  · simp only [after, h, hreuse, isAnswer]
    exact ⟨hnoted.calls, hnoted.hits, by simp, fun _ => ⟨hnoted.hits, hnoted.misses⟩⟩
  · simp only [after, h, hreuse, isAnswer, hit, note, hnoted.hits, hnoted.misses]
    refine ⟨hcalls _ (by simp), by simp, ?_, by simp⟩
    omega
  · simp only [after, h, hreuse, isAnswer, missed, note, hnoted.hits, hnoted.misses]
    refine ⟨hcalls _ (by simp), by simp, ?_, by simp⟩
    omega
  · simp only [after, h, hreuse, isAnswer, missed, note, hnoted.hits, hnoted.misses]
    refine ⟨hcalls _ (by simp), by simp, ?_, by simp⟩
    omega

/-- A response counts neither hits nor misses. -/
theorem uncounted_onResponse (c : Cache) (p : Response) : c.Uncounted (c.onResponse p) := by
  unfold onResponse
  split
  · exact ⟨rfl, rfl, .refl _⟩
  split
  · unfold saveResponse
    split
    · exact ⟨rfl, rfl, Metrics.sameCalls_cons (by simp) _⟩
    · dsimp only
      split
      · exact ⟨rfl, rfl, Metrics.sameCalls_cons (by simp) _⟩
      · exact ⟨rfl, rfl, .refl _⟩
  · exact ⟨rfl, rfl, .refl _⟩

end Cache

/-- Nothing is asked, and no call is counted. -/
structure Quiet (w w' : World) : Prop where
  model : w'.model = w.model
  asked : w'.asked = w.asked
  calls : SameCalls w.events w'.events

namespace Quiet

variable {w w₁ w₂ w₃ : World}

theorem refl (w : World) : Quiet w w := ⟨rfl, rfl, .refl _⟩

theorem trans (h : Quiet w₁ w₂) (h' : Quiet w₂ w₃) : Quiet w₁ w₃ :=
  ⟨h'.model.trans h.model, h'.asked.trans h.asked, h.calls.trans h'.calls⟩

/-- A cache settles quietly if it counted no call. -/
theorem of_settle (c : Caching) (w : World) {after : Cache} (h : SameCalls w.events after.events) :
    Quiet w (c.settle w after).2 := by
  obtain ⟨hmodel, hasked⟩ := w.questions_withStore c.place after.store
  exact ⟨hmodel, hasked, h⟩

theorem of_write (l : CallLog.Logger) (line : LogLine) (w : World) :
    Quiet w (l.write line w).2 := by
  unfold CallLog.Logger.write
  split
  · exact refl w
  · exact ⟨rfl, rfl, .refl _⟩

theorem of_recorder (s : Stats.Recorder) (p : Response) (w : World) :
    Quiet w (s.onResponse p w).2.2 := by
  unfold Stats.Recorder.onResponse
  split
  · exact refl w
  · dsimp only
    split
    · exact ⟨rfl, rfl, .refl _⟩
    · exact refl w

theorem of_tracker (t : Progress.Tracker) (p : Response) (w : World) :
    Quiet w (t.onResponse p w).2.2 := by
  have hwrite (count : Nat) : Quiet w (Progress.Tracker.writeCount t.settings count w) := by
    unfold Progress.Tracker.writeCount World.writeFile
    split
    · split
      · exact ⟨rfl, rfl, .refl _⟩
      · exact ⟨rfl, rfl, .refl _⟩
    · exact refl w
  have htell (count : Nat) (w : World) :
      Quiet w (Progress.Tracker.tellCount t.settings count w) := by
    unfold Progress.Tracker.tellCount
    split
    · exact ⟨rfl, rfl, Metrics.sameCalls_cons (by simp) _⟩
    · exact refl w
  unfold Progress.Tracker.onResponse Progress.Tracker.emit
  dsimp only
  split
  · dsimp only
    split
    · exact refl w
    · exact (hwrite _).trans (htell _ _)
  · exact refl w

end Quiet

namespace Interceptor

/-- No stage asks the model or counts a call when it sees a request. -/
theorem quiet_onRequest (i : Interceptor) (r : Request) (w : World) :
    Quiet w (i.onRequest r w).2.2 := by
  cases i with
  | caching c => exact .of_settle c w (Cache.counted_onRequest (c.cache w) r).1
  | requestLog l => exact .of_write l _ w
  | payload s =>
    rw [onRequest]
    cases s.apply r.body <;> exact .refl w
  | systemMessage s => exact .refl w
  | stats s => exact .refl w
  | progress t => exact .refl w
  | reasoning s => exact .refl w
  | responseLog l => exact .refl w

/-- No stage asks the model or counts a call when it sees a response. -/
theorem quiet_onResponse (i : Interceptor) (p : Response) (w : World) :
    Quiet w (i.onResponse p w).2.2 := by
  cases i with
  | caching c => exact .of_settle c w (Cache.uncounted_onResponse (c.cache w) p).calls
  | stats s => exact .of_recorder s p w
  | progress t => exact .of_tracker t p w
  | responseLog l => exact .of_write l _ w
  | reasoning s => exact .refl w
  | payload s => exact .refl w
  | systemMessage s => exact .refl w
  | requestLog l => exact .refl w

/-- The hits that a stage counted, if it is a cache. -/
def hits : Interceptor → Nat
  | caching c => c.counters.hits
  | _ => 0

/-- The hits of all caches among some stages. -/
def totalHits (stages : List Interceptor) : Nat := (stages.map hits).sum

/-- The misses that a stage counted, if it is a cache. -/
def misses : Interceptor → Nat
  | caching c => c.counters.misses
  | _ => 0

/-- A stage counts a hit for a request exactly if it answers it. -/
theorem hits_onRequest (i : Interceptor) (r : Request) (w : World) :
    (i.onRequest r w).2.1.hits = i.hits + if isAnswer (i.onRequest r w).1 then 1 else 0 := by
  cases hcaching : i.isCaching with
  | true =>
    cases i with
    | caching c => exact (Cache.counted_onRequest (c.cache w) r).2.1
    | _ => simp [isCaching] at hcaching
  | false =>
    obtain ⟨i', w', htaken, halike, -⟩ := onRequest_of_plain hcaching r w
    have hplain {j : Interceptor} (hj : j.isCaching = false) : j.hits = 0 := by
      cases j with
      | caching c => simp [isCaching] at hj
      | _ => rfl
    have hanswer :
        isAnswer ((i.rewrite r.body).map fun b => .proceed { r with body := b }) = false := by
      cases i.rewrite r.body <;> rfl
    rw [htaken, hplain hcaching, hplain (halike.isCaching.trans hcaching), hanswer]
    rfl

/-- A stage counts no hit for a response. -/
theorem hits_onResponse (i : Interceptor) (p : Response) (w : World) :
    (i.onResponse p w).2.1.hits = i.hits := by
  cases i with
  | caching c => exact (Cache.uncounted_onResponse (c.cache w) p).hits
  | _ => rfl

/-! ## Statistics and trackers -/

/-- The responses that a stage counted, if it keeps statistics. -/
def responses : Interceptor → Nat
  | stats s => s.stats.count
  | _ => 0

/-- The responses that a stage counted or left out, if it is a tracker. -/
def tracked : Interceptor → Nat
  | progress t => t.tally.processed + t.tally.skipped
  | _ => 0

/-- Statistics count a response that is from no cache. -/
theorem responses_onResponse {s : Stats.Recorder} (p : Response) (w : World) :
    ((stats s).onResponse p w).2.1.responses =
      if p.context.fromCache then s.stats.count else Stats.bump s.stats.count := by
  show responses (stats (s.onResponse p w).2.1) = _
  unfold Stats.Recorder.onResponse
  split
  · rfl
  · show (s.record p w.latency w.stamp).stats.count = _
    unfold Stats.Recorder.record Stats.Aggregate.record
    cases Usage.ofBody? p.body <;> rfl

/-- Trackers count or leave out every response. -/
theorem tracked_onResponse {t : Progress.Tracker} (p : Response) (w : World) :
    ((progress t).onResponse p w).2.1.tracked = (progress t).tracked + 1 := by
  have hrecord : (t.tally.record t.settings).2.processed + (t.tally.record t.settings).2.skipped
      = t.tally.processed + t.tally.skipped + 1 := by
    unfold Progress.Tally.record
    split
    · dsimp only
      omega
    · dsimp only
      split
      · dsimp only
        omega
      · dsimp only
        omega
  have hemit (t : Progress.Tracker) (count : Nat) (w : World) :
      (t.emit count w).1.tally = t.tally := by
    unfold Progress.Tracker.emit
    split <;> rfl
  have hrewind (t : Progress.Tracker) (now : Nat) : (t.rewind now).tally = t.tally := by
    unfold Progress.Tracker.rewind
    split
    · split <;> rfl
    · rfl
  show tracked (progress (t.onResponse p w).2.1) = _
  unfold Progress.Tracker.onResponse
  dsimp only
  split
  · rw [tracked, hrewind, hemit]
    exact hrecord
  · exact hrecord

/-! ## Requests that go on -/

/-- A stage that hands a request on keeps where its response is from. -/
theorem fromCache_of_proceed {i : Interceptor} {r q : Request} {w : World}
    (h : (i.onRequest r w).1 = .ok (.proceed q)) : q.context.fromCache = r.context.fromCache := by
  cases hcaching : i.isCaching with
  | true =>
    cases i with
    | caching c =>
      have h : ((c.cache w).onRequest r).1 = .ok (.proceed q) := h
      rcases Cache.onRequest_cases (c.cache w) r with
        ⟨-, htaken⟩ | ⟨-, reply, -, htaken⟩ | ⟨-, -, -, d, htaken⟩ | ⟨-, -, -, htaken⟩
      · obtain rfl : Cache.marked r = q := by simpa [htaken] using h
        rfl
      · simp [htaken] at h
      · simp [htaken] at h
      · obtain rfl : Cache.marked r = q := by simpa [htaken] using h
        rfl
    | _ => simp [isCaching] at hcaching
  | false =>
    obtain ⟨i', w', htaken, -, -⟩ := onRequest_of_plain hcaching r w
    rw [htaken] at h
    cases hbody : i.rewrite r.body with
    | ok b =>
      obtain rfl : { r with body := b } = q := by simpa [hbody, Except.map] using h
      rfl
    | error e => simp [hbody, Except.map] at h

end Interceptor

end EvalProxy
