/-
# Stages that are no caches

What a stage other than a cache makes of a body depends on its settings only: it may rewrite the
body of a request and strip that of a response. It never stops a response, and it leaves the stores
alone.

Main definitions: `rewriteAll`, `stripAll`, `Alike`.
Main statements: `requestPhase_of_plain`, `responsePhase_of_plain`.
-/
import EvalProxy.Interceptor
import EvalProxy.Proofs.Cache.Calls
import EvalProxy.Proofs.World
import Mathlib.Data.List.Forall2
namespace EvalProxy

open Cache (fingerprint lookup replayed)
open World

/-! ## Files that stages write -/

namespace Stats.Recorder

theorem kept_save (r : Recorder) (t : Files.Tree) (name : String) : t.Kept (r.save t name).1 := by
  have hstate := t.kept_replace r.statePath name (Text.encode r.stats.toJson.pretty)
  unfold save
  dsimp only
  split
  · rename_i t₁ e hreplace
    rw [hreplace] at hstate
    exact hstate
  · rename_i t₁ hreplace
    rw [hreplace] at hstate
    exact hstate.trans (t₁.kept_replace _ _ _)

theorem undisturbed_saveIn (r : Recorder) (w : World) : w.Undisturbed (r.saveIn w).2 :=
  ⟨rfl, rfl, rfl, r.kept_save _ _⟩

/-- A recorder hands a response on as it is. -/
theorem onResponse_spec (r : Recorder) (p : Response) (w : World) :
    ∃ r' w', r.onResponse p w = (.ok p, r', w') ∧ w.Undisturbed w' := by
  unfold onResponse
  split
  · exact ⟨_, _, rfl, .refl w⟩
  -- a recorder writes its files only when they are due
  · refine ⟨_, _, rfl, ?_⟩
    split
    · exact undisturbed_saveIn _ w
    · exact .refl w

end Stats.Recorder

namespace Progress.Tracker

theorem undisturbed_emit (t : Tracker) (count : Nat) (w : World) :
    w.Undisturbed (t.emit count w).2 := by
  unfold emit
  split
  · exact .refl w
  · have hwrite : w.Undisturbed (writeCount t.settings count w) := by
      unfold writeCount
      split
      · exact undisturbed_writeFile w _ _
      · exact .refl w
    refine hwrite.trans ?_
    unfold tellCount
    split
    · exact undisturbed_report _ _
    · exact .refl _

/-- A tracker hands a response on as it is. -/
theorem onResponse_spec (t : Tracker) (p : Response) (w : World) :
    ∃ t' w', t.onResponse p w = (.ok p, t', w') ∧ w.Undisturbed w' := by
  unfold onResponse
  dsimp only
  split
  · exact ⟨_, _, rfl, undisturbed_emit _ _ w⟩
  · exact ⟨_, _, rfl, .refl w⟩

/-- A tracker keeps its settings. -/
theorem settings_onResponse (t : Tracker) (p : Response) (w : World) :
    (t.onResponse p w).2.1.settings = t.settings := by
  have hemit (t : Tracker) (count : Nat) : (t.emit count w).1.settings = t.settings := by
    unfold emit
    split
    · rfl
    · rfl
  have hrewind (t : Tracker) (now : Nat) : (t.rewind now).settings = t.settings := by
    unfold rewind
    split
    · split
      · rfl
      · rfl
    · rfl
  unfold onResponse
  dsimp only
  split
  · rw [hrewind, hemit]
  · rfl

end Progress.Tracker

theorem CallLog.Logger.untouched_write (l : Logger) (line : LogLine) (w : World) :
    w.Untouched (l.write line w).2 := by
  unfold write
  split
  · exact .refl w
  · exact ⟨rfl, rfl, rfl, rfl⟩

/-- A body with the reasoning stripped from it. -/
def Reasoning.stripBytes (marks : Settings) (body : Bytes) : Bytes :=
  match (Json.parseText body).toOption.bind (stripBody? marks) with
  | some v => Text.encode v.compact
  | none => body

/-- Reasoning is stripped from the body of a response, and the rest is left as it is. -/
theorem Reasoning.onResponse_eq (marks : Settings) (p : Response) :
    onResponse marks p = { p with body := stripBytes marks p.body } := by
  have hjson : p.json? = (Json.parseText p.body).toOption := rfl
  rw [onResponse, stripBytes, hjson]
  cases (Json.parseText p.body).toOption.bind (stripBody? marks) with
  | none => rfl
  | some v => rfl

/-! ## Single stages -/

namespace Interceptor

/-- Whether a stage is a cache. -/
def isCaching : Interceptor → Bool
  | caching _ => true
  | _ => false

/-- What a stage makes of the body of a request. -/
def rewrite (i : Interceptor) (body : Json) : Except Failure Json :=
  match i with
  | payload s => s.apply body
  | systemMessage s => .ok (s.apply body)
  | _ => .ok body

/-- What a stage makes of the body of a response. -/
def strip (i : Interceptor) (body : Bytes) : Bytes :=
  match i with
  | reasoning s => Reasoning.stripBytes s body
  | _ => body

/-- Two stages make the same of bodies. -/
structure Alike (i j : Interceptor) : Prop where
  isCaching : j.isCaching = i.isCaching
  rewrite : j.rewrite = i.rewrite
  strip : j.strip = i.strip

theorem Alike.refl (i : Interceptor) : i.Alike i := ⟨rfl, rfl, rfl⟩

theorem Alike.trans {i j k : Interceptor} (h : i.Alike j) (h' : j.Alike k) : i.Alike k :=
  ⟨h'.isCaching.trans h.isCaching, h'.rewrite.trans h.rewrite, h'.strip.trans h.strip⟩

/-- **A stage that is no cache rewrites a request or refuses it.** -/
theorem onRequest_of_plain {i : Interceptor} (hplain : i.isCaching = false) (r : Request)
    (w : World) :
    ∃ i' w', i.onRequest r w =
        ((i.rewrite r.body).map fun b => .proceed { r with body := b }, i', w') ∧
      i.Alike i' ∧ w.Untouched w' := by
  cases i with
  | caching c => simp [isCaching] at hplain
  | requestLog l =>
    exact ⟨_, _, rfl, ⟨rfl, rfl, rfl⟩, l.untouched_write _ w⟩
  | payload s =>
    refine ⟨_, _, ?_, .refl _, .refl w⟩
    rw [onRequest, rewrite]
    cases s.apply r.body <;> rfl
  | systemMessage s => exact ⟨_, _, rfl, .refl _, .refl w⟩
  | stats s => exact ⟨_, _, rfl, .refl _, .refl w⟩
  | progress t => exact ⟨_, _, rfl, .refl _, .refl w⟩
  | reasoning s => exact ⟨_, _, rfl, .refl _, .refl w⟩
  | responseLog l => exact ⟨_, _, rfl, .refl _, .refl w⟩

/-- **A stage that is no cache strips a response.** -/
theorem onResponse_of_plain {i : Interceptor} (hplain : i.isCaching = false) (p : Response)
    (w : World) :
    ∃ i' w', i.onResponse p w = (.ok { p with body := i.strip p.body }, i', w') ∧
      i.Alike i' ∧ w.Undisturbed w' := by
  cases i with
  | caching c => simp [isCaching] at hplain
  | stats s =>
    obtain ⟨s', w', htaken, hw⟩ := s.onResponse_spec p w
    refine ⟨.stats s', w', ?_, ⟨rfl, rfl, rfl⟩, hw⟩
    rw [onResponse, htaken]
    rfl
  | progress t =>
    obtain ⟨t', w', htaken, hw⟩ := t.onResponse_spec p w
    refine ⟨.progress t', w', ?_, ⟨rfl, rfl, rfl⟩, hw⟩
    rw [onResponse, htaken]
    rfl
  | responseLog l =>
    have hw := l.untouched_write (CallLog.Logger.responseLine l.settings p) w
    exact ⟨_, _, rfl, ⟨rfl, rfl, rfl⟩, hw.undisturbed⟩
  | reasoning s =>
    refine ⟨_, _, ?_, .refl _, .refl w⟩
    rw [onResponse, Reasoning.onResponse_eq]
    rfl
  | payload s => exact ⟨_, _, rfl, .refl _, .refl w⟩
  | systemMessage s => exact ⟨_, _, rfl, .refl _, .refl w⟩
  | requestLog l => exact ⟨_, _, rfl, .refl _, .refl w⟩

/-- Every stage takes a response without fail and changes its body at most. -/
theorem outcome_onResponse (i : Interceptor) (p : Response) (w : World) :
    (i.onResponse p w).1 = .ok { p with body := i.strip p.body } := by
  cases hcaching : i.isCaching with
  | true =>
    cases i with
    | caching c => rfl
    | _ => simp [isCaching] at hcaching
  | false =>
    obtain ⟨i', w', htaken, -, -⟩ := onResponse_of_plain hcaching p w
    rw [htaken]

/-- **Only caches answer requests**, and with what they have stored. -/
theorem caching_of_answered {i : Interceptor} {r : Request} {w : World} {p : Response}
    (h : (i.onRequest r w).1 = .ok (.answer p)) :
    ∃ c reply, i = caching c ∧ c.settings.reuse = true ∧
      lookup (w.store c.place) (fingerprint r.body) = .ok (some reply) ∧ p = replayed r reply := by
  cases hcaching : i.isCaching with
  | true =>
    cases i with
    | caching c =>
      have h : ((c.cache w).onRequest r).1 = .ok (.answer p) := h
      rcases Cache.onRequest_cases (c.cache w) r with
        ⟨-, htaken⟩ | ⟨hreuse, reply, hfound, htaken⟩ | ⟨-, -, -, d, htaken⟩ | ⟨-, -, -, htaken⟩
      · simp [htaken] at h
      · obtain rfl : replayed r reply = p := by simpa [htaken] using h
        exact ⟨c, reply, rfl, hreuse, hfound, rfl⟩
      · simp [htaken] at h
      · simp [htaken] at h
    | _ => simp [isCaching] at hcaching
  | false =>
    obtain ⟨i', w', htaken, -, -⟩ := onRequest_of_plain hcaching r w
    rw [htaken] at h
    cases hbody : i.rewrite r.body with
    | ok b => simp [hbody, Except.map] at h
    | error e => simp [hbody, Except.map] at h

/-! ## Settings -/

/-- A stage as it was built: with its settings, and before it counted anything. -/
def built : Interceptor → Interceptor
  | caching c => caching (.onPlace c.settings c.place)
  | stats r => stats { r with stats := .empty }
  | progress t => progress (.fresh t.settings)
  | requestLog l => requestLog (.fresh l.settings)
  | responseLog l => responseLog (.fresh l.settings)
  | i => i

/-- What was built as a cache is one with the same settings and place. -/
theorem built_eq_caching {i : Interceptor} {c : Caching} (h : i.built = (caching c).built) :
    ∃ c', i = caching c' ∧ c'.settings = c.settings ∧ c'.place = c.place := by
  cases i with
  | caching c' =>
    obtain ⟨hsettings, hplace, -⟩ := by simpa [built, Caching.onPlace] using h
    exact ⟨c', rfl, hsettings, hplace⟩
  | _ => simp [built] at h

theorem built_eq_progress {i : Interceptor} {t : Progress.Tracker}
    (h : i.built = (progress t).built) : ∃ t', i = progress t' ∧ t'.settings = t.settings := by
  cases i with
  | progress t' => exact ⟨t', rfl, by simpa [built, Progress.Tracker.fresh] using h⟩
  | _ => simp [built] at h

theorem built_eq_stats {i : Interceptor} {s : Stats.Recorder} (h : i.built = (stats s).built) :
    ∃ s', i = stats s' := by
  cases i with
  | stats s' => exact ⟨s', rfl⟩
  | _ => simp [built] at h

/-- **No request changes what a stage is set to.** -/
theorem built_onRequest (i : Interceptor) (r : Request) (w : World) :
    (i.onRequest r w).2.1.built = i.built := by
  cases i with
  | caching c => rfl
  | requestLog l =>
    show built (requestLog (l.write _ w).1) = _
    unfold CallLog.Logger.write
    split
    · rfl
    · rfl
  | payload s =>
    rw [onRequest]
    cases s.apply r.body <;> rfl
  | systemMessage s => rfl
  | stats s => rfl
  | progress t => rfl
  | reasoning s => rfl
  | responseLog l => rfl

/-- **No response changes what a stage is set to.** -/
theorem built_onResponse (i : Interceptor) (p : Response) (w : World) :
    (i.onResponse p w).2.1.built = i.built := by
  cases i with
  | caching c => rfl
  | stats s =>
    show built (stats (s.onResponse p w).2.1) = _
    unfold Stats.Recorder.onResponse
    split
    · rfl
    · rfl
  | progress t =>
    show built (progress (t.onResponse p w).2.1) = _
    rw [built, built, Progress.Tracker.settings_onResponse]
  | responseLog l =>
    show built (responseLog (l.write _ w).1) = _
    unfold CallLog.Logger.write
    split
    · rfl
    · rfl
  | reasoning s => rfl
  | payload s => rfl
  | systemMessage s => rfl
  | requestLog l => rfl

/-! ## Many stages -/

/-- What stages make of the body of a request, one after the other. -/
def rewriteAll : List Interceptor → Json → Except Failure Json
  | [], body => .ok body
  | i :: rest, body =>
    match i.rewrite body with
    | .ok body => rewriteAll rest body
    | .error e => .error e

/-- What stages make of the body of a response, one after the other. -/
def stripAll (stages : List Interceptor) (body : Bytes) : Bytes :=
  stages.foldl (fun b i => i.strip b) body

/-- Only reasoning stages strip anything. -/
theorem stripAll_of_no_reasoning {xs : List Interceptor}
    (h : ∀ i ∈ xs, ∀ marks, i ≠ .reasoning marks)
    (body : Bytes) : stripAll xs body = body := by
  induction xs with
  | nil => rfl
  | cons i rest ih =>
    obtain ⟨hi, hrest⟩ := List.forall_mem_cons.1 h
    have hstrip : i.strip body = body := by
      cases i with
      | reasoning marks => exact absurd rfl (hi marks)
      | _ => rfl
    rw [stripAll, List.foldl_cons, hstrip]
    exact ih hrest

/-- Stages that are alike make the same of every request. -/
theorem rewriteAll_of_alike {xs ys : List Interceptor} (h : List.Forall₂ Alike xs ys) :
    rewriteAll ys = rewriteAll xs := by
  induction h with
  | nil => rfl
  | cons halike _ ih =>
    funext body
    rw [rewriteAll, rewriteAll, halike.rewrite, ih]

/-- Stages that are alike make the same of every response. -/
theorem stripAll_of_alike {xs ys : List Interceptor} (h : List.Forall₂ Alike xs ys) :
    stripAll ys = stripAll xs := by
  funext body
  unfold stripAll
  induction h generalizing body with
  | nil => rfl
  | cons halike _ ih => rw [List.foldl_cons, List.foldl_cons, halike.strip, ih]

theorem plain_of_alike {xs ys : List Interceptor} (h : List.Forall₂ Alike xs ys)
    (hplain : ∀ i ∈ xs, i.isCaching = false) : ∀ i ∈ ys, i.isCaching = false := by
  induction h with
  | nil => exact hplain
  | cons halike _ ih =>
    obtain ⟨hhead, htail⟩ := List.forall_mem_cons.1 hplain
    exact List.forall_mem_cons.2 ⟨halike.isCaching.trans hhead, ih htail⟩

theorem alike_refl (xs : List Interceptor) : List.Forall₂ Alike xs xs :=
  List.forall₂_same.2 fun i _ => .refl i

theorem alike_trans {xs ys zs : List Interceptor} (h : List.Forall₂ Alike xs ys)
    (h' : List.Forall₂ Alike ys zs) : List.Forall₂ Alike xs zs := by
  induction h generalizing zs with
  | nil => exact h'
  | cons halike _ ih =>
    cases h' with
    | cons halike' hrest' => exact .cons (halike.trans halike') (ih hrest')

/-- **A request passes through stages that are no caches**: each rewrites its body, up to the first
that refuses it. -/
theorem requestPhase_of_plain {xs : List Interceptor} (hplain : ∀ i ∈ xs, i.isCaching = false)
    (r : Request) (w : World) :
    ∃ xs' w', Chain.requestPhase xs r w =
        ((rewriteAll xs r.body).map fun b => .proceed { r with body := b }, xs', w') ∧
      List.Forall₂ Alike xs xs' ∧ w.Untouched w' := by
  induction xs generalizing r w with
  | nil => exact ⟨[], w, rfl, .nil, .refl w⟩
  | cons i rest ih =>
    obtain ⟨hi, hrest⟩ := List.forall_mem_cons.1 hplain
    obtain ⟨i', w₁, htaken, halike, hw⟩ := onRequest_of_plain hi r w
    have htaken : Stage.onRequest i r w = _ := htaken
    rw [Chain.requestPhase, htaken, rewriteAll]
    cases hbody : i.rewrite r.body with
    -- the stages after a refusal are not reached and stay as they are
    | error e => exact ⟨i' :: rest, w₁, rfl, .cons halike (alike_refl rest), hw⟩
    | ok b =>
      obtain ⟨rest', w₂, hphase, hrest', hw'⟩ := ih hrest { r with body := b } w₁
      refine ⟨i' :: rest', w₂, ?_, .cons halike hrest', hw.trans hw'⟩
      simp only [Except.map]
      rw [hphase]
      rfl

/-- **A response passes through stages that are no caches**: each strips its body. -/
theorem responsePhase_of_plain {xs : List Interceptor} (hplain : ∀ i ∈ xs, i.isCaching = false)
    (p : Response) (w : World) :
    ∃ xs' w', Chain.responsePhase xs p w = ({ p with body := stripAll xs p.body }, xs', w') ∧
      List.Forall₂ Alike xs xs' ∧ w.Undisturbed w' := by
  induction xs generalizing p w with
  | nil => exact ⟨[], w, rfl, .nil, .refl w⟩
  | cons i rest ih =>
    obtain ⟨hi, hrest⟩ := List.forall_mem_cons.1 hplain
    obtain ⟨i', w₁, htaken, halike, hw⟩ := onResponse_of_plain hi p w
    have htaken : Stage.onResponse i p w = _ := htaken
    obtain ⟨rest', w₂, hphase, hrest', hw'⟩ := ih hrest { p with body := i.strip p.body } w₁
    refine ⟨i' :: rest', w₂, ?_, .cons halike hrest', hw.trans hw'⟩
    rw [Chain.responsePhase, htaken]
    simp only [hphase]
    rfl

end Interceptor

end EvalProxy
