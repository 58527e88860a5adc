/-
# What the counters of a chain add up to

Statistics count the calls that the model answered, trackers those that came back, caches those that
they answered, and the metrics each of them once. So the counters of a chain agree with each other,
in whatever order its stages stand and however often.

Main definitions: `Turn.isReplied`, `Turn.reaches`, `Ending`.
Main statements: `Ending.of_fresh`, `counters_account`.
-/
import EvalProxy.Proofs.Chain.Counting
import EvalProxy.Proofs.Chain.Joined
import EvalProxy.Proofs.Chain.Run
namespace EvalProxy

open Chain (Forwarded Turn finish turns process requestPhase responsePhase served)
open Interceptor (totalHits)
open Metrics (SameCalls callsWhere flagText)

/-! ## What is seen of a call -/

/-- Whether labels are those of a call that was answered from a cache. -/
def underCache (labels : List Metrics.Label) : Bool := labels.contains ("cached", "true")

namespace Chain.Turn

variable {ι : Type} [Stage ι] (m : Turn ι)

/-- Whether the call gives a response. -/
def isOk : Bool :=
  match m.call.1 with
  | .ok _ => true
  | .error _ => false

/-- Whether the call gives a response from a cache. -/
def isServed : Bool :=
  match m.call.1 with
  | .ok p => p.context.fromCache
  | .error _ => false

/-- Whether the model is asked, going by what it was asked before and after, and answers. -/
def isReplied : Bool :=
  m.call.2.2.asked.length != m.world.asked.length &&
    match m.world.model m.call.2.2.asked with
    | .ok _ => true
    | .error _ => false

/-- Whether the request reaches the stage that has so many stages before it. -/
def reaches (before : Nat) : Bool :=
  match (requestPhase (m.stages.take before) m.request m.world).1 with
  | .ok (.proceed _) => true
  | _ => false

/-- What comes of the request, with the stages and the world that it leaves. -/
def phase : Except Failure Verdict × List ι × World := requestPhase m.stages m.request m.world

end Chain.Turn

/-! ## Calls -/

namespace Chain

section

variable {ι : Type} [Stage ι]

theorem length_requestPhase (stages : List ι) (r : Request) (w : World) :
    (requestPhase stages r w).2.1.length = stages.length := by
  have hkeeps := requestPhase_keeps (R := fun _ _ => True) (S := fun _ _ => True)
    stages (fun _ => trivial) (fun _ => trivial) (fun _ _ _ _ _ => trivial)
    (fun _ _ _ _ => ⟨trivial, trivial⟩) r w
  exact hkeeps.1.length_eq.symm

/-- **A stage takes the request if it is reached**, and otherwise stays as it is. -/
theorem getElem?_phase {m : Turn ι} {j : Nat} {s : ι} (hs : m.stages[j]? = some s) :
    (m.reaches j = true ∧ ∃ q w, m.phase.2.1[j]? = some (Stage.onRequest s q w).2.1) ∨
      (m.reaches j = false ∧ m.phase.2.1[j]? = some s) := by
  obtain ⟨hj, rfl⟩ := List.getElem?_eq_some_iff.1 hs
  have hsplit : m.stages.take j ++ m.stages[j] :: m.stages.drop (j + 1) = m.stages := by
    rw [List.getElem_cons_drop, List.take_append_drop]
  have hphase : m.phase = requestPhase (m.stages.take j ++ m.stages[j] :: m.stages.drop (j + 1))
      m.request m.world := by
    rw [hsplit]
    rfl
  have hlength := length_requestPhase (m.stages.take j) m.request m.world
  rw [List.length_take, Nat.min_eq_left (Nat.le_of_lt hj)] at hlength
  rw [hphase, Turn.reaches]
  rcases hbefore : requestPhase (m.stages.take j) m.request m.world with ⟨outcome, before, w⟩
  rw [hbefore] at hlength
  have hlength : before.length = j := hlength
  -- the stages before it come first in the list that is left
  rcases outcome with e | q | p
  · refine Or.inr ⟨rfl, ?_⟩
    rw [requestPhase_append_of_stop hbefore (by simp),
      List.getElem?_append_right (by omega), hlength]
    simp
  · refine Or.inl ⟨rfl, q, w, ?_⟩
    rw [requestPhase_append_of_proceed hbefore, List.getElem?_append_right (by omega), hlength,
      Nat.sub_self, requestPhase]
    rcases Stage.onRequest m.stages[j] q w with ⟨outcome, s', w'⟩
    rcases outcome with e | q' | p <;> rfl
  · refine Or.inr ⟨rfl, ?_⟩
    rw [requestPhase_append_of_stop hbefore (by simp),
      List.getElem?_append_right (by omega), hlength]
    simp

end

end Chain

namespace Interceptor

/-- A stage takes a response that is from a cache or not. -/
def Takes (cached : Bool) (i i' : Interceptor) : Prop :=
  ∃ (p : Response) (w : World), p.context.fromCache = cached ∧ i' = (i.onResponse p w).2.1

/-- The request phase asks the model nothing and counts no call. -/
theorem quiet_requestPhase (stages : List Interceptor) (r : Request) (w : World) :
    Quiet w (requestPhase stages r w).2.2 :=
  (Chain.requestPhase_keeps (R := fun _ _ => True) stages (fun _ => trivial) .refl
    (fun _ _ _ => .trans) (fun i _ r w => ⟨trivial, i.quiet_onRequest r w⟩) r w).2

/-- **A request that is answered** is a hit of one cache. -/
theorem totalHits_requestPhase (stages : List Interceptor) (r : Request) (w : World) :
    totalHits (requestPhase stages r w).2.1
      = totalHits stages + if isAnswer (requestPhase stages r w).1 then 1 else 0 := by
  induction stages generalizing r w with
  | nil => rfl
  | cons i rest ih =>
    have hhits := i.hits_onRequest r w
    rw [requestPhase]
    rcases htaken : Stage.onRequest i r w with ⟨outcome, i', w₁⟩
    have htaken : i.onRequest r w = (outcome, i', w₁) := htaken
    rw [htaken] at hhits
    dsimp only at hhits
    have htotal (xs : List Interceptor) (j : Interceptor) :
        totalHits (j :: xs) = j.hits + totalHits xs := rfl
    rcases outcome with e | r₁ | p
    · dsimp only
      rw [htotal, htotal, hhits]
      omega
    · have hgoes : i'.hits = i.hits := hhits
      dsimp only
      rw [htotal, htotal, hgoes, ih r₁ w₁, Nat.add_assoc]
    · dsimp only
      rw [htotal, htotal, hhits]
      omega

/-- **A response passes all stages** and is counted as one call. -/
theorem finish_spec (stages : List Interceptor) (p : Response) (w : World) :
    ∃ p', (finish stages p w).1 = .ok p' ∧ p'.context = p.context ∧
      List.Forall₂ (Takes p.context.fromCache) stages (finish stages p w).2.1 ∧
      (finish stages p w).2.2.asked = w.asked ∧
      ∀ f, callsWhere (finish stages p w).2.2.events f = callsWhere w.events f +
        if f [("cached", flagText p'.context.fromCache), ("status_code", toString p'.status)]
        then 1 else 0 := by
  have hstep : ∀ i ∈ stages, ∀ p₁ w₁, p₁.context = p.context →
      Takes p.context.fromCache i (Stage.onResponse i p₁ w₁).2.1 ∧
        Quiet w₁ (Stage.onResponse i p₁ w₁).2.2 ∧
          ∀ p₂, (Stage.onResponse i p₁ w₁).1 = .ok p₂ → p₂.context = p.context := by
    intro i _ p₁ w₁ hp₁
    refine ⟨⟨p₁, w₁, by rw [hp₁], rfl⟩, i.quiet_onResponse p₁ w₁, ?_⟩
    intro p₂ hp₂
    obtain rfl := Except.ok.inj ((i.outcome_onResponse p₁ w₁).symm.trans hp₂)
    exact hp₁
  obtain ⟨hcontext, hstages, hw⟩ := Chain.responsePhase_keeps stages .refl (fun _ _ _ => .trans)
    (fun w name => ⟨rfl, rfl, Metrics.sameCalls_cons (by simp) _⟩) hstep rfl w
  refine ⟨_, rfl, hcontext, hstages, hw.asked, ?_⟩
  intro f
  refine (Metrics.callsWhere_request _ _ _ _ f).trans ?_
  rw [hw.calls f]

/-- A request that all stages hand on keeps where its response is from. -/
theorem fromCache_of_forwarded {stages : List Interceptor} {r q : Request} {w w' : World}
    (h : Forwarded stages r w q w') : q.context.fromCache = r.context.fromCache := by
  obtain ⟨stages', h⟩ := h
  induction stages generalizing r w stages' with
  | nil =>
    obtain ⟨rfl, -⟩ : r = q ∧ _ := by simpa [requestPhase] using h
    rfl
  | cons i rest ih =>
    rw [requestPhase] at h
    rcases htaken : Stage.onRequest i r w with ⟨outcome, i', w₁⟩
    rw [htaken] at h
    rcases outcome with e | r₁ | p
    · simp at h
    · dsimp only at h
      rcases hphase : requestPhase rest r₁ w₁ with ⟨outcome, rest', w₂⟩
      rw [hphase] at h
      obtain ⟨rfl, -, rfl⟩ := by simpa using h
      have hgoes : (i.onRequest r w).1 = .ok (.proceed r₁) := congrArg Prod.fst htaken
      exact (ih rest' hphase).trans (fromCache_of_proceed hgoes)
    · simp at h

end Interceptor

/-- How a call ends: with an error after the request phase, or with a response that passed all
stages. -/
inductive Ending (m : Turn Interceptor) : Prop
  | failed (e : Failure) (outcome : m.call.1 = .error e) (noAnswer : isAnswer m.phase.1 = false)
      (notReplied : m.isReplied = false) (stages : m.call.2.1 = m.phase.2.1)
      (calls : SameCalls m.world.events m.call.2.2.events)
  | returned (p : Response) (outcome : m.call.1 = .ok p)
      (answer : isAnswer m.phase.1 = p.context.fromCache)
      (replied : m.isReplied = !p.context.fromCache)
      (stages : List.Forall₂ (Interceptor.Takes p.context.fromCache) m.phase.2.1 m.call.2.1)
      (calls : ∀ f, callsWhere m.call.2.2.events f = callsWhere m.world.events f +
        if f [("cached", flagText p.context.fromCache), ("status_code", toString p.status)]
        then 1 else 0)

namespace Ending

variable {m : Turn Interceptor} {stages : List Interceptor} {w : World} {q : Request}

/-- The world that a request phase leaves is quiet. -/
theorem quiet_of_phase {outcome : Except Failure Verdict}
    (h : requestPhase m.stages m.request m.world = (outcome, stages, w)) :
    Quiet m.world w := by
  have hquiet := Interceptor.quiet_requestPhase m.stages m.request m.world
  rwa [h] at hquiet

/-- Where the model was not asked, it did not reply. -/
theorem isReplied_of_asked (h : m.call.2.2.asked = m.world.asked) : m.isReplied = false := by
  simp [Turn.isReplied, h]

/-- A call that a stage refuses ends as failed. -/
theorem of_refused {e : Failure}
    (hphase : requestPhase m.stages m.request m.world = (.error e, stages, w)) : Ending m := by
  have hphase' : m.phase = (.error e, stages, w) := hphase
  have hquiet := quiet_of_phase hphase
  have hcall : m.call = (.error e, stages, w) := Chain.process_of_refused _ hphase
  refine .failed e ?_ ?_ (isReplied_of_asked ?_) ?_ ?_
  · rw [hcall]
  · rw [hphase']
    rfl
  · rw [hcall]
    exact hquiet.asked
  · rw [hcall, hphase']
  · rw [hcall]
    exact hquiet.calls

/-- The model gives the answer that it has for all that it was asked. -/
theorem askModel_of_phase
    (hphase : requestPhase m.stages m.request m.world = (.ok (.proceed q), stages, w)) :
    (World.askModel q w).1
      = (m.world.model (World.askModel q w).2.asked).map (·.toResponse q.context) := by
  rw [← (quiet_of_phase hphase).model]
  rfl

/-- A call to which the model does not reply ends as failed. -/
theorem of_unanswered {e : Failure}
    (hphase : requestPhase m.stages m.request m.world = (.ok (.proceed q), stages, w))
    (hreply : m.world.model (World.askModel q w).2.asked = .error e) : Ending m := by
  have hphase' : m.phase = (.ok (.proceed q), stages, w) := hphase
  have hmodel := askModel_of_phase hphase
  rw [hreply] at hmodel
  have hcall : m.call = (.error e, stages, (World.askModel q w).2) :=
    Chain.process_of_unanswered hphase hmodel
  refine .failed e ?_ ?_ ?_ ?_ ?_
  · rw [hcall]
  · rw [hphase']
    rfl
  · rw [Turn.isReplied, hcall, hreply, Bool.and_false]
  · rw [hcall, hphase']
  · rw [hcall]
    exact (quiet_of_phase hphase).calls

/-- A call to which the model replies returns a response that is no replay. -/
theorem of_replied (hfresh : m.request.context.fromCache = false) {reply : Reply}
    (hphase : requestPhase m.stages m.request m.world = (.ok (.proceed q), stages, w))
    (hreply : m.world.model (World.askModel q w).2.asked = .ok reply) : Ending m := by
  have hphase' : m.phase = (.ok (.proceed q), stages, w) := hphase
  have hquiet := quiet_of_phase hphase
  have hmodel := askModel_of_phase hphase
  rw [hreply] at hmodel
  have hcall : m.call = finish stages (reply.toResponse q.context) (World.askModel q w).2 :=
    Chain.process_of_replied hphase hmodel
  have hcached : q.context.fromCache = false :=
    (Interceptor.fromCache_of_forwarded ⟨stages, hphase⟩).trans hfresh
  have hlength : ((World.askModel q w).2.asked.length != m.world.asked.length) = true := by
    rw [← hquiet.asked]
    simp [World.askModel]
  obtain ⟨p, hp, hcontext, hstages, hasked, hcalls⟩ :=
    Interceptor.finish_spec stages (reply.toResponse q.context) (World.askModel q w).2
  have hcontext : p.context = q.context := hcontext
  refine .returned p (by rw [hcall, hp]) ?_ ?_ ?_ ?_
  · rw [hphase', hcontext, hcached]
    rfl
  · rw [Turn.isReplied, hcall, hasked, hlength, hreply, hcontext, hcached]
    rfl
  · rw [hphase', hcall, hcontext]
    exact hstages
  · rw [hcall]
    intro f
    rw [hcalls f]
    exact congrArg (· + _) (hquiet.calls f)

/-- A call that a stage answers returns a response. -/
theorem of_answered {p : Response}
    (hphase : requestPhase m.stages m.request m.world = (.ok (.answer p), stages, w)) :
    Ending m := by
  have hphase' : m.phase = (.ok (.answer p), stages, w) := hphase
  have hquiet := quiet_of_phase hphase
  have hcall : m.call = finish stages p w := Chain.process_of_answered _ hphase
  have hanswered : (requestPhase m.stages m.request m.world).1 = .ok (.answer p) := by rw [hphase]
  obtain ⟨i, q, w₁, -, hanswers⟩ := Chain.answered_iff.1 hanswered
  -- only a cache answers
  obtain ⟨c, reply, -, -, -, rfl⟩ := Interceptor.caching_of_answered hanswers
  obtain ⟨p', hp', hcontext, hstages, hasked, hcalls⟩ :=
    Interceptor.finish_spec stages (Cache.replayed q reply) w
  have hcached : p'.context.fromCache = true := by rw [hcontext]; rfl
  refine .returned p' (by rw [hcall, hp']) ?_ ?_ ?_ ?_
  · rw [hphase', hcached]
    rfl
  · rw [hcached]
    refine isReplied_of_asked ?_
    rw [hcall]
    exact hasked.trans hquiet.asked
  · rw [hphase', hcall, hcontext]
    exact hstages
  · rw [hcall]
    intro f
    rw [hcalls f, hquiet.calls f]

/-- **Every call ends** in one of these ways. -/
theorem of_fresh (hfresh : m.request.context.fromCache = false) : Ending m := by
  rcases hphase : requestPhase m.stages m.request m.world with ⟨outcome, stages, w⟩
  rcases outcome with e | q | p
  · exact of_refused hphase
  · cases hreply : m.world.model (World.askModel q w).2.asked with
    | error e => exact of_unanswered hphase hreply
    | ok reply => exact of_replied hfresh hphase hreply
  · exact of_answered hphase

theorem exists_of_forall₂ {R : Interceptor → Interceptor → Prop} {xs ys : List Interceptor}
    {j : Nat} {i : Interceptor} (h : List.Forall₂ R xs ys) (hi : xs[j]? = some i) :
    ∃ i', ys[j]? = some i' ∧ R i i' := by
  induction h generalizing j with
  | nil => simp at hi
  | cons hhead _ ih =>
    cases j with
    | zero =>
      obtain rfl := Option.some.inj hi
      exact ⟨_, rfl, hhead⟩
    | succ j => exact ih hi

/-- What becomes of a stage that requests leave as it is: it takes the response, if there is one. -/
theorem at_unmoved (h : Ending m) {j : Nat} {i : Interceptor} (hi : m.stages[j]? = some i)
    (hunmoved : ∀ q w, (i.onRequest q w).2.1 = i) :
    (m.isOk = false ∧ m.isReplied = false ∧ m.call.2.1[j]? = some i) ∨
      (m.isOk = true ∧ ∃ i', m.call.2.1[j]? = some i' ∧ Interceptor.Takes (!m.isReplied) i i') := by
  have hphase : m.phase.2.1[j]? = some i := by
    rcases Chain.getElem?_phase hi with ⟨-, q, w, htaken⟩ | ⟨-, huntaken⟩
    · have htaken : m.phase.2.1[j]? = some (i.onRequest q w).2.1 := htaken
      rwa [hunmoved] at htaken
    · exact huntaken
  cases h with
  | failed e houtcome _ hreplied hstages _ =>
    refine Or.inl ⟨by rw [Turn.isOk, houtcome], hreplied, ?_⟩
    rw [hstages]
    exact hphase
  | returned p houtcome _ hreplied hstages _ =>
    obtain ⟨i', hi', htakes⟩ := exists_of_forall₂ hstages hphase
    refine Or.inr ⟨by rw [Turn.isOk, houtcome], i', hi', ?_⟩
    rwa [hreplied, Bool.not_not]

/-- **Statistics count the calls that the model answered.** -/
theorem responses (h : Ending m) {j : Nat} {s : Stats.Recorder}
    (hs : m.stages[j]? = some (.stats s)) :
    ∃ i, m.call.2.1[j]? = some i ∧
      i.responses = if m.isReplied then Stats.bump s.stats.count else s.stats.count := by
  rcases h.at_unmoved hs (fun _ _ => rfl) with ⟨-, hreplied, hcall⟩ | ⟨-, i, hi, p, w, hcached, rfl⟩
  · exact ⟨_, hcall, by rw [hreplied]; rfl⟩
  · refine ⟨_, hi, ?_⟩
    rw [Interceptor.responses_onResponse, hcached]
    cases m.isReplied <;> rfl

/-- **Trackers count or leave out the calls that came back.** -/
theorem tracked (h : Ending m) {j : Nat} {t : Progress.Tracker}
    (ht : m.stages[j]? = some (.progress t)) :
    ∃ i, m.call.2.1[j]? = some i ∧ i.tracked = if m.isOk
      then (Interceptor.progress t).tracked + 1 else (Interceptor.progress t).tracked := by
  rcases h.at_unmoved ht (fun _ _ => rfl) with ⟨hok, -, hcall⟩ | ⟨hok, i, hi, p, w, -, rfl⟩
  · exact ⟨_, hcall, by rw [hok]; rfl⟩
  · exact ⟨_, hi, by rw [hok, Interceptor.tracked_onResponse, if_pos rfl]⟩

/-- **A cache counts the requests that it takes**, if it reuses responses. -/
theorem reads (h : Ending m) {j : Nat} {c : Caching} (hc : m.stages[j]? = some (.caching c)) :
    ∃ c', m.call.2.1[j]? = some (.caching c') ∧
      (c.settings.reuse = true → c'.counters.hits + c'.counters.misses =
        if m.reaches j then c.counters.hits + c.counters.misses + 1
        else c.counters.hits + c.counters.misses) ∧
      (c.settings.reuse = false →
        c'.counters.hits = c.counters.hits ∧ c'.counters.misses = c.counters.misses) := by
  -- what the request leaves of the cache
  obtain ⟨c₁, hphase, hon, hoff⟩ : ∃ c₁, m.phase.2.1[j]? = some (.caching c₁) ∧
      (c.settings.reuse = true → c₁.counters.hits + c₁.counters.misses =
        if m.reaches j then c.counters.hits + c.counters.misses + 1
        else c.counters.hits + c.counters.misses) ∧
      (c.settings.reuse = false →
        c₁.counters.hits = c.counters.hits ∧ c₁.counters.misses = c.counters.misses) := by
    rcases Chain.getElem?_phase hc with ⟨hreaches, q, w, htaken⟩ | ⟨hreaches, huntaken⟩
    · obtain ⟨-, -, hon, hoff⟩ := Cache.counted_onRequest (c.cache w) q
      refine ⟨(c.onRequest q w).2.1, htaken, ?_, hoff⟩
      rw [hreaches]
      exact hon
    · refine ⟨c, huntaken, ?_, fun _ => ⟨rfl, rfl⟩⟩
      rw [hreaches]
      exact fun _ => rfl
  cases h with
  | failed e _ _ _ hstages _ => exact ⟨c₁, by rw [hstages, hphase], hon, hoff⟩
  | returned p _ _ _ hstages _ =>
    obtain ⟨i', hi', p', w, -, rfl⟩ := exists_of_forall₂ hstages hphase
    have hsame := Cache.uncounted_onResponse (c₁.cache w) p'
    have hhits : (c₁.onResponse p' w).2.1.counters.hits = c₁.counters.hits := hsame.hits
    have hmisses : (c₁.onResponse p' w).2.1.counters.misses = c₁.counters.misses := hsame.misses
    refine ⟨(c₁.onResponse p' w).2.1, hi', ?_, ?_⟩
    · rw [hhits, hmisses]
      exact hon
    · rw [hhits, hmisses]
      exact hoff

/-- **Every response from a cache is a hit.** -/
theorem totalHits (h : Ending m) : Interceptor.totalHits m.call.2.1 =
    if m.isServed then Interceptor.totalHits m.stages + 1 else Interceptor.totalHits m.stages := by
  have hphase := Interceptor.totalHits_requestPhase m.stages m.request m.world
  have hphase : Interceptor.totalHits m.phase.2.1
      = Interceptor.totalHits m.stages + if isAnswer m.phase.1 then 1 else 0 := hphase
  cases h with
  | failed e houtcome hanswer _ hstages _ =>
    rw [hstages, hphase, hanswer, Turn.isServed, houtcome]
    rfl
  | returned p houtcome hanswer _ hstages _ =>
    have htotal : Interceptor.totalHits m.call.2.1 = Interceptor.totalHits m.phase.2.1 := by
      refine congrArg List.sum (Chain.map_eq_of_forall₂ (hstages.imp ?_))
      rintro i i' ⟨p', w, -, rfl⟩
      exact i.hits_onResponse p' w
    rw [htotal, hphase, hanswer, Turn.isServed, houtcome]
    dsimp only
    split
    · rfl
    · rfl

/-- **Every call that comes back is counted once**, under where its response is from. -/
theorem calls (h : Ending m) :
    callsWhere m.call.2.2.events (fun _ => true) =
      (if m.isOk then callsWhere m.world.events (fun _ => true) + 1
        else callsWhere m.world.events fun _ => true) ∧
    callsWhere m.call.2.2.events underCache =
      if m.isServed then callsWhere m.world.events underCache + 1
      else callsWhere m.world.events underCache := by
  cases h with
  | failed e houtcome _ _ _ hcalls =>
    rw [Turn.isOk, Turn.isServed, houtcome]
    exact ⟨hcalls _, hcalls _⟩
  | returned p houtcome _ _ _ hcalls =>
    have hlabels : underCache [("cached", flagText p.context.fromCache),
        ("status_code", toString p.status)] = p.context.fromCache := by
      cases p.context.fromCache <;> simp [underCache, flagText]
    rw [Turn.isOk, Turn.isServed, houtcome, hcalls, hcalls, hlabels]
    refine ⟨rfl, ?_⟩
    dsimp only
    split
    · rfl
    · rfl

end Ending

/-! ## Runs -/

theorem iterate_succ (a n : Nat) : (· + 1)^[n] a = a + n := by
  induction n with
  | zero => rfl
  | succ n ih => rw [Function.iterate_succ_apply', ih, Nat.add_assoc]

/-- Counts below the largest one are not capped. -/
theorem iterate_bump {a n : Nat} (h : a + n < UInt64.size) : Stats.bump^[n] a = a + n := by
  induction n generalizing a with
  | zero => rfl
  | succ n ih =>
    have hbump : Stats.bump a = a + 1 := by
      rw [Stats.bump, Usage.cappedAdd, Nat.min_eq_left]
      have hmax : UInt64.size = Json.maxU64 + 1 := rfl
      omega
    rw [Function.iterate_succ_apply, hbump, ih (by omega)]
    omega

section

variable {stages : List Interceptor} {w : World} {calls : List Request}

/-- What a stage counts, it counts over a run, if it does over each call. -/
theorem counted_at (f : Interceptor → Nat) (step : Nat → Nat) (counts : Turn Interceptor → Bool)
    {j : Nat} {i : Interceptor} (hi : stages[j]? = some i)
    (hfresh : ∀ r ∈ calls, r.context.fromCache = false)
    (hstep : ∀ (m : Turn Interceptor) i', Ending m → m.stages[j]? = some i' →
      i'.built = i.built → ∃ i'', m.call.2.1[j]? = some i'' ∧
        f i'' = if counts m then step (f i') else f i') :
    ∃ i', (served stages w calls).1[j]? = some i' ∧ i'.built = i.built ∧
      f i' = step^[(turns stages w calls).countP counts] (f i) := by
  have hbuilt (m : Turn Interceptor) : m.call.2.1.map Interceptor.built
      = m.stages.map Interceptor.built :=
    Chain.map_process Interceptor.built_onRequest Interceptor.built_onResponse _ _ _ _
  have hvalue := Chain.counted_served
    (I := fun stages' _ => ∃ i', stages'[j]? = some i' ∧ i'.built = i.built) stages w calls
    (fun stages' _ => stages'[j]?.map f) (Option.map step) counts ⟨i, hi, rfl⟩
    (by
      rintro m hm ⟨i', hi', halike⟩
      obtain ⟨i'', hi'', hf⟩ := hstep m i' (.of_fresh (hfresh _ hm)) hi' halike
      have hat := congrArg (·[j]?) (hbuilt m)
      simp only [List.getElem?_map, hi', hi'', Option.map_some, Option.some.injEq] at hat
      refine ⟨⟨i'', hi'', hat.trans halike⟩, ?_⟩
      rw [hi', hi'', Option.map_some, Option.map_some, hf]
      split
      · rfl
      · rfl)
  have hmap := congrArg (·[j]?) (Chain.map_served Interceptor.built_onRequest
    Interceptor.built_onResponse stages w calls)
  simp only [List.getElem?_map, hi, Option.map_some, Option.map_eq_some_iff] at hmap
  obtain ⟨i', hi', halike⟩ := hmap
  refine ⟨i', hi', halike, ?_⟩
  have hiterate (a n : Nat) : (Option.map step)^[n] (some a) = some (step^[n] a) :=
    (Function.Semiconj.iterate_right (f := some) (fun _ => rfl) n a).symm
  rw [hi', hi, Option.map_some, Option.map_some, hiterate] at hvalue
  exact Option.some.inj hvalue

/-- Statistics grow by the calls that the model answered. -/
theorem counted_stats (hfresh : ∀ r ∈ calls, r.context.fromCache = false) {j : Nat}
    {s : Stats.Recorder} (hs : stages[j]? = some (.stats s))
    (hfew : s.stats.count + calls.length < UInt64.size) :
    ∃ s', (served stages w calls).1[j]? = some (.stats s') ∧
      s'.stats.count = s.stats.count + (turns stages w calls).countP (·.isReplied) := by
  obtain ⟨i, hi, hbuilt, hcount⟩ := counted_at (w := w) Interceptor.responses Stats.bump
    Turn.isReplied hs hfresh (by
      intro m i' hm hi' hbuilt
      obtain ⟨s', rfl⟩ := Interceptor.built_eq_stats hbuilt
      exact hm.responses hi')
  obtain ⟨s', rfl⟩ := Interceptor.built_eq_stats hbuilt
  have hcount : s'.stats.count
      = Stats.bump^[(turns stages w calls).countP (·.isReplied)] s.stats.count := hcount
  have hle : (turns stages w calls).countP (·.isReplied) ≤ calls.length := by
    rw [← Chain.length_turns stages w calls]
    exact List.countP_le_length
  exact ⟨s', hi, by rw [hcount, iterate_bump (by omega)]⟩

/-- Trackers grow by the calls that came back. -/
theorem counted_tracker (hfresh : ∀ r ∈ calls, r.context.fromCache = false) {j : Nat}
    {t : Progress.Tracker} (ht : stages[j]? = some (.progress t)) :
    ∃ t', (served stages w calls).1[j]? = some (.progress t') ∧
      t'.tally.processed + t'.tally.skipped
        = t.tally.processed + t.tally.skipped + (turns stages w calls).countP (·.isOk) := by
  obtain ⟨i, hi, hbuilt, hcount⟩ := counted_at (w := w) Interceptor.tracked (· + 1)
    Turn.isOk ht hfresh (by
      intro m i' hm hi' hbuilt
      obtain ⟨t', rfl, -⟩ := Interceptor.built_eq_progress hbuilt
      exact hm.tracked hi')
  obtain ⟨t', rfl, -⟩ := Interceptor.built_eq_progress hbuilt
  rw [iterate_succ] at hcount
  exact ⟨t', hi, hcount⟩

/-- A cache grows by the requests that it took, if it reuses responses. -/
theorem counted_cache (hfresh : ∀ r ∈ calls, r.context.fromCache = false) {j : Nat}
    {c : Caching} (hc : stages[j]? = some (.caching c)) :
    ∃ c', (served stages w calls).1[j]? = some (.caching c') ∧
      (c.settings.reuse = true → c'.counters.hits + c'.counters.misses =
        c.counters.hits + c.counters.misses + (turns stages w calls).countP (·.reaches j)) ∧
      (c.settings.reuse = false →
        c'.counters.hits = c.counters.hits ∧ c'.counters.misses = c.counters.misses) := by
  have hreads (m : Turn Interceptor) (i' : Interceptor) (hm : Ending m)
      (hi' : m.stages[j]? = some i') (hbuilt : i'.built = (Interceptor.caching c).built) :
      ∃ c₁ c₂, i' = .caching c₁ ∧ m.call.2.1[j]? = some (.caching c₂) ∧
        (c.settings.reuse = true → c₂.counters.hits + c₂.counters.misses =
          if m.reaches j then c₁.counters.hits + c₁.counters.misses + 1
          else c₁.counters.hits + c₁.counters.misses) ∧
        (c.settings.reuse = false →
          c₂.counters.hits = c₁.counters.hits ∧ c₂.counters.misses = c₁.counters.misses) := by
    obtain ⟨c₁, rfl, hsettings, -⟩ := Interceptor.built_eq_caching hbuilt
    obtain ⟨c₂, hc₂, hon, hoff⟩ := hm.reads hi'
    exact ⟨c₁, c₂, rfl, hc₂, hsettings ▸ hon, hsettings ▸ hoff⟩
  cases hreuse : c.settings.reuse with
  | true =>
    obtain ⟨i, hi, hbuilt, hcount⟩ := counted_at (w := w)
      (fun i => i.hits + i.misses) (· + 1) (·.reaches j) hc hfresh (by
        intro m i' hm hi' hbuilt
        obtain ⟨c₁, c₂, rfl, hc₂, hon, -⟩ := hreads m i' hm hi' hbuilt
        exact ⟨_, hc₂, hon hreuse⟩)
    obtain ⟨c', rfl, -, -⟩ := Interceptor.built_eq_caching hbuilt
    rw [iterate_succ] at hcount
    exact ⟨c', hi, fun _ => hcount, by simp⟩
  | false =>
    obtain ⟨i, hi, hbuilt, hcount⟩ := counted_at (w := w) Interceptor.hits id
      (fun _ => true) hc hfresh (by
        intro m i' hm hi' hbuilt
        obtain ⟨c₁, c₂, rfl, hc₂, -, hoff⟩ := hreads m i' hm hi' hbuilt
        exact ⟨_, hc₂, (hoff hreuse).1⟩)
    obtain ⟨i', hi', -, hcount'⟩ := counted_at (w := w) Interceptor.misses id
      (fun _ => true) hc hfresh (by
        intro m i' hm hi' hbuilt
        obtain ⟨c₁, c₂, rfl, hc₂, -, hoff⟩ := hreads m i' hm hi' hbuilt
        exact ⟨_, hc₂, (hoff hreuse).2⟩)
    obtain rfl := Option.some.inj (hi.symm.trans hi')
    obtain ⟨c', rfl, -, -⟩ := Interceptor.built_eq_caching hbuilt
    rw [Function.iterate_id] at hcount hcount'
    exact ⟨c', hi, by simp, fun _ => ⟨hcount, hcount'⟩⟩

/-- What is counted over a run for the whole chain, if each call counts one or none. -/
theorem counted_run (value : List Interceptor → World → Nat) (counts : Turn Interceptor → Bool)
    (hfresh : ∀ r ∈ calls, r.context.fromCache = false)
    (hstep : ∀ m, Ending m → value m.call.2.1 m.call.2.2 =
      if counts m then value m.stages m.world + 1 else value m.stages m.world) :
    value (served stages w calls).1 (served stages w calls).2
      = value stages w + (turns stages w calls).countP counts := by
  have hvalue := Chain.counted_served (I := fun _ _ => True) stages w calls value (· + 1) counts
    trivial
    fun m hm _ => ⟨trivial, hstep m (.of_fresh (hfresh _ hm))⟩
  rw [hvalue, iterate_succ]

/-- A call that fails leaves statistics, trackers and the calls of the metrics as they are. -/
theorem unchanged_of_failed {m : Turn Interceptor} (h : Ending m) (hfailed : m.isOk = false) :
    (∀ (j : Nat) s, m.stages[j]? = some (.stats s) → m.call.2.1[j]? = some (.stats s)) ∧
      (∀ (j : Nat) t, m.stages[j]? = some (.progress t) → m.call.2.1[j]? = some (.progress t)) ∧
      SameCalls m.world.events m.call.2.2.events := by
  refine ⟨?_, ?_, ?_⟩
  · intro j s hs
    rcases h.at_unmoved hs (fun _ _ => rfl) with ⟨-, -, hcall⟩ | ⟨hok, -⟩
    · exact hcall
    · simp [hfailed] at hok
  · intro j t ht
    rcases h.at_unmoved ht (fun _ _ => rfl) with ⟨-, -, hcall⟩ | ⟨hok, -⟩
    · exact hcall
    · simp [hfailed] at hok
  · cases h with
    | failed e _ _ _ _ hcalls => exact hcalls
    | returned p houtcome => simp [Turn.isOk, houtcome] at hfailed

end

/-- What the counters of a chain grow by in a run. -/
structure Account (stages : List Interceptor) (w : World) (calls : List Request) : Prop where
  /-- Statistics grow by the calls that the model answered. -/
  stats (j : Nat) (s : Stats.Recorder) : stages[j]? = some (.stats s) →
    s.stats.count + calls.length < UInt64.size →
      ∃ s', (served stages w calls).1[j]? = some (.stats s') ∧
        s'.stats.count = s.stats.count + (turns stages w calls).countP (·.isReplied)
  /-- Trackers grow by the calls that came back, counted or left out. -/
  progress (j : Nat) (t : Progress.Tracker) : stages[j]? = some (.progress t) →
    ∃ t', (served stages w calls).1[j]? = some (.progress t') ∧
      t'.tally.processed + t'.tally.skipped =
        t.tally.processed + t.tally.skipped + (turns stages w calls).countP (·.isOk)
  /-- The hits of all caches together grow by the responses from a cache. -/
  hits : totalHits (served stages w calls).1
    = totalHits stages + (turns stages w calls).countP (·.isServed)
  /-- The metrics count as many calls from a cache. -/
  cached : callsWhere (served stages w calls).2.events underCache
    = callsWhere w.events underCache + (turns stages w calls).countP (·.isServed)
  /-- The metrics count every call that came back. -/
  requests : callsWhere (served stages w calls).2.events (fun _ => true)
    = callsWhere w.events (fun _ => true) + (turns stages w calls).countP (·.isOk)
  /-- A cache counts a hit or a miss for every request that reached it, or never anything. -/
  lookups (j : Nat) (c : Caching) : stages[j]? = some (.caching c) →
    ∃ c', (served stages w calls).1[j]? = some (.caching c') ∧
      (c.settings.reuse = true → c'.counters.hits + c'.counters.misses =
        c.counters.hits + c.counters.misses + (turns stages w calls).countP (·.reaches j)) ∧
      (c.settings.reuse = false →
        c'.counters.hits = c.counters.hits ∧ c'.counters.misses = c.counters.misses)
  /-- A call that fails leaves statistics, trackers and the calls of the metrics as they are. -/
  failed : ∀ m ∈ turns stages w calls, m.isOk = false →
    (∀ (j : Nat) s, m.stages[j]? = some (.stats s) → m.call.2.1[j]? = some (.stats s)) ∧
      (∀ (j : Nat) t, m.stages[j]? = some (.progress t) → m.call.2.1[j]? = some (.progress t)) ∧
      SameCalls m.world.events m.call.2.2.events

/-- **The counters of a chain account for every call**, in whatever order its stages stand and
however often. -/
theorem counters_account (stages : List Interceptor) (w : World) {calls : List Request}
    (hfresh : ∀ r ∈ calls, r.context.fromCache = false) : Account stages w calls where
  stats _ _ hs hfew := counted_stats hfresh hs hfew
  progress _ _ ht := counted_tracker hfresh ht
  hits := counted_run (fun stages _ => totalHits stages) Turn.isServed hfresh
    fun _ h => h.totalHits
  cached := counted_run (fun _ w => callsWhere w.events underCache) Turn.isServed hfresh
    fun _ h => h.calls.2
  requests := counted_run (fun _ w => callsWhere w.events fun _ => true) Turn.isOk hfresh
    fun _ h => h.calls.1
  lookups _ _ hc := counted_cache hfresh hc
  failed := by
    intro m hm hfailed
    obtain ⟨hrequest, -⟩ := (Chain.kept_served (I := fun _ _ => True) stages w calls trivial
      fun _ _ _ => trivial).1 m hm
    exact unchanged_of_failed (.of_fresh (hfresh _ hrequest)) hfailed

/-- The account of a request that comes twice. -/
theorem counters_account_twice :
    let settings : Cache.Settings := ⟨none, true, false, true, none, none, false, none, none⟩
    let stages : List Interceptor :=
      [.progress (.fresh ⟨none, 1, none, 1, none⟩), .caching (.onPlace settings .memory),
       .stats (.fresh ⟨none, none, true, true, true, 0⟩ "out")]
    let r : Request := ⟨"POST", "/", [], .null, .arrived "a"⟩
    let w : World := .initial (fun _ => .ok ⟨200, [], []⟩) fun _ => true
    Account stages w [r, r] ∧ ∃ c, (served stages w [r, r]).1[1]? = some (.caching c) ∧
      c.counters.hits + c.counters.misses = (turns stages w [r, r]).countP (·.reaches 1) := by
  intro settings stages r w
  have haccount : Account stages w [r, r] :=
    counters_account stages w (by simp [r, Context.arrived])
  obtain ⟨c, hc, hlookups, -⟩ := haccount.lookups 1 (.onPlace settings .memory) rfl
  refine ⟨haccount, c, hc, ?_⟩
  rw [hlookups rfl]
  exact Nat.zero_add _

end EvalProxy
