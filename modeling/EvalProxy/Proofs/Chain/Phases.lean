/-
# The phases of a call

The trace of a call lists what it does in order: the stages that take the request, the question to
the model if there is one, and the stages that take the response, each with what goes in and what
comes out. Every call has exactly one trace.

Main definitions: `RequestsPass`, `ResponsesPass`, `Trace.Follows`.
Main statement: `exists_unique_trace`.
-/
import EvalProxy.Chain
import EvalProxy.Proofs.Metrics
import Mathlib.Data.List.Chain
namespace EvalProxy.Chain

variable {ι : Type}

/-! ## Steps -/

/-- A stage takes a request: what comes of it, and which stage and world are left. -/
structure RequestStep (ι : Type) where
  stage : ι
  given : Request
  before : World
  outcome : Except Failure Verdict
  left : ι
  after : World

/-- The request that a step hands on, and the world. -/
def RequestStep.next? (a : RequestStep ι) : Option (Request × World) :=
  match a.outcome with
  | .ok (.proceed r) => some (r, a.after)
  | _ => none

/-- A step is followed by another one exactly if the request proceeds. -/
theorem RequestStep.next?_eq_some_iff {a : RequestStep ι} {r : Request} {w : World} :
    a.next? = some (r, w) ↔ a.outcome = .ok (.proceed r) ∧ a.after = w := by
  unfold next?
  split
  · rename_i r' houtcome
    simp [houtcome]
  · rename_i hstop
    simp only [reduceCtorEq, false_iff, not_and]
    exact fun h => absurd h (hstop r)

/-- A step is the last one exactly if the request does not proceed. -/
theorem RequestStep.next?_eq_none_iff {a : RequestStep ι} :
    a.next? = none ↔ ∀ r, a.outcome ≠ .ok (.proceed r) := by
  unfold next?
  split
  · rename_i r houtcome
    simp [houtcome]
  · rename_i hstop
    simp only [true_iff]
    exact hstop

/-- What comes of a request that took some steps. -/
def verdict (r : Request) (steps : List (RequestStep ι)) : Except Failure Verdict :=
  (steps.getLast?.map (·.outcome)).getD (.ok (.proceed r))

/-- The world after some steps with a request. -/
def worldAfter (w : World) (steps : List (RequestStep ι)) : World :=
  (steps.getLast?.map (·.after)).getD w

/-- The stages after some steps with a request: those that it did not reach are as they were. -/
def stagesAfter (stages : List ι) (steps : List (RequestStep ι)) : List ι :=
  steps.map (·.left) ++ stages.drop steps.length

/-- A stage takes a response: what comes of it, and which stage and world are left. -/
structure ResponseStep (ι : Type) where
  stage : ι
  given : Response
  before : World
  outcome : Except Failure Response
  left : ι
  after : World

/-- The response that a step hands on: a stage that fails hands on what it was given. -/
def ResponseStep.passed (a : ResponseStep ι) : Response :=
  match a.outcome with
  | .ok p => p
  | .error _ => a.given

/-- The response after some steps. -/
def lastResponse (p : Response) (steps : List (ResponseStep ι)) : Response :=
  (steps.getLast?.map (·.passed)).getD p

variable [Stage ι]

/-! ## The request phase -/

/-- The step in which a stage takes a request. -/
def RequestStep.of (s : ι) (r : Request) (w : World) : RequestStep ι :=
  let taken := Stage.onRequest s r w
  ⟨s, r, w, taken.1, taken.2.1, taken.2.2⟩

/-- A request passes through stages in their order. Each takes what the one before it hands on, and
only one that hands nothing on is the last before the end of the stages. -/
structure RequestsPass (stages : List ι) (r : Request) (w : World)
    (steps : List (RequestStep ι)) : Prop where
  order : steps.map (·.stage) <+: stages
  genuine : ∀ a ∈ steps, a = .of a.stage a.given a.before
  first : ∀ a ∈ steps.head?, a.given = r ∧ a.before = w
  handed : steps.IsChain fun a b => a.next? = some (b.given, b.before)
  stops : steps.length < stages.length → ∃ a ∈ steps.getLast?, a.next? = none

theorem requestsPass_nil {r : Request} {w : World} {steps : List (RequestStep ι)} :
    RequestsPass [] r w steps ↔ steps = [] := by
  constructor
  · intro h
    exact List.map_eq_nil_iff.1 (List.prefix_nil.1 h.order)
  · rintro rfl
    exact ⟨List.prefix_rfl, by simp, by simp, .nil, by simp⟩

/-- The first stage always takes the request. -/
theorem RequestsPass.eq_cons {s : ι} {rest : List ι} {r : Request} {w : World}
    {steps : List (RequestStep ι)} (h : RequestsPass (s :: rest) r w steps) :
    ∃ more, steps = .of s r w :: more ∧ more.map (·.stage) <+: rest := by
  cases steps with
  | nil =>
    -- without a step there would be a last one that hands nothing on
    obtain ⟨a, ha, -⟩ := h.stops (by simp)
    simp at ha
  | cons a more =>
    have horder : a.stage :: more.map (·.stage) <+: s :: rest := h.order
    obtain ⟨hstage, hmore⟩ := List.cons_prefix_cons.1 horder
    obtain ⟨hgiven, hbefore⟩ := h.first a rfl
    have ha := h.genuine a List.mem_cons_self
    rw [hstage, hgiven, hbefore] at ha
    exact ⟨more, by rw [← ha], hmore⟩

/-- A request that is handed on passes through the other stages. -/
theorem requestsPass_cons_of_next {s : ι} {rest : List ι} {r r' : Request} {w w' : World}
    (hnext : (RequestStep.of s r w).next? = some (r', w')) {steps : List (RequestStep ι)} :
    RequestsPass (s :: rest) r w steps ↔
      ∃ more, steps = .of s r w :: more ∧ RequestsPass rest r' w' more := by
  constructor
  · intro h
    obtain ⟨more, rfl, hmore⟩ := h.eq_cons
    refine ⟨more, rfl, hmore, ?_, ?_, ?_, ?_⟩
    · exact fun a ha => h.genuine a (List.mem_cons_of_mem _ ha)
    -- what the second step is given is what the first one hands on
    · intro a ha
      obtain ⟨tail, rfl⟩ := List.head?_eq_some_iff.1 ha
      have hrel := (List.isChain_cons_cons.1 h.handed).1
      rw [hnext] at hrel
      obtain ⟨rfl, rfl⟩ := Prod.mk.inj (Option.some.inj hrel)
      exact ⟨rfl, rfl⟩
    · exact h.handed.tail
    · intro hlength
      obtain ⟨a, ha, hstop⟩ := h.stops (by simpa using hlength)
      cases more with
      | nil =>
        -- the only step hands the request on, so it is not the last
        obtain rfl : RequestStep.of s r w = a := by simpa using ha
        rw [hnext] at hstop
        simp at hstop
      | cons b tail => exact ⟨a, by simpa using ha, hstop⟩
  · rintro ⟨more, rfl, h⟩
    refine ⟨?_, ?_, ?_, ?_, ?_⟩
    · exact List.cons_prefix_cons.2 ⟨rfl, h.order⟩
    · exact List.forall_mem_cons.2 ⟨rfl, h.genuine⟩
    · intro a ha
      obtain rfl : RequestStep.of s r w = a := by simpa using ha
      exact ⟨rfl, rfl⟩
    · refine List.isChain_cons.2 ⟨?_, h.handed⟩
      intro b hb
      obtain ⟨hgiven, hbefore⟩ := h.first b hb
      rw [hnext, hgiven, hbefore]
    · intro hlength
      obtain ⟨a, ha, hstop⟩ := h.stops (by simpa using hlength)
      -- the last of the other steps is the last of all
      refine ⟨a, ?_, hstop⟩
      rw [List.getLast?_cons, Option.mem_def.1 ha]
      rfl

/-- A request that is not handed on reaches no other stage. -/
theorem requestsPass_cons_of_stop {s : ι} {rest : List ι} {r : Request} {w : World}
    (hstop : (RequestStep.of s r w).next? = none) {steps : List (RequestStep ι)} :
    RequestsPass (s :: rest) r w steps ↔ steps = [.of s r w] := by
  constructor
  · intro h
    obtain ⟨more, rfl, -⟩ := h.eq_cons
    cases more with
    | nil => rfl
    | cons b tail =>
      -- a second step would have to be given something
      have hrel := (List.isChain_cons_cons.1 h.handed).1
      rw [hstop] at hrel
      simp at hrel
  · rintro rfl
    refine ⟨?_, ?_, ?_, .singleton _, ?_⟩
    · exact List.cons_prefix_cons.2 ⟨rfl, List.nil_prefix⟩
    · exact List.forall_mem_cons.2 ⟨rfl, by simp⟩
    · intro a ha
      obtain rfl : RequestStep.of s r w = a := by simpa using ha
      exact ⟨rfl, rfl⟩
    · exact fun _ => ⟨_, rfl, hstop⟩

/-- **The request phase has exactly one list of steps.** -/
theorem exists_unique_requestsPass (stages : List ι) (r : Request) (w : World) :
    ∃ steps, RequestsPass stages r w steps ∧
      ∀ steps', RequestsPass stages r w steps' → steps' = steps := by
  -- induction on the stages; what the first one hands on goes into the others
  induction stages generalizing r w with
  | nil => exact ⟨[], requestsPass_nil.2 rfl, fun _ h => requestsPass_nil.1 h⟩
  | cons s rest ih =>
    cases hnext : (RequestStep.of s r w).next? with
    | none =>
      exact ⟨_, (requestsPass_cons_of_stop hnext).2 rfl,
        fun _ h => (requestsPass_cons_of_stop hnext).1 h⟩
    | some handed =>
      obtain ⟨r', w'⟩ := handed
      obtain ⟨more, hmore, hunique⟩ := ih r' w'
      refine ⟨.of s r w :: more, (requestsPass_cons_of_next hnext).2 ⟨more, rfl, hmore⟩, ?_⟩
      intro steps' h
      obtain ⟨more', rfl, hmore'⟩ := (requestsPass_cons_of_next hnext).1 h
      rw [hunique more' hmore']

/-- What a handed on request comes to is decided by the other stages. -/
theorem verdict_cons_of_next {s : ι} {r r' : Request} {w w' : World}
    (hnext : (RequestStep.of s r w).next? = some (r', w')) (more : List (RequestStep ι)) :
    verdict r (.of s r w :: more) = verdict r' more ∧
      worldAfter w (.of s r w :: more) = worldAfter w' more := by
  obtain ⟨houtcome, hafter⟩ := RequestStep.next?_eq_some_iff.1 hnext
  cases more with
  | nil => exact ⟨houtcome, hafter⟩
  | cons b more =>
    constructor
    · rw [verdict, verdict, List.getLast?_cons_cons, List.getLast?_cons]
      rfl
    · rw [worldAfter, worldAfter, List.getLast?_cons_cons, List.getLast?_cons]
      rfl

/-- **The request phase does what its steps say.** -/
theorem requestPhase_eq {stages : List ι} {r : Request} {w : World} {steps : List (RequestStep ι)}
    (h : RequestsPass stages r w steps) :
    requestPhase stages r w = (verdict r steps, stagesAfter stages steps, worldAfter w steps) := by
  -- each stage accounts for one step, up to the first that hands nothing on
  induction stages generalizing r w steps with
  | nil =>
    rw [requestsPass_nil.1 h]
    rfl
  | cons s rest ih =>
    cases hnext : (RequestStep.of s r w).next? with
    | none =>
      rw [(requestsPass_cons_of_stop hnext).1 h, requestPhase]
      split
      · rename_i r' s' w' htaken
        have houtcome : (RequestStep.of s r w).outcome = .ok (.proceed r') := by
          rw [RequestStep.of, htaken]
        exact absurd houtcome (RequestStep.next?_eq_none_iff.1 hnext r')
      · rename_i outcome s' w' hstop htaken
        simp [verdict, worldAfter, stagesAfter, RequestStep.of, htaken]
    | some handed =>
      obtain ⟨r', w'⟩ := handed
      obtain ⟨more, rfl, hmore⟩ := (requestsPass_cons_of_next hnext).1 h
      obtain ⟨hverdict, hworld⟩ := verdict_cons_of_next hnext more
      -- the step records all that the stage gives
      have htaken : Stage.onRequest s r w
          = (.ok (.proceed r'), (RequestStep.of s r w).left, w') := by
        obtain ⟨houtcome, hafter⟩ := RequestStep.next?_eq_some_iff.1 hnext
        rw [← houtcome, ← hafter]
        rfl
      rw [hverdict, hworld, requestPhase, htaken]
      simp only [ih hmore]
      rfl

/-- A request goes on to the model exactly if every stage takes it and hands it on. -/
theorem verdict_proceed_iff {stages : List ι} {r : Request} {w : World}
    {steps : List (RequestStep ι)} (h : RequestsPass stages r w steps) :
    (∃ r', verdict r steps = .ok (.proceed r')) ↔
      steps.length = stages.length ∧ ∀ a ∈ steps, ∃ r', a.outcome = .ok (.proceed r') := by
  induction stages generalizing r w steps with
  | nil =>
    rw [requestsPass_nil.1 h]
    simp [verdict]
  | cons s rest ih =>
    cases hnext : (RequestStep.of s r w).next? with
    | none =>
      have hstop := RequestStep.next?_eq_none_iff.1 hnext
      rw [(requestsPass_cons_of_stop hnext).1 h]
      constructor
      · rintro ⟨r', hr'⟩
        exact absurd hr' (hstop r')
      · rintro ⟨-, hall⟩
        obtain ⟨r', hr'⟩ := hall _ List.mem_cons_self
        exact absurd hr' (hstop r')
    | some handed =>
      obtain ⟨r', w'⟩ := handed
      obtain ⟨more, rfl, hmore⟩ := (requestsPass_cons_of_next hnext).1 h
      have hfirst : ∃ r', (RequestStep.of s r w).outcome = .ok (.proceed r') :=
        ⟨r', (RequestStep.next?_eq_some_iff.1 hnext).1⟩
      -- the first stage hands the request on, so only the others count
      rw [(verdict_cons_of_next hnext more).1, ih hmore, List.length_cons, List.length_cons,
        List.forall_mem_cons]
      constructor
      · rintro ⟨hlength, hall⟩
        exact ⟨by omega, hfirst, hall⟩
      · rintro ⟨hlength, -, hall⟩
        exact ⟨by omega, hall⟩

/-! ## The response phase -/

/-- The step in which a stage takes a response. -/
def ResponseStep.of (s : ι) (p : Response) (w : World) : ResponseStep ι :=
  let taken := Stage.onResponse s p w
  ⟨s, p, w, taken.1, taken.2.1, taken.2.2⟩

/-- The world that a step hands on: a failure is noted under the name of the stage. -/
def ResponseStep.onward (a : ResponseStep ι) : World :=
  match a.outcome with
  | .ok _ => a.after
  | .error _ => a.after.note (.failure (Stage.name a.left))

/-- A response passes through all stages in their order, each taking what the one before it hands
on. -/
structure ResponsesPass (stages : List ι) (p : Response) (w : World)
    (steps : List (ResponseStep ι)) : Prop where
  order : steps.map (·.stage) = stages
  genuine : ∀ a ∈ steps, a = .of a.stage a.given a.before
  first : ∀ a ∈ steps.head?, a.given = p ∧ a.before = w
  handed : steps.IsChain fun a b => b.given = a.passed ∧ b.before = a.onward

theorem responsesPass_nil {p : Response} {w : World} {steps : List (ResponseStep ι)} :
    ResponsesPass [] p w steps ↔ steps = [] := by
  constructor
  · intro h
    exact List.map_eq_nil_iff.1 h.order
  · rintro rfl
    exact ⟨rfl, by simp, by simp, .nil⟩

/-- What the first stage hands on passes through the other stages. -/
theorem responsesPass_cons {s : ι} {rest : List ι} {p : Response} {w : World}
    {steps : List (ResponseStep ι)} :
    ResponsesPass (s :: rest) p w steps ↔
      ∃ more, steps = .of s p w :: more ∧
        ResponsesPass rest (ResponseStep.of s p w).passed (ResponseStep.of s p w).onward more := by
  constructor
  · intro h
    cases steps with
    | nil =>
      have horder : [] = s :: rest := h.order
      simp at horder
    | cons a more =>
      have horder : a.stage :: more.map (·.stage) = s :: rest := h.order
      obtain ⟨hstage, hmore⟩ := List.cons.inj horder
      obtain ⟨hgiven, hbefore⟩ := h.first a rfl
      have ha := h.genuine a List.mem_cons_self
      rw [hstage, hgiven, hbefore] at ha
      obtain ⟨hhead, htail⟩ := List.isChain_cons.1 h.handed
      refine ⟨more, by rw [← ha], hmore, ?_, ?_, htail⟩
      · exact fun b hb => h.genuine b (List.mem_cons_of_mem _ hb)
      · intro b hb
        rw [← ha]
        exact hhead b hb
  · rintro ⟨more, rfl, h⟩
    constructor
    · rw [List.map_cons, h.order]
      rfl
    · exact List.forall_mem_cons.2 ⟨rfl, h.genuine⟩
    · intro a ha
      obtain rfl : ResponseStep.of s p w = a := by simpa using ha
      exact ⟨rfl, rfl⟩
    · exact List.isChain_cons.2 ⟨h.first, h.handed⟩

/-- **The response phase has exactly one list of steps.** -/
theorem exists_unique_responsesPass (stages : List ι) (p : Response) (w : World) :
    ∃ steps, ResponsesPass stages p w steps ∧
      ∀ steps', ResponsesPass stages p w steps' → steps' = steps := by
  induction stages generalizing p w with
  | nil => exact ⟨[], responsesPass_nil.2 rfl, fun _ h => responsesPass_nil.1 h⟩
  | cons s rest ih =>
    obtain ⟨more, hmore, hunique⟩ :=
      ih (ResponseStep.of s p w).passed (ResponseStep.of s p w).onward
    refine ⟨.of s p w :: more, responsesPass_cons.2 ⟨more, rfl, hmore⟩, ?_⟩
    intro steps' h
    obtain ⟨more', rfl, hmore'⟩ := responsesPass_cons.1 h
    rw [hunique more' hmore']

/-- The world after some steps with a response. -/
def lastWorld (w : World) (steps : List (ResponseStep ι)) : World :=
  (steps.getLast?.map (·.onward)).getD w

/-- **The response phase does what its steps say.** -/
theorem responsePhase_eq {stages : List ι} {p : Response} {w : World}
    {steps : List (ResponseStep ι)} (h : ResponsesPass stages p w steps) :
    responsePhase stages p w = (lastResponse p steps, steps.map (·.left), lastWorld w steps) := by
  induction stages generalizing p w steps with
  | nil =>
    rw [responsesPass_nil.1 h]
    rfl
  | cons s rest ih =>
    obtain ⟨more, rfl, hmore⟩ := responsesPass_cons.1 h
    -- the last response and the last world are those of the other steps
    have hlast : lastResponse p (.of s p w :: more)
        = lastResponse (ResponseStep.of s p w).passed more := by
      rw [lastResponse, lastResponse, List.getLast?_cons]
      cases more.getLast? <;> rfl
    have hworld : lastWorld w (.of s p w :: more)
        = lastWorld (ResponseStep.of s p w).onward more := by
      rw [lastWorld, lastWorld, List.getLast?_cons]
      cases more.getLast? <;> rfl
    have hrest := ih hmore
    rw [hlast, hworld, responsePhase, List.map_cons]
    split
    · rename_i p' s' w' htaken
      simp only [ResponseStep.of, ResponseStep.passed, ResponseStep.onward, htaken] at hrest ⊢
      rw [hrest]
    -- a stage that fails is noted in the world that the others see
    · rename_i e s' w' htaken
      simp only [ResponseStep.of, ResponseStep.passed, ResponseStep.onward, htaken] at hrest ⊢
      rw [hrest]

/-- **A failure on a response** is passed over and counted exactly once, under the name of the
stage. -/
theorem ResponseStep.failure {a : ResponseStep ι} {e : Failure} (h : a.outcome = .error e) :
    a.passed = a.given ∧
      ∀ name, Metrics.failureCount a.onward.events name = Metrics.failureCount a.after.events name
        + if Stage.name a.left = name then 1 else 0 := by
  constructor
  · rw [ResponseStep.passed, h]
  · intro name
    rw [ResponseStep.onward, h]
    exact Metrics.failureCount_failure _ _ _

/-! ## Calls -/

/-- The model is asked. -/
structure ModelStep where
  given : Request
  before : World
  outcome : Except Failure Response
  after : World

/-- The step in which the model is asked. -/
def ModelStep.of (ask : Request → World → Except Failure Response × World) (r : Request)
    (w : World) : ModelStep :=
  ⟨r, w, (ask r w).1, (ask r w).2⟩

/-- What a call does, in order. -/
structure Trace (ι : Type) where
  requests : List (RequestStep ι)
  model : Option ModelStep
  responses : List (ResponseStep ι)

/-- A trace belongs to a call and what it gives. The request passes through the stages; the model
is asked, once and with the request as it was handed on last, exactly if all stages go on. A
request that fails, or that the model does not answer, ends the call there; any other response
passes through all stages, and the last one is what the call gives. -/
structure Trace.Follows (ask : Request → World → Except Failure Response × World) (stages : List ι)
    (r : Request) (w : World) (given : Except Failure Response × List ι × World)
    (t : Trace ι) : Prop where
  requests : RequestsPass stages r w t.requests
  asked : ∀ r', verdict r t.requests = .ok (.proceed r') →
    t.model = some (.of ask r' (worldAfter w t.requests))
  notAsked : (∀ r', verdict r t.requests ≠ .ok (.proceed r')) → t.model = none
  refused : ∀ e, verdict r t.requests = .error e →
    t.responses = [] ∧ given = (.error e, stagesAfter stages t.requests, worldAfter w t.requests)
  unanswered : ∀ m ∈ t.model, ∀ e, m.outcome = .error e →
    t.responses = [] ∧ given = (.error e, stagesAfter stages t.requests, m.after)
  replied : ∀ p w',
    (verdict r t.requests = .ok (.answer p) ∧ w' = worldAfter w t.requests) ∨
      (∃ m ∈ t.model, m.outcome = .ok p ∧ w' = m.after) →
    ResponsesPass (stagesAfter stages t.requests) p w' t.responses ∧
      given =
        let last := lastResponse p t.responses
        let after := lastWorld w' t.responses
        (.ok last, t.responses.map (·.left),
          after.note (.request last.status last.context.fromCache (after.latency / 1000)))

/-- The response phase ends with the last of its steps. -/
theorem finish_eq {stages : List ι} {p : Response} {w : World} {steps : List (ResponseStep ι)}
    (h : ResponsesPass stages p w steps) :
    finish stages p w =
      let last := lastResponse p steps
      let after := lastWorld w steps
      (.ok last, steps.map (·.left),
        after.note (.request last.status last.context.fromCache (after.latency / 1000))) := by
  rw [finish, responsePhase_eq h]

section

variable {ask : Request → World → Except Failure Response × World} {stages : List ι} {r : Request}
  {w : World} {steps : List (RequestStep ι)}

/-- The trace of a call that a stage refuses. -/
theorem follows_of_refused (hsteps : RequestsPass stages r w steps) {e : Failure}
    (hverdict : verdict r steps = .error e) :
    Trace.Follows ask stages r w (process ask stages r w) ⟨steps, none, []⟩ := by
  have hphase := requestPhase_eq hsteps
  rw [hverdict] at hphase
  refine ⟨hsteps, by simp [hverdict], fun _ => rfl, ?_, by simp, by simp [hverdict]⟩
  intro e' he'
  obtain rfl : e = e' := by simpa [hverdict] using he'
  exact ⟨rfl, process_of_refused ask hphase⟩

/-- The trace of a call that a stage answers. -/
theorem follows_of_answered (hsteps : RequestsPass stages r w steps) {p : Response}
    (hverdict : verdict r steps = .ok (.answer p)) {replies : List (ResponseStep ι)}
    (hreplies : ResponsesPass (stagesAfter stages steps) p (worldAfter w steps) replies) :
    Trace.Follows ask stages r w (process ask stages r w) ⟨steps, none, replies⟩ := by
  have hphase := requestPhase_eq hsteps
  rw [hverdict] at hphase
  refine ⟨hsteps, by simp [hverdict], fun _ => rfl, by simp [hverdict], by simp, ?_⟩
  rintro p' w' (⟨hp, rfl⟩ | ⟨m, hm, -⟩)
  · obtain rfl : p = p' := by simpa [hverdict] using hp
    exact ⟨hreplies, (process_of_answered ask hphase).trans (finish_eq hreplies)⟩
  · simp at hm

/-- The trace of a call that the model does not answer. -/
theorem follows_of_unanswered (hsteps : RequestsPass stages r w steps) {r' : Request}
    (hverdict : verdict r steps = .ok (.proceed r')) {e : Failure}
    (hfails : (ask r' (worldAfter w steps)).1 = .error e) :
    Trace.Follows ask stages r w (process ask stages r w)
      ⟨steps, some (.of ask r' (worldAfter w steps)), []⟩ := by
  have hphase := requestPhase_eq hsteps
  rw [hverdict] at hphase
  refine ⟨hsteps, ?_, fun h => absurd hverdict (h r'), by simp [hverdict], ?_, ?_⟩
  · intro r'' hr''
    obtain rfl : r' = r'' := by simpa [hverdict] using hr''
    rfl
  · intro m hm e' he'
    obtain rfl := Option.some.inj hm
    obtain rfl : e = e' := Except.error.inj (hfails.symm.trans he')
    exact ⟨rfl, process_of_unanswered hphase hfails⟩
  · rintro p w' (⟨hp, -⟩ | ⟨m, hm, hp, -⟩)
    · simp [hverdict] at hp
    · obtain rfl := Option.some.inj hm
      have hreplied := hfails.symm.trans hp
      simp at hreplied

/-- The trace of a call that the model answers. -/
theorem follows_of_modelAnswered (hsteps : RequestsPass stages r w steps) {r' : Request}
    (hverdict : verdict r steps = .ok (.proceed r')) {p : Response}
    (hreplies : (ask r' (worldAfter w steps)).1 = .ok p) {replies : List (ResponseStep ι)}
    (hpass : ResponsesPass (stagesAfter stages steps) p (ask r' (worldAfter w steps)).2 replies) :
    Trace.Follows ask stages r w (process ask stages r w)
      ⟨steps, some (.of ask r' (worldAfter w steps)), replies⟩ := by
  have hphase := requestPhase_eq hsteps
  rw [hverdict] at hphase
  refine ⟨hsteps, ?_, fun h => absurd hverdict (h r'), by simp [hverdict], ?_, ?_⟩
  · intro r'' hr''
    obtain rfl : r' = r'' := by simpa [hverdict] using hr''
    rfl
  · intro m hm e he
    obtain rfl := Option.some.inj hm
    have hfails := hreplies.symm.trans he
    simp at hfails
  · rintro p' w' (⟨hp, -⟩ | ⟨m, hm, hp, rfl⟩)
    · simp [hverdict] at hp
    · obtain rfl := Option.some.inj hm
      obtain rfl : p = p' := Except.ok.inj (hreplies.symm.trans hp)
      exact ⟨hpass, (process_of_replied hphase hreplies).trans (finish_eq hpass)⟩

end

/-- Every call has a trace. -/
theorem exists_follows (ask : Request → World → Except Failure Response × World) (stages : List ι)
    (r : Request) (w : World) :
    ∃ t : Trace ι, t.Follows ask stages r w (process ask stages r w) := by
  -- one trace for each way in which a call can end
  obtain ⟨steps, hsteps, -⟩ := exists_unique_requestsPass stages r w
  cases hverdict : verdict r steps with
  | error e => exact ⟨_, follows_of_refused hsteps hverdict⟩
  | ok v =>
    cases v with
    | answer p =>
      obtain ⟨replies, hreplies, -⟩ :=
        exists_unique_responsesPass (stagesAfter stages steps) p (worldAfter w steps)
      exact ⟨_, follows_of_answered hsteps hverdict hreplies⟩
    | proceed r' =>
      cases hanswer : (ask r' (worldAfter w steps)).1 with
      | error e => exact ⟨_, follows_of_unanswered hsteps hverdict hanswer⟩
      | ok p =>
        obtain ⟨replies, hreplies, -⟩ :=
          exists_unique_responsesPass (stagesAfter stages steps) p (ask r' (worldAfter w steps)).2
        exact ⟨_, follows_of_modelAnswered hsteps hverdict hanswer hreplies⟩

/-- A call has one trace only. -/
theorem Trace.Follows.unique {ask : Request → World → Except Failure Response × World}
    {stages : List ι} {r : Request} {w : World} {given : Except Failure Response × List ι × World}
    {t t' : Trace ι} (h : t.Follows ask stages r w given) (h' : t'.Follows ask stages r w given) :
    t' = t := by
  obtain ⟨steps, hsteps, hunique⟩ := exists_unique_requestsPass stages r w
  -- the steps with the request are fixed, and with them whether the model is asked
  have hrequests : t'.requests = t.requests :=
    (hunique _ h'.requests).trans (hunique _ h.requests).symm
  have hresponses {p : Response} {v : World}
      (hreplies : ResponsesPass (stagesAfter stages t.requests) p v t.responses)
      (hreplies' : ResponsesPass (stagesAfter stages t'.requests) p v t'.responses) :
      t'.responses = t.responses := by
    rw [hrequests] at hreplies'
    obtain ⟨replies, -, honly⟩ := exists_unique_responsesPass (stagesAfter stages t.requests) p v
    exact (honly _ hreplies').trans (honly _ hreplies).symm
  -- what remains is the question to the model and the steps with the response
  suffices heq : t'.model = t.model ∧ t'.responses = t.responses by
    obtain ⟨requests, model, responses⟩ := t
    obtain ⟨requests', model', responses'⟩ := t'
    obtain ⟨hmodel, hreplies⟩ := heq
    simp only at hrequests hmodel hreplies
    rw [hrequests, hmodel, hreplies]
  cases hverdict : verdict r t.requests with
  | error e =>
    have hverdict' : verdict r t'.requests = .error e := by
      rw [hrequests]
      exact hverdict
    constructor
    · rw [h.notAsked (by simp [hverdict]), h'.notAsked (by simp [hverdict'])]
    · rw [(h.refused e hverdict).1, (h'.refused e hverdict').1]
  | ok v =>
    have hverdict' : verdict r t'.requests = .ok v := by
      rw [hrequests]
      exact hverdict
    cases v with
    | answer p =>
      constructor
      · rw [h.notAsked (by simp [hverdict]), h'.notAsked (by simp [hverdict'])]
      · refine hresponses (h.replied p _ (Or.inl ⟨hverdict, rfl⟩)).1 ?_
        rw [← hrequests]
        exact (h'.replied p _ (Or.inl ⟨hverdict', rfl⟩)).1
    | proceed r' =>
      have hasked := h.asked r' hverdict
      have hasked' : t'.model = some (.of ask r' (worldAfter w t.requests)) := by
        rw [← hrequests]
        exact h'.asked r' hverdict'
      refine ⟨by rw [hasked, hasked'], ?_⟩
      cases hanswer : (ask r' (worldAfter w t.requests)).1 with
      | error e =>
        rw [(h.unanswered _ hasked e hanswer).1, (h'.unanswered _ hasked' e hanswer).1]
      | ok p =>
        exact hresponses (h.replied p _ (Or.inr ⟨_, hasked, hanswer, rfl⟩)).1
          (h'.replied p _ (Or.inr ⟨_, hasked', hanswer, rfl⟩)).1

/-- **Every call does exactly what one trace says.** The model is asked exactly if all stages take
the request and hand it on; a stage that fails on the response hands on what it was given and is
counted once. -/
theorem exists_unique_trace (ask : Request → World → Except Failure Response × World)
    (stages : List ι) (r : Request) (w : World) :
    ∃ t : Trace ι, t.Follows ask stages r w (process ask stages r w) ∧
      (∀ t' : Trace ι, t'.Follows ask stages r w (process ask stages r w) → t' = t) ∧
      (t.model.isSome = true ↔
        t.requests.length = stages.length ∧ ∀ a ∈ t.requests, ∃ r', a.outcome = .ok (.proceed r')) ∧
      ∀ a ∈ t.responses, ∀ e, a.outcome = .error e → a.passed = a.given ∧
        ∀ name, Metrics.failureCount a.onward.events name =
          Metrics.failureCount a.after.events name + if Stage.name a.left = name then 1 else 0 := by
  obtain ⟨t, ht⟩ := exists_follows ask stages r w
  refine ⟨t, ht, fun t' ht' => ht.unique ht', ?_, fun a _ e he => ResponseStep.failure he⟩
  rw [← verdict_proceed_iff ht.requests]
  constructor
  · intro hsome
    -- a model that is asked is asked something that was handed on
    refine Classical.byContradiction fun hnone => ?_
    rw [ht.notAsked fun r' hr' => hnone ⟨r', hr'⟩] at hsome
    simp at hsome
  · rintro ⟨r', hr'⟩
    rw [ht.asked r' hr']
    rfl

end EvalProxy.Chain
