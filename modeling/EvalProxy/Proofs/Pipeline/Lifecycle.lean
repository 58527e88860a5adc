/-
# The life of a pipeline

Besides taking calls, a pipeline visits its components at the start and at the end of an evaluation.
The start visits the hooks before the evaluation and then the stages, up to the first that fails;
the end visits the stages and then the hooks after the evaluation, whatever fails. In a run of any
calls each of the two happens once.

Main definitions: `Visit`, `Performs`, `UpToFailure`, `Recounts`, `Proper`.
Main statements: `exists_attempts_start`, `exists_performs_shutdown`, `exists_recounts`,
`visits_once_in_order`.
-/
import EvalProxy.Pipeline
import EvalProxy.Probe
import EvalProxy.Proofs.Chain.Phases
import EvalProxy.Proofs.Chain.Run
import Mathlib.Data.List.Nodup
namespace EvalProxy.Pipeline

variable {ι κ : Type}

/-! ## Visits -/

/-- A component is visited: a hook before the evaluation, a stage that is started or shut down, or a
hook after the evaluation, each by its place. -/
inductive Visit where
  | preHook (i : Nat)
  | start (i : Nat)
  | stop (i : Nat)
  | postHook (i : Nat)
  deriving DecidableEq

/-- Whether a visit belongs to the start of an evaluation. -/
def Visit.atStart : Visit → Bool
  | preHook _ => true
  | start _ => true
  | stop _ => false
  | postHook _ => false

/-- A visit and what it gave. -/
structure Event where
  visit : Visit
  outcome : Except Failure Unit

/-- What some visits come to: what the last of them gave. -/
def conclusion (events : List Event) : Except Failure Unit :=
  (events.getLast?.map (·.outcome)).getD (.ok ())

/-- The visits of a start in the order of the configuration. -/
def startOrder (p : Pipeline ι κ) : List Visit :=
  (List.range p.preHooks.length).map .preHook ++ (List.range p.stages.length).map .start

/-- The visits of an end in the order of the configuration. -/
def stopOrder (p : Pipeline ι κ) : List Visit :=
  (List.range p.stages.length).map .stop ++ (List.range p.postHooks.length).map .postHook

variable {p : Pipeline ι κ}

/-- Two pipelines have components at the same places. -/
structure SamePlaces (p q : Pipeline ι κ) : Prop where
  preHooks : q.preHooks = p.preHooks
  stages : q.stages.length = p.stages.length
  postHooks : q.postHooks = p.postHooks

theorem SamePlaces.startOrder_eq {q : Pipeline ι κ} (h : SamePlaces p q) :
    q.startOrder = p.startOrder := by
  rw [startOrder, startOrder, h.preHooks, h.stages]

theorem SamePlaces.stopOrder_eq {q : Pipeline ι κ} (h : SamePlaces p q) :
    q.stopOrder = p.stopOrder := by
  rw [stopOrder, stopOrder, h.postHooks, h.stages]

/-- The places of what is left of a list, in order. -/
theorem map_range'_length {α : Type} (f : Nat → Visit) (done : List α) (a b : α) (rest : List α) :
    (List.range' done.length (a :: rest).length).map f
      = f done.length :: (List.range' (done ++ [b]).length rest.length).map f := by
  rw [List.length_cons, List.range'_succ, List.length_append, List.length_singleton, List.map_cons]

/-- Visits go through an order up to the first that fails, or to the end if none does. -/
structure UpToFailure (order : List Visit) (events : List Event) : Prop where
  inOrder : events.map (·.visit) <+: order
  goOn : ∀ e ∈ events.dropLast, e.outcome = .ok ()
  ends : events.length < order.length → ∃ e ∈ events.getLast?, e.outcome ≠ .ok ()

/-- Stages and hooks in their places are all different. -/
theorem nodup_places {f g : Nat → Visit} (hf : f.Injective) (hg : g.Injective)
    (hne : ∀ i j, f i ≠ g j) (m n : Nat) :
    ((List.range m).map f ++ (List.range n).map g).Nodup := by
  rw [List.nodup_append]
  refine ⟨List.nodup_range.map hf, List.nodup_range.map hg, ?_⟩
  intro a ha b hb
  obtain ⟨i, -, rfl⟩ := List.mem_map.1 ha
  obtain ⟨j, -, rfl⟩ := List.mem_map.1 hb
  exact hne i j

theorem nodup_startOrder (p : Pipeline ι κ) : p.startOrder.Nodup :=
  nodup_places (fun _ _ => Visit.preHook.inj) (fun _ _ => Visit.start.inj) (fun _ _ => nofun) _ _

theorem nodup_stopOrder (p : Pipeline ι κ) : p.stopOrder.Nodup :=
  nodup_places (fun _ _ => Visit.stop.inj) (fun _ _ => Visit.postHook.inj) (fun _ _ => nofun) _ _

theorem atStart_of_mem_startOrder {v : Visit} (h : v ∈ p.startOrder) : v.atStart = true := by
  rcases List.mem_append.1 h with h | h
  · obtain ⟨i, -, rfl⟩ := List.mem_map.1 h
    rfl
  · obtain ⟨i, -, rfl⟩ := List.mem_map.1 h
    rfl

theorem atStart_of_mem_stopOrder {v : Visit} (h : v ∈ p.stopOrder) : v.atStart = false := by
  rcases List.mem_append.1 h with h | h
  · obtain ⟨i, -, rfl⟩ := List.mem_map.1 h
    rfl
  · obtain ⟨i, -, rfl⟩ := List.mem_map.1 h
    rfl

/-! ## Histories -/

/-- What can be asked of a pipeline. -/
inductive Call where
  | start
  | process (r : Request)
  | shutdown

/-- A call, with the visits that it made. -/
structure Entry where
  call : Call
  events : List Event

/-- Which visits a call makes, given whether there was a start and whether there was an end before
it. -/
def Proper (p : Pipeline ι κ) (started stopped : Prop) : Entry → Prop
  | ⟨.start, events⟩ =>
    (started → events = []) ∧ (¬ started → UpToFailure p.startOrder events)
  | ⟨.process _, events⟩ => events = []
  | ⟨.shutdown, events⟩ =>
    (stopped → events = []) ∧ (¬ stopped → events.map (·.visit) = p.stopOrder)

/-- What a call visits depends only on the places of the components. -/
theorem Proper.of_iff {q : Pipeline ι κ} (hplaces : SamePlaces p q)
    {started started' stopped stopped' : Prop} (hstarted : started ↔ started')
    (hstopped : stopped ↔ stopped') {e : Entry} (h : q.Proper started stopped e) :
    p.Proper started' stopped' e := by
  obtain ⟨call, events⟩ := e
  cases call with
  | start =>
    rw [Proper, hplaces.startOrder_eq, hstarted] at h
    exact h
  | process r => exact h
  | shutdown =>
    rw [Proper, hplaces.stopOrder_eq, hstopped] at h
    exact h

/-- All visits of a history, in order. -/
def visits (history : List Entry) : List Event := history.flatMap (·.events)

/-- The visits of a history that belong to a start. -/
def startups (history : List Entry) : List Event := (visits history).filter (·.visit.atStart)

/-- The visits of a history that belong to an end. -/
def windups (history : List Entry) : List Event := (visits history).filter (!·.visit.atStart)

/-- What is true of the visits of some kind that a first call makes is true of all visits of that
kind in a history, if no other call makes any. -/
theorem filter_visits_of_first {call : Call} {kind : Event → Bool} {P : List Event → Prop}
    {history : List Entry}
    (hfirst : ∀ past e rest, history = past ++ e :: rest → e.call = call →
      call ∉ past.map (·.call) → P (e.events.filter kind))
    (hother : ∀ past e rest, history = past ++ e :: rest →
      ¬ (e.call = call ∧ call ∉ past.map (·.call)) → e.events.filter kind = []) :
    (call ∈ history.map (·.call) → P ((visits history).filter kind)) ∧
      (call ∉ history.map (·.call) → (visits history).filter kind = []) := by
  induction history using List.reverseRecOn with
  | nil => exact ⟨fun h => (nomatch h), fun _ => rfl⟩
  | append_singleton past e ih =>
    have hpast := ih
      (fun a b c heq => hfirst a b (c ++ [e]) (by rw [heq]; simp))
      (fun a b c heq => hother a b (c ++ [e]) (by rw [heq]; simp))
    have hvisits : (visits (past ++ [e])).filter kind
        = (visits past).filter kind ++ e.events.filter kind := by
      simp [visits]
    rw [hvisits, List.map_append, List.mem_append]
    -- the last call is the first of its kind, or it makes no such visits
    by_cases h : e.call = call ∧ call ∉ past.map (·.call)
    · obtain ⟨hcall, hnew⟩ := h
      rw [hpast.2 hnew]
      exact ⟨fun _ => hfirst past e [] rfl hcall hnew, fun h => absurd (.inr (by simp [hcall])) h⟩
    · rw [hother past e [] rfl h, List.append_nil]
      refine ⟨fun hmem => hpast.1 ?_, fun hmem => hpast.2 fun hin => hmem (.inl hin)⟩
      rcases hmem with hin | hlast
      · exact hin
      · by_contra hnew
        exact h ⟨(List.mem_singleton.1 hlast).symm, hnew⟩

/-- All events of a proper start are visits at the start. -/
theorem Proper.atStart_of_start {started stopped : Prop} {events : List Event}
    (h : p.Proper started stopped ⟨.start, events⟩) {e : Event} (he : e ∈ events) :
    e.visit.atStart = true := by
  obtain ⟨hlater, hfirst⟩ := h
  by_cases hstarted : started
  · rw [hlater hstarted] at he
    cases he
  · exact atStart_of_mem_startOrder ((hfirst hstarted).inOrder.subset (List.mem_map_of_mem he))

/-- No event of a proper shutdown is a visit at the start. -/
theorem Proper.atStart_of_shutdown {started stopped : Prop} {events : List Event}
    (h : p.Proper started stopped ⟨.shutdown, events⟩) {e : Event} (he : e ∈ events) :
    e.visit.atStart = false := by
  obtain ⟨hlater, hfirst⟩ := h
  by_cases hstopped : stopped
  · rw [hlater hstopped] at he
    cases he
  · exact atStart_of_mem_stopOrder (p := p) (hfirst hstopped ▸ List.mem_map_of_mem he)

/-- A call that is not the first start makes no visits that belong to a start. -/
theorem Proper.filter_atStart_eq_nil {started stopped : Prop} {e : Entry}
    (h : p.Proper started stopped e) (hnot : ¬ (e.call = .start ∧ ¬ started)) :
    e.events.filter (·.visit.atStart) = [] := by
  obtain ⟨call, events⟩ := e
  cases call with
  | start =>
    rw [h.1 (not_not.1 fun hnew => hnot ⟨rfl, hnew⟩)]
    rfl
  | process r =>
    rw [show events = [] from h]
    rfl
  | shutdown =>
    rw [List.filter_eq_nil_iff]
    intro e he
    rw [h.atStart_of_shutdown he]
    exact Bool.false_ne_true

section

variable {history : List Entry}
  (hproper : ∀ past e rest, history = past ++ e :: rest →
    p.Proper (.start ∈ past.map (·.call)) (.shutdown ∈ past.map (·.call)) e)

include hproper

/-- Over proper calls the places are started in order up to a failure if there was a start, and else
not at all. -/
theorem startups_of_proper :
    (.start ∈ history.map (·.call) → UpToFailure p.startOrder (startups history)) ∧
      (.start ∉ history.map (·.call) → startups history = []) := by
  refine filter_visits_of_first (P := UpToFailure p.startOrder) ?_ ?_
  · rintro past ⟨call, events⟩ rest heq rfl hnew
    have h := hproper past _ rest heq
    rw [List.filter_eq_self.2 fun e he => h.atStart_of_start he]
    exact h.2 hnew
  · rintro past e rest heq hnot
    exact (hproper past e rest heq).filter_atStart_eq_nil hnot

/-- Over proper calls all places are stopped in order if there was a shutdown, and else none. -/
theorem windups_of_proper :
    (.shutdown ∈ history.map (·.call) → (windups history).map (·.visit) = p.stopOrder) ∧
      (.shutdown ∉ history.map (·.call) → windups history = []) := by
  refine filter_visits_of_first (P := fun events => events.map (·.visit) = p.stopOrder) ?_ ?_
  · rintro past ⟨call, events⟩ rest heq rfl hnew
    have h := hproper past _ rest heq
    rw [List.filter_eq_self.2 fun e he => by rw [h.atStart_of_shutdown he]; rfl]
    exact h.2 hnew
  · rintro past ⟨call, events⟩ rest heq hnot
    have h := hproper past _ rest heq
    cases call with
    | start =>
      rw [List.filter_eq_nil_iff]
      intro e he
      rw [h.atStart_of_start he]
      exact Bool.false_ne_true
    | process r =>
      rw [show events = [] from h]
      rfl
    | shutdown =>
      have hin : Call.shutdown ∈ past.map (·.call) := not_not.1 fun hnew => hnot ⟨rfl, hnew⟩
      rw [h.1 hin]
      rfl

/-- Nothing is visited twice for the same reason. -/
theorem nodup_visits_of_proper : ((visits history).map (·.visit)).Nodup := by
  have hstart : ((startups history).map (·.visit)).Nodup := by
    by_cases hin : .start ∈ history.map (·.call)
    · exact ((startups_of_proper hproper).1 hin).inOrder.sublist.nodup p.nodup_startOrder
    · rw [(startups_of_proper hproper).2 hin]
      exact List.nodup_nil
  have hend : ((windups history).map (·.visit)).Nodup := by
    by_cases hin : .shutdown ∈ history.map (·.call)
    · rw [(windups_of_proper hproper).1 hin]
      exact p.nodup_stopOrder
    · rw [(windups_of_proper hproper).2 hin]
      exact List.nodup_nil
  have hperm : (startups history ++ windups history).Perm (visits history) :=
    List.filter_append_perm _ _
  rw [← (hperm.map _).nodup_iff, List.map_append, List.nodup_append]
  refine ⟨hstart, hend, ?_⟩
  rintro a ha b hb rfl
  obtain ⟨e, he, rfl⟩ := List.mem_map.1 ha
  obtain ⟨e', he', heq⟩ := List.mem_map.1 hb
  have hat := (List.mem_filter.1 he).2
  have hnot := (List.mem_filter.1 he').2
  rw [heq, hat] at hnot
  cases hnot

end

/-! ## Visiting -/

/-- Lets the stage at a place act. -/
def actAt? (act : ι → World → Except Failure Unit × ι × World) (i : Nat) (stages : List ι)
    (w : World) : Option (Except Failure Unit × List ι × World) :=
  stages[i]?.map fun s =>
    let (outcome, s, w) := act s w
    (outcome, stages.set i s, w)

/-- A stage acts in its place, and the others stay as they are. -/
theorem actAt?_append (act : ι → World → Except Failure Unit × ι × World) (done : List ι) (s : ι)
    (rest : List ι) (w : World) :
    actAt? act done.length (done ++ s :: rest) w
      = some ((act s w).1, done ++ (act s w).2.1 :: rest, (act s w).2.2) := by
  simp [actAt?]

variable [Hook κ]

/-- Runs the hook at a place. -/
def runAt? (hooks : List κ) (c : HookContext) (i : Nat) (stages : List ι) (w : World) :
    Option (Except Failure Unit × List ι × World) :=
  hooks[i]?.map fun h =>
    let (outcome, w) := Hook.run h c w
    (outcome, stages, w)

/-- A hook runs in its place, on the stages as they are. -/
theorem runAt?_append (done : List κ) (h : κ) (rest : List κ) (c : HookContext)
    (stages : List ι) (w : World) :
    runAt? (done ++ h :: rest) c done.length stages w
      = some ((Hook.run h c w).1, stages, (Hook.run h c w).2) := by
  simp [runAt?]

variable [Stage ι]

/-- What a visit gives, if its component is there, with the stages and the world after it. -/
def visit? (p : Pipeline ι κ) : Visit → List ι → World →
    Option (Except Failure Unit × List ι × World)
  | .preHook i => runAt? p.preHooks p.context i
  | .start i => actAt? Stage.onStart i
  | .stop i => actAt? Stage.onShutdown i
  | .postHook i => runAt? p.postHooks p.context i

/-- Visits lead from some stages and a world to others. -/
inductive Performs (p : Pipeline ι κ) :
    List ι → World → List Event → List ι → World → Prop
  | nil (stages : List ι) (w : World) : Performs p stages w [] stages w
  | cons {visit : Visit} {stages stages' stages'' : List ι} {w w' w'' : World}
    {outcome : Except Failure Unit} {events : List Event}
    (hvisit : p.visit? visit stages w = some (outcome, stages', w'))
    (h : Performs p stages' w' events stages'' w'') :
    Performs p stages w (⟨visit, outcome⟩ :: events) stages'' w''

/-- Events after events are performed one after another. -/
theorem Performs.append {p : Pipeline ι κ} {stages stages' stages'' : List ι} {w w' w'' : World}
    {before after : List Event} (h : p.Performs stages w before stages' w')
    (h' : p.Performs stages' w' after stages'' w'') :
    p.Performs stages w (before ++ after) stages'' w'' := by
  induction h with
  | nil => exact h'
  | cons hvisit _ ih => exact .cons hvisit (ih h')

/-- Visits that stop at the first that fails, with what they come to. -/
inductive Attempts (p : Pipeline ι κ) :
    List Visit → List ι → World → List Event → Except Failure Unit → List ι → World → Prop
  | done (stages : List ι) (w : World) : Attempts p [] stages w [] (.ok ()) stages w
  | failed {visit : Visit} {stages stages' : List ι} {w w' : World} {e : Failure}
    (hvisit : p.visit? visit stages w = some (.error e, stages', w')) (rest : List Visit) :
    Attempts p (visit :: rest) stages w [⟨visit, .error e⟩] (.error e) stages' w'
  | next {visit : Visit} {rest : List Visit} {stages stages' stages'' : List ι}
    {w w' w'' : World} {events : List Event} {outcome : Except Failure Unit}
    (hvisit : p.visit? visit stages w = some (.ok (), stages', w'))
    (h : Attempts p rest stages' w' events outcome stages'' w'') :
    Attempts p (visit :: rest) stages w (⟨visit, .ok ()⟩ :: events) outcome stages'' w''

namespace Attempts

variable {order more : List Visit} {stages stages' stages'' : List ι}
  {w w' w'' : World} {events after : List Event} {outcome : Except Failure Unit}

/-- What is attempted performs its events. -/
theorem performs (h : p.Attempts order stages w events outcome stages' w') :
    p.Performs stages w events stages' w' := by
  induction h with
  | done stages w => exact .nil stages w
  | failed hvisit => exact .cons hvisit (.nil _ _)
  | next hvisit _ ih => exact .cons hvisit ih

/-- What is attempted goes on in order up to a failure. -/
theorem upToFailure (h : p.Attempts order stages w events outcome stages' w') :
    UpToFailure order events := by
  induction h with
  | done => exact ⟨List.prefix_rfl, by simp, by simp⟩
  | failed _ rest => exact ⟨⟨rest, rfl⟩, by simp, by simp⟩
  | @next visit rest _ _ _ _ _ _ events _ _ _ ih =>
    refine ⟨List.prefix_cons_inj visit |>.2 ih.inOrder, ?_, ?_⟩
    · intro e he
      cases events with
      | nil => cases he
      | cons first events =>
        rcases List.mem_cons.1 he with rfl | he
        · rfl
        · exact ih.goOn e he
    · intro hlt
      obtain ⟨e, he, hfails⟩ := ih.ends (Nat.lt_of_succ_lt_succ hlt)
      refine ⟨e, ?_, hfails⟩
      rw [List.getLast?_cons, he]
      rfl

/-- The outcome of an attempt is that of its events. -/
theorem outcome_eq (h : p.Attempts order stages w events outcome stages' w') :
    outcome = conclusion events := by
  induction h with
  | done => rfl
  | failed => rfl
  | @next _ _ _ _ _ _ _ _ events _ _ _ ih =>
    rw [ih]
    cases events with
    | nil => rfl
    | cons => simp [conclusion, List.getLast?_cons_cons]

/-- Visits that all went well are followed by others. -/
theorem append (h : p.Attempts order stages w events (.ok ()) stages' w')
    (h' : p.Attempts more stages' w' after outcome stages'' w'') :
    p.Attempts (order ++ more) stages w (events ++ after) outcome stages'' w'' := by
  generalize hok : (Except.ok () : Except Failure Unit) = given at h
  induction h with
  | done => exact h'
  | failed => cases hok
  | next hvisit _ ih => exact .next hvisit (ih h' hok)

/-- After a visit that failed there are no others. -/
theorem append_of_error {e : Failure}
    (h : p.Attempts order stages w events (.error e) stages' w') (more : List Visit) :
    p.Attempts (order ++ more) stages w events (.error e) stages' w' := by
  generalize herror : (Except.error e : Except Failure Unit) = given at h
  induction h with
  | done => cases herror
  | failed hvisit rest =>
    obtain rfl := Except.error.inj herror
    exact .failed hvisit (rest ++ more)
  | next hvisit _ ih => exact .next hvisit (ih herror)

end Attempts

/-! ## Start and end -/

/-- The hooks behind those that are done are run up to the first that fails. -/
theorem exists_attempts_runHooks (rest done : List κ) (hhooks : p.preHooks = done ++ rest)
    (stages : List ι) (w : World) :
    ∃ events, p.Attempts ((List.range' done.length rest.length).map .preHook) stages w events
      (runHooks p.context rest w).1 stages (runHooks p.context rest w).2 := by
  induction rest generalizing done w with
  | nil => exact ⟨[], .done stages w⟩
  | cons h rest ih =>
    have hvisit : p.visit? (.preHook done.length) stages w
        = some ((Hook.run h p.context w).1, stages, (Hook.run h p.context w).2) := by
      rw [visit?, hhooks, runAt?_append]
    rw [map_range'_length _ done h h, runHooks]
    rcases hrun : Hook.run h p.context w with ⟨outcome, w'⟩
    rw [hrun] at hvisit
    cases outcome with
    | error e => exact ⟨_, .failed hvisit _⟩
    | ok =>
      obtain ⟨events, hevents⟩ := ih (done ++ [h]) (by simp [hhooks]) w'
      exact ⟨_, .next hvisit hevents⟩

/-- The stages behind those that are done are started up to the first that fails. -/
theorem exists_attempts_start_chain (p : Pipeline ι κ) (rest done : List ι) (w : World) :
    ∃ events, p.Attempts ((List.range' done.length rest.length).map .start) (done ++ rest) w events
      (Chain.start rest w).1 (done ++ (Chain.start rest w).2.1) (Chain.start rest w).2.2 := by
  induction rest generalizing done w with
  | nil => exact ⟨[], .done _ w⟩
  | cons s rest ih =>
    have hvisit : p.visit? (.start done.length) (done ++ s :: rest) w
        = some ((Stage.onStart s w).1, done ++ (Stage.onStart s w).2.1 :: rest,
            (Stage.onStart s w).2.2) := by
      rw [visit?, actAt?_append]
    rcases hact : Stage.onStart s w with ⟨outcome, s', w'⟩
    rw [map_range'_length _ done s s', Chain.start, hact]
    rw [hact] at hvisit
    cases outcome with
    | error e => exact ⟨_, .failed hvisit _⟩
    | ok =>
      obtain ⟨events, hevents⟩ := ih (done ++ [s']) w'
      rw [List.append_assoc, List.singleton_append, List.append_assoc, List.singleton_append]
        at hevents
      exact ⟨_, .next hvisit hevents⟩

/-- The stages behind those that are done are all shut down. -/
theorem exists_performs_shutdown_chain (p : Pipeline ι κ) (rest done : List ι) (w : World) :
    ∃ events, p.Performs (done ++ rest) w events (done ++ (Chain.shutdown rest w).1)
        (Chain.shutdown rest w).2 ∧
      events.map (·.visit) = (List.range' done.length rest.length).map .stop := by
  induction rest generalizing done w with
  | nil => exact ⟨[], .nil _ w, rfl⟩
  | cons s rest ih =>
    have hvisit : p.visit? (.stop done.length) (done ++ s :: rest) w
        = some ((Stage.onShutdown s w).1, done ++ (Stage.onShutdown s w).2.1 :: rest,
            (Stage.onShutdown s w).2.2) := by
      rw [visit?, actAt?_append]
    rw [Chain.shutdown, map_range'_length _ done s (Stage.onShutdown s w).2.1]
    obtain ⟨events, hevents, hvisits⟩ :=
      ih (done ++ [(Stage.onShutdown s w).2.1]) (Stage.onShutdown s w).2.2
    rw [List.append_assoc, List.singleton_append, List.append_assoc, List.singleton_append]
      at hevents
    exact ⟨_, .cons hvisit hevents, congrArg _ hvisits⟩

/-- The hooks behind those that are done are all run. -/
theorem exists_performs_runAllHooks (rest done : List κ) (hhooks : p.postHooks = done ++ rest)
    (stages : List ι) (w : World) :
    ∃ events, p.Performs stages w events stages (runAllHooks p.context rest w) ∧
      events.map (·.visit) = (List.range' done.length rest.length).map .postHook := by
  induction rest generalizing done w with
  | nil => exact ⟨[], .nil _ w, rfl⟩
  | cons h rest ih =>
    have hvisit : p.visit? (.postHook done.length) stages w
        = some ((Hook.run h p.context w).1, stages, (Hook.run h p.context w).2) := by
      rw [visit?, hhooks, runAt?_append]
    rw [runAllHooks, map_range'_length _ done h h]
    obtain ⟨events, hevents, hvisits⟩ :=
      ih (done ++ [h]) (by simp [hhooks]) (Hook.run h p.context w).2
    exact ⟨_, .cons hvisit hevents, congrArg _ hvisits⟩

/-- The first start visits up to the first failure. -/
theorem exists_attempts_start (hstarted : p.started = false) (w : World) :
    ∃ events, p.Attempts p.startOrder p.stages w events (p.start w).1 (p.start w).2.1.stages
      (p.start w).2.2 := by
  obtain ⟨before, hbefore⟩ := exists_attempts_runHooks p.preHooks [] rfl p.stages w
  rw [start, hstarted, startOrder, List.range_eq_range', List.range_eq_range']
  rcases hrun : runHooks p.context p.preHooks w with ⟨outcome, w'⟩
  rw [hrun] at hbefore
  -- the stages are started only if all hooks went well
  cases outcome with
  | error e =>
    simp only [hrun]
    exact ⟨before, hbefore.append_of_error _⟩
  | ok =>
    obtain ⟨after, hafter⟩ := exists_attempts_start_chain p p.stages [] w'
    simp only [hrun]
    exact ⟨before ++ after, hbefore.append hafter⟩

/-- The first end visits everything. -/
theorem exists_performs_shutdown (hstopped : p.stopped = false) (w : World) :
    ∃ events, p.Performs p.stages w events (p.shutdown w).1.stages (p.shutdown w).2 ∧
      events.map (·.visit) = p.stopOrder := by
  obtain ⟨before, hbefore, hstops⟩ := exists_performs_shutdown_chain p p.stages [] w
  obtain ⟨after, hafter, hhooks⟩ := exists_performs_runAllHooks p.postHooks [] rfl
    (Chain.shutdown p.stages w).1 (Chain.shutdown p.stages w).2
  rw [shutdown, hstopped, stopOrder, List.range_eq_range', List.range_eq_range']
  refine ⟨before ++ after, hbefore.append hafter, ?_⟩
  rw [List.map_append, hstops, hhooks]
  rfl

/-- Visits leave as many stages as there were. -/
theorem Performs.length_eq {stages stages' : List ι} {w w' : World} {events : List Event}
    (h : p.Performs stages w events stages' w') : stages'.length = stages.length := by
  induction h with
  | nil => rfl
  | @cons visit _ _ _ _ _ _ _ _ hvisit _ ih =>
    rw [ih]
    cases visit with
    | preHook i =>
      obtain ⟨h, -, heq⟩ := Option.map_eq_some_iff.1 hvisit
      rw [← (Prod.mk.inj (Prod.mk.inj heq).2).1]
    | start i =>
      obtain ⟨s, -, heq⟩ := Option.map_eq_some_iff.1 hvisit
      rw [← (Prod.mk.inj (Prod.mk.inj heq).2).1, List.length_set]
    | stop i =>
      obtain ⟨s, -, heq⟩ := Option.map_eq_some_iff.1 hvisit
      rw [← (Prod.mk.inj (Prod.mk.inj heq).2).1, List.length_set]
    | postHook i =>
      obtain ⟨h, -, heq⟩ := Option.map_eq_some_iff.1 hvisit
      rw [← (Prod.mk.inj (Prod.mk.inj heq).2).1]

/-! ## Calls -/

/-- The pipeline and the world after a call. -/
def Call.perform (ask : Request → World → Except Failure Response × World) :
    Call → Pipeline ι κ → World → Pipeline ι κ × World
  | .start, p, w => (p.start w).2
  | .process r, p, w => (p.process ask r w).2
  | .shutdown, p, w => p.shutdown w

/-- What a call did. A start or an end did nothing but its visits, and a start gives what they come
to. A call for the chain made no visits and did nothing but what a trace of the chain lists. -/
def Accounts (ask : Request → World → Except Failure Response × World) (p : Pipeline ι κ)
    (w : World) : Call → List Event → Prop
  | .start, events =>
    p.Performs p.stages w events (p.start w).2.1.stages (p.start w).2.2 ∧
      (p.start w).1 = conclusion events
  | .process r, events =>
    events = [] ∧ ∃ t : Chain.Trace ι, t.Follows ask p.stages r w
      ((p.process ask r w).1, (p.process ask r w).2.1.stages, (p.process ask r w).2.2)
  | .shutdown, events => p.Performs p.stages w events (p.shutdown w).1.stages (p.shutdown w).2

/-- A history says of each call of a run what it did. -/
inductive Recounts (ask : Request → World → Except Failure Response × World) :
    Pipeline ι κ → World → List Entry → Prop
  | nil (p : Pipeline ι κ) (w : World) : Recounts ask p w []
  | cons {p : Pipeline ι κ} {w : World} {call : Call} {events : List Event} {rest : List Entry}
    (h : p.Accounts ask w call events)
    (hrest : Recounts ask (call.perform ask p w).1 (call.perform ask p w).2 rest) :
    Recounts ask p w (⟨call, events⟩ :: rest)

variable {ask : Request → World → Except Failure Response × World} {w : World}

/-- Any call can be accounted for by visits that are its due: the first of its kind makes all that
it can, a later one makes none. -/
theorem exists_accounts (ask : Request → World → Except Failure Response × World)
    (p : Pipeline ι κ) (w : World) (call : Call) :
    ∃ events, p.Accounts ask w call events ∧
      p.Proper (p.started = true) (p.stopped = true) ⟨call, events⟩ := by
  cases call with
  | start =>
    cases hstarted : p.started with
    | true =>
      refine ⟨[], ?_, fun _ => rfl, fun h => absurd rfl h⟩
      have hstart : p.start w = (.ok (), p, w) := by rw [start, if_pos hstarted]
      rw [Accounts, hstart]
      exact ⟨.nil _ _, rfl⟩
    | false =>
      obtain ⟨events, hevents⟩ := exists_attempts_start hstarted w
      exact ⟨events, ⟨hevents.performs, hevents.outcome_eq⟩, nofun,
        fun _ => hevents.upToFailure⟩
  | process r => exact ⟨[], ⟨rfl, Chain.exists_follows ask p.stages r w⟩, rfl⟩
  | shutdown =>
    cases hstopped : p.stopped with
    | true =>
      refine ⟨[], ?_, fun _ => rfl, fun h => absurd rfl h⟩
      have hshutdown : p.shutdown w = (p, w) := by rw [shutdown, if_pos hstopped]
      rw [Accounts, hshutdown]
      exact .nil _ _
    | false =>
      obtain ⟨events, hevents, hvisits⟩ := exists_performs_shutdown hstopped w
      exact ⟨events, hevents, nofun, fun _ => hvisits⟩

/-! ## Runs -/

/-- A start marks the pipeline as started and changes stages. -/
theorem start_eq (p : Pipeline ι κ) (w : World) :
    (p.start w).2.1 = { p with stages := (p.start w).2.1.stages, started := true } := by
  obtain ⟨stages, preHooks, postHooks, context, started, stopped⟩ := p
  cases started with
  | true => rfl
  | false =>
    rw [start, if_neg Bool.false_ne_true]
    dsimp only
    split
    · rfl
    · rfl

/-- An end marks the pipeline as shut down and changes stages. -/
theorem shutdown_eq (p : Pipeline ι κ) (w : World) :
    (p.shutdown w).1 = { p with stages := (p.shutdown w).1.stages, stopped := true } := by
  obtain ⟨stages, preHooks, postHooks, context, started, stopped⟩ := p
  cases stopped with
  | true => rfl
  | false => rfl

/-- A call marks a pipeline as started exactly if it is a start. -/
theorem started_perform (call : Call) (p : Pipeline ι κ) (w : World) :
    (call.perform ask p w).1.started = true ↔ p.started = true ∨ .start = call := by
  cases call with
  | start =>
    rw [Call.perform, start_eq]
    simp
  | process r => simp [Call.perform, process]
  | shutdown =>
    rw [Call.perform, shutdown_eq]
    simp

/-- A call marks a pipeline as stopped exactly if it is a shutdown. -/
theorem stopped_perform (call : Call) (p : Pipeline ι κ) (w : World) :
    (call.perform ask p w).1.stopped = true ↔ p.stopped = true ∨ .shutdown = call := by
  cases call with
  | start =>
    rw [Call.perform, start_eq]
    simp
  | process r => simp [Call.perform, process]
  | shutdown =>
    rw [Call.perform, shutdown_eq]
    simp

/-- A call leaves all places of a pipeline. -/
theorem samePlaces_perform (call : Call) (p : Pipeline ι κ) (w : World) :
    SamePlaces p (call.perform ask p w).1 := by
  obtain ⟨events, haccounts, -⟩ := exists_accounts ask p w call
  cases call with
  | start =>
    have hlength := haccounts.1.length_eq
    rw [Call.perform, start_eq]
    exact ⟨rfl, hlength, rfl⟩
  | process r =>
    have hlength := congrArg List.length
      (Chain.map_process (f := fun _ => ()) (fun _ _ _ => rfl) (fun _ _ _ => rfl) ask p.stages r w)
    rw [List.length_map, List.length_map] at hlength
    exact ⟨rfl, hlength, rfl⟩
  | shutdown =>
    have hlength := Performs.length_eq haccounts
    rw [Call.perform, shutdown_eq]
    exact ⟨rfl, hlength, rfl⟩

/-- Every run has a history in which each call visits what it may after the calls before it. -/
theorem exists_recounts (ask : Request → World → Except Failure Response × World)
    (p : Pipeline ι κ) (w : World) (calls : List Call) :
    ∃ history : List Entry, history.map (·.call) = calls ∧ Recounts ask p w history ∧
      ∀ past e rest, history = past ++ e :: rest →
        p.Proper (p.started = true ∨ .start ∈ past.map (·.call))
          (p.stopped = true ∨ .shutdown ∈ past.map (·.call)) e := by
  induction calls generalizing p w with
  | nil => exact ⟨[], rfl, .nil p w, fun past _ _ h => by simp at h⟩
  | cons call calls ih =>
    obtain ⟨events, haccounts, hproper⟩ := exists_accounts ask p w call
    obtain ⟨history, hcalls, hrecounts, hlater⟩ :=
      ih (call.perform ask p w).1 (call.perform ask p w).2
    refine ⟨⟨call, events⟩ :: history, by rw [List.map_cons, hcalls], .cons haccounts hrecounts, ?_⟩
    intro past e rest h
    cases past with
    | nil =>
      obtain ⟨rfl, -⟩ := List.cons.inj h
      simpa using hproper
    | cons first past =>
      obtain ⟨hfirst, hrest⟩ := List.cons.inj h
      subst hfirst
      -- what came before the later call is what came before it in the rest, and this call
      refine (hlater past e rest hrest).of_iff (samePlaces_perform call p w) ?_ ?_
      · rw [started_perform, List.map_cons, List.mem_cons, or_assoc]
      · rw [stopped_perform, List.map_cons, List.mem_cons, or_assoc]

/-- A pipeline that was just put together was neither started nor shut down. -/
theorem flags_of_assemble {stages : List ι} {preHooks postHooks : List κ} {directory : String}
    (h : assemble stages preHooks postHooks directory = .ok p) :
    p.started = false ∧ p.stopped = false := by
  rw [assemble] at h
  split at h
  · cases h
  · obtain rfl := Except.ok.inj h
    exact ⟨rfl, rfl⟩

/-- In a run of any calls, whatever fails, the components of a pipeline are visited at most once:
at the start in order and up to the first that fails, by the first call to start; at the end in
order and all of them, by the first call to shut down; by no other call. -/
theorem visits_once_in_order (ask : Request → World → Except Failure Response × World)
    {stages : List ι} {preHooks postHooks : List κ} {directory : String} {p : Pipeline ι κ}
    (h : assemble stages preHooks postHooks directory = .ok p) (w : World) (calls : List Call) :
    ∃ history : List Entry, history.map (·.call) = calls ∧ Recounts ask p w history ∧
      (∀ past e rest, history = past ++ e :: rest →
        p.Proper (.start ∈ past.map (·.call)) (.shutdown ∈ past.map (·.call)) e) ∧
      (.start ∈ calls → UpToFailure p.startOrder (startups history)) ∧
      (.start ∉ calls → startups history = []) ∧
      (.shutdown ∈ calls → (windups history).map (·.visit) = p.stopOrder) ∧
      (.shutdown ∉ calls → windups history = []) ∧
      ((visits history).map (·.visit)).Nodup := by
  obtain ⟨hstarted, hstopped⟩ := flags_of_assemble h
  obtain ⟨history, hcalls, hrecounts, hentries⟩ := exists_recounts ask p w calls
  have hproper : ∀ past e rest, history = past ++ e :: rest →
      p.Proper (.start ∈ past.map (·.call)) (.shutdown ∈ past.map (·.call)) e := by
    intro past e rest heq
    exact (hentries past e rest heq).of_iff ⟨rfl, rfl, rfl⟩ (by simp [hstarted])
      (by simp [hstopped])
  obtain ⟨hstart, hnostart⟩ := startups_of_proper hproper
  obtain ⟨hend, hnoend⟩ := windups_of_proper hproper
  rw [hcalls] at hstart hnostart hend hnoend
  exact ⟨history, hcalls, hrecounts, hproper, hstart, hnostart, hend, hnoend,
    nodup_visits_of_proper hproper⟩

/-- Probes of which one fails when it is started, one when it is shut down, and one when it is
run. -/
def rehearsal : Pipeline Probe Probe where
  stages :=
    [⟨"first", ["stop"], none, none⟩, ⟨"second", ["start"], none, none⟩, ⟨"third", [], none, none⟩]
  preHooks := [⟨"before", [], none, none⟩]
  postHooks := [⟨"after", ["hook"], none, none⟩, ⟨"last", [], none, none⟩]
  context := ⟨"out", ["first", "second", "third", "before", "after", "last"]⟩
  started := false
  stopped := false

/-- Calls that come more than once and after the end. -/
def rehearsalCalls : List Call :=
  let r : Request := ⟨"POST", "/", [], .null, .arrived "a"⟩
  [.process r, .start, .start, .process r, .shutdown, .start, .shutdown]

/-- A pipeline that is started and shut down more than once visits its places once each way, in
order. -/
theorem visits_once_in_order_rehearsal :
    let w : World := .initial (fun _ => .ok ⟨200, [], []⟩) fun _ => true
    assemble rehearsal.stages rehearsal.preHooks rehearsal.postHooks "out" = .ok rehearsal ∧
    ∃ history : List Entry, history.map (·.call) = rehearsalCalls ∧
      Recounts World.askModel rehearsal w history ∧
      UpToFailure [.preHook 0, .start 0, .start 1, .start 2] (startups history) ∧
      (windups history).map (·.visit) = [.stop 0, .stop 1, .stop 2, .postHook 0, .postHook 1] := by
  intro w
  have hassemble : assemble rehearsal.stages rehearsal.preHooks rehearsal.postHooks "out"
      = .ok rehearsal := rfl
  obtain ⟨history, hcalls, hrecounts, -, hstart, -, hend, -, -⟩ :=
    visits_once_in_order World.askModel hassemble w rehearsalCalls
  exact ⟨hassemble, history, hcalls, hrecounts, hstart (by simp [rehearsalCalls]),
    hend (by simp [rehearsalCalls])⟩

example :
    let w : World := .initial (fun _ => .ok ⟨200, [], []⟩) fun _ => true
    let calls : List Call := [.start, .start, .shutdown, .start, .shutdown]
    let run := calls.foldl (fun (p, w) call => call.perform World.askModel p w) (rehearsal, w)
    run.2.trace.reverse = ["hook:before", "start:first", "start:second", "stop:first",
      "stop:second", "stop:third", "hook:after", "hook:last"] := by
  decide

end EvalProxy.Pipeline
