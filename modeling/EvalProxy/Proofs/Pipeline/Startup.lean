/-
# What a start that gives no failure has done

A start goes well the first time exactly if every hook before the evaluation and every stage did.
Any later start goes well whatever became of the first, for it visits nothing. So a start that goes
well has all components started behind it exactly if no start before it failed.

Main definitions: `startAfter`, `Chronicles`, `AllStarted`.
Main statements: `UpToFailure.conclusion_eq_ok_iff`, `startups_eq_of_first`,
`all_started_iff_none_failed`.
-/
import EvalProxy.Interceptor
import EvalProxy.Proofs.Pipeline.Lifecycle
namespace EvalProxy.Pipeline

variable {ι κ : Type}

/-! ## Visits of a start -/

/-- The conclusion of events is the outcome of the last one. -/
theorem conclusion_concat (events : List Event) (last : Event) :
    conclusion (events ++ [last]) = last.outcome := by
  rw [conclusion, List.getLast?_concat]
  rfl

/-- Visits up to the first failure come to no failure exactly if each that was to be made was made
and went well. -/
theorem UpToFailure.conclusion_eq_ok_iff {order : List Visit} {events : List Event}
    (h : UpToFailure order events) (hnodup : order.Nodup) :
    conclusion events = .ok () ↔ ∀ v ∈ order, ⟨v, .ok ()⟩ ∈ events := by
  obtain ⟨hinOrder, hgoOn, hends⟩ := h
  rcases List.eq_nil_or_concat events with rfl | ⟨init, last, rfl⟩
  · refine ⟨fun _ v hv => ?_, fun _ => rfl⟩
    obtain ⟨e, he, -⟩ := hends (List.length_pos_of_mem hv)
    cases he
  · rw [List.concat_eq_append] at *
    rw [conclusion_concat]
    rw [List.dropLast_concat] at hgoOn
    constructor
    · intro hok v hv
      -- the last visit went well, so the order was not left early
      have hlength : order.length ≤ (init ++ [last]).length := by
        refine Nat.le_of_not_lt fun hlt => ?_
        obtain ⟨e, he, hfails⟩ := hends hlt
        rw [List.getLast?_concat] at he
        exact hfails (Option.some.inj he ▸ hok)
      have horder := hinOrder.eq_of_length_le (by rwa [List.length_map])
      rw [← horder] at hv
      obtain ⟨e, he, rfl⟩ := List.mem_map.1 hv
      have houtcome : e.outcome = .ok () := by
        rcases List.mem_append.1 he with hinit | hlast
        · exact hgoOn e hinit
        · rw [List.mem_singleton.1 hlast]
          exact hok
      rwa [← houtcome]
    · intro hall
      have hmem : last.visit ∈ order := hinOrder.subset (by simp)
      rcases List.mem_append.1 (hall _ hmem) with hinit | hlast
      · -- no visit is made twice
        have hvisits := hinOrder.sublist.nodup hnodup
        rw [List.map_append, List.nodup_append] at hvisits
        exact absurd rfl
          (hvisits.2.2 last.visit (List.mem_map.2 ⟨_, hinit, rfl⟩) last.visit (by simp))
      · rw [← List.mem_singleton.1 hlast]

/-! ## The first start -/

/-- The visits at the start are those of the entries before, of an entry and of those behind it. -/
theorem startups_split (past : List Entry) (e : Entry) (rest : List Entry) :
    startups (past ++ e :: rest)
      = startups past ++ (e.events.filter (·.visit.atStart) ++ startups rest) := by
  simp [startups, visits]

/-- Entries without visits at the start have none together. -/
theorem startups_eq_nil {history : List Entry}
    (h : ∀ e ∈ history, e.events.filter (·.visit.atStart) = []) : startups history = [] := by
  rw [startups, visits, List.filter_flatMap, List.flatMap_eq_nil_iff]
  exact h

/-- All visits of a history that belong to a start are those of the first one. -/
theorem startups_eq_of_first {p : Pipeline ι κ} {history past rest : List Entry} {e : Entry}
    (hproper : ∀ past e rest, history = past ++ e :: rest →
      p.Proper (.start ∈ past.map (·.call)) (.shutdown ∈ past.map (·.call)) e)
    (heq : history = past ++ e :: rest) (hcall : e.call = .start)
    (hnew : .start ∉ past.map (·.call)) : startups history = e.events := by
  have hbefore : startups past = [] := by
    refine startups_eq_nil fun e' he' => ?_
    obtain ⟨a, b, rfl⟩ := List.append_of_mem he'
    refine (hproper a e' (b ++ e :: rest) (by simp [heq])).filter_atStart_eq_nil fun hfirst => ?_
    exact hnew (hfirst.1 ▸ List.mem_map_of_mem he')
  have hafter : startups rest = [] := by
    refine startups_eq_nil fun e' he' => ?_
    obtain ⟨a, b, rfl⟩ := List.append_of_mem he'
    refine (hproper (past ++ e :: a) e' b (by simp [heq])).filter_atStart_eq_nil fun hfirst => ?_
    exact hfirst.2 (by simp [hcall])
  obtain ⟨call, events⟩ := e
  obtain rfl : call = .start := hcall
  have hthis : events.filter (·.visit.atStart) = events :=
    List.filter_eq_self.2 fun e' he' => (hproper past _ rest heq).atStart_of_start he'
  rw [heq, startups_split, hbefore, hafter, hthis, List.nil_append, List.append_nil]

/-! ## Starts after other calls -/

variable [Stage ι] [Hook κ]

/-- The pipeline and the world after some calls. -/
def after (ask : Request → World → Except Failure Response × World) (calls : List Call)
    (p : Pipeline ι κ) (w : World) : Pipeline ι κ × World :=
  calls.foldl (fun s call => call.perform ask s.1 s.2) (p, w)

/-- What a start gives after some calls. -/
def startAfter (ask : Request → World → Except Failure Response × World) (calls : List Call)
    (p : Pipeline ι κ) (w : World) : Except Failure Unit :=
  ((after ask calls p w).1.start (after ask calls p w).2).1

/-- A history says of each of some calls what it did, and each made the visits that were due. -/
structure Chronicles (ask : Request → World → Except Failure Response × World)
    (p : Pipeline ι κ) (w : World) (calls : List Call) (history : List Entry) : Prop where
  calls : history.map (·.call) = calls
  recounts : Recounts ask p w history
  proper : ∀ past e rest, history = past ++ e :: rest →
    p.Proper (.start ∈ past.map (·.call)) (.shutdown ∈ past.map (·.call)) e

/-- Every hook before the evaluation was run, every stage was started, and none of them failed. -/
def AllStarted (p : Pipeline ι κ) (history : List Entry) : Prop :=
  ∀ v ∈ p.startOrder, ⟨v, .ok ()⟩ ∈ visits history

variable {ask : Request → World → Except Failure Response × World} {p : Pipeline ι κ} {w : World}
  {calls : List Call} {history past rest : List Entry} {e : Entry}

/-- A pipeline counts as started after some calls if it did before or one of them was a start. -/
theorem started_after (ask : Request → World → Except Failure Response × World)
    (calls : List Call) (p : Pipeline ι κ) (w : World) :
    (after ask calls p w).1.started = true ↔ p.started = true ∨ .start ∈ calls := by
  induction calls generalizing p w with
  | nil => simp [after]
  | cons call calls ih =>
    rw [after, List.foldl_cons, ← after, ih, started_perform, List.mem_cons, or_assoc]

/-- A start after another start goes well, whatever became of that one. -/
theorem startAfter_of_mem (h : .start ∈ calls) (p : Pipeline ι κ) (w : World) :
    startAfter ask calls p w = .ok () := by
  rw [startAfter, start, if_pos ((started_after ask calls p w).2 (.inr h))]

/-- Every run of a new pipeline has a history. -/
theorem exists_chronicles {stages : List ι} {preHooks postHooks : List κ} {directory : String}
    (h : assemble stages preHooks postHooks directory = .ok p) (w : World) (calls : List Call) :
    ∃ history, Chronicles ask p w calls history := by
  obtain ⟨hstarted, hstopped⟩ := flags_of_assemble h
  obtain ⟨history, hcalls, hrecounts, hproper⟩ := exists_recounts ask p w calls
  refine ⟨history, hcalls, hrecounts, fun past e rest heq => ?_⟩
  exact (hproper past e rest heq).of_iff ⟨rfl, rfl, rfl⟩ (by simp [hstarted]) (by simp [hstopped])

/-- What a history says of a call is what that call did. -/
theorem Recounts.accounts (h : Recounts ask p w history) (heq : history = past ++ e :: rest) :
    (after ask (past.map (·.call)) p w).1.Accounts ask (after ask (past.map (·.call)) p w).2
      e.call e.events := by
  induction past generalizing p w history with
  | nil =>
    subst heq
    cases h with
    | cons haccounts _ => exact haccounts
  | cons first past ih =>
    subst heq
    cases h with
    | cons _ hrest => exact ih hrest rfl

namespace Chronicles

/-- Each call has its place in a history. -/
theorem exists_split {before later : List Call} {call : Call}
    (h : Chronicles ask p w (before ++ call :: later) history) :
    ∃ past e rest, history = past ++ e :: rest ∧ past.map (·.call) = before ∧ e.call = call := by
  obtain ⟨past, others, rfl, hbefore, hothers⟩ := List.map_eq_append_iff.1 h.calls
  obtain ⟨e, rest, rfl, hcall, -⟩ := List.map_eq_cons_iff.1 hothers
  exact ⟨past, e, rest, rfl, hbefore, hcall⟩

/-- **All components are started** in a history exactly if its first start goes well. -/
theorem allStarted_iff {before later : List Call}
    (h : Chronicles ask p w (before ++ .start :: later) history) (hnew : .start ∉ before) :
    AllStarted p history ↔ startAfter ask before p w = .ok () := by
  obtain ⟨past, ⟨call, events⟩, rest, heq, rfl, rfl⟩ := h.exists_split
  have hvisits (v : Visit) (hv : v ∈ p.startOrder) :
      (⟨v, .ok ()⟩ : Event) ∈ visits history ↔ ⟨v, .ok ()⟩ ∈ events := by
    have hstartups : startups history = events := startups_eq_of_first h.proper heq rfl hnew
    rw [← hstartups, startups, List.mem_filter]
    exact (and_iff_left (atStart_of_mem_startOrder hv)).symm
  have hconclusion : startAfter ask (past.map (·.call)) p w = conclusion events :=
    (h.recounts.accounts heq).2
  rw [AllStarted, forall₂_congr hvisits, hconclusion]
  exact (((h.proper past _ rest heq).2 hnew).conclusion_eq_ok_iff p.nodup_startOrder).symm

end Chronicles

/-- **A start that goes well has started everything, unless a start before it failed.** After any
calls, whatever fails, a start goes well exactly if there was a start before it or all components
are started with it; and if it goes well, all components are started exactly if each start before it
went well. -/
theorem all_started_iff_none_failed (ask : Request → World → Except Failure Response × World)
    {stages : List ι} {preHooks postHooks : List κ} {directory : String} {p : Pipeline ι κ}
    (h : assemble stages preHooks postHooks directory = .ok p) (w : World) (calls : List Call) :
    (∃ history, Chronicles ask p w (calls ++ [.start]) history) ∧
    ∀ history, Chronicles ask p w (calls ++ [.start]) history →
      (startAfter ask calls p w = .ok () ↔ .start ∈ calls ∨ AllStarted p history) ∧
      (startAfter ask calls p w = .ok () →
        (AllStarted p history ↔
          ∀ before later, calls = before ++ .start :: later →
            startAfter ask before p w = .ok ())) := by
  refine ⟨exists_chronicles h w _, fun history hhistory => ?_⟩
  by_cases hmem : .start ∈ calls
  · refine ⟨⟨fun _ => .inl hmem, fun _ => startAfter_of_mem hmem p w⟩, fun _ => ⟨?_, ?_⟩⟩
    · rintro hall before later rfl
      -- of the starts before, only the first can fail
      by_cases hagain : .start ∈ before
      · exact startAfter_of_mem hagain p w
      · rw [List.append_assoc] at hhistory
        exact (hhistory.allStarted_iff hagain).1 hall
    · intro hwell
      obtain ⟨before, later, rfl, hnew⟩ := List.eq_append_cons_of_mem hmem
      rw [List.append_assoc] at hhistory
      exact (hhistory.allStarted_iff hnew).2 (hwell before later rfl)
  · have hiff := hhistory.allStarted_iff hmem
    refine ⟨⟨fun hok => .inr (hiff.2 hok), fun hor => hiff.1 (hor.resolve_left hmem)⟩, ?_⟩
    intro hok
    refine ⟨fun _ before later heq => absurd ?_ hmem, fun _ => hiff.2 hok⟩
    simp [heq]

/-- Of two starts the first one starts a stage and a hook that do not fail, and all are started. -/
theorem all_started_iff_none_failed_twice :
    let w : World := .initial (fun _ => .ok ⟨200, [], []⟩) fun _ => true
    let stage : Probe := ⟨"stage", ["stop"], none, none⟩
    let hook : Probe := ⟨"hook", [], none, none⟩
    let p : Pipeline Probe Probe :=
      ⟨[stage], [hook], [], ⟨"out", ["stage", "hook"]⟩, false, false⟩
    assemble [stage] [hook] [] "out" = .ok p ∧
      startAfter World.askModel [.start] p w = .ok () ∧
      ∃ history, Chronicles World.askModel p w [.start, .start] history ∧ AllStarted p history := by
  intro w stage hook p
  have hassemble : assemble [stage] [hook] [] "out" = .ok p := rfl
  have hagain : startAfter World.askModel [.start] p w = .ok () := startAfter_of_mem (by simp) p w
  obtain ⟨⟨history, hhistory⟩, hall⟩ :=
    all_started_iff_none_failed World.askModel hassemble w [.start]
  refine ⟨hassemble, hagain, history, hhistory, ((hall history hhistory).2 hagain).2 ?_⟩
  -- the only start before is the first call, and nothing fails in it
  intro before later heq
  cases before with
  | nil => rfl
  | cons call before => simp at heq

/-- A recorder cannot go on from a state file that is no JSON. The first start says so; the second
one goes well all the same, and nothing was loaded. -/
theorem start_well_unloaded :
    let recorder : Stats.Recorder := .fresh ⟨some "s", none, true, true, true, 0⟩ "out"
    let tree := (Files.Tree.empty.withNode ["s"] .directory).withNode ["s", "response_stats.json"]
      (.file (Text.encode "damaged"))
    let w : World := { World.initial (fun _ => .ok ⟨200, [], []⟩) fun _ => true with tree := tree }
    let p : Pipeline Interceptor LifecycleHook :=
      ⟨[.stats recorder], [], [], ⟨"out", ["response_stats"]⟩, false, false⟩
    assemble [.stats recorder] [] [] "out" = .ok p ∧
      (∃ e, startAfter World.askModel [] p w = .error e) ∧
      startAfter World.askModel [.start] p w = .ok () ∧
      ∀ history, Chronicles World.askModel p w [.start, .start] history →
        ¬ AllStarted p history := by
  intro recorder tree w p
  have hcorrupt : (recorder.load tree).isOk = false := by decide +kernel
  have hfirst : ∃ e, startAfter World.askModel [] p w = .error e := by
    cases hload : recorder.load tree with
    | ok loaded =>
      rw [hload] at hcorrupt
      cases hcorrupt
    | error e =>
      have honStart : Stage.onStart (Interceptor.stats recorder) w
          = (.error e, .stats recorder, w) := by
        show Interceptor.wrap .stats (recorder.onStart w) = _
        rw [Stats.Recorder.onStart, hload]
        rfl
      refine ⟨e, ?_⟩
      show (p.start w).1 = .error e
      rw [start, if_neg Bool.false_ne_true]
      simp only [p, runHooks, Chain.start, honStart]
  refine ⟨rfl, hfirst, startAfter_of_mem (by simp) p w, fun history hhistory hall => ?_⟩
  obtain ⟨e, he⟩ := hfirst
  have hiff : AllStarted p history ↔ startAfter World.askModel [] p w = .ok () :=
    hhistory.allStarted_iff List.not_mem_nil
  rw [he] at hiff
  cases hiff.1 hall

end EvalProxy.Pipeline
