/-
# Counting events

The amounts that a family of samples holds under labels are as many as the observations of the
events so far: every event adds its own, and nothing else changes.

Main statements: `countWhere_cons`, `failureCount_failure`, `callsWhere_request`.
-/
import EvalProxy.Metrics
namespace EvalProxy.Metrics

/-- The number of amounts that samples hold under labels. -/
def amountsUnder (labels : List Label) : List Sample → Nat
  | [] => 0
  | s :: rest => (if s.labels = labels then s.amounts.length else 0) + amountsUnder labels rest

/-- What was counted under labels of a family. -/
def count (log : Log) (f : Family) (labels : List Label) : Nat :=
  amountsUnder labels (samples log f)

/-- The number of amounts that samples hold under labels of some kind. -/
def amountsWhere (p : List Label → Bool) : List Sample → Nat
  | [] => 0
  | s :: rest => (if p s.labels then s.amounts.length else 0) + amountsWhere p rest

/-- What was counted under labels of some kind of a family. -/
def countWhere (log : Log) (f : Family) (p : List Label → Bool) : Nat :=
  amountsWhere p (samples log f)

/-- What is counted under labels is what is counted under those that equal them. -/
theorem count_eq_countWhere (log : Log) (f : Family) (labels : List Label) :
    count log f labels = countWhere log f (· == labels) := by
  unfold count countWhere
  induction samples log f with
  | nil => rfl
  | cons s rest ih => simp [amountsUnder, amountsWhere, ih]

/-- An observation adds one amount under its own labels. -/
theorem amountsWhere_observe (p : List Label → Bool) (labels : List Label) (amount : Float)
    (ss : List Sample) :
    amountsWhere p (observe labels amount ss)
      = amountsWhere p ss + if p labels then 1 else 0 := by
  induction ss with
  | nil => simp [observe, amountsWhere]
  | cons s rest ih =>
    rw [observe]
    split
    · rename_i heq
      rw [amountsWhere, amountsWhere, ← heq]
      by_cases hlabels : p s.labels
      · simp [hlabels]
        omega
      · simp [hlabels]
    · split
      · rw [amountsWhere, List.length_singleton, Nat.add_comm]
      · rw [amountsWhere, ih, amountsWhere]
        omega

/-- Whether an observation is counted under labels of some kind of a family. -/
def Observation.isWhere (f : Family) (p : List Label → Bool) (o : Observation) : Bool :=
  o.family.name == f.name && p o.labels

/-- **Every event adds its own observations** to what was counted. -/
theorem countWhere_cons (e : Event) (log : Log) (f : Family) (p : List Label → Bool) :
    countWhere (e :: log) f p
      = countWhere log f p + e.observations.countP (·.isWhere f p) := by
  -- observations of other families pass the samples by
  have hfold (os : List Observation) (ss : List Sample) :
      amountsWhere p (os.foldl
          (fun acc o => if o.family.name = f.name then observe o.labels o.amount acc else acc) ss)
        = amountsWhere p ss + os.countP (·.isWhere f p) := by
    induction os generalizing ss with
    | nil => rfl
    | cons o os ih =>
      rw [List.foldl_cons, ih, List.countP_cons]
      by_cases hfamily : o.family.name = f.name
      · simp only [hfamily, if_true, amountsWhere_observe, Observation.isWhere, beq_self_eq_true,
          Bool.true_and]
        omega
      · simp [hfamily, Observation.isWhere]
  rw [countWhere, countWhere, samples, List.reverse_cons, List.flatMap_append, List.foldl_append,
    hfold]
  simp only [List.flatMap_cons, List.flatMap_nil, List.append_nil]
  rfl

/-! ## Failures -/

/-- How often an interceptor failed on a response. -/
def failureCount (log : Log) (name : String) : Nat := count log failures [("interceptor", name)]

/-- A failure is counted once, under the name of the interceptor. -/
theorem failureCount_failure (log : Log) (name name' : String) :
    failureCount (.failure name' :: log) name
      = failureCount log name + if name' = name then 1 else 0 := by
  rw [failureCount, failureCount, count_eq_countWhere, count_eq_countWhere, countWhere_cons]
  by_cases heq : name' = name
  · simp [Event.observations, Observation.isWhere, heq]
  · simp [Event.observations, Observation.isWhere, heq]

/-! ## Calls -/

/-- The calls that were counted under labels of some kind. -/
def callsWhere (log : Log) (p : List Label → Bool) : Nat := countWhere log requests p

/-- A call through the whole chain is counted once, under its status and where its response is
from. -/
theorem callsWhere_request (status : Nat) (cached : Bool) (seconds : Float) (log : Log)
    (p : List Label → Bool) :
    callsWhere (.request status cached seconds :: log) p = callsWhere log p +
      if p [("cached", flagText cached), ("status_code", toString status)] then 1 else 0 := by
  rw [callsWhere, countWhere_cons, callsWhere]
  simp [Event.observations, Observation.isWhere, List.countP_cons, requests, requestDuration]

/-- The same calls were counted. -/
def SameCalls (log log' : Log) : Prop := ∀ p, callsWhere log' p = callsWhere log p

theorem SameCalls.refl (log : Log) : SameCalls log log := fun _ => rfl

theorem SameCalls.trans {l₁ l₂ l₃ : Log} (h : SameCalls l₁ l₂) (h' : SameCalls l₂ l₃) :
    SameCalls l₁ l₃ := fun p => (h' p).trans (h p)

/-- Nothing but a call is counted as one. -/
theorem sameCalls_cons {e : Event}
    (he : ∀ status cached seconds, e ≠ .request status cached seconds) (log : Log) :
    SameCalls log (e :: log) := by
  intro p
  rw [callsWhere, countWhere_cons, callsWhere]
  cases e with
  | request status cached seconds => exact absurd rfl (he status cached seconds)
  | _ =>
    simp [Event.observations, Observation.isWhere, requests, modelCalls, modelDuration,
      cacheOperations, savesSkipped, progressReports, failures]

end EvalProxy.Metrics
