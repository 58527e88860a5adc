/-
# What the time for a comparison changes

A comparison looks at the clock once in every round of its searches. How many rounds it takes is
settled by what it compares, and with patience for these it finds what it finds without a limit.

Main definition: `Costs`.
Main statements: `exists_costs_meetingPoint`, `exists_costs_bisect`, `exists_patience`.
-/
import EvalProxy.Diff.Unified
namespace EvalProxy.Diff

variable {α β γ : Type}

/-! ## Costs -/

/-- With patience for so many rounds something comes out as it does without a limit, and the rest of
the patience is left. -/
structure Costs (f : Option Nat → β × Option Nat) (cost : Nat) : Prop where
  unlimited : f none = ((f none).1, none)
  limited : ∀ n, f (some (n + cost)) = ((f none).1, some n)

/-- What takes no time costs nothing. -/
theorem costs_zero (v : β) : Costs (fun patience => (v, patience)) 0 := ⟨rfl, fun _ => rfl⟩

/-- One thing after another costs what both cost. -/
theorem Costs.bind {f : Option Nat → β × Option Nat} {cost : Nat} (hf : Costs f cost)
    {g : β → Option Nat → γ × Option Nat} {cost' : Nat} (hg : Costs (g (f none).1) cost') :
    Costs (fun patience => g (f patience).1 (f patience).2) (cost' + cost) := by
  obtain ⟨hunlimited, hlimited⟩ := hf
  refine ⟨?_, fun n => ?_⟩
  · rw [hunlimited]
    exact hg.unlimited
  · rw [← Nat.add_assoc, hlimited, hunlimited]
    exact hg.limited n

/-- What is made of a result costs nothing more. -/
theorem Costs.map {f : Option Nat → β × Option Nat} {cost : Nat} (h : Costs f cost) (g : β → γ) :
    Costs (fun patience => (g (f patience).1, (f patience).2)) cost := by
  rw [← Nat.zero_add cost]
  exact h.bind (g := fun v patience => (g v, patience)) (costs_zero (g (f none).1))

variable [BEq α]

/-! ## Searches -/

/-- **A search** costs one unit of patience in each round. -/
theorem exists_costs_meetingPoint (a b : Array α) (w : Window) (front back : Frontier)
    (ds : List Nat) :
    ∃ cost, Costs (fun patience => meetingPoint a b w front back patience ds) cost := by
  induction ds generalizing front back with
  | nil => exact ⟨0, costs_zero none⟩
  | cons d ds ih =>
    rcases hforward : forwardSweep a b w back d front (diagonals d) with ⟨front', found⟩
    cases found with
    | some p =>
      refine ⟨1, ?_, fun n => ?_⟩
      · simp only [meetingPoint, hforward]
        rfl
      · simp only [meetingPoint, hforward]
        rfl
    | none =>
      rcases hbackward : backwardSweep a b w front' d back (diagonals d) with ⟨back', found⟩
      cases found with
      | some p =>
        refine ⟨1, ?_, fun n => ?_⟩
        · simp only [meetingPoint, hforward, hbackward]
          rfl
        · simp only [meetingPoint, hforward, hbackward]
          rfl
      | none =>
        obtain ⟨cost, hcost⟩ := ih front' back'
        refine ⟨cost + 1, ?_, fun n => ?_⟩
        · simp only [meetingPoint, hforward, hbackward]
          exact hcost.unlimited
        · simp only [meetingPoint, hforward, hbackward, ← Nat.add_assoc]
          exact hcost.limited n

/-! ## Comparisons -/

section

variable {steps : Option Nat → Window → List Step × Option Nat}
  (hsteps : ∀ w, ∃ cost, Costs (fun patience => steps patience w) cost)
include hsteps

/-- A split costs what its two parts cost. -/
theorem exists_costs_splitSteps (w : Window) (found : Option (Nat × Nat)) :
    ∃ cost, Costs (splitSteps steps w found) cost := by
  cases found with
  | none => exact ⟨0, costs_zero w.apart⟩
  | some p =>
    obtain ⟨first, hfirst⟩ := hsteps { w with oldEnd := p.1, newEnd := p.2 }
    obtain ⟨second, hsecond⟩ := hsteps { w with old := p.1, new := p.2 }
    have h := hfirst.bind
      (g := fun found patience =>
        let more := steps patience { w with old := p.1, new := p.2 }
        (found ++ more.1, more.2))
      (hsecond.map _)
    exact ⟨second + first, h⟩

/-- What is between common start and end costs the search and the split. -/
theorem exists_costs_innerSteps (a b : Array α) (w : Window) :
    ∃ cost, Costs (innerSteps a b steps w) cost := by
  unfold innerSteps
  by_cases hused : (w.oldLength = 0 || w.newLength = 0) = true
  · simp only [if_pos hused]
    exact ⟨0, costs_zero w.apart⟩
  · simp only [if_neg hused]
    obtain ⟨cost, hcost⟩ : ∃ cost, Costs (middle? a b w) cost := exists_costs_meetingPoint ..
    obtain ⟨cost', hcost'⟩ := exists_costs_splitSteps hsteps w (middle? a b w none).1
    exact ⟨cost' + cost, hcost.bind hcost'⟩

end

/-- **A bisection** costs what its searches cost. -/
theorem exists_costs_bisect (a b : Array α) (fuel : Nat) (w : Window) :
    ∃ cost, Costs (fun patience => bisect a b fuel patience w) cost := by
  induction fuel generalizing w with
  | zero => exact ⟨0, costs_zero []⟩
  | succ fuel ih =>
    obtain ⟨cost, hcost⟩ := exists_costs_innerSteps ih a b _
    exact ⟨cost, hcost.map fun steps => stepOf .keep w.old w.new _ ++ steps ++ _⟩

/-- With enough patience the same steps are found as without a limit. -/
theorem exists_patience_editScript (a b : Array α) :
    ∃ cost, ∀ n, cost ≤ n → editScript (some n) a b = editScript none a b := by
  obtain ⟨cost, hcost⟩ := exists_costs_bisect a b (a.size + b.size + 1) ⟨0, a.size, 0, b.size⟩
  refine ⟨cost, fun n hn => ?_⟩
  have hlimited := hcost.limited (n - cost)
  rw [Nat.sub_add_cancel hn] at hlimited
  rw [editScript, hlimited]
  rfl

/-- **With enough patience** two texts look as alike as they are: a comparison is cut short only if
it takes more rounds than there is time for. -/
theorem exists_patience (a b : String) :
    ∃ cost, ∀ n, cost ≤ n → similarityWithin (some n) a b = similarity a b := by
  obtain ⟨cost, hcost⟩ := exists_patience_editScript a.toList.toArray b.toList.toArray
  refine ⟨cost, fun n hn => ?_⟩
  simp only [similarity, similarityWithin, Diff.compare, hcost n hn]

-- a comparison that is given up at once keeps the common start and end only
example : let a := #['a', 'x', 'b', 'y', 'c']
    let b := #['a', 'u', 'b', 'v', 'c']
    keptLength (Diff.compare (some 0) a b) = 2 ∧ keptLength (Diff.compare none a b) = 3 := by
  decide

end EvalProxy.Diff
