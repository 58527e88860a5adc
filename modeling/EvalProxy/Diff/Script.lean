/-
# Edit scripts

How one sequence becomes another: a list of steps, each of which keeps, deletes or inserts a run of
elements. Steps are found by bisection: after the common start and end are set aside, the middle of
a shortest path through the edit graph splits the rest in two. A search may be given limited time;
when that is up, what is left is deleted and inserted as a whole.

Main definitions: `Step`, `editScript`.
-/
namespace EvalProxy.Diff

variable {α : Type} [BEq α]

/-! ## Steps -/

/-- What a step does with its run of elements. -/
inductive Action where
  | keep
  | delete
  | insert
  deriving DecidableEq

/-- A run of `length` elements at a place in the old and a place in the new sequence. -/
structure Step where
  action : Action
  old : Nat
  new : Nat
  length : Nat

/-- The number of old elements that a step covers. -/
def Step.oldLength (s : Step) : Nat := if s.action = .insert then 0 else s.length

/-- The number of new elements that a step covers. -/
def Step.newLength (s : Step) : Nat := if s.action = .delete then 0 else s.length

/-- The place after the old elements of a step. -/
def Step.oldEnd (s : Step) : Nat := s.old + s.oldLength

/-- The place after the new elements of a step. -/
def Step.newEnd (s : Step) : Nat := s.new + s.newLength

/-! ## Common runs -/

/-- How many of at most `limit` elements agree, from two places on. -/
def commonForward (a b : Array α) (i j : Nat) : Nat → Nat
  | 0 => 0
  | limit + 1 =>
    match a[i]?, b[j]? with
    | some x, some y => if x == y then commonForward a b (i + 1) (j + 1) limit + 1 else 0
    | _, _ => 0

/-- How many of at most `limit` elements agree, from before two places back. -/
def commonBackward (a b : Array α) : Nat → Nat → Nat → Nat
  | i + 1, j + 1, limit + 1 =>
    match a[i]?, b[j]? with
    | some x, some y => if x == y then commonBackward a b i j limit + 1 else 0
    | _, _ => 0
  | _, _, _ => 0

/-! ## The middle of a shortest path -/

/-- A part of the old and a part of the new sequence. -/
structure Window where
  old : Nat
  oldEnd : Nat
  new : Nat
  newEnd : Nat

/-- The number of old elements in a window. -/
def Window.oldLength (w : Window) : Nat := w.oldEnd - w.old

/-- The number of new elements in a window. -/
def Window.newLength (w : Window) : Nat := w.newEnd - w.new

/-- The furthest place reached on each diagonal; diagonal `k` is kept at `k + offset`. -/
structure Frontier where
  offset : Nat
  reached : Array Int

/-- The frontier before the search: only the diagonal one is reached, at its start. -/
def Frontier.start (bound : Nat) : Frontier := ⟨bound + 1, Array.replicate (2 * bound + 3) 0⟩

/-- The furthest place on a diagonal. -/
def Frontier.get (f : Frontier) (k : Int) : Int := f.reached.getD (k + f.offset).toNat 0

/-- The frontier with a place reached on a diagonal. -/
def Frontier.set (f : Frontier) (k x : Int) : Frontier :=
  { f with reached := f.reached.setIfInBounds (k + f.offset).toNat x }

/-- Where a path with one more difference enters a diagonal. -/
def Frontier.enter (f : Frontier) (d k : Int) : Int :=
  if k = -d || (k ≠ d && f.get (k - 1) < f.get (k + 1)) then f.get (k + 1) else f.get (k - 1) + 1

/-- The diagonals that a path with `d` differences can end on, from the highest down. -/
def diagonals (d : Nat) : List Int :=
  (List.range (d + 1)).map fun i => Int.ofNat d - 2 * Int.ofNat i

/-- Extends the paths from the start by one difference; stops where one meets a path from the
end. -/
def forwardSweep (a b : Array α) (w : Window) (back : Frontier) (d : Nat) :
    Frontier → List Int → Frontier × Option (Nat × Nat)
  | f, [] => (f, none)
  | f, k :: rest =>
    let n : Int := w.oldLength
    let m : Int := w.newLength
    let delta := n - m
    let x := f.enter d k
    let y := x - k
    let run :=
      if x < n && 0 ≤ y && y < m then
        commonForward a b (w.old + x.toNat) (w.new + y.toNat) (min (n - x) (m - y)).toNat
      else 0
    let f := f.set k (x + run)
    -- where the two lengths differ by an odd number, the paths meet here
    if delta % 2 ≠ 0 && (k - delta).natAbs + 1 ≤ d && n ≤ x + run + back.get (delta - k) then
      (f, some (w.old + x.toNat, w.new + y.toNat))
    else forwardSweep a b w back d f rest

/-- Extends the paths from the end by one difference; stops where one meets a path from the
start. -/
def backwardSweep (a b : Array α) (w : Window) (front : Frontier) (d : Nat) :
    Frontier → List Int → Frontier × Option (Nat × Nat)
  | f, [] => (f, none)
  | f, k :: rest =>
    let n : Int := w.oldLength
    let m : Int := w.newLength
    let delta := n - m
    let x := f.enter d k
    let y := x - k
    let run :=
      if x < n && 0 ≤ y && y < m then
        commonBackward a b (w.oldEnd - x.toNat) (w.newEnd - y.toNat) (min (n - x) (m - y)).toNat
      else 0
    let f := f.set k (x + run)
    -- where the two lengths differ by an even number, the paths meet here
    if delta % 2 = 0 && (k - delta).natAbs ≤ d && n ≤ x + run + front.get (delta - k) then
      (f, some (w.oldEnd - (x + run).toNat, w.newEnd - (y + run).toNat))
    else backwardSweep a b w front d f rest

/-- Searches from both sides with more and more differences for the point where the paths meet, and
looks at the clock before each round. `patience` is how many more looks find time left; without it
there is always time. Gives what is left of it as well. -/
def meetingPoint (a b : Array α) (w : Window) :
    Frontier → Frontier → Option Nat → List Nat → Option (Nat × Nat) × Option Nat
  | _, _, patience, [] => (none, patience)
  | _, _, some 0, _ :: _ => (none, some 0)
  | front, back, patience, d :: rest =>
    let left := patience.map (· - 1)
    match forwardSweep a b w back d front (diagonals d) with
    | (_, some p) => (some p, left)
    | (front, none) =>
      match backwardSweep a b w front d back (diagonals d) with
      | (_, some p) => (some p, left)
      | (back, none) => meetingPoint a b w front back left rest

/-- A point on a shortest path through a window, near its middle, if there is time to find it. -/
def middle? (a b : Array α) (w : Window) (patience : Option Nat) :
    Option (Nat × Nat) × Option Nat :=
  let bound := (w.oldLength + w.newLength + 1) / 2 + 1
  meetingPoint a b w (.start bound) (.start bound) patience (List.range bound)

/-! ## Bisection -/

/-- A step that covers elements, or none. -/
def stepOf (action : Action) (old new length : Nat) : List Step :=
  if length = 0 then [] else [⟨action, old, new, length⟩]

/-- The steps through a window of which nothing is kept. -/
def Window.apart (w : Window) : List Step :=
  stepOf .delete w.old w.new w.oldLength ++ stepOf .insert w.old w.new w.newLength

/-- The steps through a window that is split at a point, given those through any window; apart where
no point was found. The second part has the patience that the first one left. -/
def splitSteps (steps : Option Nat → Window → List Step × Option Nat) (w : Window) :
    Option (Nat × Nat) → Option Nat → List Step × Option Nat
  | some (x, y), patience =>
    let first := steps patience { w with oldEnd := x, newEnd := y }
    let second := steps first.2 { w with old := x, new := y }
    (first.1 ++ second.1, second.2)
  | none, patience => (w.apart, patience)

/-- The steps through a window without common start and end, given those through any window. -/
def innerSteps (a b : Array α) (steps : Option Nat → Window → List Step × Option Nat) (w : Window)
    (patience : Option Nat) : List Step × Option Nat :=
  -- where one side is used up, the other is one step
  if w.oldLength = 0 || w.newLength = 0 then (w.apart, patience)
  else
    let found := middle? a b w patience
    splitSteps steps w found.1 found.2

/-- The steps through a window, and what is left of the patience. A split leaves two smaller
windows, so the number of elements is fuel enough. -/
def bisect (a b : Array α) : Nat → Option Nat → Window → List Step × Option Nat
  | 0, patience, _ => ([], patience)
  | fuel + 1, patience, w =>
    let start := commonForward a b w.old w.new (min w.oldLength w.newLength)
    let v : Window := { w with old := w.old + start, new := w.new + start }
    let tail := commonBackward a b v.oldEnd v.newEnd (min v.oldLength v.newLength)
    let v : Window := { v with oldEnd := v.oldEnd - tail, newEnd := v.newEnd - tail }
    let inner := innerSteps a b (bisect a b fuel) v patience
    (stepOf .keep w.old w.new start ++ inner.1 ++ stepOf .keep v.oldEnd v.newEnd tail, inner.2)

/-- The steps from the old to the new sequence that are found with some patience. -/
def editScript (patience : Option Nat) (a b : Array α) : List Step :=
  (bisect a b (a.size + b.size + 1) patience ⟨0, a.size, 0, b.size⟩).1

end EvalProxy.Diff
