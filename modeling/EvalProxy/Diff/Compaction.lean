/-
# Compacted edit scripts

An insertion may slide over a kept run that repeats its text, and a change may pass a change of the
other kind. Each change is moved up as far as it goes, where it merges with changes of its own kind,
and then down as far as it goes; deletions first, then insertions. Afterwards neighbouring steps are
joined into blocks.

Main definitions: `compact`, `Block`, `blocks`.
-/
import EvalProxy.Diff.Script
namespace EvalProxy.Diff

variable {α : Type} [BEq α]

/-! ## Sliding changes -/

/-- A step among its neighbours; those before it are listed nearest first. -/
structure Focus where
  before : List Step
  step : Step
  after : List Step

/-- How far a change can slide up over the kept run before it: an insertion as far as its end
repeats the end of the run. Deletions stay. -/
def slackUp (a b : Array α) (kept change : Step) : Nat :=
  commonBackward a b kept.oldEnd change.newEnd (min kept.oldLength change.newLength)

/-- How far a change can slide down over the kept run after it: an insertion as far as its start
repeats the start of the run. Deletions stay. -/
def slackDown (a b : Array α) (kept change : Step) : Nat :=
  commonForward a b kept.old change.new (min kept.oldLength change.newLength)

/-- A step unless it covers nothing. -/
def unlessEmpty (s : Step) : List Step := if s.length = 0 then [] else [s]

/-- Moves a change up as far as it goes. -/
def slideUp (a b : Array α) : Nat → Focus → Focus
  | 0, f => f
  | fuel + 1, f =>
    match f.before with
    | [] => f
    | prev :: before =>
      if prev.action = .keep then
        let slack := slackUp a b prev f.step
        if slack = 0 then
          if prev.length = 0 then slideUp a b fuel { f with before := before } else f
        else
          -- what the change slides over comes after it
          let freed : Step := ⟨.keep, prev.oldEnd - slack, f.step.newEnd - slack, slack⟩
          let after := match f.after with
            | next :: rest =>
              if next.action = .keep then
                ⟨.keep, next.old - slack, next.new - slack, next.length + slack⟩ :: rest
              else freed :: next :: rest
            | [] => [freed]
          let step := { f.step with old := f.step.old - slack, new := f.step.new - slack }
          let prev := { prev with length := prev.length - slack }
          slideUp a b fuel ⟨unlessEmpty prev ++ before, step, after⟩
      else if prev.action = f.step.action then
        slideUp a b fuel
          ⟨before, { prev with length := prev.length + f.step.length }, f.after⟩
      else slideUp a b fuel ⟨before, f.step, prev :: f.after⟩

/-- Moves a change down as far as it goes. -/
def slideDown (a b : Array α) : Nat → Focus → Focus
  | 0, f => f
  | fuel + 1, f =>
    match f.after with
    | [] => f
    | next :: after =>
      if next.action = .keep then
        let slack := slackDown a b next f.step
        if slack = 0 then
          if next.length = 0 then slideDown a b fuel { f with after := after } else f
        else
          -- what the change slides over comes before it
          let freed : Step := ⟨.keep, next.old, f.step.new, slack⟩
          let before := match f.before with
            | prev :: rest =>
              if prev.action = .keep then { prev with length := prev.length + slack } :: rest
              else freed :: prev :: rest
            | [] => [freed]
          let step := { f.step with old := f.step.old + slack, new := f.step.new + slack }
          let next :=
            { next with
              old := next.old + slack, new := next.new + slack, length := next.length - slack }
          slideDown a b fuel ⟨before, step, unlessEmpty next ++ after⟩
      else if next.action = f.step.action then
        slideDown a b fuel
          { f with step := { f.step with length := f.step.length + next.length }, after := after }
      else slideDown a b fuel ⟨next :: f.before, f.step, after⟩

/-- Slides every change of one kind, from the first step on. -/
def slideAll (a b : Array α) (action : Action) : Nat → List Step → List Step → List Step
  | 0, before, after => before.reverse ++ after
  | _ + 1, before, [] => before.reverse
  | fuel + 1, before, s :: after =>
    if s.action = action then
      -- more steps than any change can slide
      let reach := (a.size + b.size + 2) * (before.length + after.length + 2)
      let f := slideDown a b reach (slideUp a b reach ⟨before, s, after⟩)
      slideAll a b action fuel (f.step :: f.before) f.after
    else slideAll a b action fuel (s :: before) after

/-- The script with its deletions and then its insertions slid. -/
def compact (a b : Array α) (steps : List Step) : List Step :=
  let fuel := a.size + b.size + steps.length + 1
  slideAll a b .insert fuel [] (slideAll a b .delete fuel [] steps)

/-! ## Blocks -/

/-- A run of both sequences that is kept, or replaced: `oldLength` old elements by `newLength` new
ones. -/
structure Block where
  kept : Bool
  old : Nat
  oldLength : Nat
  new : Nat
  newLength : Nat

/-- The place after the old elements of a block. -/
def Block.oldEnd (b : Block) : Nat := b.old + b.oldLength

/-- The place after the new elements of a block. -/
def Block.newEnd (b : Block) : Nat := b.new + b.newLength

/-- Joins a step to the block that is being built. A replaced block takes its old place from its
deletion and its new place from its insertion. -/
def Block.join? (b : Block) (s : Step) : Option Block :=
  match b.kept, s.action with
  | true, .keep =>
    some { b with oldLength := b.oldLength + s.length, newLength := b.newLength + s.length }
  | false, .delete =>
    some { b with old := if b.oldLength = 0 then s.old else b.old,
                  oldLength := b.oldLength + s.length }
  | false, .insert =>
    some { b with new := if b.newLength = 0 then s.new else b.new,
                  newLength := b.newLength + s.length }
  | _, _ => none

/-- The block of a single step. -/
def Block.ofStep (s : Step) : Block :=
  ⟨s.action == .keep, s.old, s.oldLength, s.new, s.newLength⟩

/-- The blocks of a script after the one that is being built. -/
def blocksFrom (b : Block) : List Step → List Block
  | [] => [b]
  | s :: rest =>
    match b.join? s with
    | some joined => blocksFrom joined rest
    | none => b :: blocksFrom (Block.ofStep s) rest

/-- The blocks of a script: kept and replaced runs in turn. -/
def blocks : List Step → List Block
  | [] => []
  | s :: rest => blocksFrom (Block.ofStep s) rest

/-- The blocks between two sequences that are found with some patience. -/
def compare (patience : Option Nat) (a b : Array α) : List Block :=
  blocks (compact a b (editScript patience a b))

end EvalProxy.Diff
