/-
# Runs

A run is a number of calls through a chain, one after another. What every stage keeps when it takes
a request or a response is kept by each phase of a call, and what every call keeps by the run; what
some calls take a step on takes as many steps as there are such calls.

Main definitions: `served`, `Turn`, `turns`.
Main statements: `requestPhase_keeps`, `responsePhase_keeps`, `kept_served`, `counted_served`.
-/
import EvalProxy.Chain
import Mathlib.Data.List.Forall2
import Mathlib.Logic.Function.Iterate
namespace EvalProxy.Chain

variable {ι : Type} [Stage ι]

/-! ## Calls one after another -/

/-- The stages and the world after calls one after another. -/
def served (stages : List ι) (w : World) : List Request → List ι × World
  | [] => (stages, w)
  | r :: rest =>
    let call := process World.askModel stages r w
    served call.2.1 call.2.2 rest

/-- Serving some calls and then others is serving them one after another. -/
theorem served_append (stages : List ι) (w : World) (past rest : List Request) :
    served stages w (past ++ rest)
      = served (served stages w past).1 (served stages w past).2 rest := by
  induction past generalizing stages w with
  | nil => rfl
  | cons r past ih => exact ih _ _

/-- A call of a run: its request, and the stages and the world that it finds. -/
structure Turn (ι : Type) where
  stages : List ι
  world : World
  request : Request

/-- What a call gives, and the stages and the world that it leaves. -/
def Turn.call (m : Turn ι) : Except Failure Response × List ι × World :=
  process World.askModel m.stages m.request m.world

/-- The calls of a run, in order. -/
def turns (stages : List ι) (w : World) : List Request → List (Turn ι)
  | [] => []
  | r :: rest =>
    let m : Turn ι := ⟨stages, w, r⟩
    m :: turns m.call.2.1 m.call.2.2 rest

theorem length_turns (stages : List ι) (w : World) (calls : List Request) :
    (turns stages w calls).length = calls.length := by
  induction calls generalizing stages w with
  | nil => rfl
  | cons r rest ih => exact congrArg (· + 1) (ih _ _)

/-! ## What phases keep -/

section

variable {R : ι → ι → Prop} {S : World → World → Prop} (stages : List ι)

/-- **What every stage keeps when it takes a request** is kept by the request phase. A stage that
the request does not reach stays as it is. -/
theorem requestPhase_keeps (hstage : ∀ s, R s s) (hworld : ∀ w, S w w)
    (htrans : ∀ w₁ w₂ w₃, S w₁ w₂ → S w₂ w₃ → S w₁ w₃)
    (hstep : ∀ s ∈ stages, ∀ r w,
      R s (Stage.onRequest s r w).2.1 ∧ S w (Stage.onRequest s r w).2.2)
    (r : Request) (w : World) :
    List.Forall₂ R stages (requestPhase stages r w).2.1 ∧ S w (requestPhase stages r w).2.2 := by
  induction stages generalizing r w with
  | nil => exact ⟨.nil, hworld w⟩
  | cons s rest ih =>
    obtain ⟨hs, hrest⟩ := List.forall_mem_cons.1 hstep
    obtain ⟨hkept, hw⟩ := hs r w
    rw [requestPhase]
    rcases htaken : Stage.onRequest s r w with ⟨outcome, s', w₁⟩
    rw [htaken] at hkept hw
    have hunreached : List.Forall₂ R (s :: rest) (s' :: rest) :=
      .cons hkept (List.forall₂_same.2 fun s _ => hstage s)
    rcases outcome with e | r₁ | p
    · exact ⟨hunreached, hw⟩
    · obtain ⟨hstages, hw'⟩ := ih hrest r₁ w₁
      exact ⟨.cons hkept hstages, htrans _ _ _ hw hw'⟩
    · exact ⟨hunreached, hw⟩

/-- **What every stage keeps when it takes a response** is kept by the response phase. -/
theorem responsePhase_keeps {P : Response → Prop} (hworld : ∀ w, S w w)
    (htrans : ∀ w₁ w₂ w₃, S w₁ w₂ → S w₂ w₃ → S w₁ w₃)
    (hnote : ∀ w name, S w (w.note (.failure name)))
    (hstep : ∀ s ∈ stages, ∀ p w, P p →
      R s (Stage.onResponse s p w).2.1 ∧ S w (Stage.onResponse s p w).2.2 ∧
        ∀ p', (Stage.onResponse s p w).1 = .ok p' → P p')
    {p : Response} (hp : P p) (w : World) :
    P (responsePhase stages p w).1 ∧ List.Forall₂ R stages (responsePhase stages p w).2.1 ∧
      S w (responsePhase stages p w).2.2 := by
  induction stages generalizing p w with
  | nil => exact ⟨hp, .nil, hworld w⟩
  | cons s rest ih =>
    obtain ⟨hs, hrest⟩ := List.forall_mem_cons.1 hstep
    obtain ⟨hkept, hw, houtcome⟩ := hs p w hp
    rw [responsePhase]
    rcases htaken : Stage.onResponse s p w with ⟨outcome, s', w₁⟩
    rw [htaken] at hkept hw houtcome
    cases outcome with
    | ok p' =>
      obtain ⟨hp', hstages, hw'⟩ := ih hrest (houtcome p' rfl) w₁
      exact ⟨hp', .cons hkept hstages, htrans _ _ _ hw hw'⟩
    -- a stage that fails hands on what it was given
    | error e =>
      obtain ⟨hp', hstages, hw'⟩ := ih hrest hp (w₁.note (.failure (Stage.name s')))
      exact ⟨hp', .cons hkept hstages, htrans _ _ _ hw (htrans _ _ _ (hnote _ _) hw')⟩

end

/-! ## What calls keep -/

section

variable {α : Type} {f : ι → α}

theorem map_eq_of_forall₂ {β γ : Type} {g : β → γ} {xs ys : List β}
    (h : List.Forall₂ (fun x y => g y = g x) xs ys) : ys.map g = xs.map g := by
  induction h with
  | nil => rfl
  | cons hs _ ih => rw [List.map_cons, List.map_cons, hs, ih]

/-- What no stage changes for a request, the request phase keeps of every stage. -/
theorem map_requestPhase (hrequest : ∀ s r w, f (Stage.onRequest s r w).2.1 = f s)
    (stages : List ι) (r : Request) (w : World) :
    (requestPhase stages r w).2.1.map f = stages.map f := by
  apply map_eq_of_forall₂
  refine (requestPhase_keeps (S := fun _ _ => True) stages ?_ ?_ ?_ ?_ r w).1
  · exact fun _ => rfl
  · exact fun _ => trivial
  · exact fun _ _ _ _ _ => trivial
  · exact fun s _ r w => ⟨hrequest s r w, trivial⟩

/-- What no stage changes for a response, the response phase keeps of every stage. -/
theorem map_finish (hresponse : ∀ s p w, f (Stage.onResponse s p w).2.1 = f s)
    (stages : List ι) (p : Response) (w : World) :
    (finish stages p w).2.1.map f = stages.map f := by
  apply map_eq_of_forall₂
  refine (responsePhase_keeps (S := fun _ _ => True) (P := fun _ => True) stages ?_ ?_ ?_ ?_
    trivial w).2.1
  · exact fun _ => trivial
  · exact fun _ _ _ _ _ => trivial
  · exact fun _ _ => trivial
  · exact fun s _ p w _ => ⟨hresponse s p w, trivial, fun _ _ => trivial⟩

/-- **What no action changes of a stage**, a call changes of none. -/
theorem map_process (hrequest : ∀ s r w, f (Stage.onRequest s r w).2.1 = f s)
    (hresponse : ∀ s p w, f (Stage.onResponse s p w).2.1 = f s)
    (ask : Request → World → Except Failure Response × World) (stages : List ι) (r : Request)
    (w : World) : (process ask stages r w).2.1.map f = stages.map f := by
  have hrequests := map_requestPhase hrequest stages r w
  rcases hphase : requestPhase stages r w with ⟨outcome, stages', w'⟩
  rw [hphase] at hrequests
  rcases outcome with e | q | p
  · rw [process_of_refused ask hphase]
    exact hrequests
  · cases hreply : (ask q w').1 with
    | error e =>
      rw [process_of_unanswered hphase hreply]
      exact hrequests
    | ok p =>
      rw [process_of_replied hphase hreply, map_finish hresponse]
      exact hrequests
  · rw [process_of_answered ask hphase, map_finish hresponse]
    exact hrequests

/-- What no action changes of a stage, a run changes of none. -/
theorem map_served (hrequest : ∀ s r w, f (Stage.onRequest s r w).2.1 = f s)
    (hresponse : ∀ s p w, f (Stage.onResponse s p w).2.1 = f s) (stages : List ι) (w : World)
    (calls : List Request) : (served stages w calls).1.map f = stages.map f := by
  induction calls generalizing stages w with
  | nil => rfl
  | cons r rest ih => exact (ih _ _).trans (map_process hrequest hresponse _ stages r w)

end

/-! ## What runs keep -/

section

variable {I : List ι → World → Prop} (stages : List ι) (w : World) (calls : List Request)

/-- **What every call keeps** holds before each call of a run and after the last. -/
theorem kept_served (hstart : I stages w)
    (hstep : ∀ m : Turn ι, m.request ∈ calls → I m.stages m.world → I m.call.2.1 m.call.2.2) :
    (∀ m ∈ turns stages w calls, m.request ∈ calls ∧ I m.stages m.world) ∧
      I (served stages w calls).1 (served stages w calls).2 := by
  induction calls generalizing stages w with
  | nil => exact ⟨by simp [turns], hstart⟩
  | cons r rest ih =>
    have hnext := hstep ⟨stages, w, r⟩ List.mem_cons_self hstart
    obtain ⟨hturns, hend⟩ := ih _ _ hnext fun m hm => hstep m (List.mem_cons_of_mem _ hm)
    refine ⟨?_, hend⟩
    intro m hm
    rcases List.mem_cons.1 hm with rfl | hm
    · exact ⟨List.mem_cons_self, hstart⟩
    · exact ⟨List.mem_cons_of_mem _ (hturns m hm).1, (hturns m hm).2⟩

/-- **What some calls take a step on** takes as many steps in a run as there are such calls. -/
theorem counted_served {β : Type} (value : List ι → World → β) (step : β → β)
    (counts : Turn ι → Bool) (hstart : I stages w)
    (hstep : ∀ m : Turn ι, m.request ∈ calls → I m.stages m.world → I m.call.2.1 m.call.2.2 ∧
      value m.call.2.1 m.call.2.2 =
        if counts m then step (value m.stages m.world) else value m.stages m.world) :
    value (served stages w calls).1 (served stages w calls).2
      = step^[(turns stages w calls).countP counts] (value stages w) := by
  induction calls generalizing stages w with
  | nil => rfl
  | cons r rest ih =>
    obtain ⟨hnext, hvalue⟩ := hstep ⟨stages, w, r⟩ List.mem_cons_self hstart
    have hrest := ih _ _ hnext fun m hm => hstep m (List.mem_cons_of_mem _ hm)
    rw [turns, List.countP_cons]
    refine hrest.trans ?_
    rw [hvalue]
    split
    · rw [Function.iterate_succ_apply]
    · rfl

end

end EvalProxy.Chain
