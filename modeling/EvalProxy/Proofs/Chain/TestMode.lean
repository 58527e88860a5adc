/-
# Test mode

A cache that reuses responses and is in test mode lets no request go on. So a chain that has one,
wherever it stands, never asks the model: every call is refused, or answered with what a cache has
stored. Replayed responses are not saved again, and so the stored responses stay as they are,
whichever operations of the stores fail and when.

Main definitions: `Outage`, `Recalled`, `Overwritten`.
Main statement: `never_asks_in_test_mode`.
-/
import EvalProxy.Proofs.Chain.BestEffort
import EvalProxy.Proofs.Chain.Run
namespace EvalProxy

open Cache (fingerprint lookup)
open Chain (Handed Turn finish turns process requestPhase responsePhase served)

/-! ## Outages -/

/-- Trouble with a store that comes and goes: each time a request or a response passes, operations
on the store begin to fail or work again, in any sequence. -/
structure Outage where
  place : Location
  faults : Nat → Cache.Faults
  turn : Nat

namespace Outage

/-- The outage once it has struck. -/
def next (o : Outage) : Outage := { o with turn := o.turn + 1 }

/-- The world with the faults that are next. -/
def strike (o : Outage) (w : World) : World :=
  w.withStore o.place { w.store o.place with faults := o.faults o.turn }

end Outage

instance : Stage Outage where
  name _ := "outage"
  onRequest o r w := (.ok (.proceed r), o.next, o.strike w)
  onResponse o p w := (.ok p, o.next, o.strike w)
  onStart o w := (.ok (), o, w)
  onShutdown o w := (.ok (), o, w)

/-- A stage as it was built, or the place of an outage. -/
def outline : Interceptor ⊕ Outage → Interceptor ⊕ Location :=
  Sum.map Interceptor.built Outage.place

theorem outline_onRequest (s : Interceptor ⊕ Outage) (r : Request) (w : World) :
    outline (Stage.onRequest s r w).2.1 = outline s := by
  cases s with
  | inl i => exact congrArg Sum.inl (i.built_onRequest r w)
  | inr o => rfl

theorem outline_onResponse (s : Interceptor ⊕ Outage) (p : Response) (w : World) :
    outline (Stage.onResponse s p w).2.1 = outline s := by
  cases s with
  | inl i => exact congrArg Sum.inl (i.built_onResponse p w)
  | inr o => rfl

/-- Chains that were built alike have the same stages, but for what these counted. -/
theorem exists_mem_of_outline {stages stages' : List (Interceptor ⊕ Outage)}
    (h : stages'.map outline = stages.map outline) {i : Interceptor} (hi : .inl i ∈ stages) :
    ∃ i', .inl i' ∈ stages' ∧ i'.built = i.built := by
  have hmem : outline (.inl i) ∈ stages'.map outline := by
    rw [h]
    exact List.mem_map_of_mem hi
  obtain ⟨s, hs, hbuilt⟩ := List.mem_map.1 hmem
  cases s with
  | inl i' => exact ⟨i', hs, Sum.inl.inj hbuilt⟩
  | inr o => simp [outline] at hbuilt

/-! ## Single stages -/

/-- The responses that are stored at a location, if a store stands there. -/
def World.responsesAt (w : World) (place : Location) : Option (Dict Cache.Cell) :=
  (w.storeAt? place).map (·.responses)

/-- The file of a tracker has the place of a store. -/
def Overwritten (stages : List (Interceptor ⊕ Outage)) (place : Location) : Prop :=
  ∃ t file, .inl (.progress t) ∈ stages ∧ t.settings.file = some file ∧
    World.SamePlace (.file file) place

/-- Whether a place is written over depends on the outlines of the stages only. -/
theorem Overwritten.of_outline {stages stages' : List (Interceptor ⊕ Outage)} {place : Location}
    (h : stages'.map outline = stages.map outline) (hover : Overwritten stages' place) :
    Overwritten stages place := by
  obtain ⟨t, file, ht, hfile, hsame⟩ := hover
  obtain ⟨i, hi, hbuilt⟩ := exists_mem_of_outline h.symm ht
  obtain ⟨t', rfl, hsettings⟩ := Interceptor.built_eq_progress hbuilt
  exact ⟨t', file, hi, by rw [hsettings, hfile], hsame⟩

/-- The model is not asked, and the responses at a location stay as they are, or are gone if a file
has their place. -/
structure Steady (place : Location) (overwritten : Prop) (w w' : World) : Prop where
  asked : w'.asked = w.asked
  responses : w'.responsesAt place = w.responsesAt place ∨
    w'.responsesAt place = none ∧ overwritten

namespace Steady

variable {place : Location} {overwritten : Prop} {w w' w₁ w₂ w₃ : World}

theorem refl (w : World) : Steady place overwritten w w := ⟨rfl, Or.inl rfl⟩

theorem trans (h : Steady place overwritten w₁ w₂) (h' : Steady place overwritten w₂ w₃) :
    Steady place overwritten w₁ w₃ := by
  refine ⟨h'.asked.trans h.asked, ?_⟩
  rcases h'.responses with heq | hgone
  · rw [heq]
    exact h.responses
  · exact Or.inr hgone

/-- A world that is left alone is steady at every place. -/
theorem of_untouched (h : w.Untouched w') : Steady place overwritten w w' :=
  ⟨h.asked, Or.inl (by rw [World.responsesAt, World.responsesAt, h.storeAt?])⟩

/-- A change of a store is steady if it keeps the responses. -/
theorem of_withStore (w : World) {place' : Location} {s : Cache.Store}
    (h : s.responses = (w.store place').responses) :
    Steady place overwritten w (w.withStore place' s) := by
  refine ⟨(w.questions_withStore place' s).2, Or.inl ?_⟩
  rw [World.responsesAt, World.responsesAt]
  rcases w.storeAt?_withStore place' s place with heq | ⟨-, hbefore, hafter⟩
  · rw [heq]
  · rw [hbefore, hafter, Option.map_some, Option.map_some, h]

/-- A cache that settles is steady if it kept the responses of its store. -/
theorem of_settle (c : Caching) (w : World) {after : Cache}
    (h : after.store.responses = (w.store c.place).responses) :
    Steady place overwritten w (c.settle w after).2 :=
  (of_withStore w h).trans (of_untouched ⟨rfl, rfl, rfl, rfl⟩)

/-- Writing a count is steady, unless its file lies on the place. -/
theorem of_writeCount (t : Progress.Settings) (count : Nat) (w : World)
    (hfile : ∀ file, t.file = some file → World.SamePlace (.file file) place → overwritten) :
    Steady place overwritten w (Progress.Tracker.writeCount t count w) := by
  unfold Progress.Tracker.writeCount
  split
  · rename_i file hsome
    refine ⟨(World.undisturbed_writeFile w file _).asked, ?_⟩
    rcases w.storeAt?_writeFile file _ place with heq | ⟨hsame, hgone⟩
    · exact Or.inl (congrArg _ heq)
    · exact Or.inr ⟨congrArg _ hgone, hfile file hsome hsame⟩
  · exact refl w

/-- A tracker takes a response. -/
theorem of_tracker (t : Progress.Tracker) (p : Response) (w : World)
    (hfile : ∀ file, t.settings.file = some file → World.SamePlace (.file file) place →
      overwritten) :
    Steady place overwritten w (t.onResponse p w).2.2 := by
  have htell (count : Nat) (w : World) :
      Steady place overwritten w (Progress.Tracker.tellCount t.settings count w) := by
    unfold Progress.Tracker.tellCount
    split
    · exact of_untouched ⟨rfl, rfl, rfl, rfl⟩
    · exact refl w
  unfold Progress.Tracker.onResponse Progress.Tracker.emit
  dsimp only
  split
  · dsimp only
    split
    · exact refl w
    · exact (of_writeCount t.settings _ w hfile).trans (htell _ _)
  · exact refl w

end Steady

section

variable {place : Location} {overwritten : Prop} (s : Interceptor ⊕ Outage)

/-- **No request** asks the model or changes stored responses. -/
theorem steady_onRequest (r : Request) (w : World) :
    Steady place overwritten w (Stage.onRequest s r w).2.2 := by
  cases s with
  | inr o => exact .of_withStore w rfl
  | inl i =>
    cases hcaching : i.isCaching with
    | true =>
      cases i with
      | caching c => exact .of_settle c w (Cache.sameSaving_onRequest (c.cache w) r).store.responses
      | _ => simp [Interceptor.isCaching] at hcaching
    | false =>
      obtain ⟨i', w', htaken, -, hw⟩ := Interceptor.onRequest_of_plain hcaching r w
      have hworld : (Stage.onRequest (Sum.inl i : Interceptor ⊕ Outage) r w).2.2 = w' :=
        congrArg (·.2.2) htaken
      rw [hworld]
      exact .of_untouched hw

/-- **No replayed response** asks the model or changes stored responses. -/
theorem steady_onResponse {p : Response} (hcached : p.context.fromCache = true) (w : World)
    (hfile : ∀ t file, s = .inl (.progress t) → t.settings.file = some file →
      World.SamePlace (.file file) place → overwritten) :
    Steady place overwritten w (Stage.onResponse s p w).2.2 := by
  cases s with
  | inr o => exact .of_withStore w rfl
  | inl i =>
    cases i with
    | caching c =>
      refine .of_settle c w ?_
      rw [Cache.onResponse, hcached]
      rfl
    | stats r =>
      show Steady place overwritten w (r.onResponse p w).2.2
      rw [Stats.Recorder.onResponse, if_pos hcached]
      exact .refl w
    | progress t => exact .of_tracker t p w fun file => hfile t file rfl
    | responseLog l => exact .of_untouched (l.untouched_write _ w)
    | reasoning s => exact .refl w
    | payload s => exact .refl w
    | systemMessage s => exact .refl w
    | requestLog l => exact .refl w

end

/-! ## Calls -/

/-- A call is refused, or answered with a response that a cache that it reached has stored. -/
inductive Recalled (stages : List (Interceptor ⊕ Outage)) (r : Request) (w : World) :
    Except Failure Response → Prop
  | refused (e : Failure) : Recalled stages r w (.error e)
  | replayed {c : Caching} {q : Request} {w' : World} {reply : Reply} {p : Response}
      (handed : Handed stages r w (.inl (.caching c)) q w') (reuses : c.settings.reuse = true)
      (stored : lookup (w'.store c.place) (fingerprint q.body) = .ok (some reply))
      (status : p.status = reply.status) (fromCache : p.context.fromCache = true) :
      Recalled stages r w (.ok p)

section

variable {stages : List (Interceptor ⊕ Outage)} {c : Caching} {r : Request} {w : World}

/-- A request never passes a cache in test mode. -/
theorem not_forwarded_of_testMode (hmem : .inl (.caching c) ∈ stages)
    (hreuse : c.settings.reuse = true) (htest : c.settings.testMode = true) {q : Request}
    {w' : World} : ¬ Chain.Forwarded stages r w q w' := by
  intro h
  obtain ⟨q₁, w₁, q₂, -, htakes⟩ := h.handed hmem
  have htakes : ((c.cache w₁).onRequest q₁).1 = .ok (.proceed q₂) := htakes
  rcases Cache.onRequest_cases (c.cache w₁) q₁ with
    ⟨hno, -⟩ | ⟨-, reply, -, htaken⟩ | ⟨-, -, -, d, htaken⟩ | ⟨-, -, hno, -⟩
  · exact absurd (hreuse.symm.trans hno) (by simp)
  · simp [htaken] at htakes
  · simp [htaken] at htakes
  · exact absurd (htest.symm.trans hno) (by simp)

/-- A response that a cache gave passes through the stages, which keep its status and where it is
from. -/
theorem finish_of_replayed {stages' : List (Interceptor ⊕ Outage)}
    (halike : stages'.map outline = stages.map outline) (place : Location) {p : Response}
    (hcached : p.context.fromCache = true) (w : World) :
    Steady place (Overwritten stages place) w (finish stages' p w).2.2 ∧
      ∃ p', (finish stages' p w).1 = .ok p' ∧ p'.status = p.status ∧
        p'.context.fromCache = true := by
  have hstep : ∀ s ∈ stages', ∀ p₁ w₁, p₁.status = p.status ∧ p₁.context.fromCache = true →
      True ∧ Steady place (Overwritten stages place) w₁ (Stage.onResponse s p₁ w₁).2.2 ∧
        ∀ p₂, (Stage.onResponse s p₁ w₁).1 = .ok p₂ →
          p₂.status = p.status ∧ p₂.context.fromCache = true := by
    intro s hs p₁ w₁ hp₁
    refine ⟨trivial, steady_onResponse s hp₁.2 w₁ ?_, ?_⟩
    · rintro t file rfl hfile hsame
      exact .of_outline halike ⟨t, file, hs, hfile, hsame⟩
    · intro p₂ hp₂
      cases s with
      | inr o =>
        obtain rfl := Except.ok.inj hp₂
        exact hp₁
      | inl i =>
        obtain rfl := Except.ok.inj ((i.outcome_onResponse p₁ w₁).symm.trans hp₂)
        exact hp₁
  obtain ⟨⟨hstatus, hcached'⟩, -, hw⟩ :=
    Chain.responsePhase_keeps (R := fun _ _ => True) stages' .refl (fun _ _ _ => .trans)
      (fun w e => .of_untouched ⟨rfl, rfl, rfl, rfl⟩) hstep ⟨rfl, hcached⟩ w
  exact ⟨hw.trans (.of_untouched ⟨rfl, rfl, rfl, rfl⟩), _, rfl, hstatus, hcached'⟩

/-- **A call** through a chain with a cache in test mode asks the model nothing. -/
theorem call_in_test_mode (hmem : .inl (.caching c) ∈ stages) (hreuse : c.settings.reuse = true)
    (htest : c.settings.testMode = true) (place : Location) (r : Request) (w : World) :
    Steady place (Overwritten stages place) w (process World.askModel stages r w).2.2 ∧
      Recalled stages r w (process World.askModel stages r w).1 := by
  rcases hphase : requestPhase stages r w with ⟨outcome, stages', w'⟩
  have hsteady : Steady place (Overwritten stages place) w w' := by
    have hkeeps := Chain.requestPhase_keeps (R := fun _ _ => True)
      (S := Steady place (Overwritten stages place)) stages (fun _ => trivial) .refl
      (fun _ _ _ => .trans) (fun s _ r w => ⟨trivial, steady_onRequest s r w⟩) r w
    rw [hphase] at hkeeps
    exact hkeeps.2
  rcases outcome with e | q | p
  · rw [Chain.process_of_refused _ hphase]
    exact ⟨hsteady, .refused e⟩
  · exact absurd ⟨stages', hphase⟩ (not_forwarded_of_testMode hmem hreuse htest)
  · have hanswered : (requestPhase stages r w).1 = .ok (.answer p) := by rw [hphase]
    obtain ⟨s, q, w₁, hhanded, hanswers⟩ := Chain.answered_iff.1 hanswered
    cases s with
    -- an outage hands every request on
    | inr o => cases hanswers
    | inl i =>
      obtain ⟨c', reply, rfl, hreuse', hfound, rfl⟩ := Interceptor.caching_of_answered hanswers
      have halike : stages'.map outline = stages.map outline := by
        have hmap := Chain.map_requestPhase outline_onRequest stages r w
        rwa [hphase] at hmap
      obtain ⟨hfinish, p', hp', hstatus, hcached⟩ :=
        finish_of_replayed halike place (p := Cache.replayed q reply) rfl w'
      rw [Chain.process_of_answered _ hphase, hp']
      exact ⟨hsteady.trans hfinish, .replayed hhanded hreuse' hfound hstatus hcached⟩

end

/-! ## Runs -/

/-- **Test mode never reaches the model.** Through a chain that has a cache in test mode, at
whatever place and with whatever outages between its stages, no call of a run asks the model; each
is refused or answered with what a cache has stored. The responses in the store of that cache stay
exactly as they are, unless a tracker is set to write its file in the place of that store. -/
theorem never_asks_in_test_mode {stages : List (Interceptor ⊕ Outage)} {c : Caching}
    (hmem : .inl (.caching c) ∈ stages) (hreuse : c.settings.reuse = true)
    (htest : c.settings.testMode = true) (w : World) (calls : List Request) :
    let after := (served stages w calls).2
    after.asked = w.asked ∧
      (∀ m ∈ turns stages w calls, m.call.2.2.asked = w.asked ∧
        Recalled m.stages m.request m.world m.call.1) ∧
      (after.responsesAt c.place = w.responsesAt c.place ∨
        after.responsesAt c.place = none ∧ Overwritten stages c.place) := by
  intro after
  -- one call, from wherever a run may have come to
  have hcall (m : Turn (Interceptor ⊕ Outage))
      (halike : m.stages.map outline = stages.map outline)
      (hsteady : Steady c.place (Overwritten stages c.place) w m.world) :
      (m.call.2.1.map outline = stages.map outline ∧
        Steady c.place (Overwritten stages c.place) w m.call.2.2) ∧
          Recalled m.stages m.request m.world m.call.1 := by
    obtain ⟨i, hi, hbuilt⟩ := exists_mem_of_outline halike hmem
    obtain ⟨c', rfl, hsettings, hplace⟩ := Interceptor.built_eq_caching hbuilt
    obtain ⟨hnext, hrecalled⟩ := call_in_test_mode hi (hsettings ▸ hreuse) (hsettings ▸ htest)
      c.place m.request m.world
    refine ⟨⟨?_, hsteady.trans ⟨hnext.asked, ?_⟩⟩, hrecalled⟩
    · exact (Chain.map_process outline_onRequest outline_onResponse _ _ _ _).trans halike
    · exact hnext.responses.imp_right fun h => ⟨h.1, h.2.of_outline halike⟩
  obtain ⟨hturns, -, hend⟩ := Chain.kept_served
    (I := fun stages' w' => stages'.map outline = stages.map outline ∧
      Steady c.place (Overwritten stages c.place) w w')
    stages w calls ⟨rfl, .refl w⟩ fun m _ h => (hcall m h.1 h.2).1
  refine ⟨hend.asked, ?_, hend.responses⟩
  intro m hm
  obtain ⟨-, halike, hsteady⟩ := hturns m hm
  obtain ⟨⟨-, hnext⟩, hrecalled⟩ := hcall m halike hsteady
  exact ⟨hnext.asked, hrecalled⟩

/-- Neither a call that finds nothing stored nor one that cannot read the store reaches the
model. -/
theorem never_asks_while_failing :
    let settings : Cache.Settings := ⟨none, true, false, true, none, none, true, none, none⟩
    let failing (turn : Nat) : Cache.Faults :=
      { Cache.Faults.none with reads := fun _ _ => turn == 1 }
    let stages : List (Interceptor ⊕ Outage) :=
      [.inr ⟨.memory, failing, 0⟩, .inl (.caching (.onPlace settings .memory))]
    let r : Request := ⟨"POST", "/", [], .null, .arrived "a"⟩
    let w : World := .initial (fun _ => .ok ⟨200, [], []⟩) fun _ => true
    let after := (served stages w [r, r]).2
    after.asked = [] ∧ after.responsesAt .memory = some .empty := by
  intro settings failing stages r w after
  have hmem : .inl (.caching (.onPlace settings .memory)) ∈ stages := by simp [stages]
  obtain ⟨hasked, -, hresponses⟩ :=
    never_asks_in_test_mode (c := .onPlace settings .memory) hmem rfl rfl w [r, r]
  refine ⟨hasked, ?_⟩
  rcases hresponses with hsame | ⟨-, t, file, -, -, hplace⟩
  · exact hsame
  · exact hplace.elim

end EvalProxy
