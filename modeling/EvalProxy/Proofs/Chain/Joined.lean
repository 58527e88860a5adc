/-
# Phases over joined lists

A list of stages passes a request on as its first part does and then its second. So a request that
is refused or answered is stopped by one stage, which the stages before it let it reach, and a call
fails either there or at the model.

Main definitions: `Chain.Forwarded`, `Chain.Handed`.
Main statements: `Chain.requestPhase_append_of_proceed`, `Chain.responsePhase_append`,
`Chain.stopped_iff`, `Chain.process_eq_error_iff`.
-/
import EvalProxy.Chain
namespace EvalProxy.Chain

variable {ι : Type} [Stage ι]

/-! ## One list after the other -/

/-- A request that the first stages hand on passes through the others. -/
theorem requestPhase_append_of_proceed {xs xs' : List ι} {r r' : Request} {w w' : World}
    (h : requestPhase xs r w = (.ok (.proceed r'), xs', w')) (ys : List ι) :
    requestPhase (xs ++ ys) r w =
      ((requestPhase ys r' w').1, xs' ++ (requestPhase ys r' w').2.1,
        (requestPhase ys r' w').2.2) := by
  induction xs generalizing r w xs' with
  | nil =>
    obtain ⟨hr, rfl, rfl⟩ : r = r' ∧ [] = xs' ∧ w = w' := by simpa [requestPhase] using h
    rw [hr]
    rfl
  | cons s rest ih =>
    rw [List.cons_append, requestPhase]
    rw [requestPhase] at h
    rcases htaken : Stage.onRequest s r w with ⟨outcome, s', w₁⟩
    rw [htaken] at h
    -- the first stage must hand the request on for all of them to do so
    rcases outcome with e | r₁ | p
    · simp at h
    · dsimp only at h ⊢
      rcases hphase : requestPhase rest r₁ w₁ with ⟨outcome, rest', w₂⟩
      rw [hphase] at h
      obtain ⟨rfl, rfl, rfl⟩ := by simpa using h
      rw [ih hphase]
      rfl
    · simp at h

/-- A request that the first stages do not hand on reaches no other. -/
theorem requestPhase_append_of_stop {xs xs' : List ι} {r : Request} {w w' : World}
    {outcome : Except Failure Verdict} (h : requestPhase xs r w = (outcome, xs', w'))
    (hstop : ∀ r', outcome ≠ .ok (.proceed r')) (ys : List ι) :
    requestPhase (xs ++ ys) r w = (outcome, xs' ++ ys, w') := by
  induction xs generalizing r w xs' with
  | nil => exact absurd (congrArg Prod.fst h).symm (hstop r)
  | cons s rest ih =>
    rw [List.cons_append, requestPhase]
    rw [requestPhase] at h
    rcases htaken : Stage.onRequest s r w with ⟨outcome', s', w₁⟩
    rw [htaken] at h
    -- the phase ends at the first stage or at one of the others
    rcases outcome' with e | r₁ | p
    · obtain ⟨rfl, rfl, rfl⟩ := by simpa using h
      rfl
    · dsimp only at h ⊢
      rcases hphase : requestPhase rest r₁ w₁ with ⟨outcome', rest', w₂⟩
      rw [hphase] at h
      obtain ⟨rfl, rfl, rfl⟩ := by simpa using h
      rw [ih hphase]
      rfl
    · obtain ⟨rfl, rfl, rfl⟩ := by simpa using h
      rfl

/-- A response passes through joined lists of stages one after the other. -/
theorem responsePhase_append (xs ys : List ι) (p : Response) (w : World) :
    responsePhase (xs ++ ys) p w =
      let (p, xs, w) := responsePhase xs p w
      let (p, ys, w) := responsePhase ys p w
      (p, xs ++ ys, w) := by
  induction xs generalizing p w with
  | nil => rfl
  | cons s rest ih =>
    rw [List.cons_append, responsePhase, responsePhase]
    split
    · rw [ih]
      rfl
    · rw [ih]
      rfl

/-! ## Where a call fails -/

/-- All stages let a request go on: it leaves them as `q` in the world `w'`. -/
def Forwarded (stages : List ι) (r : Request) (w : World) (q : Request) (w' : World) : Prop :=
  ∃ stages', requestPhase stages r w = (.ok (.proceed q), stages', w')

/-- A request reaches a stage as `q` in the world `w'`. -/
def Handed (stages : List ι) (r : Request) (w : World) (s : ι) (q : Request) (w' : World) : Prop :=
  ∃ before after, stages = before ++ s :: after ∧ Forwarded before r w q w'

variable {stages stages' : List ι} {s : ι} {r q : Request} {w w' : World} {e : Failure}

theorem forwarded_nil (r : Request) (w : World) : Forwarded ([] : List ι) r w r w := ⟨[], rfl⟩

/-- A request that a stage lets proceed is forwarded by the stage and those behind it. -/
theorem Forwarded.cons {s' : ι} {r₁ : Request} {w₁ : World}
    (h : Forwarded stages r₁ w₁ q w') (hs : Stage.onRequest s r w = (.ok (.proceed r₁), s', w₁)) :
    Forwarded (s :: stages) r w q w' := by
  obtain ⟨stages', h⟩ := h
  refine ⟨s' :: stages', ?_⟩
  rw [requestPhase, hs]
  simp only [h]

/-- A request that a stage lets proceed is handed to a stage behind it. -/
theorem Handed.cons {s₀ s₀' : ι} {r₁ : Request} {w₁ : World} (h : Handed stages r₁ w₁ s q w')
    (hs : Stage.onRequest s₀ r w = (.ok (.proceed r₁), s₀', w₁)) :
    Handed (s₀ :: stages) r w s q w' := by
  obtain ⟨before, after, rfl, hbefore⟩ := h
  exact ⟨s₀ :: before, after, rfl, hbefore.cons hs⟩

/-- Every stage takes a request that they all let go on, and hands it on. -/
theorem Forwarded.handed (h : Forwarded stages r w q w') (hs : s ∈ stages) :
    ∃ q₁ w₁ q₂, Handed stages r w s q₁ w₁ ∧ (Stage.onRequest s q₁ w₁).1 = .ok (.proceed q₂) := by
  induction stages generalizing r w with
  | nil => simp at hs
  | cons s₀ rest ih =>
    obtain ⟨stages', hphase⟩ := h
    rw [requestPhase] at hphase
    rcases htaken : Stage.onRequest s₀ r w with ⟨outcome, s', w₁⟩
    rw [htaken] at hphase
    rcases outcome with e | r₁ | p
    · simp at hphase
    · dsimp only at hphase
      rcases hrest : requestPhase rest r₁ w₁ with ⟨outcome, rest', w₂⟩
      rw [hrest] at hphase
      obtain ⟨rfl, -, rfl⟩ := by simpa using hphase
      rcases List.mem_cons.1 hs with rfl | hs
      · exact ⟨r, w, r₁, ⟨[], rest, rfl, forwarded_nil r w⟩, by rw [htaken]⟩
      · obtain ⟨q₁, w₃, q₂, hhanded, htakes⟩ := ih ⟨rest', hrest⟩ hs
        exact ⟨q₁, w₃, q₂, hhanded.cons htaken, htakes⟩
    · simp at hphase

/-- A request phase that does not reach the model is stopped by a stage that the request was handed
to. -/
theorem exists_handed_of_stopped {outcome : Except Failure Verdict}
    (hstop : ∀ q, outcome ≠ .ok (.proceed q))
    (h : requestPhase stages r w = (outcome, stages', w')) :
    ∃ s q w₁, Handed stages r w s q w₁ ∧ (Stage.onRequest s q w₁).1 = outcome := by
  induction stages generalizing r w stages' w' with
  | nil => exact absurd (congrArg Prod.fst h).symm (hstop r)
  | cons s rest ih =>
    rw [requestPhase] at h
    rcases htaken : Stage.onRequest s r w with ⟨outcome', s', w₁⟩
    rw [htaken] at h
    -- the first stage stops the request, or one of those that it hands it on to does
    rcases outcome' with e | r₁ | p
    · obtain ⟨rfl, -, -⟩ := by simpa using h
      exact ⟨s, r, w, ⟨[], rest, rfl, forwarded_nil r w⟩, by rw [htaken]⟩
    · dsimp only at h
      rcases hphase : requestPhase rest r₁ w₁ with ⟨outcome', rest', w₂⟩
      rw [hphase] at h
      obtain ⟨rfl, -, -⟩ := by simpa using h
      obtain ⟨s₁, q, w₃, hhanded, hstopped⟩ := ih hphase
      exact ⟨s₁, q, w₃, hhanded.cons htaken, hstopped⟩
    · obtain ⟨rfl, -, -⟩ := by simpa using h
      exact ⟨s, r, w, ⟨[], rest, rfl, forwarded_nil r w⟩, by rw [htaken]⟩

/-- **A request is stopped by a stage** that it reaches, with the same outcome. -/
theorem stopped_iff {outcome : Except Failure Verdict} (hstop : ∀ q, outcome ≠ .ok (.proceed q)) :
    (requestPhase stages r w).1 = outcome ↔
      ∃ s q w', Handed stages r w s q w' ∧ (Stage.onRequest s q w').1 = outcome := by
  constructor
  · intro h
    rcases hphase : requestPhase stages r w with ⟨outcome', stages', w'⟩
    rw [hphase] at h
    obtain rfl : outcome' = outcome := h
    exact exists_handed_of_stopped hstop hphase
  · rintro ⟨s, q, w', ⟨before, after, rfl, before', hbefore⟩, hstopped⟩
    rcases htaken : Stage.onRequest s q w' with ⟨outcome', s', w₁⟩
    rw [htaken] at hstopped
    obtain rfl : outcome' = outcome := hstopped
    rw [requestPhase_append_of_proceed hbefore, requestPhase, htaken]
    rcases outcome' with e | r₁ | p
    · rfl
    · exact absurd rfl (hstop r₁)
    · rfl

/-- A request is refused by a stage that it reaches. -/
theorem refused_iff :
    (requestPhase stages r w).1 = .error e ↔
      ∃ s q w', Handed stages r w s q w' ∧ (Stage.onRequest s q w').1 = .error e :=
  stopped_iff (by simp)

/-- A request is answered by a stage that it reaches. -/
theorem answered_iff {p : Response} :
    (requestPhase stages r w).1 = .ok (.answer p) ↔
      ∃ s q w', Handed stages r w s q w' ∧ (Stage.onRequest s q w').1 = .ok (.answer p) :=
  stopped_iff (by simp)

/-- **A call fails at the model**, or at a stage that refuses the request. No response makes it
fail. -/
theorem process_eq_error_iff {ask : Request → World → Except Failure Response × World} :
    (process ask stages r w).1 = .error e ↔
      (∃ q w', Forwarded stages r w q w' ∧ (ask q w').1 = .error e) ∨
        ∃ s q w', Handed stages r w s q w' ∧ (Stage.onRequest s q w').1 = .error e := by
  rw [← refused_iff]
  constructor
  · intro h
    rcases hphase : requestPhase stages r w with ⟨outcome, stages', w'⟩
    rcases outcome with e' | q | p
    · rw [process_of_refused ask hphase] at h
      obtain rfl : e' = e := by simpa using h
      exact Or.inr rfl
    · cases hreply : (ask q w').1 with
      | error e' =>
        rw [process_of_unanswered hphase hreply] at h
        obtain rfl : e' = e := by simpa using h
        exact Or.inl ⟨q, w', ⟨stages', hphase⟩, hreply⟩
      | ok p =>
        rw [process_of_replied hphase hreply] at h
        simp [finish] at h
    · rw [process_of_answered ask hphase] at h
      simp [finish] at h
  · rintro (⟨q, w', ⟨stages', hphase⟩, hfails⟩ | hrefused)
    · rw [process_of_unanswered hphase hfails]
    · rcases hphase : requestPhase stages r w with ⟨outcome, stages', w'⟩
      rw [hphase] at hrefused
      obtain rfl : outcome = .error e := hrefused
      rw [process_of_refused ask hphase]

end EvalProxy.Chain
