/-
# The key of a saved response

The fingerprint of a call stands in its context, and every cache on the way sets it anew. So what a
cache saves in the response phase it saves under the fingerprint of the body that the last cache was
given: its own, unless a later cache was given another body.

Main definition: `cachingSteps`.
Main statements: `fingerprint_of_verdict`, `saved_under_last_fingerprint`, `saved_under_other_key`.
-/
import EvalProxy.Proofs.Cache.Entries
import EvalProxy.Proofs.Chain.Joined
import EvalProxy.Proofs.Chain.Phases
import EvalProxy.Proofs.Interceptor
namespace EvalProxy

open Cache (fingerprint marked)

/-! ## Single stages -/

/-- What a stage makes of the context of a request: a cache sets the fingerprint, and no other stage
changes anything. -/
theorem Interceptor.context_of_proceed {i : Interceptor} {r q : Request} {w : World}
    (h : (i.onRequest r w).1 = .ok (.proceed q)) :
    q.context = if i.isCaching then (marked r).context else r.context := by
  cases hcaching : i.isCaching with
  | true =>
    cases i with
    | caching c =>
      have h : ((c.cache w).onRequest r).1 = .ok (.proceed q) := h
      rcases Cache.onRequest_cases (c.cache w) r with
        ⟨-, htaken⟩ | ⟨-, reply, -, htaken⟩ | ⟨-, -, -, d, htaken⟩ | ⟨-, -, -, htaken⟩
      · obtain rfl : marked r = q := by simpa [htaken] using h
        rfl
      · simp [htaken] at h
      · simp [htaken] at h
      · obtain rfl : marked r = q := by simpa [htaken] using h
        rfl
    | _ => simp [isCaching] at hcaching
  | false =>
    obtain ⟨i', w', htaken, -, -⟩ := onRequest_of_plain hcaching r w
    rw [htaken] at h
    cases hbody : i.rewrite r.body with
    | error e => simp [hbody, Except.map] at h
    | ok b =>
      obtain rfl : { r with body := b } = q := by simpa [hbody, Except.map] using h
      rfl

/-- A cache is a cache whatever request it takes. -/
theorem Interceptor.isCaching_of_left {i : Interceptor} {r : Request} {w : World} {c : Caching}
    (h : (i.onRequest r w).2.1 = .caching c) : i.isCaching = true := by
  have hbuilt := i.built_onRequest r w
  rw [h] at hbuilt
  obtain ⟨c', rfl, -, -⟩ := built_eq_caching hbuilt.symm
  rfl

namespace Chain

/-! ## The request phase -/

/-- The steps in which a cache takes the request. -/
def cachingSteps (steps : List (RequestStep Interceptor)) : List (RequestStep Interceptor) :=
  steps.filter (·.stage.isCaching)

/-- Of a cache and the caches after it the last is the last of all. -/
theorem getLast?_cachingSteps {steps : List (RequestStep Interceptor)} {i : Nat}
    {own : RequestStep Interceptor} (hown : steps[i]? = some own)
    (hcaching : own.stage.isCaching = true) :
    (cachingSteps steps).getLast? =
      some ((cachingSteps (steps.drop (i + 1))).getLast?.getD own) := by
  obtain ⟨hi, rfl⟩ := List.getElem?_eq_some_iff.1 hown
  have hsplit : steps = steps.take i ++ steps[i] :: steps.drop (i + 1) := by simp
  conv_lhs => rw [hsplit]
  rw [cachingSteps, List.filter_append, List.filter_cons, if_pos hcaching, List.getLast?_append,
    List.getLast?_cons]
  rfl

/-- **A request goes on to the model** with the fingerprint that the last cache gave it. -/
theorem fingerprint_of_verdict {stages : List Interceptor} {r q : Request} {w : World}
    {steps : List (RequestStep Interceptor)} (h : RequestsPass stages r w steps)
    (hq : verdict r steps = .ok (.proceed q)) :
    q.context.fingerprint =
      ((cachingSteps steps).getLast?.map fun a => fingerprint a.given.body).or
        r.context.fingerprint := by
  -- each stage accounts for one step; a later cache hides what an earlier one set
  induction stages generalizing r w steps with
  | nil =>
    rw [requestsPass_nil.1 h] at hq ⊢
    obtain rfl : r = q := by simpa [verdict] using hq
    rfl
  | cons i rest ih =>
    cases hnext : (RequestStep.of i r w).next? with
    | none =>
      rw [(requestsPass_cons_of_stop hnext).1 h] at hq
      exact absurd hq (RequestStep.next?_eq_none_iff.1 hnext q)
    | some handed =>
      obtain ⟨r', w'⟩ := handed
      obtain ⟨more, rfl, hmore⟩ := (requestsPass_cons_of_next hnext).1 h
      rw [(verdict_cons_of_next hnext more).1] at hq
      rw [ih hmore hq]
      have hcontext := Interceptor.context_of_proceed (RequestStep.next?_eq_some_iff.1 hnext).1
      unfold cachingSteps
      rw [List.filter_cons, hcontext]
      show _ = Option.or (Option.map _ (List.getLast? (if i.isCaching = true then _ else _))) _
      split
      · rw [List.getLast?_cons]
        cases (more.filter (·.stage.isCaching)).getLast? <;> rfl
      · rfl

/-! ## The response phase -/

/-- Every stage is given the response with the context that it came with. -/
theorem context_of_responsesPass {stages : List Interceptor} {p : Response} {w : World}
    {steps : List (ResponseStep Interceptor)} (h : ResponsesPass stages p w steps) :
    ∀ a ∈ steps, a.given.context = p.context := by
  induction stages generalizing p w steps with
  | nil =>
    rw [responsesPass_nil.1 h]
    simp
  | cons i rest ih =>
    obtain ⟨more, rfl, hmore⟩ := responsesPass_cons.1 h
    have hpassed : (ResponseStep.of i p w).passed.context = p.context := by
      have houtcome : (ResponseStep.of i p w).outcome = _ := i.outcome_onResponse p w
      rw [ResponseStep.passed, houtcome]
    refine List.forall_mem_cons.2 ⟨rfl, ?_⟩
    intro a ha
    rw [ih hmore a ha, hpassed]

/-! ## Calls -/

section

variable {stages : List Interceptor} {r : Request} {w : World} {t : Trace Interceptor}
  {a : ResponseStep Interceptor} {c : Caching} {key : String}

/-- A response that a cache saves is the reply of the model to a request that passed all stages. -/
theorem forwarded_of_saves
    (ht : t.Follows World.askModel stages r w (process World.askModel stages r w))
    (ha : a ∈ t.responses) {cache : Cache} (hsaves : cache.saves key a.given = true) :
    ∃ q p w', verdict r t.requests = .ok (.proceed q) ∧ p.context = q.context ∧
      ResponsesPass (stagesAfter stages t.requests) p w' t.responses := by
  obtain ⟨-, hfresh, -⟩ := Cache.saves_iff.1 hsaves
  cases hverdict : verdict r t.requests with
  | error e =>
    rw [(ht.refused e hverdict).1] at ha
    simp at ha
  | ok v =>
    cases v with
    -- what a cache answers with comes from a cache, and is not saved
    | answer p =>
      have hpass := (ht.replied p _ (Or.inl ⟨hverdict, rfl⟩)).1
      have hphase := congrArg Prod.fst (requestPhase_eq ht.requests)
      obtain ⟨i, q, w', -, hanswered⟩ := answered_iff.1 (hphase.trans hverdict)
      obtain ⟨c', reply, -, -, -, rfl⟩ := Interceptor.caching_of_answered hanswered
      rw [context_of_responsesPass hpass a ha] at hfresh
      simp [Cache.replayed, Reply.toResponse] at hfresh
    | proceed q =>
      have hasked := ht.asked q hverdict
      cases hreply : (World.askModel q (worldAfter w t.requests)).1 with
      | error e =>
        rw [(ht.unanswered _ hasked e hreply).1] at ha
        simp at ha
      | ok p =>
        have hpass := (ht.replied p _ (Or.inr ⟨_, hasked, hreply, rfl⟩)).1
        refine ⟨q, p, _, rfl, ?_, hpass⟩
        rw [World.askModel] at hreply
        cases hmodel : (worldAfter w t.requests).model (q :: (worldAfter w t.requests).asked) with
        | error e => simp [hmodel, Except.map] at hreply
        | ok reply =>
          obtain rfl : reply.toResponse q.context = p := by simpa [hmodel, Except.map] using hreply
          rfl

/-- **A cache saves a response under the fingerprint that the last cache gave the call**, and writes
nothing under any other. That is the fingerprint of the body that it was given itself, if every
cache after it was given a body with that fingerprint too. -/
theorem saved_under_last_fingerprint {i : Nat}
    (ht : t.Follows World.askModel stages r w (process World.askModel stages r w))
    (ha : t.responses[i]? = some a) (hstage : a.stage = .caching c)
    (hsaves : (c.cache a.before).saves key a.given = true) :
    ∃ own last, t.requests[i]? = some own ∧ own.left = .caching c ∧
      (cachingSteps t.requests).getLast? = some last ∧ key = fingerprint last.given.body ∧
      ((∀ b ∈ t.requests.drop (i + 1), b.stage.isCaching = true →
        fingerprint b.given.body = fingerprint own.given.body) →
        key = fingerprint own.given.body) ∧
      ∀ key', key' ≠ key →
        ((c.cache a.before).onResponse a.given).store.entry key' =
          (c.cache a.before).store.entry key' := by
  obtain ⟨q, p, w', hverdict, hcontext, hpass⟩ :=
    forwarded_of_saves ht (List.mem_of_getElem? ha) hsaves
  -- all stages took the request, so the one that takes the response took it at the same place
  have hown : ∃ own, t.requests[i]? = some own ∧ own.left = .caching c := by
    have hlength := ((verdict_proceed_iff ht.requests).1 ⟨q, hverdict⟩).1
    have horder := congrArg (·[i]?) hpass.order
    rw [stagesAfter, hlength, List.drop_length, List.append_nil] at horder
    simp only [List.getElem?_map, ha, Option.map_some, hstage] at horder
    exact Option.map_eq_some_iff.1 horder.symm
  obtain ⟨own, hown, hleft⟩ := hown
  have hcaching : own.stage.isCaching = true := by
    have hgenuine := ht.requests.genuine own (List.mem_of_getElem? hown)
    rw [hgenuine] at hleft
    exact Interceptor.isCaching_of_left hleft
  -- the last cache of all is the last one after this, or this one
  have hlast := getLast?_cachingSteps hown hcaching
  have hkey := fingerprint_of_verdict ht.requests hverdict
  rw [hlast, ← hcontext, ← context_of_responsesPass hpass a (List.mem_of_getElem? ha),
    (Cache.saves_iff.1 hsaves).2.2.1] at hkey
  have hkey := Option.some.inj hkey
  refine ⟨own, _, hown, hleft, hlast, hkey, ?_, ?_⟩
  · intro hsame
    rw [hkey]
    cases hlater : (cachingSteps (t.requests.drop (i + 1))).getLast? with
    | none => rfl
    | some b =>
      obtain ⟨hb, hcaching⟩ := List.mem_filter.1 (List.mem_of_getLast? hlater)
      exact hsame b hb hcaching
  · intro key' hne
    apply Cache.entry_onResponse_of_ne
    rw [(Cache.saves_iff.1 hsaves).2.2.1]
    exact fun heq => hne (Option.some.inj heq).symm

end

/-- Of two caches around a stage that adds a parameter, the first saves the reply under the
fingerprint of the body that the second was given. -/
theorem saved_under_last_fingerprint_of_two :
    let settings : Cache.Settings := ⟨none, true, false, true, none, none, false, none, none⟩
    let w : World := .initial (fun _ => .ok ⟨200, [], []⟩) fun _ => true
    let stages : List Interceptor :=
      [.caching (.onPlace settings .memory), .payload ⟨[("x", .null)], [], []⟩,
        .caching (.onPlace settings (.file "d"))]
    let r : Request := ⟨"POST", "/", [], .object [], .arrived "a"⟩
    let key := fingerprint (.object [("x", .null)])
    ∃ (t : Trace Interceptor) (a : ResponseStep Interceptor) (c : Caching)
      (last : RequestStep Interceptor),
      t.Follows World.askModel stages r w (process World.askModel stages r w) ∧
      t.responses[0]? = some a ∧ a.stage = .caching c ∧
      (c.cache a.before).saves key a.given = true ∧
      (cachingSteps t.requests).getLast? = some last ∧ key = fingerprint last.given.body := by
  intro settings w stages r key
  let q : Request := { r with body := .object [("x", .null)], context := ⟨"a", some key, false⟩ }
  obtain ⟨t, ht⟩ := exists_follows World.askModel stages r w
  have hphase := requestPhase_eq ht.requests
  have hverdict : verdict r t.requests = .ok (.proceed q) := (congrArg Prod.fst hphase).symm
  have hstages : stagesAfter stages t.requests = (requestPhase stages r w).2.1 := by rw [hphase]
  have hworld : worldAfter w t.requests = (requestPhase stages r w).2.2 := by rw [hphase]
  have hasked := ht.asked q hverdict
  rw [hworld] at hasked
  let p : Response := ⟨200, [], [], q.context⟩
  have hpass := (ht.replied p _ (Or.inr ⟨_, hasked, rfl, rfl⟩)).1
  rw [hstages] at hpass
  -- the first step with the response is that of the first cache
  let c : Caching := ((Caching.onPlace settings .memory).onRequest r w).2.1
  let a : ResponseStep Interceptor :=
    .of (.caching c) p (ModelStep.of World.askModel q (requestPhase stages r w).2.2).after
  obtain ⟨more, hresponses, -⟩ :=
    responsesPass_cons.1 (show ResponsesPass (_ :: _) p _ _ from hpass)
  have hfirst : t.responses[0]? = some a := congrArg (·[0]?) hresponses
  have hsaves : (c.cache a.before).saves key a.given = true :=
    Cache.saves_iff.2 ⟨rfl, rfl, rfl, rfl, rfl⟩
  obtain ⟨own, last, -, -, hlast, hkey, -⟩ := saved_under_last_fingerprint ht hfirst rfl hsaves
  exact ⟨t, a, c, last, ht, hfirst, rfl, hsaves, hlast, hkey⟩

/-- The key need not be that of the cache's own body: with two caches around a stage that adds a
parameter, both stores hold the reply under the fingerprint of the body that the second cache was
given, and the first cache will not find it. -/
theorem saved_under_other_key :
    let settings : Cache.Settings := ⟨none, true, false, true, none, none, false, none, none⟩
    let model (_ : List Request) : Except Failure Reply := .ok ⟨200, [], Text.encode "ok"⟩
    let w := ((World.initial model fun _ => true).openStore "d").2
    let stages : List Interceptor :=
      [.caching (.onPlace settings .memory), .payload ⟨[("x", .null)], [], []⟩,
        .caching (.onPlace settings (.file "d/cache.db"))]
    let r : Request := ⟨"POST", "/", [], .object [], .arrived "a"⟩
    let w' := (process World.askModel stages r w).2.2
    let key := fingerprint (.object [("x", .null)])
    (w'.store .memory).responses.keys = [key] ∧
      (w'.store (.file "d/cache.db")).responses.keys = [key] ∧ key ≠ fingerprint r.body := by
  decide +kernel

end Chain

end EvalProxy
