/-
# Why a call fails

Trouble with stores, with files and with the progress listener ends where it arises. A call fails
exactly if the model does not answer it, if parameters are to be changed in a body that has none, or
if a cache in test mode knows no response to it.

Main definitions: `Interceptor.Refuses`, `Disturbance`, `Cause`.
Main statements: `Interceptor.onRequest_eq_error_iff`, `Interceptor.onResponse_of_isBestEffort`,
`fails_iff_cause`.
-/
import EvalProxy.Proofs.Cache.Calls
import EvalProxy.Proofs.Chain.Joined
import EvalProxy.Proofs.Interceptor
namespace EvalProxy

open Cache (canonicalText diagnose fingerprint lookup)

/-! ## Stages that refuse a request -/

/-- Why a stage refuses a request, and with which failure: it is to change parameters in a body that
is no object, or it is a cache that reuses responses, is in test mode and finds none that it can
use. -/
inductive Interceptor.Refuses : Interceptor → Request → World → Failure → Prop
  | parameters {s : Payload.Settings} {r : Request} {w : World}
      (noObject : ∀ members, r.body ≠ .object members) :
      Refuses (.payload s) r w (.invalidRequest "request body must be a JSON object")
  | miss {c : Caching} {r : Request} {w : World} (reuses : c.settings.reuse = true)
      (tests : c.settings.testMode = true)
      (misses : ∀ reply, lookup (w.store c.place) (fingerprint r.body) ≠ .ok (some reply)) :
      Refuses (.caching c) r w (.cacheMiss
        (diagnose ((c.cache w).noted r).store (fingerprint r.body) (canonicalText r.body)))

/-- A payload change fails for bodies that are no objects only, and says so. -/
theorem Payload.Settings.apply_eq_error_iff {s : Settings} {body : Json} {e : Failure} :
    s.apply body = .error e ↔
      (∀ members, body ≠ .object members) ∧
        e = .invalidRequest "request body must be a JSON object" := by
  cases body with
  | object members => simp [apply]
  | _ => simp [apply, eq_comm]

/-- A cache refuses a request in test mode only, and only one that it cannot answer. -/
theorem Caching.refuses_of_error {c : Caching} {r : Request} {w : World} {e : Failure}
    (h : (c.onRequest r w).1 = .error e) : (Interceptor.caching c).Refuses r w e := by
  have h : ((c.cache w).onRequest r).1 = .error e := h
  rcases Cache.onRequest_cases (c.cache w) r with
    ⟨-, htaken⟩ | ⟨-, reply, -, htaken⟩ | ⟨hreuse, hmiss, htest, -⟩ | ⟨-, -, -, htaken⟩
  · simp [htaken] at h
  · simp [htaken] at h
  · rw [Cache.onRequest_of_misses hreuse hmiss, if_pos htest] at h
    obtain rfl := Except.error.inj h
    exact .miss hreuse htest hmiss
  · simp [htaken] at h

namespace Interceptor

/-- **Only two kinds of stages refuse a request**, whatever the world is like. -/
theorem onRequest_eq_error_iff {i : Interceptor} {r : Request} {w : World} {e : Failure} :
    (i.onRequest r w).1 = .error e ↔ i.Refuses r w e := by
  constructor
  · intro h
    cases i with
    | caching c => exact Caching.refuses_of_error h
    | payload s =>
      rw [onRequest] at h
      cases hbody : s.apply r.body with
      | ok body => simp [hbody] at h
      | error e' =>
        obtain rfl : e' = e := by simpa [hbody] using h
        obtain ⟨hobject, rfl⟩ := Payload.Settings.apply_eq_error_iff.1 hbody
        exact .parameters hobject
    | requestLog l => simp [onRequest, wrap, CallLog.Logger.onRequest] at h
    | systemMessage s => simp [onRequest] at h
    | stats s => simp [onRequest] at h
    | progress t => simp [onRequest] at h
    | reasoning s => simp [onRequest] at h
    | responseLog l => simp [onRequest] at h
  · intro h
    cases h with
    | @parameters s _ _ hobject =>
      have hbody := (Payload.Settings.apply_eq_error_iff (s := s)).2 ⟨hobject, rfl⟩
      rw [onRequest, hbody]
    | @miss c _ _ hreuse htest hmiss =>
      have hreuse : (c.cache w).settings.reuse = true := hreuse
      have htest : (c.cache w).settings.testMode = true := htest
      have hmiss : (c.cache w).Misses r := hmiss
      show ((c.cache w).onRequest r).1 = _
      rw [Cache.onRequest_of_misses hreuse hmiss, if_pos htest]

/-- Whether a stage does its work beside the call: it may store, count, report or log a response. -/
def isBestEffort : Interceptor → Bool
  | caching _ | stats _ | progress _ | requestLog _ | responseLog _ => true
  | reasoning _ | payload _ | systemMessage _ => false

/-- **A stage that works beside the call hands every response on as it is.** -/
theorem onResponse_of_isBestEffort {i : Interceptor} (h : i.isBestEffort = true) (p : Response)
    (w : World) : ∃ i' w', i.onResponse p w = (.ok p, i', w') := by
  cases hcaching : i.isCaching with
  | true =>
    cases i with
    | caching c => exact ⟨_, _, rfl⟩
    | _ => simp [isCaching] at hcaching
  | false =>
    obtain ⟨i', w', htaken, -, -⟩ := onResponse_of_plain hcaching p w
    have hstrip : i.strip p.body = p.body := by
      cases i with
      | reasoning s => simp [isBestEffort] at h
      | _ => rfl
    rw [hstrip] at htaken
    exact ⟨i', w', htaken⟩

end Interceptor

/-! ## Disturbances -/

/-- Whatever happens around a chain between two of its stages, while a request or a response is on
its way: files come and go, entries are damaged, stores and the listener begin to fail or work
again. -/
structure Disturbance where
  duringRequest : World → World
  duringResponse : World → World

instance : Stage Disturbance where
  name _ := "disturbance"
  onRequest d r w := (.ok (.proceed r), d, d.duringRequest w)
  onResponse d r w := (.ok r, d, d.duringResponse w)
  onStart d w := (.ok (), d, w)
  onShutdown d w := (.ok (), d, w)

/-! ## Causes -/

/-- Why a call fails with an error: the model fails with it, or a stage that the request reaches
refuses it. `put` makes a stage of the chain of one that the proxy comes with. -/
inductive Cause {ι : Type} [Stage ι] (put : Interceptor → ι)
    (ask : Request → World → Except Failure Response × World) (stages : List ι) (r : Request)
    (w : World) (e : Failure) : Prop where
  | model {q : Request} {w' : World} (forwarded : Chain.Forwarded stages r w q w')
      (fails : (ask q w').1 = .error e)
  | stage {i : Interceptor} {q : Request} {w' : World}
      (handed : Chain.Handed stages r w (put i) q w') (refuses : i.Refuses q w' e)

/-- Where only stages that the proxy comes with refuse requests, calls fail exactly with a cause. -/
theorem process_eq_error_iff_cause {ι : Type} [Stage ι] {put : Interceptor → ι}
    (hput : ∀ (s : ι) (q : Request) (w' : World) (e : Failure),
      (Stage.onRequest s q w').1 = .error e ↔
        ∃ i : Interceptor, s = put i ∧ (i.onRequest q w').1 = .error e)
    (ask : Request → World → Except Failure Response × World) (stages : List ι) (r : Request)
    (w : World) (e : Failure) :
    (Chain.process ask stages r w).1 = .error e ↔ Cause put ask stages r w e := by
  rw [Chain.process_eq_error_iff]
  constructor
  · rintro (⟨q, w', hforwarded, hfails⟩ | ⟨s, q, w', hhanded, hrefused⟩)
    · exact .model hforwarded hfails
    · obtain ⟨i, rfl, hi⟩ := (hput s q w' e).1 hrefused
      exact .stage hhanded (Interceptor.onRequest_eq_error_iff.1 hi)
  · intro h
    cases h with
    | model hforwarded hfails => exact Or.inl ⟨_, _, hforwarded, hfails⟩
    | stage hhanded hrefuses =>
      have hi := Interceptor.onRequest_eq_error_iff.2 hrefuses
      exact Or.inr ⟨_, _, _, hhanded, (hput _ _ _ e).2 ⟨_, rfl, hi⟩⟩

/-- **Work beside the call never makes it fail.** In every world, with whatever files, faults of
stores and listener, a call through stages that the proxy comes with fails exactly with a cause,
also if anything at all happens around the chain between two stages; and every stage that works
beside the call hands every response on with its status, header fields, body and context. -/
theorem fails_iff_cause :
    (∀ (ask : Request → World → Except Failure Response × World) (stages : List Interceptor)
      (r : Request) (w : World) (e : Failure),
      (Chain.process ask stages r w).1 = .error e ↔ Cause id ask stages r w e) ∧
    (∀ (ask : Request → World → Except Failure Response × World)
      (stages : List (Interceptor ⊕ Disturbance)) (r : Request) (w : World) (e : Failure),
      (Chain.process ask stages r w).1 = .error e ↔ Cause .inl ask stages r w e) ∧
    ∀ i : Interceptor, i.isBestEffort = true → ∀ (p : Response) (w : World),
      ∃ i' w', i.onResponse p w = (.ok p, i', w') := by
  refine ⟨?_, ?_, fun i h p w => Interceptor.onResponse_of_isBestEffort h p w⟩
  · apply process_eq_error_iff_cause
    intro i q w' e
    exact ⟨fun h => ⟨i, rfl, h⟩, by rintro ⟨i, rfl, h⟩; exact h⟩
  · apply process_eq_error_iff_cause
    intro s q w' e
    constructor
    · intro h
      cases s with
      | inl i => exact ⟨i, rfl, h⟩
      -- a disturbance hands every request on
      | inr d => cases h
    · rintro ⟨i, rfl, h⟩
      exact h

/-- The parameters of a body that is no object cannot be changed, also if every store is lost before
the request arrives; and a log hands on a response. -/
theorem fails_iff_cause_null :
    let r : Request := ⟨"POST", "/", [], .null, .arrived "a"⟩
    let w : World := .initial (fun _ => .error (.storage "")) fun _ => false
    let e : Failure := .invalidRequest "request body must be a JSON object"
    let payload : Interceptor := .payload ⟨[], ["seed"], []⟩
    let loss : Disturbance := ⟨fun w => { w with memory := World.noStore }, id⟩
    let disturbed : List (Interceptor ⊕ Disturbance) := [.inr loss, .inl payload]
    let log : Interceptor := .responseLog (.fresh ⟨none, 10⟩)
    Cause id World.askModel [payload] r w e ∧ Cause .inl World.askModel disturbed r w e ∧
      ∃ log' w', log.onResponse ⟨200, [], [], r.context⟩ w
        = (.ok ⟨200, [], [], r.context⟩, log', w') := by
  intro r w e payload loss disturbed log
  obtain ⟨hplain, hdisturbed, hresponse⟩ := fails_iff_cause
  have hfails : (Chain.process World.askModel [payload] r w).1 = .error e := rfl
  have hfails' : (Chain.process World.askModel disturbed r w).1 = .error e := rfl
  exact ⟨(hplain _ _ r w e).1 hfails, (hdisturbed _ _ r w e).1 hfails', hresponse log rfl _ w⟩

end EvalProxy
