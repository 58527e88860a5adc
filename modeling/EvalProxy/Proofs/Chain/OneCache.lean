/-
# Chains with one cache

A chain of the stages that the proxy comes with, exactly one of which is a cache. The stages before
it decide under which fingerprint it knows a request and in which form it saves a reply; what a call
comes to is decided by what is stored (`Effect`).

Main definitions: `CachedChain`, `Effect`.
Main statement: `effect_process`.
-/
import EvalProxy.Proofs.Cache.Placed
import EvalProxy.Proofs.Chain.Joined
import EvalProxy.Proofs.Interceptor
namespace EvalProxy

open Cache (fingerprint lookup marked replayed written)
open Interceptor (Alike rewriteAll stripAll)

/-! ## The chain -/

/-- A cache, and the stages before and after it, none of which is one. -/
structure CachedChain where
  before : List Interceptor
  cache : Caching
  after : List Interceptor
  plain : ∀ i ∈ before ++ after, i.isCaching = false

/-- What a cache goes by: its store and the limit of its saves, and what the model was asked. -/
structure View where
  store : Cache.Store
  limit : Cache.SaveLimit
  asked : List Request

/-- Two views differ in saved requests at most. -/
structure View.Same (v v' : View) : Prop where
  store : v.store.SameResponses v'.store
  limit : v'.limit = v.limit
  asked : v'.asked = v.asked

namespace CachedChain

/-- All stages in their order. -/
def stages (ch : CachedChain) : List Interceptor := ch.before ++ .caching ch.cache :: ch.after

theorem plain_before (ch : CachedChain) : ∀ i ∈ ch.before, i.isCaching = false :=
  fun i hi => ch.plain i (List.mem_append_left _ hi)

theorem plain_after (ch : CachedChain) : ∀ i ∈ ch.after, i.isCaching = false :=
  fun i hi => ch.plain i (List.mem_append_right _ hi)

/-- A list of stages with exactly one cache is such a chain. -/
theorem exists_stages_eq {stages : List Interceptor} (h : stages.countP (·.isCaching) = 1) :
    ∃ ch : CachedChain, ch.stages = stages := by
  have hplain {xs : List Interceptor} (hxs : xs.countP (·.isCaching) = 0) :
      ∀ i ∈ xs, i.isCaching = false := by
    intro i hi
    exact Bool.eq_false_iff.2 (List.countP_eq_zero.1 hxs i hi)
  -- the stages around the cache that is found count as none
  obtain ⟨i, hi, hcaching⟩ := List.countP_pos_iff.1 (by omega : 0 < stages.countP (·.isCaching))
  obtain ⟨before, after, rfl⟩ := List.append_of_mem hi
  cases i with
  | caching c =>
    rw [List.countP_append, List.countP_cons_of_pos rfl] at h
    refine ⟨⟨before, c, after, ?_⟩, rfl⟩
    intro i hi
    rcases List.mem_append.1 hi with hi | hi
    · exact hplain (by omega) i hi
    · exact hplain (by omega) i hi
  | _ => simp [Interceptor.isCaching] at hcaching

/-- What the cache of a chain goes by in a world. -/
def view (ch : CachedChain) (w : World) : View :=
  ⟨w.store ch.cache.place, ch.cache.counters.responses, w.asked⟩

/-- What all stages make of the body of a reply. -/
def strip (ch : CachedChain) (body : Bytes) : Bytes := stripAll ch.after (stripAll ch.before body)

/-- The fingerprint under which the cache knows a request, if it reaches the cache. -/
def key? (ch : CachedChain) (r : Request) : Option String :=
  (rewriteAll ch.before r.body).toOption.map fingerprint

/-- It is the fingerprint of the request that the stages before the cache hand on. -/
theorem key?_eq_some_iff (ch : CachedChain) (r : Request) (w : World) (key : String) :
    ch.key? r = some key ↔
      ∃ r', (Chain.requestPhase ch.before r w).1 = .ok (.proceed r') ∧
        fingerprint r'.body = key := by
  obtain ⟨before, w', hphase, -⟩ := Interceptor.requestPhase_of_plain ch.plain_before r w
  rw [hphase, key?]
  cases hbody : rewriteAll ch.before r.body with
  | error e => simp [Except.toOption, Except.map]
  | ok b => simp [Except.toOption, Except.map, eq_comm]

/-- Two chains treat calls alike: they differ in what they have counted at most. -/
structure Alike (ch ch' : CachedChain) : Prop where
  before : List.Forall₂ Interceptor.Alike ch.before ch'.before
  after : List.Forall₂ Interceptor.Alike ch.after ch'.after
  settings : ch'.cache.settings = ch.cache.settings
  place : ch'.cache.place = ch.cache.place

theorem Alike.refl (ch : CachedChain) : ch.Alike ch :=
  ⟨Interceptor.alike_refl _, Interceptor.alike_refl _, rfl, rfl⟩

theorem Alike.trans {ch₁ ch₂ ch₃ : CachedChain} (h : ch₁.Alike ch₂) (h' : ch₂.Alike ch₃) :
    ch₁.Alike ch₃ :=
  ⟨Interceptor.alike_trans h.before h'.before, Interceptor.alike_trans h.after h'.after,
    h'.settings.trans h.settings, h'.place.trans h.place⟩

/-- Chains that are alike give every request the same key. -/
theorem Alike.key? {ch ch' : CachedChain} (h : ch.Alike ch') : ch'.key? = ch.key? := by
  funext r
  rw [CachedChain.key?, CachedChain.key?, Interceptor.rewriteAll_of_alike h.before]

/-- Chains that are alike strip every body alike. -/
theorem Alike.strip {ch ch' : CachedChain} (h : ch.Alike ch') : ch'.strip = ch.strip := by
  funext body
  rw [CachedChain.strip, CachedChain.strip, Interceptor.stripAll_of_alike h.before,
    Interceptor.stripAll_of_alike h.after]

/-! ## The request phase -/

/-- What comes of a request in the request phase: it is refused, though nothing that the cache would
replay is stored for it; or it is answered with what is stored; or it goes on to the model. -/
inductive Passage (ch : CachedChain) (r : Request) (v : View) : Except Failure Verdict → Prop where
  | refused (e : Failure)
      (hlacks : ∀ b, rewriteAll ch.before r.body = .ok b →
        Cache.Lacks ch.cache.settings v.store (fingerprint b)) :
      Passage ch r v (.error e)
  | found (b : Json) (reply : Reply) (hbody : rewriteAll ch.before r.body = .ok b)
      (hreuse : ch.cache.settings.reuse = true)
      (hfound : lookup v.store (fingerprint b) = .ok (some reply)) :
      Passage ch r v (.ok (.answer (replayed { r with body := b } reply)))
  | sent (b b' : Json) (hbody : rewriteAll ch.before r.body = .ok b)
      (hlacks : Cache.Lacks ch.cache.settings v.store (fingerprint b)) :
      Passage ch r v (.ok (.proceed { marked { r with body := b } with body := b' }))

/-- What comes of a request from the cache on. -/
theorem requestPhase_caching {c : Caching} {after : List Interceptor}
    (hplain : ∀ i ∈ after, i.isCaching = false) {w : World} (hworks : (w.store c.place).Works)
    (r : Request) :
    ∃ outcome c' after' w',
      Chain.requestPhase (.caching c :: after) r w = (outcome, .caching c' :: after', w') ∧
      List.Forall₂ Interceptor.Alike after after' ∧ c'.settings = c.settings ∧
      c'.place = c.place ∧ c'.counters.responses = c.counters.responses ∧
      w'.model = w.model ∧ w'.asked = w.asked ∧
      (w.store c.place).SameResponses (w'.store c.place) ∧
      ((Cache.Lacks c.settings (w.store c.place) (fingerprint r.body) ∧ ∃ e, outcome = .error e) ∨
        (c.settings.reuse = true ∧ ∃ reply,
          lookup (w.store c.place) (fingerprint r.body) = .ok (some reply) ∧
          outcome = .ok (.answer (replayed r reply))) ∨
        (Cache.Lacks c.settings (w.store c.place) (fingerprint r.body) ∧
          ∃ b, outcome = .ok (.proceed { marked r with body := b }))) := by
  obtain ⟨c', w₁, hsettings, hplace, hlimit, hmodel, hasked, hsame, htaken⟩ :=
    c.onRequest_spec hworks r
  have hstage {p : Except Failure Verdict × Caching × World} (hp : c.onRequest r w = p) :
      Stage.onRequest (Interceptor.caching c) r w = (p.1, .caching p.2.1, p.2.2) := by
    rw [← hp]
    rfl
  rw [Chain.requestPhase]
  rcases htaken with ⟨hlacks, e, htaken⟩ | ⟨hreuse, reply, hfound, htaken⟩ | ⟨hlacks, htaken⟩
  · rw [hstage htaken]
    exact ⟨_, c', after, w₁, rfl, Interceptor.alike_refl _, hsettings, hplace, hlimit, hmodel,
      hasked, hsame, Or.inl ⟨hlacks, e, rfl⟩⟩
  · rw [hstage htaken]
    exact ⟨_, c', after, w₁, rfl, Interceptor.alike_refl _, hsettings, hplace, hlimit, hmodel,
      hasked, hsame, Or.inr (Or.inl ⟨hreuse, reply, hfound, rfl⟩)⟩
  · -- the request goes on, and the stages after the cache may still refuse it
    obtain ⟨after', w₂, hafter, halike, hw₂⟩ :=
      Interceptor.requestPhase_of_plain hplain (marked r) w₁
    rw [hstage htaken]
    simp only [hafter]
    refine ⟨_, c', after', w₂, rfl, halike, hsettings, hplace, hlimit, hw₂.model.trans hmodel,
      hw₂.asked.trans hasked, ?_, ?_⟩
    · rw [hw₂.store]
      exact hsame
    · cases rewriteAll after (marked r).body with
      | error e => exact Or.inl ⟨hlacks, e, rfl⟩
      | ok b => exact Or.inr (Or.inr ⟨hlacks, b, rfl⟩)

/-- The chain with the cache and the other stages as calls leave them. -/
def left (ch : CachedChain) {before after : List Interceptor} (c : Caching)
    (hbefore : List.Forall₂ Interceptor.Alike ch.before before)
    (hafter : List.Forall₂ Interceptor.Alike ch.after after) : CachedChain where
  before := before
  cache := c
  after := after
  plain := by
    intro i hi
    rcases List.mem_append.1 hi with hi | hi
    · exact Interceptor.plain_of_alike hbefore ch.plain_before i hi
    · exact Interceptor.plain_of_alike hafter ch.plain_after i hi

/-- **The request phase** leaves the stored responses alone. -/
theorem requestPhase_spec (ch : CachedChain) {w : World}
    (hworks : (w.store ch.cache.place).Works) (r : Request) :
    ∃ outcome ch' w', Chain.requestPhase ch.stages r w = (outcome, stages ch', w') ∧
      ch.Alike ch' ∧ w'.model = w.model ∧ (ch.view w).Same (ch'.view w') ∧
      ch.Passage r (ch.view w) outcome := by
  obtain ⟨before, w₁, hbefore, hbeforeAlike, hw₁⟩ :=
    Interceptor.requestPhase_of_plain ch.plain_before r w
  have hstore₁ : w₁.store ch.cache.place = w.store ch.cache.place := hw₁.store _
  cases hbody : rewriteAll ch.before r.body with
  | error e =>
    rw [hbody] at hbefore
    -- a stage before the cache refuses the request, and the cache never sees it
    have hphase := Chain.requestPhase_append_of_stop hbefore (by simp [Except.map])
      (.caching ch.cache :: ch.after)
    refine ⟨.error e, ch.left ch.cache hbeforeAlike (Interceptor.alike_refl _), w₁, hphase,
      ⟨hbeforeAlike, Interceptor.alike_refl _, rfl, rfl⟩, hw₁.model, ⟨?_, rfl, hw₁.asked⟩, ?_⟩
    · show (w.store ch.cache.place).SameResponses (w₁.store ch.cache.place)
      rw [hstore₁]
      exact .refl _
    · refine .refused e ?_
      intro b hb
      rw [hbody] at hb
      simp at hb
  | ok b =>
    rw [hbody] at hbefore
    -- the cache takes the request with its body rewritten
    have hphase := Chain.requestPhase_append_of_proceed hbefore (.caching ch.cache :: ch.after)
    have hworks₁ : (w₁.store ch.cache.place).Works := by
      rw [hstore₁]
      exact hworks
    obtain ⟨outcome, c, after, w₂, hrest, hafterAlike, hsettings, hplace, hlimit, hmodel, hasked,
      hsame, hcases⟩ := requestPhase_caching ch.plain_after hworks₁ { r with body := b }
    rw [hstore₁] at hsame hcases
    rw [hrest] at hphase
    refine ⟨outcome, ch.left c hbeforeAlike hafterAlike, w₂, hphase,
      ⟨hbeforeAlike, hafterAlike, hsettings, hplace⟩, hmodel.trans hw₁.model,
      ⟨?_, hlimit, hasked.trans hw₁.asked⟩, ?_⟩
    · show (w.store ch.cache.place).SameResponses (w₂.store c.place)
      rw [hplace]
      exact hsame
    · rcases hcases with ⟨hlacks, e, rfl⟩ | ⟨hreuse, reply, hfound, rfl⟩ | ⟨hlacks, b', rfl⟩
      · refine .refused e ?_
        intro b' hb'
        obtain rfl : b = b' := by simpa [hbody] using hb'
        exact hlacks
      · exact .found b reply hbody hreuse hfound
      · exact .sent b b' hbody hlacks

/-! ## The response phase -/

/-- A response as it reaches the cache. -/
def atCache (ch : CachedChain) (p : Response) : Response :=
  { p with body := stripAll ch.before p.body }

/-- A response passes through the stages before the cache, the cache, and the stages after it. -/
theorem responsePhase_stages (ch : CachedChain) (p : Response) (w : World) :
    ∃ before w₁ after w₃, Chain.responsePhase ch.stages p w =
        ({ p with body := ch.strip p.body },
          before ++ .caching (ch.cache.onResponse (ch.atCache p) w₁).2.1 :: after, w₃) ∧
      List.Forall₂ Interceptor.Alike ch.before before ∧
      List.Forall₂ Interceptor.Alike ch.after after ∧ w.Undisturbed w₁ ∧
      (ch.cache.onResponse (ch.atCache p) w₁).2.2.Undisturbed w₃ := by
  obtain ⟨before, w₁, hbefore, hbeforeAlike, hw₁⟩ :=
    Interceptor.responsePhase_of_plain ch.plain_before p w
  obtain ⟨after, w₃, hafter, hafterAlike, hw₃⟩ :=
    Interceptor.responsePhase_of_plain ch.plain_after (ch.atCache p)
      (ch.cache.onResponse (ch.atCache p) w₁).2.2
  refine ⟨before, w₁, after, w₃, ?_, hbeforeAlike, hafterAlike, hw₁, hw₃⟩
  -- the cache hands on the response as it reached it
  have hstage : Stage.onResponse (Interceptor.caching ch.cache) (ch.atCache p) w₁ =
      (.ok (ch.atCache p), .caching (ch.cache.onResponse (ch.atCache p) w₁).2.1,
        (ch.cache.onResponse (ch.atCache p) w₁).2.2) := rfl
  rw [stages, Chain.responsePhase_append, hbefore]
  show (let (p, ys, w) := Chain.responsePhase (.caching ch.cache :: ch.after) (ch.atCache p) w₁
    (p, before ++ ys, w)) = _
  rw [Chain.responsePhase, hstage]
  simp only [hafter]
  rfl

/-- **The response phase** strips the body, and saves the response as it reaches the cache if the
cache saves it. The store must still be there afterwards: then it was there all the time. -/
theorem responsePhase_spec (ch : CachedChain) {w : World}
    (hworks : (w.store ch.cache.place).Works) (p : Response)
    (hthere : ¬ (Chain.responsePhase ch.stages p w).2.2.Dislodged ch.cache.place) :
    ∃ ch' w', Chain.responsePhase ch.stages p w =
        ({ p with body := ch.strip p.body }, stages ch', w') ∧
      ch.Alike ch' ∧ w'.model = w.model ∧ w'.asked = w.asked ∧
      (∀ key, (ch.cache.cache w).saves key (ch.atCache p) = true →
        w'.store ch.cache.place = written (w.store ch.cache.place) key (ch.atCache p) ∧
          ch'.cache.counters.responses = ch.cache.counters.responses.acquire.2) ∧
      ((∀ key, (ch.cache.cache w).saves key (ch.atCache p) = false) →
        w'.store ch.cache.place = w.store ch.cache.place ∧
          ch'.cache.counters.responses = ch.cache.counters.responses) := by
  obtain ⟨before, w₁, after, w₃, hphase, hbeforeAlike, hafterAlike, hw₁, hw₃⟩ :=
    ch.responsePhase_stages p w
  rw [hphase] at hthere ⊢
  -- a store that is lost before the cache or after it would be lost at the end
  have hthere₃ : ¬ w₃.Dislodged ch.cache.place := hthere
  have hthere₁ : ¬ w₁.Dislodged ch.cache.place := by
    intro h
    have hsettled : (ch.cache.onResponse (ch.atCache p) w₁).2.2.Dislodged ch.cache.place :=
      Caching.dislodged_settle h _
    exact hthere₃ (hsettled.undisturbed hw₃)
  have hstore₁ := World.store_of_undisturbed hworks hw₁ hthere₁
  have hworks₁ : (w₁.store ch.cache.place).Works := by
    rw [hstore₁]
    exact hworks
  obtain ⟨c, w₂, htaken, hsettings, hplace, hmodel, hasked, hsaved, hunsaved⟩ :=
    ch.cache.onResponse_spec hworks₁ (ch.atCache p)
  rw [htaken] at hw₃ ⊢
  -- whatever the cache left in its store is there at the end
  have hstore₃ (hworks₂ : (w₂.store ch.cache.place).Works) :
      w₃.store ch.cache.place = w₂.store ch.cache.place :=
    World.store_of_undisturbed hworks₂ hw₃ hthere₃
  refine ⟨ch.left c hbeforeAlike hafterAlike, w₃, rfl,
    ⟨hbeforeAlike, hafterAlike, hsettings, hplace⟩, ?_, ?_, ?_, ?_⟩
  · exact hw₃.model.trans (hmodel.trans hw₁.model)
  · exact hw₃.asked.trans (hasked.trans hw₁.asked)
  · intro key hsaves
    obtain ⟨hstore₂, hlimit⟩ := hsaved key hsaves
    have hworks₂ : (w₂.store ch.cache.place).Works := by
      rw [hstore₂]
      exact Cache.works_written hworks₁ _ _
    rw [hstore₃ hworks₂, hstore₂, hstore₁]
    exact ⟨rfl, hlimit⟩
  · intro hnot
    obtain ⟨hstore₂, hlimit⟩ := hunsaved hnot
    have hworks₂ : (w₂.store ch.cache.place).Works := by
      rw [hstore₂]
      exact hworks₁
    rw [hstore₃ hworks₂, hstore₂, hstore₁]
    exact ⟨rfl, hlimit⟩

/-! ## Calls -/

/-- A call gives a reply with its body stripped by all stages. -/
structure Delivers (ch : CachedChain) (reply : Reply) (fromCache : Bool) (p : Response) : Prop where
  status : p.status = reply.status
  body : p.body = ch.strip reply.body
  fromCache : p.context.fromCache = fromCache

/-- What a call comes to and what it leaves: it is refused, or a stored reply is replayed, or the
model is asked and does not answer, or its reply is delivered unsaved, or delivered and saved. -/
inductive Effect (ch : CachedChain) (model : List Request → Except Failure Reply) (r : Request)
    (v : View) : Except Failure Response → View → Prop where
  | refused (e : Failure) (v' : View)
      (hlacks : ∀ key, ch.key? r = some key → Cache.Lacks ch.cache.settings v.store key)
      (hsame : v.Same v') :
      Effect ch model r v (.error e) v'
  | replayed (key : String) (reply : Reply) (p : Response) (v' : View) (hkey : ch.key? r = some key)
      (hreuse : ch.cache.settings.reuse = true)
      (hfound : lookup v.store key = .ok (some reply)) (hp : ch.Delivers reply true p)
      (hsame : v.Same v') :
      Effect ch model r v (.ok p) v'
  | unanswered (key : String) (q : Request) (e : Failure) (v' : View)
      (hkey : ch.key? r = some key) (hlacks : Cache.Lacks ch.cache.settings v.store key)
      (hasked : v'.asked = q :: v.asked) (hfails : model v'.asked = .error e)
      (hstore : v.store.SameResponses v'.store) (hlimit : v'.limit = v.limit) :
      Effect ch model r v (.error e) v'
  | unsaved (key : String) (q : Request) (reply : Reply) (p : Response) (v' : View)
      (hkey : ch.key? r = some key) (hlacks : Cache.Lacks ch.cache.settings v.store key)
      (hasked : v'.asked = q :: v.asked) (hreply : model v'.asked = .ok reply)
      (hp : ch.Delivers reply false p)
      (hnot : ¬ (reply.status = 200 ∧ ch.cache.settings.saveResponses = true ∧
        v.limit.acquire.1 = true))
      (hstore : v.store.SameResponses v'.store) (hlimit : v'.limit = v.limit) :
      Effect ch model r v (.ok p) v'
  | saved (key : String) (q : Request) (reply : Reply) (p : Response) (v' : View)
      (s : Cache.Store) (kept : Response)
      (hkey : ch.key? r = some key) (hlacks : Cache.Lacks ch.cache.settings v.store key)
      (hasked : v'.asked = q :: v.asked) (hreply : model v'.asked = .ok reply)
      (hp : ch.Delivers reply false p) (hstatus : reply.status = 200)
      (hsaves : ch.cache.settings.saveResponses = true) (hgranted : v.limit.acquire.1 = true)
      (hbody : kept.body = stripAll ch.before reply.body) (hheaders : kept.headers = reply.headers)
      (hstore : v.store.SameResponses s) (hwritten : v'.store = written s key kept)
      (hlimit : v'.limit = v.limit.acquire.2) :
      Effect ch model r v (.ok p) v'

/-- Counting a call moves no store. -/
theorem dislodged_finish_iff (stages : List Interceptor) (p : Response) (w : World)
    (place : Location) :
    (Chain.finish stages p w).2.2.Dislodged place ↔
      (Chain.responsePhase stages p w).2.2.Dislodged place := by
  cases place with
  | memory => exact Iff.rfl
  | file path => exact Iff.rfl

/-- When the cache saves the reply to a request that it took. -/
theorem saves_atCache_iff (ch : CachedChain) (w : World) (reply : Reply) {q : Request}
    {key : String} (hkey : q.context.fingerprint = some key) (hfresh : q.context.fromCache = false)
    (key' : String) :
    (ch.cache.cache w).saves key' (ch.atCache (reply.toResponse q.context)) = true ↔
      key = key' ∧ reply.status = 200 ∧ ch.cache.settings.saveResponses = true ∧
        ch.cache.counters.responses.acquire.1 = true := by
  rw [Cache.saves_iff]
  constructor
  · rintro ⟨hstatus, -, hkey', hsaves, hgranted⟩
    exact ⟨Option.some.inj (hkey.symm.trans hkey'), hstatus, hsaves, hgranted⟩
  · rintro ⟨rfl, hstatus, hsaves, hgranted⟩
    exact ⟨hstatus, hfresh, hkey, hsaves, hgranted⟩

/-- A request that goes on to the model: it is marked with its fingerprint, under which nothing is
stored, and what is left of the chain and the world is as before but for saved requests. -/
structure Forwarded (ch : CachedChain) (r : Request) (w : World) (key : String) (q : Request)
    (ch₁ : CachedChain) (w₁ : World) : Prop where
  phase : Chain.requestPhase ch.stages r w = (.ok (.proceed q), ch₁.stages, w₁)
  known : ch.key? r = some key
  lacks : Cache.Lacks ch.cache.settings (w.store ch.cache.place) key
  marked : q.context.fingerprint = some key
  fresh : q.context.fromCache = false
  alike : ch.Alike ch₁
  model : w₁.model = w.model
  same : (ch.view w).Same (ch₁.view w₁)

namespace Forwarded

variable {ch ch₁ : CachedChain} {w w₁ : World} {r q : Request} {key : String}

/-- The request that is forwarded is what the model is asked next. -/
theorem asked (h : ch.Forwarded r w key q ch₁ w₁) :
    (World.askModel q w₁).2.asked = q :: w.asked := by
  rw [← show w₁.asked = w.asked from h.same.asked]
  rfl

/-- The answer to a forwarded request is the model's reply to all it was asked, in the context of
the request. -/
theorem answer (h : ch.Forwarded r w key q ch₁ w₁) :
    (World.askModel q w₁).1 = (w.model (q :: w.asked)).map (·.toResponse q.context) := by
  rw [← h.model, ← show w₁.asked = w.asked from h.same.asked]
  rfl

/-- The question to the model leaves the store alone. -/
theorem sameResponses (h : ch.Forwarded r w key q ch₁ w₁) :
    (w.store ch.cache.place).SameResponses ((World.askModel q w₁).2.store ch₁.cache.place) := by
  rw [World.store_askModel]
  exact h.same.store

/-- What comes of a request that the model does not answer. -/
theorem effect_unanswered (h : ch.Forwarded r w key q ch₁ w₁) {e : Failure}
    (hfails : w.model (q :: w.asked) = .error e) :
    ∃ outcome ch' w', Chain.process World.askModel ch.stages r w = (outcome, stages ch', w') ∧
      ch.Alike ch' ∧ w'.model = w.model ∧
      ch.Effect w.model r (ch.view w) outcome (ch'.view w') := by
  have hanswer := h.answer
  rw [hfails] at hanswer
  refine ⟨_, ch₁, _, Chain.process_of_unanswered h.phase hanswer, h.alike, h.model,
    .unanswered key q e _ h.known h.lacks h.asked ?_ h.sameResponses h.same.limit⟩
  show w.model (World.askModel q w₁).2.asked = _
  rw [h.asked]
  exact hfails

/-- What comes of a request that the model answers. -/
theorem effect_replied (h : ch.Forwarded r w key q ch₁ w₁) (hworks : (w.store ch.cache.place).Works)
    {reply : Reply} (hreply : w.model (q :: w.asked) = .ok reply)
    (hthere : ¬ (Chain.process World.askModel ch.stages r w).2.2.Dislodged ch.cache.place) :
    ∃ outcome ch' w', Chain.process World.askModel ch.stages r w = (outcome, stages ch', w') ∧
      ch.Alike ch' ∧ w'.model = w.model ∧
      ch.Effect w.model r (ch.view w) outcome (ch'.view w') := by
  have hanswer := h.answer
  rw [hreply] at hanswer
  have hgiven := Chain.process_of_replied h.phase hanswer
  rw [hgiven, ← h.alike.place, dislodged_finish_iff] at hthere
  obtain ⟨ch₂, w₂, hresponse, halike₂, hmodel₂, hasked₂, hsaved, hunsaved⟩ :=
    ch₁.responsePhase_spec (h.sameResponses.works hworks) _ hthere
  rw [Chain.finish, hresponse] at hgiven
  have hasked : w₂.asked = q :: w.asked := hasked₂.trans h.asked
  have hmodel : w₂.model = w.model := hmodel₂.trans h.model
  have hreplied : w.model w₂.asked = .ok reply := by
    rw [hasked]
    exact hreply
  have hdelivers : ch.Delivers reply false
      { reply.toResponse q.context with body := ch₁.strip reply.body } := by
    refine ⟨rfl, ?_, h.fresh⟩
    rw [h.alike.strip]
  have hlimit₁ : ch₁.cache.counters.responses = ch.cache.counters.responses := h.same.limit
  have hiff := ch₁.saves_atCache_iff (World.askModel q w₁).2 reply h.marked h.fresh
  rw [h.alike.settings, hlimit₁] at hiff
  -- the reply is saved or not as it reaches the cache; either way it is delivered
  by_cases hsaves : reply.status = 200 ∧ ch.cache.settings.saveResponses = true ∧
      ch.cache.counters.responses.acquire.1 = true
  · obtain ⟨hstore₂, hlimit₂⟩ := hsaved key ((hiff key).2 ⟨rfl, hsaves⟩)
    refine ⟨_, ch₂, _, hgiven, h.alike.trans halike₂, hmodel, .saved key q reply _ _
      ((World.askModel q w₁).2.store ch₁.cache.place) (ch₁.atCache (reply.toResponse q.context))
      h.known h.lacks hasked hreplied hdelivers hsaves.1 hsaves.2.1 hsaves.2.2 ?_ rfl
      h.sameResponses ?_ ?_⟩
    · show stripAll ch₁.before reply.body = _
      rw [Interceptor.stripAll_of_alike h.alike.before]
    · show World.store (w₂.note _) ch₂.cache.place = _
      rw [World.store_note, halike₂.place, hstore₂]
    · exact hlimit₂.trans (by rw [hlimit₁]; rfl)
  · have hnot (key' : String) : (ch₁.cache.cache (World.askModel q w₁).2).saves key'
        (ch₁.atCache (reply.toResponse q.context)) = false := by
      rw [Bool.eq_false_iff]
      exact fun hkey' => hsaves ((hiff key').1 hkey').2
    obtain ⟨hstore₂, hlimit₂⟩ := hunsaved hnot
    refine ⟨_, ch₂, _, hgiven, h.alike.trans halike₂, hmodel, .unsaved key q reply _ _ h.known
      h.lacks hasked hreplied hdelivers hsaves ?_ (hlimit₂.trans hlimit₁)⟩
    show (w.store ch.cache.place).SameResponses (World.store (w₂.note _) ch₂.cache.place)
    rw [World.store_note, halike₂.place, hstore₂]
    exact h.sameResponses

end Forwarded

/-- **Every call has an effect**, if the store is still there after it. -/
theorem effect_process (ch : CachedChain) {w : World} (hworks : (w.store ch.cache.place).Works)
    {r : Request} (hfresh : r.context.fromCache = false)
    (hthere : ¬ (Chain.process World.askModel ch.stages r w).2.2.Dislodged ch.cache.place) :
    ∃ outcome ch' w', Chain.process World.askModel ch.stages r w = (outcome, stages ch', w') ∧
      ch.Alike ch' ∧ w'.model = w.model ∧
      ch.Effect w.model r (ch.view w) outcome (ch'.view w') := by
  obtain ⟨outcome, ch₁, w₁, hphase, halike, hmodel, hsame, hpassage⟩ :=
    ch.requestPhase_spec hworks r
  have hworks₁ : (w₁.store ch₁.cache.place).Works := hsame.store.works hworks
  cases hpassage with
  | refused e hlacks =>
    have hprocess := Chain.process_of_refused World.askModel hphase
    refine ⟨_, ch₁, w₁, hprocess, halike, hmodel, .refused e _ ?_ hsame⟩
    intro key hkey
    cases hbody : rewriteAll ch.before r.body with
    | error e =>
      rw [key?, hbody] at hkey
      simp [Except.toOption] at hkey
    | ok b =>
      obtain rfl : fingerprint b = key := by simpa [key?, hbody, Except.toOption] using hkey
      exact hlacks b hbody
  | found b reply hbody hreuse hfound =>
    have hprocess := Chain.process_of_answered World.askModel hphase
    rw [hprocess, ← halike.place, dislodged_finish_iff] at hthere
    obtain ⟨ch₂, w₂, hresponse, halike₂, hmodel₂, hasked₂, -, hunsaved⟩ :=
      ch₁.responsePhase_spec hworks₁ _ hthere
    -- what comes from the cache is not saved again
    have hnot (key : String) : (ch₁.cache.cache w₁).saves key
        (ch₁.atCache (replayed { r with body := b } reply)) = false := by
      simp [Cache.saves, atCache, replayed, Reply.toResponse]
    obtain ⟨hstore₂, hlimit₂⟩ := hunsaved hnot
    rw [hprocess, Chain.finish, hresponse]
    refine ⟨_, ch₂, _, rfl, halike.trans halike₂, hmodel₂.trans hmodel, ?_⟩
    refine .replayed (fingerprint b) reply _ _ ?_ hreuse hfound ⟨rfl, ?_, rfl⟩ ?_
    · simp [key?, hbody, Except.toOption]
    · rw [halike.strip]
      rfl
    · refine ⟨?_, hlimit₂.trans hsame.limit, hasked₂.trans hsame.asked⟩
      show (w.store ch.cache.place).SameResponses (World.store (w₂.note _) ch₂.cache.place)
      rw [World.store_note, halike₂.place, hstore₂]
      exact hsame.store
  | sent b b' hbody hlacks =>
    have hkey : ch.key? r = some (fingerprint b) := by
      simp [key?, hbody, Except.toOption]
    have hforwarded := Forwarded.mk hphase hkey hlacks rfl hfresh halike hmodel hsame
    cases hreply : w.model ({ marked { r with body := b } with body := b' } :: w.asked) with
    | error e => exact hforwarded.effect_unanswered hreply
    | ok reply => exact hforwarded.effect_replied hworks hreply hthere

end CachedChain

end EvalProxy
