/-
# Calls one after another

A chain with one cache takes calls one after another. Once the model has answered a request, the
cache holds its reply as it reached the cache, and every later call under that fingerprint is
answered with it and never sent again.

Main definitions: `Chain.isAnswered`, `Chain.answeredKeys`.
Main statements: `CachedChain.asks_once`, `CachedChain.replays_recorded_answer`.
-/
import EvalProxy.Proofs.Chain.OneCache
import EvalProxy.Proofs.Chain.Run
namespace EvalProxy

open Cache (fingerprint lookup written)
open Interceptor (stripAll)

/-! ## Runs -/

namespace Chain

/-- Whether the model was asked once more and answered with success, going by what it was asked
before and after. -/
def isAnswered (model : List Request → Except Failure Reply) (asked asked' : List Request) : Bool :=
  asked'.length != asked.length &&
    match model asked' with
    | .ok reply => reply.status == 200
    | .error _ => false

/-- Where nothing more was asked, nothing more is answered. -/
theorem isAnswered_self (model : List Request → Except Failure Reply) (asked : List Request) :
    isAnswered model asked asked = false := by
  simp [isAnswered]

/-- One more request that was asked is answered if the model replies to it with a success. -/
theorem isAnswered_cons (model : List Request → Except Failure Reply) (q : Request)
    (asked : List Request) :
    isAnswered model asked (q :: asked) = true ↔
      ∃ reply, model (q :: asked) = .ok reply ∧ reply.status = 200 := by
  have hlength : ((q :: asked).length != asked.length) = true := by
    simp
  rw [isAnswered, hlength, Bool.true_and]
  cases hreply : model (q :: asked) with
  | ok reply => simp
  | error e => simp

/-- The keys of the calls that the model answered with success, one after another. -/
def answeredKeys (key? : Request → Option String) (stages : List Interceptor) (w : World) :
    List Request → List String
  | [] => []
  | r :: rest =>
    let call := process World.askModel stages r w
    let keys := answeredKeys key? call.2.1 call.2.2 rest
    if isAnswered w.model w.asked call.2.2.asked then (key? r).toList ++ keys else keys

end Chain

namespace CachedChain

open Chain

/-! ## What one call keeps -/

section

variable {ch : CachedChain} {model : List Request → Except Failure Reply} {r : Request}
  {v v' : View} {outcome : Except Failure Response}

/-- What is stored under a key is replayed. -/
theorem not_lacks_of_holds {key : String} {body : Bytes} {map : Dict String}
    (hreuse : ch.cache.settings.reuse = true) (hworks : v.store.Works)
    (hholds : v.store.Holds key body map) : ¬ Cache.Lacks ch.cache.settings v.store key := by
  intro hlacks
  exact hlacks hreuse _ (Cache.lookup_of_holds hworks hholds)

/-- **A stored response is kept by every call.** -/
theorem Effect.holds (h : ch.Effect model r v outcome v') (hreuse : ch.cache.settings.reuse = true)
    (hworks : v.store.Works) {key : String} {body : Bytes} {map : Dict String}
    (hholds : v.store.Holds key body map) : v'.store.Holds key body map := by
  cases h with
  | refused e _ hlacks hsame => exact hsame.store.holds hholds
  | replayed key' reply p _ hkey _ hfound hp hsame => exact hsame.store.holds hholds
  | unanswered key' q e _ hkey hlacks hasked hfails hstore => exact hstore.holds hholds
  | unsaved key' q reply p _ hkey hlacks hasked hreply hp hnot hstore => exact hstore.holds hholds
  | saved key' q reply p _ s kept hkey hlacks hasked hreply hp hstatus _ hgranted hbody hheaders
      hstore hwritten =>
    -- the model is asked only if nothing is stored, so another key is written
    have hne : key' ≠ key := by
      rintro rfl
      exact not_lacks_of_holds hreuse hworks hholds hlacks
    have hget := Cache.get?_written_of_ne s hne kept
    have hbefore := hstore.holds hholds
    rw [hwritten]
    exact ⟨hget.1.trans hbefore.1, hget.2.trans hbefore.2⟩

/-- **A call under a stored key** is answered with what is stored, and the model is not asked. -/
theorem Effect.of_holds (h : ch.Effect model r v outcome v')
    (hreuse : ch.cache.settings.reuse = true)
    (hworks : v.store.Works) {key : String} {body : Bytes} {map : Dict String}
    (hkey : ch.key? r = some key) (hholds : v.store.Holds key body map) :
    v'.asked = v.asked ∧ ∃ p, outcome = .ok p ∧ p.status = 200 ∧ p.context.fromCache = true ∧
      p.body = ch.strip body := by
  have hnot := not_lacks_of_holds hreuse hworks hholds
  have hsame {key' : String} (hkey' : ch.key? r = some key') : key' = key :=
    Option.some.inj (hkey'.symm.trans hkey)
  cases h with
  | refused e _ hlacks => exact absurd (hlacks key hkey) hnot
  | replayed key' reply p _ hkey' _ hfound hp hsame' =>
    obtain rfl := hsame hkey'
    rw [Cache.lookup_of_holds hworks hholds] at hfound
    obtain rfl := Option.some.inj (Except.ok.inj hfound)
    exact ⟨hsame'.asked, p, rfl, hp.status, hp.fromCache, hp.body⟩
  | unanswered key' q e _ hkey' hlacks =>
    obtain rfl := hsame hkey'
    exact absurd hlacks hnot
  | unsaved key' q reply p _ hkey' hlacks =>
    obtain rfl := hsame hkey'
    exact absurd hlacks hnot
  | saved key' q reply p _ s kept hkey' hlacks =>
    obtain rfl := hsame hkey'
    exact absurd hlacks hnot

/-- **A call that the model answers** leaves the reply stored as it reached the cache. -/
theorem Effect.of_isAnswered (h : ch.Effect model r v outcome v')
    (hsaves : ch.cache.settings.saveResponses = true) (hlimit : v.limit.max = none)
    (hanswered : isAnswered model v.asked v'.asked = true) :
    ∃ key q reply p s kept, ch.key? r = some key ∧ v'.asked = q :: v.asked ∧
      model v'.asked = .ok reply ∧ outcome = .ok p ∧ p.body = ch.strip reply.body ∧
      v.store.SameResponses s ∧ v'.store = written s key kept ∧
      kept.body = stripAll ch.before reply.body := by
  -- without a limit every save is granted
  have hgranted : v.limit.acquire.1 = true := by
    rw [Cache.SaveLimit.acquire_granted_iff, Cache.SaveLimit.isReached, hlimit]
  -- an answer takes a question, which rules out all cases but those that ask
  have hsame (hasked : v'.asked = v.asked) : False := by
    rw [hasked, isAnswered_self] at hanswered
    simp at hanswered
  cases h with
  | refused e _ hlacks hsame' => exact (hsame hsame'.asked).elim
  | replayed key reply p _ hkey _ hfound hp hsame' => exact (hsame hsame'.asked).elim
  | unanswered key q e _ hkey hlacks hasked hfails =>
    rw [hasked, isAnswered_cons] at hanswered
    obtain ⟨reply, hreply, -⟩ := hanswered
    rw [hasked, hreply] at hfails
    simp at hfails
  | unsaved key q reply p _ hkey hlacks hasked hreply hp hnot =>
    rw [hasked, isAnswered_cons] at hanswered
    obtain ⟨reply', hreply', hstatus⟩ := hanswered
    rw [hasked, hreply'] at hreply
    obtain rfl := Except.ok.inj hreply
    exact absurd ⟨hstatus, hsaves, hgranted⟩ hnot
  | saved key q reply p _ s kept hkey hlacks hasked hreply hp hstatus _ _ hbody hheaders hstore
      hwritten =>
    exact ⟨key, q, reply, p, s, kept, hkey, hasked, hreply, rfl, hp.body, hstore, hwritten, hbody⟩

/-- A call that the model does not answer with success leaves the stored responses alone. -/
theorem Effect.of_not_isAnswered (h : ch.Effect model r v outcome v')
    (hnot : isAnswered model v.asked v'.asked = false) : v.store.SameResponses v'.store := by
  cases h with
  | refused e _ hlacks hsame => exact hsame.store
  | replayed key reply p _ hkey _ hfound hp hsame => exact hsame.store
  | unanswered key q e _ hkey hlacks hasked hfails hstore => exact hstore
  | unsaved key q reply p _ hkey hlacks hasked hreply hp hnot' hstore => exact hstore
  | saved key q reply p _ s kept hkey hlacks hasked hreply hp hstatus =>
    rw [hasked] at hreply
    have hanswered := (isAnswered_cons model q v.asked).2 ⟨reply, hreply, hstatus⟩
    rw [hasked, hanswered] at hnot
    simp at hnot

/-- The limit of saves stays the same. -/
theorem Effect.max_limit (h : ch.Effect model r v outcome v') : v'.limit.max = v.limit.max := by
  cases h with
  | refused e _ hlacks hsame => rw [hsame.limit]
  | replayed key reply p _ hkey _ hfound hp hsame => rw [hsame.limit]
  | unanswered key q e _ hkey hlacks hasked hfails hstore hlimit => rw [hlimit]
  | unsaved key q reply p _ hkey hlacks hasked hreply hp hnot hstore hlimit => rw [hlimit]
  | saved key q reply p _ s kept hkey hlacks hasked hreply hp hstatus _ hgranted hbody hheaders
      hstore hwritten hlimit => rw [hlimit, Cache.SaveLimit.max_acquire]

/-- The store goes on working. -/
theorem Effect.works (h : ch.Effect model r v outcome v') (hworks : v.store.Works) :
    v'.store.Works := by
  cases h with
  | refused e _ hlacks hsame => exact hsame.store.works hworks
  | replayed key reply p _ hkey _ hfound hp hsame => exact hsame.store.works hworks
  | unanswered key q e _ hkey hlacks hasked hfails hstore => exact hstore.works hworks
  | unsaved key q reply p _ hkey hlacks hasked hreply hp hnot hstore => exact hstore.works hworks
  | saved key q reply p _ s kept hkey hlacks hasked hreply hp hstatus _ hgranted hbody hheaders
      hstore hwritten =>
    rw [hwritten]
    exact Cache.works_written (hstore.works hworks) key kept

end

/-! ## What runs keep -/

/-- The store works and holds replies under some keys and under no others, and nothing limits its
saves. -/
structure Memo (v : View) (keys : List String) : Prop where
  works : v.store.Works
  unlimited : v.limit.max = none
  held : ∀ key ∈ keys, ∃ body map, v.store.Holds key body map
  absent : ∀ key, key ∉ keys → v.store.responses.get? key = none ∧ v.store.headers.get? key = none

/-- A working blank store without a limit remembers nothing. -/
theorem memo_of_isBlank {v : View} (hworks : v.store.Works) (hunlimited : v.limit.max = none)
    (hblank : v.store.IsBlank) : Memo v [] := by
  refine ⟨hworks, hunlimited, by simp, ?_⟩
  intro key _
  constructor
  · rw [show v.store.responses = .empty from hblank .responses]
    rfl
  · rw [show v.store.headers = .empty from hblank .headers]
    rfl

/-- The keys in both tables are those that replies are held under. -/
theorem Memo.mem_keys_iff {v : View} {keys : List String} (h : Memo v keys) (key : String) :
    (key ∈ v.store.responses.keys ↔ key ∈ keys) ∧ (key ∈ v.store.headers.keys ↔ key ∈ keys) := by
  rw [Dict.mem_keys_iff, Dict.mem_keys_iff]
  by_cases hmem : key ∈ keys
  · obtain ⟨body, map, hbody, hfields⟩ := h.held key hmem
    simp [hbody, hfields, hmem]
  · obtain ⟨hbody, hfields⟩ := h.absent key hmem
    simp [hbody, hfields, hmem]

/-- **One call** adds the key that the model answered, if it answered. -/
theorem Memo.step {ch : CachedChain} {model : List Request → Except Failure Reply} {r : Request}
    {v v' : View} {outcome : Except Failure Response} {keys : List String} (hmemo : Memo v keys)
    (heffect : ch.Effect model r v outcome v') (hreuse : ch.cache.settings.reuse = true)
    (hsaves : ch.cache.settings.saveResponses = true) (hworks' : v'.store.Works) :
    Memo v' (keys ++
      if isAnswered model v.asked v'.asked = true then (ch.key? r).toList else []) := by
  have hunlimited : v'.limit.max = none := heffect.max_limit.trans hmemo.unlimited
  have hheld : ∀ key ∈ keys, ∃ body map, v'.store.Holds key body map := by
    intro key hkey
    obtain ⟨body, map, hholds⟩ := hmemo.held key hkey
    exact ⟨body, map, heffect.holds hreuse hmemo.works hholds⟩
  -- an answered call writes its key, and any other call writes nothing
  cases hanswered : isAnswered model v.asked v'.asked with
  | false =>
    have hsame := heffect.of_not_isAnswered hanswered
    rw [if_neg (by simp), List.append_nil]
    refine ⟨hworks', hunlimited, hheld, ?_⟩
    intro key hkey
    rw [hsame.responses, hsame.headers]
    exact hmemo.absent key hkey
  | true =>
    obtain ⟨key, q, reply, p, s, kept, hkey, -, -, -, -, hsame, hwritten, -⟩ :=
      heffect.of_isAnswered hsaves hmemo.unlimited hanswered
    rw [if_pos rfl, hkey]
    refine ⟨hworks', hunlimited, ?_, ?_⟩
    · intro key' hkey'
      rcases List.mem_append.1 hkey' with hkey' | hkey'
      · exact hheld key' hkey'
      · obtain rfl : key' = key := by simpa using hkey'
        rw [hwritten]
        exact ⟨_, _, Cache.holds_written s key' kept⟩
    · intro key' hkey'
      obtain ⟨hold, hnew⟩ := not_or.1 (mt List.mem_append.2 hkey')
      have hne : key ≠ key' := by
        rintro rfl
        simp at hnew
      have hget := Cache.get?_written_of_ne s hne kept
      obtain ⟨hbody, hfields⟩ := hmemo.absent key' hold
      rw [hwritten, hget.1, hget.2, hsame.responses, hsame.headers]
      exact ⟨hbody, hfields⟩

section

variable {ch : CachedChain} {w : World} {calls : List Request}

/-- The store works at every moment of a run. -/
def WorksThroughout (ch : CachedChain) (w : World) (calls : List Request) : Prop :=
  ∀ past, past <+: calls → ((served ch.stages w past).2.store ch.cache.place).Works

/-- A store that works throughout works at the start. -/
theorem WorksThroughout.start (h : ch.WorksThroughout w calls) :
    (w.store ch.cache.place).Works :=
  h [] List.nil_prefix

/-- After some calls the store works throughout the others. -/
theorem WorksThroughout.drop {past : List Request} (h : ch.WorksThroughout w (past ++ calls))
    {ch' : CachedChain} {w' : World} (hserved : served ch.stages w past = (ch'.stages, w'))
    (halike : ch.Alike ch') : ch'.WorksThroughout w' calls := by
  intro next hnext
  have hworks := h (past ++ next) ((List.prefix_append_right_inj past).2 hnext)
  rw [served_append, hserved] at hworks
  rw [halike.place]
  exact hworks

/-- A store that works throughout works throughout the first part. -/
theorem WorksThroughout.take {past : List Request} (h : ch.WorksThroughout w (past ++ calls)) :
    ch.WorksThroughout w past :=
  fun next hnext => h next (hnext.trans (List.prefix_append past calls))

/-- The first call of a run has an effect, after which the run goes on. -/
theorem effect_first {r : Request} (h : ch.WorksThroughout w ([r] ++ calls))
    (hfresh : r.context.fromCache = false) :
    ∃ outcome ch' w', process World.askModel ch.stages r w = (outcome, stages ch', w') ∧
      ch.Alike ch' ∧ w'.model = w.model ∧ ch'.WorksThroughout w' calls ∧
      ch.Effect w.model r (ch.view w) outcome (ch'.view w') := by
  have hworks' := h [r] (List.cons_prefix_cons.2 ⟨rfl, List.nil_prefix⟩)
  obtain ⟨outcome, ch', w', hcall, halike, hmodel, heffect⟩ :=
    ch.effect_process h.start hfresh fun hgone => World.not_works_of_dislodged hgone hworks'
  have hserved : served ch.stages w [r] = (ch'.stages, w') := by
    rw [served, hcall]
    rfl
  exact ⟨outcome, ch', w', hcall, halike, hmodel, h.drop hserved halike, heffect⟩

/-- **A call under a key that a reply is held under** is answered with success, and the model is not
asked. -/
theorem Memo.replays {keys : List String} (hmemo : Memo (ch.view w) keys)
    (hreuse : ch.cache.settings.reuse = true) {r : Request} (hfresh : r.context.fromCache = false)
    (hworks : ch.WorksThroughout w ([r] ++ calls)) {key : String} (hkey : ch.key? r = some key)
    (hmem : key ∈ keys) :
    let call := process World.askModel ch.stages r w
    call.2.2.asked = w.asked ∧
      ∃ p, call.1 = .ok p ∧ p.status = 200 ∧ p.context.fromCache = true := by
  intro call
  obtain ⟨outcome, ch₁, w₁, hcall, -, -, -, heffect⟩ := effect_first hworks hfresh
  obtain ⟨body, map, hholds⟩ := hmemo.held key hmem
  obtain ⟨hasked, p, hp, hstatus, hcached, -⟩ := heffect.of_holds hreuse hmemo.works hkey hholds
  simp only [call, hcall]
  exact ⟨hasked, p, hp, hstatus, hcached⟩

/-- **What every effect keeps, many calls keep.** The property may speak of the keys that the model
has answered so far. -/
theorem served_keeps {P : List String → View → Prop}
    (hstep : ∀ {ch' : CachedChain} {r : Request} {v v' : View} {outcome : Except Failure Response}
      {keys : List String}, ch.Alike ch' → ch'.Effect w.model r v outcome v' → v.store.Works →
      v'.store.Works → P keys v →
      P (keys ++ if isAnswered w.model v.asked v'.asked = true then (ch'.key? r).toList else []) v')
    (hfresh : ∀ r ∈ calls, r.context.fromCache = false) (hworks : ch.WorksThroughout w calls)
    (keys : List String) (h : P keys (ch.view w)) :
    ∃ ch' w', served ch.stages w calls = (stages ch', w') ∧ ch.Alike ch' ∧ w'.model = w.model ∧
      P (keys ++ answeredKeys ch.key? ch.stages w calls) (ch'.view w') := by
  -- forward induction on the calls, through chains that treat calls alike
  induction calls generalizing ch w keys with
  | nil =>
    refine ⟨ch, w, rfl, .refl ch, rfl, ?_⟩
    rw [answeredKeys, List.append_nil]
    exact h
  | cons r rest ih =>
    obtain ⟨hr, hrest⟩ := List.forall_mem_cons.1 hfresh
    obtain ⟨outcome, ch₁, w₁, hcall, halike, hmodel, hworks₁, heffect⟩ := effect_first hworks hr
    have h₁ := hstep (.refl ch) heffect hworks.start hworks₁.start h
    have hstep₁ {ch' : CachedChain} {r : Request} {v v' : View} {outcome : Except Failure Response}
        {keys : List String} (halike' : ch₁.Alike ch')
        (heffect' : ch'.Effect w₁.model r v outcome v') (hv : v.store.Works)
        (hv' : v'.store.Works) (hkept : P keys v) :
        P (keys ++ if isAnswered w₁.model v.asked v'.asked = true then (ch'.key? r).toList else [])
          v' := by
      rw [hmodel] at heffect' ⊢
      exact hstep (halike.trans halike') heffect' hv hv' hkept
    obtain ⟨ch₂, w₂, hserved, halike₂, hmodel₂, h₂⟩ := ih hstep₁ hrest hworks₁ _ h₁
    refine ⟨ch₂, w₂, ?_, halike.trans halike₂, hmodel₂.trans hmodel, ?_⟩
    · rw [served, hcall]
      exact hserved
    -- the keys of the first call come before those of the others
    · have hkeys : keys ++ answeredKeys ch.key? ch.stages w (r :: rest) =
          (keys ++ if isAnswered w.model w.asked w₁.asked = true then (ch.key? r).toList else [])
            ++ answeredKeys ch₁.key? ch₁.stages w₁ rest := by
        rw [answeredKeys, hcall, halike.key?]
        dsimp only
        split
        · rw [List.append_assoc]
        · rw [List.append_nil]
      rw [hkeys]
      exact h₂

/-- **Many calls** add exactly the keys that the model answered. -/
theorem memo_served {keys : List String} (hmemo : Memo (ch.view w) keys)
    (hreuse : ch.cache.settings.reuse = true) (hsaves : ch.cache.settings.saveResponses = true)
    (hfresh : ∀ r ∈ calls, r.context.fromCache = false) (hworks : ch.WorksThroughout w calls) :
    ∃ ch' w', served ch.stages w calls = (stages ch', w') ∧ ch.Alike ch' ∧ w'.model = w.model ∧
      Memo (ch'.view w') (keys ++ answeredKeys ch.key? ch.stages w calls) := by
  refine served_keeps (P := fun keys v => Memo v keys) ?_ hfresh hworks keys hmemo
  intro ch' r v v' outcome keys halike heffect _ hv' hmemo
  exact hmemo.step heffect (halike.settings ▸ hreuse) (halike.settings ▸ hsaves) hv'

/-- **In memory a store that works at first works throughout.** -/
theorem worksThroughout_of_memory (hplace : ch.cache.place = .memory)
    (hfresh : ∀ r ∈ calls, r.context.fromCache = false) (hworks : (w.store ch.cache.place).Works) :
    ch.WorksThroughout w calls := by
  induction calls generalizing ch w with
  | nil =>
    intro past hpast
    rw [List.prefix_nil.1 hpast]
    exact hworks
  | cons r rest ih =>
    obtain ⟨hr, hrest⟩ := List.forall_mem_cons.1 hfresh
    -- no file can take the place of what is held in memory
    have hthere : ¬ (process World.askModel ch.stages r w).2.2.Dislodged ch.cache.place := by
      rw [hplace]
      exact id
    obtain ⟨outcome, ch₁, w₁, hcall, halike, -, heffect⟩ := ch.effect_process hworks hr hthere
    have hworks₁ := ih (halike.place.trans hplace) hrest (heffect.works hworks)
    intro past hpast
    cases past with
    | nil => exact hworks
    | cons q past =>
      obtain ⟨rfl, hrestPast⟩ := List.cons_prefix_cons.1 hpast
      rw [served, hcall, ← halike.place]
      exact hworks₁ past hrestPast

end

/-! ## Asking once -/

section

variable {ch : CachedChain} {w : World} {calls : List Request}

/-- **The model is asked at most once with effect.** Over a store that is blank at first, a call
under a key that the model has answered is never sent again, and is answered from the cache with
success. At every moment the store holds exactly one body and one header map for each such key, and
no others. -/
theorem asks_once (hreuse : ch.cache.settings.reuse = true)
    (hsaves : ch.cache.settings.saveResponses = true)
    (hunlimited : ch.cache.counters.responses.max = none)
    (hblank : (w.store ch.cache.place).IsBlank)
    (hfresh : ∀ r ∈ calls, r.context.fromCache = false) (hworks : ch.WorksThroughout w calls) :
    (∀ past r key, past ++ [r] <+: calls → ch.key? r = some key →
      key ∈ answeredKeys ch.key? ch.stages w past →
      let before := served ch.stages w past
      let call := process World.askModel before.1 r before.2
      call.2.2.asked = before.2.asked ∧
        ∃ p, call.1 = .ok p ∧ p.status = 200 ∧ p.context.fromCache = true) ∧
    ∀ past, past <+: calls →
      let store := (served ch.stages w past).2.store ch.cache.place
      let keys := answeredKeys ch.key? ch.stages w past
      store.responses.keys.Nodup ∧ store.headers.keys.Nodup ∧
        ∀ key, (key ∈ store.responses.keys ↔ key ∈ keys) ∧
          (key ∈ store.headers.keys ↔ key ∈ keys) := by
  have hmemo : Memo (ch.view w) [] := memo_of_isBlank hworks.start hunlimited hblank
  constructor
  · intro past r key hpast hkey hmem before call
    obtain ⟨rest, rfl⟩ := hpast
    rw [List.append_assoc] at hworks
    have hfreshPast : ∀ q ∈ past, q.context.fromCache = false :=
      fun q hq => hfresh q (List.mem_append_left _ (List.mem_append_left _ hq))
    have hr : r.context.fromCache = false := hfresh r (by simp)
    -- the calls before this one leave a reply under the key, and this one finds it
    obtain ⟨ch₁, w₁, hserved, halike, -, hmemo₁⟩ :=
      memo_served hmemo hreuse hsaves hfreshPast hworks.take
    have hkey₁ : ch₁.key? r = some key := by
      rw [halike.key?]
      exact hkey
    have hreplays := hmemo₁.replays (halike.settings ▸ hreuse) hr (hworks.drop hserved halike) hkey₁
      (by simpa using hmem)
    simp only [before, call, hserved]
    exact hreplays
  · intro past hpast store keys
    obtain ⟨rest, rfl⟩ := hpast
    have hfreshPast : ∀ q ∈ past, q.context.fromCache = false :=
      fun q hq => hfresh q (List.mem_append_left _ hq)
    obtain ⟨ch₁, w₁, hserved, halike, -, hmemo₁⟩ :=
      memo_served hmemo hreuse hsaves hfreshPast hworks.take
    have hstore : store = (ch₁.view w₁).store := by
      simp only [store, hserved, view, halike.place]
    refine ⟨Dict.nodup_keys _, Dict.nodup_keys _, ?_⟩
    intro key
    rw [hstore]
    simpa using hmemo₁.mem_keys_iff key

end

/-- The settings of a cache that reuses and saves responses without limit. -/
def plainSettings : Cache.Settings := ⟨none, true, false, true, none, none, false, none, none⟩

/-- A chain of a cache in memory, behind some stages that are none. -/
def behind (before : List Interceptor) (hplain : ∀ i ∈ before, i.isCaching = false) :
    CachedChain where
  before := before
  cache := .onPlace plainSettings .memory
  after := []
  plain := by
    rw [List.append_nil]
    exact hplain

/-- A request with the empty body. -/
def emptyRequest : Request := ⟨"POST", "/", [], .null, .arrived "a"⟩

/-- A world whose model always gives the same answer. -/
def constantWorld (body : Bytes) : World := .initial (fun _ => .ok ⟨200, [], body⟩) fun _ => true

/-- The store of the constant world works throughout any calls. -/
theorem worksThroughout_constant (before : List Interceptor)
    (hplain : ∀ i ∈ before, i.isCaching = false) (body : Bytes) {calls : List Request}
    (hfresh : ∀ r ∈ calls, r.context.fromCache = false) :
    (behind before hplain).WorksThroughout (constantWorld body) calls :=
  worksThroughout_of_memory rfl hfresh Cache.Store.works_empty

/-- A request that comes again is answered from the cache. -/
theorem asks_once_twice :
    let ch := behind [] (by simp)
    let before := served ch.stages (constantWorld []) [emptyRequest]
    let call := process World.askModel before.1 emptyRequest before.2
    call.2.2.asked = before.2.asked ∧
      ∃ p, call.1 = .ok p ∧ p.status = 200 ∧ p.context.fromCache = true := by
  intro ch
  have hfresh : ∀ r ∈ [emptyRequest, emptyRequest], r.context.fromCache = false := by
    simp [emptyRequest, Context.arrived]
  have hworks : ch.WorksThroughout (constantWorld []) [emptyRequest, emptyRequest] :=
    worksThroughout_constant [] (by simp) [] hfresh
  have hblank : ((constantWorld []).store ch.cache.place).IsBlank := Cache.Store.isBlank_empty
  have hanswered : fingerprint .null ∈
      answeredKeys ch.key? ch.stages (constantWorld []) [emptyRequest] := by
    rw [answeredKeys]
    split
    · exact List.mem_cons_self
    · rename_i hnot
      exact absurd rfl hnot
  exact (asks_once rfl rfl rfl hblank hfresh hworks).1 [emptyRequest] emptyRequest
    (fingerprint .null) List.prefix_rfl rfl hanswered

/-! ## Replaying what was kept -/

section

variable {ch : CachedChain} {w : World} {past later : List Request} {r r' : Request} {key : String}

/-- A call that the model answers leaves its reply held as it reached the cache. -/
theorem held_of_isAnswered (hsaves : ch.cache.settings.saveResponses = true)
    (hunlimited : ch.cache.counters.responses.max = none) (hfresh : r.context.fromCache = false)
    (hworks : ch.WorksThroughout w ([r] ++ later)) (hkey : ch.key? r = some key) :
    let call := process World.askModel ch.stages r w
    isAnswered w.model w.asked call.2.2.asked = true →
    ∃ reply p ch' w' map, call = (.ok p, stages ch', w') ∧ ch.Alike ch' ∧
      ch'.WorksThroughout w' later ∧ w.model w'.asked = .ok reply ∧ p.body = ch.strip reply.body ∧
      (ch'.view w').store.Holds key (stripAll ch.before reply.body) map := by
  intro call hanswered
  obtain ⟨outcome, ch₁, w₁, hcall, halike, -, hworks₁, heffect⟩ := effect_first hworks hfresh
  have hcall : call = (outcome, ch₁.stages, w₁) := hcall
  rw [hcall] at hanswered
  obtain ⟨key₁, q, reply, p, s, kept, hkey₁, -, hreply, rfl, hp, -, hwritten, hkept⟩ :=
    heffect.of_isAnswered hsaves hunlimited hanswered
  obtain rfl : key₁ = key := by
    rw [hkey] at hkey₁
    exact (Option.some.inj hkey₁).symm
  refine ⟨reply, p, ch₁, w₁, kept.headers.normalize, hcall, halike, hworks₁, hreply, hp, ?_⟩
  rw [hwritten, ← hkept]
  exact Cache.holds_written s key₁ kept

/-- A reply that is held is replayed after any other calls. -/
theorem replays_held (hreuse : ch.cache.settings.reuse = true) {body : Bytes} {map : Dict String}
    (hholds : (ch.view w).store.Holds key body map)
    (hfresh : ∀ q ∈ later ++ [r], q.context.fromCache = false)
    (hworks : ch.WorksThroughout w (later ++ [r])) (hkey : ch.key? r = some key) :
    let before := served ch.stages w later
    let call := process World.askModel before.1 r before.2
    ∃ p, call.1 = .ok p ∧ p.context.fromCache = true ∧ p.body = ch.strip body := by
  intro before call
  obtain ⟨ch₁, w₁, hserved, halike, -, hholds₁⟩ :=
    served_keeps (P := fun _ v => v.store.Holds key body map)
      (fun halike heffect hv _ hkeeps => heffect.holds (halike.settings ▸ hreuse) hv hkeeps)
      (fun q hq => hfresh q (List.mem_append_left _ hq)) hworks.take [] hholds
  have hworks₁ := hworks.drop hserved halike
  obtain ⟨outcome, ch₂, w₂, hcall, -, -, -, heffect⟩ := effect_first hworks₁ (hfresh r (by simp))
  have hkey₁ : ch₁.key? r = some key := by
    rw [halike.key?]
    exact hkey
  obtain ⟨-, p, hp, -, hcached, hbody⟩ :=
    heffect.of_holds (halike.settings ▸ hreuse) hworks₁.start hkey₁ hholds₁
  rw [halike.strip] at hbody
  refine ⟨p, ?_, hcached, hbody⟩
  simp only [call, before, hserved, hcall]
  exact hp

/-- A reply is kept as it reached the cache, and every replay passes all stages again: what the
stages before the cache strip from it they strip once when it is delivered, and twice when it is
replayed. -/
theorem bodies_of_replay (hreuse : ch.cache.settings.reuse = true)
    (hsaves : ch.cache.settings.saveResponses = true)
    (hunlimited : ch.cache.counters.responses.max = none)
    (hfresh : ∀ q ∈ past ++ ([r] ++ (later ++ [r'])), q.context.fromCache = false)
    (hworks : ch.WorksThroughout w (past ++ ([r] ++ (later ++ [r']))))
    (hkey : ch.key? r = some key) (hkey' : ch.key? r' = some key) :
    let before := served ch.stages w past
    let call := process World.askModel before.1 r before.2
    let before' := served ch.stages w (past ++ ([r] ++ later))
    let call' := process World.askModel before'.1 r' before'.2
    isAnswered w.model before.2.asked call.2.2.asked = true →
    ∃ reply p p', w.model call.2.2.asked = .ok reply ∧ call.1 = .ok p ∧ call'.1 = .ok p' ∧
      p'.context.fromCache = true ∧
      p.body = stripAll ch.after (stripAll ch.before reply.body) ∧
      p'.body = stripAll ch.after (stripAll ch.before (stripAll ch.before reply.body)) := by
  intro before call before' call' hanswered
  have hfreshPast : ∀ q ∈ past, q.context.fromCache = false :=
    fun q hq => hfresh q (List.mem_append_left _ hq)
  have hfreshLater : ∀ q ∈ later ++ [r'], q.context.fromCache = false := by
    intro q hq
    exact hfresh q (List.mem_append_right _ (List.mem_append_right _ hq))
  have hr : r.context.fromCache = false := hfresh r (by simp)
  -- before the first call
  obtain ⟨ch₁, w₁, hserved, halike, hmodel, hunlimited₁⟩ :=
    served_keeps (P := fun _ v => v.limit.max = none)
      (fun _ heffect _ _ hmax => heffect.max_limit.trans hmax) hfreshPast hworks.take [] hunlimited
  have hbefore : before = (ch₁.stages, w₁) := hserved
  have hkeys : ch₁.key? = ch.key? := halike.key?
  -- the first call, which the model answers
  have hcall : call = process World.askModel ch₁.stages r w₁ := by
    simp only [call, hbefore]
  rw [hbefore, ← hmodel, hcall] at hanswered
  obtain ⟨reply, p, ch₂, w₂, map, hcall₁, halike₂, hworks₂, hreply, hp, hholds⟩ :=
    held_of_isAnswered (halike.settings ▸ hsaves) hunlimited₁ hr (hworks.drop hserved halike)
      (hkeys ▸ hkey) hanswered
  -- the calls after it, and the one that is answered from the cache
  have halike' := halike.trans halike₂
  have hbefore' : before' = served ch₂.stages w₂ later := by
    show served ch.stages w (past ++ ([r] ++ later)) = _
    rw [served_append, hserved, List.singleton_append, served, hcall₁]
  obtain ⟨p', hp', hcached, hbody'⟩ :=
    replays_held (halike'.settings ▸ hreuse) hholds hfreshLater hworks₂ (halike'.key? ▸ hkey')
  rw [halike.strip] at hp
  rw [Interceptor.stripAll_of_alike halike.before, halike'.strip] at hbody'
  refine ⟨reply, p, p', ?_, ?_, ?_, hcached, hp, hbody'⟩
  · rw [hcall, hcall₁, ← hmodel]
    exact hreply
  · rw [hcall, hcall₁]
  · simp only [call', hbefore']
    exact hp'

/-- **A replayed answer is the recorded one with the stages before the cache applied once more.** It
is equal to the recorded one if these stages strip nothing more from a reply that they stripped
before, and so if no reasoning stage stands before the cache. -/
theorem replays_recorded_answer (hreuse : ch.cache.settings.reuse = true)
    (hsaves : ch.cache.settings.saveResponses = true)
    (hunlimited : ch.cache.counters.responses.max = none)
    (hfresh : ∀ q ∈ past ++ ([r] ++ (later ++ [r'])), q.context.fromCache = false)
    (hworks : ch.WorksThroughout w (past ++ ([r] ++ (later ++ [r']))))
    (hkey : ch.key? r = some key) (hkey' : ch.key? r' = some key) :
    let before := served ch.stages w past
    let call := process World.askModel before.1 r before.2
    let before' := served ch.stages w (past ++ ([r] ++ later))
    let call' := process World.askModel before'.1 r' before'.2
    isAnswered w.model before.2.asked call.2.2.asked = true →
    ∃ reply p p', w.model call.2.2.asked = .ok reply ∧ call.1 = .ok p ∧ call'.1 = .ok p' ∧
      p'.context.fromCache = true ∧
      p.body = stripAll ch.after (stripAll ch.before reply.body) ∧
      p'.body = stripAll ch.after (stripAll ch.before (stripAll ch.before reply.body)) ∧
      (stripAll ch.before (stripAll ch.before reply.body) = stripAll ch.before reply.body →
        p'.body = p.body) ∧
      ((∀ i ∈ ch.before, ∀ marks, i ≠ .reasoning marks) → p'.body = p.body) := by
  intro before call before' call' hanswered
  obtain ⟨reply, p, p', hreply, hcall, hcall', hcached, hp, hp'⟩ :=
    bodies_of_replay hreuse hsaves hunlimited hfresh hworks hkey hkey' hanswered
  have hequal (h : stripAll ch.before (stripAll ch.before reply.body) =
      stripAll ch.before reply.body) : p'.body = p.body := by
    rw [hp, hp', h]
  refine ⟨reply, p, p', hreply, hcall, hcall', hcached, hp, hp', hequal, ?_⟩
  intro hnone
  refine hequal ?_
  rw [Interceptor.stripAll_of_no_reasoning hnone]

end

/-- A completion with one choice. -/
def completion (content : String) : Json :=
  .object [("choices", .array [.object [("message", .object [("content", .text content)])]])]

/-- The marks that reasoning has by default. -/
def defaultMarks : Reasoning.Settings := ⟨"<think>", "</think>", false⟩

/-- A chain of a cache in memory between two reasoning stages, each with marks of its own. -/
def betweenStrips : CachedChain where
  before := [.reasoning defaultMarks]
  cache := .onPlace plainSettings .memory
  after := [.reasoning ⟨"[", "]", false⟩]
  plain := by simp [Interceptor.isCaching]

/-- Reasoning is stripped on both sides of the cache; the answer is replayed as it was recorded,
also after another call. -/
theorem replays_recorded_stripped :
    let w := constantWorld (Text.encode (completion "<think>a</think>[b]c").compact)
    let other : Request := ⟨"POST", "/", [], .text "other", .arrived "b"⟩
    let call := process World.askModel betweenStrips.stages emptyRequest w
    let later := served betweenStrips.stages w [emptyRequest, other]
    let call' := process World.askModel later.1 emptyRequest later.2
    ∃ p p', call.1 = .ok p ∧ call'.1 = .ok p' ∧ p'.context.fromCache = true ∧ p'.body = p.body ∧
      p.body = Text.encode (completion "c").compact := by
  intro w other call later call'
  have hfresh : ∀ r ∈ [] ++ ([emptyRequest] ++ ([other] ++ [emptyRequest])),
      r.context.fromCache = false := by
    simp [emptyRequest, other, Context.arrived]
  have hworks : betweenStrips.WorksThroughout w
      ([] ++ ([emptyRequest] ++ ([other] ++ [emptyRequest]))) :=
    worksThroughout_of_memory rfl hfresh Cache.Store.works_empty
  have hkey : betweenStrips.key? emptyRequest = some (fingerprint .null) := rfl
  have hanswered : isAnswered w.model w.asked call.2.2.asked = true := rfl
  obtain ⟨reply, p, p', hreply, hcall, hcall', hcached, hp, -, hequal, -⟩ :=
    replays_recorded_answer rfl rfl rfl hfresh hworks hkey hkey hanswered
  obtain rfl : (⟨200, [], Text.encode (completion "<think>a</think>[b]c").compact⟩ : Reply)
      = reply := Except.ok.inj hreply
  refine ⟨p, p', hcall, hcall', hcached, hequal ?_, hp.trans ?_⟩
  -- nothing more is stripped from what was recorded
  · decide +kernel
  · decide +kernel

/-- Two end marks: the first replay loses what stands before the second. -/
theorem replay_strips_twice :
    let ch := behind [.reasoning defaultMarks] (by simp [Interceptor.isCaching])
    let w := constantWorld (Text.encode (completion "a</think>b</think>c").compact)
    let call := process World.askModel ch.stages emptyRequest w
    let call' := process World.askModel call.2.1 emptyRequest call.2.2
    isAnswered w.model w.asked call.2.2.asked = true ∧
      ∃ p p', call.1 = .ok p ∧ call'.1 = .ok p' ∧ p'.context.fromCache = true ∧
        p'.body ≠ p.body := by
  intro ch w call call'
  have hfresh : ∀ r ∈ [] ++ ([emptyRequest] ++ ([] ++ [emptyRequest])),
      r.context.fromCache = false := by
    simp [emptyRequest, Context.arrived]
  have hworks : ch.WorksThroughout w ([] ++ ([emptyRequest] ++ ([] ++ [emptyRequest]))) :=
    worksThroughout_constant _ _ _ hfresh
  have hkey : ch.key? emptyRequest = some (fingerprint .null) := rfl
  have hanswered : isAnswered w.model w.asked call.2.2.asked = true := rfl
  obtain ⟨reply, p, p', hreply, hcall, hcall', hcached, hp, hp'⟩ :=
    bodies_of_replay rfl rfl rfl hfresh hworks hkey hkey hanswered
  refine ⟨hanswered, p, p', hcall, hcall', hcached, ?_⟩
  obtain rfl : (⟨200, [], Text.encode (completion "a</think>b</think>c").compact⟩ : Reply)
      = reply := Except.ok.inj hreply
  rw [hp, hp']
  -- what is delivered still holds an end mark
  show stripAll [] (stripAll [.reasoning defaultMarks] (stripAll [.reasoning defaultMarks]
      (Text.encode (completion "a</think>b</think>c").compact)))
    ≠ stripAll [] (stripAll [.reasoning defaultMarks]
      (Text.encode (completion "a</think>b</think>c").compact))
  decide +kernel

end CachedChain

end EvalProxy
