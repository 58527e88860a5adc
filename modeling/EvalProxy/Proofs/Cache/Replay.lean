/-
# Replay

Requests and responses visit a cache in any order. Whatever they were, the store holds for each
fingerprint the latest response that was saved for it (`Current`), and a request is answered with
exactly that response.

Main statement: `replays_latest_saved`.
-/
import EvalProxy.Proofs.Cache.Calls
import EvalProxy.Proofs.Http.NormalForm
namespace EvalProxy.Cache

/-! ## Visits -/

/-- A request or a response that reaches a cache. -/
inductive Visit where
  | request (r : Request)
  | response (r : Response)

/-- A response among the visits has fields that a message can have. -/
def Visit.Proper : Visit → Prop
  | .request _ => True
  | .response r => r.headers.Proper

/-- The cache after a visit. -/
def step (c : Cache) : Visit → Cache
  | .request r => (c.onRequest r).2
  | .response r => c.onResponse r

/-- The cache after some visits. -/
def run (c : Cache) (visits : List Visit) : Cache := visits.foldl step c

/-- The response that a visit saves under a key, if it saves one. -/
def savedBy (key : String) (c : Cache) : Visit → Option Response
  | .request _ => none
  | .response r => if c.saves key r then some r else none

/-- The responses that visits save under a key, earliest first. -/
def savedFor (key : String) (c : Cache) : List Visit → List Response
  | [] => []
  | v :: rest => (c.savedBy key v).toList ++ savedFor key (c.step v) rest

theorem settings_step (c : Cache) (v : Visit) : (c.step v).settings = c.settings := by
  cases v with
  | request r => exact (sameSaving_onRequest c r).settings
  | response r => exact settings_onResponse c r

theorem settings_run (c : Cache) (visits : List Visit) : (c.run visits).settings = c.settings := by
  induction visits generalizing c with
  | nil => rfl
  | cons v rest ih => exact (ih (c.step v)).trans (settings_step c v)

/-! ## What the store holds -/

/-- The store works and holds, for each key, the latest response that was saved under it. -/
structure Current (c : Cache) (latest : String → Option Response) : Prop where
  works : c.store.Works
  absent : ∀ key, latest key = none → c.store.responses.get? key = none
  present : ∀ key r, latest key = some r →
    c.store.Holds key r.body r.headers.normalize ∧ r.headers.Proper

/-- Nothing was saved in a blank store. -/
theorem current_of_isBlank {c : Cache} (hworks : c.store.Works) (hblank : c.store.IsBlank) :
    c.Current fun _ => none := by
  refine ⟨hworks, ?_, ?_⟩
  · intro key _
    rw [show c.store.responses = .empty from hblank .responses]
    rfl
  · intro key r h
    simp at h

/-- What keeps the stored responses keeps the latest ones. -/
theorem Current.of_sameResponses {c c' : Cache} {latest : String → Option Response}
    (h : c.Current latest) (hstore : c.store.SameResponses c'.store) : c'.Current latest := by
  refine ⟨hstore.works h.works, ?_, ?_⟩
  · intro key hnone
    rw [hstore.responses]
    exact h.absent key hnone
  · intro key last hlast
    obtain ⟨⟨hbody, hfields⟩, hproper⟩ := h.present key last hlast
    refine ⟨⟨?_, ?_⟩, hproper⟩
    · rw [hstore.responses]
      exact hbody
    · rw [hstore.headers]
      exact hfields

/-- A response is saved under one key only. -/
theorem saves_of_ne {c : Cache} {key key' : String} {r : Response} (h : c.saves key r = true)
    (hne : key ≠ key') : c.saves key' r = false := by
  have hkey := (saves_iff.1 h).2.2.1
  rw [Bool.eq_false_iff]
  intro h'
  have hkey' := (saves_iff.1 h').2.2.1
  exact hne (Option.some.inj (hkey.symm.trans hkey'))

/-- A response that is saved becomes the latest under its key. -/
theorem Current.of_saves {c : Cache} {latest : String → Option Response} (h : c.Current latest)
    {key : String} {r : Response} (hproper : r.headers.Proper) (hsaves : c.saves key r = true) :
    (c.step (.response r)).Current fun key' =>
      (c.savedBy key' (.response r)).or (latest key') := by
  have hstore : (c.step (.response r)).store = written c.store key r := by
    rw [step, onResponse_of_saves h.works hsaves]
    rfl
  constructor
  · rw [hstore]
    exact works_written h.works key r
  · intro key' hnone
    obtain ⟨hsaved, hlatest⟩ := Option.or_eq_none_iff.1 hnone
    -- the key that was written is not absent
    have hne : key ≠ key' := by
      rintro rfl
      simp [savedBy, hsaves] at hsaved
    rw [hstore, (get?_written_of_ne c.store hne r).1]
    exact h.absent key' hlatest
  · intro key' last hlast
    rw [hstore]
    by_cases hne : key = key'
    · subst hne
      obtain rfl : r = last := by simpa [savedBy, hsaves] using hlast
      exact ⟨holds_written c.store key r, hproper⟩
    · have hlatest : latest key' = some last := by
        simpa [savedBy, saves_of_ne hsaves hne] using hlast
      obtain ⟨⟨hbody, hfields⟩, hlastProper⟩ := h.present key' last hlatest
      have hget := get?_written_of_ne c.store hne r
      exact ⟨⟨hget.1.trans hbody, hget.2.trans hfields⟩, hlastProper⟩

/-- **One visit** makes the response that it saves the latest. -/
theorem current_step {c : Cache} {latest : String → Option Response} (h : c.Current latest)
    {v : Visit} (hproper : v.Proper) :
    (c.step v).Current fun key => (c.savedBy key v).or (latest key) := by
  cases v with
  | request r => exact h.of_sameResponses (sameSaving_onRequest c r).store
  | response r =>
    rcases store_onResponse h.works r with ⟨key, hsaves, -⟩ | ⟨hnone, hstore⟩
    · exact h.of_saves hproper hsaves
    · have hlatest : (fun key => (c.savedBy key (.response r)).or (latest key)) = latest := by
        funext key
        simp [savedBy, hnone]
      have hsame : (c.step (.response r)).store = c.store := hstore
      rw [hlatest]
      refine h.of_sameResponses ?_
      rw [hsame]
      exact .refl _

/-- **Any number of visits** leave the latest response that they saved. -/
theorem current_run {c : Cache} {latest : String → Option Response} (h : c.Current latest)
    {visits : List Visit} (hproper : ∀ v ∈ visits, v.Proper) :
    (c.run visits).Current fun key => (savedFor key c visits).getLast?.or (latest key) := by
  -- forward induction: each visit adds its response to what was current before it
  induction visits generalizing c latest with
  | nil => exact h
  | cons v rest ih =>
    have hstep := current_step h (hproper v List.mem_cons_self)
    have hrest := ih hstep fun u hu => hproper u (List.mem_cons_of_mem _ hu)
    -- a response that was saved later hides those before it
    have hlatest : (fun key => (savedFor key c (v :: rest)).getLast?.or (latest key)) =
        fun key =>
          (savedFor key (c.step v) rest).getLast?.or ((c.savedBy key v).or (latest key)) := by
      funext key
      rw [savedFor, List.getLast?_append, Option.or_assoc]
      cases c.savedBy key v <;> rfl
    rw [hlatest]
    exact hrest

/-! ## What a request is answered with -/

/-- A response replays an earlier one to a request: the same body, the same values under each name
as they are read back from text, a media type if there was none, and the mark. -/
structure Replays (a last : Response) (r : Request) : Prop where
  status : a.status = 200
  body : a.body = last.body
  proper : a.headers.Proper
  mark : a.headers.values markName = [markValue]
  values : ∀ name, name ≠ markName →
    (name = "content-type" → last.headers.values "content-type" ≠ []) →
    a.headers.values name = (last.headers.values name).map Headers.readable
  typed : last.headers.values "content-type" = [] →
    a.headers.values "content-type" = [Failure.jsonType]
  context : a.context =
    { r.context with fingerprint := some (fingerprint r.body), fromCache := true }

/-- The values of replayed header fields. -/
theorem values_replayHeaders (map : Dict String) {name : String} (hname : name ≠ markName) :
    (replayHeaders map).values name =
      if name = "content-type" ∧ (Headers.ofMap map).values "content-type" = [] then
        [Failure.jsonType]
      else (Headers.ofMap map).values name := by
  have hcontains := Headers.contains_iff_values_ne_nil (Headers.proper_ofMap map).filled
    "content-type"
  rw [replayHeaders, Headers.values_set, if_neg (Ne.symm hname)]
  split
  · rename_i htyped
    have hne := hcontains.1 htyped
    rw [if_neg fun h => hne h.2]
  · rename_i htyped
    have hnil : (Headers.ofMap map).values "content-type" = [] :=
      Classical.byContradiction fun hne => htyped (hcontains.2 hne)
    rw [Headers.values_set]
    by_cases heq : name = "content-type"
    · rw [if_pos heq.symm, if_pos ⟨heq, hnil⟩]
    · rw [if_neg (Ne.symm heq), if_neg fun h => heq h.1]

/-- The headers of a replay are proper, whatever was stored. -/
theorem proper_replayHeaders (map : Dict String) : (replayHeaders map).Proper := by
  have hproper := Headers.proper_ofMap map
  unfold replayHeaders
  refine Headers.Proper.set ?_ (by decide) (by decide)
  split
  · exact hproper
  · exact hproper.set (by decide) (by decide)

/-- The reply that is stored for a response replays it. -/
theorem replays_replayed {last : Response} (hproper : last.headers.Proper) (r : Request) :
    Replays (replayed r ⟨200, replayHeaders last.headers.normalize, last.body⟩) last r := by
  have hback := Headers.values_ofMap_normalize hproper
  refine ⟨rfl, rfl, proper_replayHeaders _, ?_, ?_, ?_, rfl⟩
  · show (replayHeaders last.headers.normalize).values markName = _
    rw [replayHeaders, Headers.values_set, if_pos rfl]
  · intro name hname htyped
    show (replayHeaders last.headers.normalize).values name = _
    rw [values_replayHeaders _ hname, if_neg, hback]
    rintro ⟨heq, hnil⟩
    rw [hback, List.map_eq_nil_iff] at hnil
    exact htyped heq hnil
  · intro hnil
    show (replayHeaders last.headers.normalize).values "content-type" = _
    rw [values_replayHeaders _ (by decide), if_pos]
    refine ⟨rfl, ?_⟩
    rw [hback, hnil]
    rfl

/-- **Replay is sound and exact.** After any visits to a cache that reuses responses and started
with a blank store, a request is answered exactly if a response was saved for its fingerprint, and
then the answer replays the latest of them. -/
theorem replays_latest_saved {c : Cache} (hreuse : c.settings.reuse = true)
    (hworks : c.store.Works) (hblank : c.store.IsBlank) {visits : List Visit}
    (hproper : ∀ v ∈ visits, v.Proper) (r : Request) :
    ((∃ a, ((c.run visits).onRequest r).1 = .ok (.answer a)) ↔
      savedFor (fingerprint r.body) c visits ≠ []) ∧
    ∀ last, (savedFor (fingerprint r.body) c visits).getLast? = some last →
      ∃ a, ((c.run visits).onRequest r).1 = .ok (.answer a) ∧ Replays a last r := by
  have hcurrent := current_run (current_of_isBlank hworks hblank) hproper
  simp only [Option.or_none] at hcurrent
  have hreuse' : (c.run visits).settings.reuse = true := by
    rw [settings_run]
    exact hreuse
  -- whatever was saved last is stored, so it is found and replayed
  have hlatest (last : Response)
      (hlast : (savedFor (fingerprint r.body) c visits).getLast? = some last) :
      ∃ a, ((c.run visits).onRequest r).1 = .ok (.answer a) ∧ Replays a last r := by
    obtain ⟨hholds, hlastProper⟩ := hcurrent.present _ last hlast
    have hlookup := lookup_of_holds hcurrent.works hholds
    exact ⟨_, answered_of_lookup hreuse' hlookup, replays_replayed hlastProper r⟩
  refine ⟨⟨?_, ?_⟩, hlatest⟩
  · rintro ⟨a, ha⟩ hnil
    have habsent := hcurrent.absent (fingerprint r.body) (by rw [hnil]; rfl)
    obtain ⟨reply, hlookup, -⟩ := lookup_of_answered ha
    rw [lookup_of_none hcurrent.works habsent] at hlookup
    simp at hlookup
  · intro hne
    obtain ⟨a, ha, -⟩ := hlatest _ (List.getLast?_eq_some_getLast hne)
    exact ⟨a, ha⟩

/-- A plain text that was saved once is replayed as a plain text. -/
theorem replays_plain_text :
    let settings : Settings := ⟨none, true, false, true, none, some 1, false, none, none⟩
    let c : Cache := ⟨settings, .empty, .fresh settings, []⟩
    let r : Request := ⟨"POST", "/", [], .null, .arrived "b"⟩
    let last : Response :=
      ⟨200, [("content-type", [[0x61]])], [0x62], ⟨"a", some (fingerprint .null), false⟩⟩
    ∃ a, ((c.run [.response last]).onRequest r).1 = .ok (.answer a) ∧ Replays a last r := by
  intro settings c r last
  have hproper : last.headers.Proper :=
    Headers.proper_cons.2 ⟨by decide, by decide, by decide, by decide, Headers.proper_nil⟩
  have hvisits : ∀ v ∈ [Visit.response last], v.Proper := by
    intro v hv
    rw [List.mem_singleton.1 hv]
    exact hproper
  have hsaved : savedFor (fingerprint r.body) c [.response last] = [last] := by
    have hsaves : c.saves (fingerprint r.body) last = true :=
      saves_iff.2 ⟨rfl, rfl, rfl, rfl, rfl⟩
    simp [savedFor, savedBy, hsaves]
  refine (replays_latest_saved rfl Store.works_empty Store.isBlank_empty hvisits r).2 last ?_
  rw [hsaved]
  rfl

end EvalProxy.Cache
