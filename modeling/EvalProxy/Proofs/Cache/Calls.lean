/-
# What a call does to a cache

A request leaves the stored responses alone: it goes on, is answered from the store, or is refused
in test mode (`onRequest_cases`). A response is written under the fingerprint of its call or
changes nothing (`onResponse_of_saves`, `onResponse_of_not_saves`), and whatever fails, it touches
no other key (`get?_onResponse`).
-/
import EvalProxy.Proofs.Cache.Store
namespace EvalProxy.Cache

open Store

/-! ## Requests -/

/-- The request with its fingerprint. -/
def marked (r : Request) : Request :=
  { r with context := { r.context with fingerprint := some (fingerprint r.body) } }

/-- The cache once a request is saved, if requests are. -/
def noted (c : Cache) (r : Request) : Cache :=
  if c.settings.saveRequests then c.saveRequest (fingerprint r.body) (canonicalText r.body) else c

/-- The cache with a hit counted. -/
def hit (c : Cache) : Cache :=
  { c with counters := { c.counters with hits := c.counters.hits + 1 } }.note .cacheHit

/-- The cache with a miss counted. -/
def missed (c : Cache) : Cache :=
  { c with counters := { c.counters with misses := c.counters.misses + 1 } }.note .cacheMiss

/-- The response that replays a stored reply to a request. -/
def replayed (r : Request) (reply : Reply) : Response :=
  reply.toResponse { (marked r).context with fromCache := true }

/-- Nothing usable is stored for a request. -/
def Misses (c : Cache) (r : Request) : Prop :=
  ∀ reply, lookup c.store (fingerprint r.body) ≠ .ok (some reply)

/-- Saving requests is separate from saving responses. -/
structure SameSaving (c c' : Cache) : Prop where
  settings : c'.settings = c.settings
  limit : c'.counters.responses = c.counters.responses
  store : c.store.SameResponses c'.store

/-- Keeping a request touches nothing that saving a response reads. -/
theorem sameSaving_saveRequest (c : Cache) (key text : String) :
    c.SameSaving (c.saveRequest key text) := by
  unfold saveRequest
  split
  · exact ⟨rfl, rfl, .refl _⟩
  · refine ⟨rfl, rfl, ?_⟩
    cases hput : c.store.put .requests key (Text.encode text) with
    | ok store => exact sameResponses_of_put hput
    | error e => exact .refl _

/-- Noting a call touches nothing that saving a response reads. -/
theorem sameSaving_noted (c : Cache) (r : Request) : c.SameSaving (c.noted r) := by
  unfold noted
  split
  · exact sameSaving_saveRequest c _ _
  · exact ⟨rfl, rfl, .refl _⟩

/-- Noting a call does not change what is found for its fingerprint. -/
theorem lookup_noted (c : Cache) (r : Request) :
    lookup (c.noted r).store (fingerprint r.body) = lookup c.store (fingerprint r.body) :=
  lookup_congr (sameSaving_noted c r).store _

theorem noted_eq (c : Cache) (r : Request) :
    (if c.settings.saveRequests then c.saveRequest (fingerprint r.body) (canonicalText r.body)
      else c) = c.noted r :=
  rfl

theorem reuse_noted (c : Cache) (r : Request) :
    (c.noted r).settings.reuse = c.settings.reuse := by
  rw [(sameSaving_noted c r).settings]

theorem testMode_noted (c : Cache) (r : Request) :
    (c.noted r).settings.testMode = c.settings.testMode := by
  rw [(sameSaving_noted c r).settings]

/-- A cache that reuses nothing marks the call and lets it proceed. -/
theorem onRequest_of_no_reuse {c : Cache} (r : Request) (hreuse : c.settings.reuse = false) :
    c.onRequest r = (.ok (.proceed (marked r)), c.noted r) := by
  simp only [onRequest, noted_eq, reuse_noted, hreuse, Bool.not_false, if_true, marked]

/-- A call whose fingerprint is stored is answered with the stored reply and counted as a hit. -/
theorem onRequest_of_found {c : Cache} {r : Request} {reply : Reply}
    (hreuse : c.settings.reuse = true)
    (hfound : lookup c.store (fingerprint r.body) = .ok (some reply)) :
    c.onRequest r = (.ok (.answer (replayed r reply)), (c.noted r).hit) := by
  simp only [onRequest, noted_eq, reuse_noted, hreuse, lookup_noted, hfound, Bool.not_true,
    Bool.false_eq_true, if_false, replayed, marked, hit]

/-- A call that misses is counted as a miss; it proceeds, or fails with a diagnosis in test mode. -/
theorem onRequest_of_misses {c : Cache} {r : Request} (hreuse : c.settings.reuse = true)
    (hmiss : c.Misses r) :
    c.onRequest r =
      if c.settings.testMode then
        (.error (.cacheMiss (diagnose (c.noted r).store (fingerprint r.body)
          (canonicalText r.body))), (c.noted r).missed)
      else (.ok (.proceed (marked r)), (c.noted r).missed) := by
  simp only [onRequest, noted_eq, reuse_noted, testMode_noted, hreuse, lookup_noted, Bool.not_true,
    Bool.false_eq_true, if_false]
  split
  · rename_i reply hfound
    exact absurd hfound (hmiss reply)
  · rfl

/-- **What a request can come to.** Without reuse it goes on; with reuse it is answered if a
response is stored, and otherwise goes on, or fails in test mode. -/
theorem onRequest_cases (c : Cache) (r : Request) :
    (c.settings.reuse = false ∧ c.onRequest r = (.ok (.proceed (marked r)), c.noted r)) ∨
    (c.settings.reuse = true ∧ ∃ reply, lookup c.store (fingerprint r.body) = .ok (some reply) ∧
      c.onRequest r = (.ok (.answer (replayed r reply)), (c.noted r).hit)) ∨
    (c.settings.reuse = true ∧ c.Misses r ∧ c.settings.testMode = true ∧
      ∃ d, c.onRequest r = (.error (.cacheMiss d), (c.noted r).missed)) ∨
    (c.settings.reuse = true ∧ c.Misses r ∧ c.settings.testMode = false ∧
      c.onRequest r = (.ok (.proceed (marked r)), (c.noted r).missed)) := by
  cases hreuse : c.settings.reuse with
  | false => exact Or.inl ⟨rfl, onRequest_of_no_reuse r hreuse⟩
  | true =>
    right
    by_cases hfound : ∃ reply, lookup c.store (fingerprint r.body) = .ok (some reply)
    · obtain ⟨reply, hfound⟩ := hfound
      exact Or.inl ⟨rfl, reply, hfound, onRequest_of_found hreuse hfound⟩
    -- a look-up that fails counts as a miss like one that finds nothing
    · have hmiss : c.Misses r := fun reply h => hfound ⟨reply, h⟩
      right
      cases htest : c.settings.testMode with
      | true =>
        refine Or.inl ⟨rfl, hmiss, rfl, ?_⟩
        rw [onRequest_of_misses hreuse hmiss, if_pos htest]
        exact ⟨_, rfl⟩
      | false =>
        refine Or.inr ⟨rfl, hmiss, rfl, ?_⟩
        rw [onRequest_of_misses hreuse hmiss, htest]
        exact if_neg Bool.false_ne_true

/-- A request leaves the stored responses and their limit alone. -/
theorem sameSaving_onRequest (c : Cache) (r : Request) : c.SameSaving (c.onRequest r).2 := by
  have hsame := sameSaving_noted c r
  rcases onRequest_cases c r with ⟨-, h⟩ | ⟨-, reply, -, h⟩ | ⟨-, -, -, d, h⟩ | ⟨-, -, -, h⟩
  · rw [h]
    exact hsame
  · rw [h]
    exact ⟨hsame.settings, hsame.limit, hsame.store⟩
  · rw [h]
    exact ⟨hsame.settings, hsame.limit, hsame.store⟩
  · rw [h]
    exact ⟨hsame.settings, hsame.limit, hsame.store⟩

/-- A request whose response is found is answered. -/
theorem answered_of_lookup {c : Cache} {r : Request} {reply : Reply}
    (hreuse : c.settings.reuse = true)
    (hlookup : lookup c.store (fingerprint r.body) = .ok (some reply)) :
    (c.onRequest r).1 = .ok (.answer (replayed r reply)) := by
  rcases onRequest_cases c r with ⟨hno, -⟩ | ⟨-, reply', hfound, h⟩ | ⟨-, hmiss, -⟩ | ⟨-, hmiss, -⟩
  · rw [hreuse] at hno
    simp at hno
  · rw [hlookup] at hfound
    obtain rfl : reply = reply' := by simpa using hfound
    rw [h]
  · exact absurd hlookup (hmiss reply)
  · exact absurd hlookup (hmiss reply)

/-- A request is answered only with a response that is found. -/
theorem lookup_of_answered {c : Cache} {r : Request} {a : Response}
    (ha : (c.onRequest r).1 = .ok (.answer a)) :
    ∃ reply, lookup c.store (fingerprint r.body) = .ok (some reply) ∧ a = replayed r reply := by
  rcases onRequest_cases c r with ⟨-, h⟩ | ⟨-, reply, hfound, h⟩ | ⟨-, -, -, d, h⟩ | ⟨-, -, -, h⟩
  · rw [h] at ha
    simp at ha
  · rw [h] at ha
    cases ha
    exact ⟨reply, hfound, rfl⟩
  · rw [h] at ha
    simp at ha
  · rw [h] at ha
    simp at ha

/-! ## Responses -/

/-- Whether a cache saves a response under a key: a success that does not come from a cache, with
that fingerprint, while responses are saved and the limit grants a save. -/
def saves (c : Cache) (key : String) (r : Response) : Bool :=
  r.status == 200 && !r.context.fromCache && r.context.fingerprint == some key
    && c.settings.saveResponses && c.counters.responses.acquire.1

/-- A response is saved under a key if it is a success that is no replay and carries the key, saving
is on and a slot is left. -/
theorem saves_iff {c : Cache} {key : String} {r : Response} :
    c.saves key r = true ↔
      r.status = 200 ∧ r.context.fromCache = false ∧ r.context.fingerprint = some key ∧
        c.settings.saveResponses = true ∧ c.counters.responses.acquire.1 = true := by
  simp [saves, and_assoc]

/-- A response that is saved takes up one save, whether or not it can be written. -/
theorem onResponse_eq_of_saves {c : Cache} {key : String} {r : Response}
    (h : c.saves key r = true) :
    c.onResponse r =
      let outcome := writeResponse c.store key r
      let saved : Cache :=
        { c with
          counters := { c.counters with responses := c.counters.responses.acquire.2 }
          store := outcome.2 }
      if outcome.1 then saved.note .cacheWrite else saved := by
  obtain ⟨hstatus, hfresh, hkey, hsaves, hgranted⟩ := saves_iff.1 h
  have hlimit : c.counters.responses.acquire = (true, c.counters.responses.acquire.2) := by
    rw [← hgranted]
  rw [onResponse, hfresh, hsaves, Response.isSuccess, hstatus, hkey]
  simp only [saveResponse]
  rw [hlimit]
  rfl

/-- **A response that is saved is written as a whole** to a store that works. -/
theorem onResponse_of_saves {c : Cache} {key : String} {r : Response} (hworks : c.store.Works)
    (h : c.saves key r = true) :
    c.onResponse r =
      { c with
        counters := { c.counters with responses := c.counters.responses.acquire.2 }
        store := written c.store key r }.note .cacheWrite := by
  rw [onResponse_eq_of_saves h, writeResponse_of_works hworks]
  rfl

/-- A response that is not saved leaves store, settings and counters alone. -/
theorem onResponse_of_not_saves {c : Cache} {r : Response} (h : ∀ key, c.saves key r = false) :
    (c.onResponse r).store = c.store ∧ (c.onResponse r).settings = c.settings ∧
      (c.onResponse r).counters = c.counters := by
  unfold onResponse
  split
  · exact ⟨rfl, rfl, rfl⟩
  rename_i heligible
  cases hkey : r.context.fingerprint with
  | none => exact ⟨rfl, rfl, rfl⟩
  | some key =>
    -- every other condition holds, so it is the limit that refuses
    have hrefused : c.counters.responses.acquire.1 = false := by
      have hnot := h key
      simp only [Response.isSuccess, Bool.or_eq_true, Bool.not_eq_true', not_or,
        Bool.not_eq_true, Bool.not_eq_false, beq_iff_eq] at heligible
      obtain ⟨⟨hfresh, hsaves⟩, hstatus⟩ := heligible
      simpa [saves, hkey, hfresh, hsaves, hstatus] using hnot
    have hlimit : c.counters.responses.acquire = (false, c.counters.responses.acquire.2) := by
      rw [← hrefused]
    show (c.saveResponse key r).store = _ ∧ (c.saveResponse key r).settings = _ ∧
      (c.saveResponse key r).counters = _
    rw [saveResponse, hlimit]
    exact ⟨rfl, rfl, rfl⟩

/-- The store after a response: it is written if the response is saved. -/
theorem store_onResponse {c : Cache} (hworks : c.store.Works) (p : Response) :
    (∃ key, c.saves key p = true ∧ (c.onResponse p).store = written c.store key p) ∨
    (∀ key, c.saves key p = false) ∧ (c.onResponse p).store = c.store := by
  by_cases hsaves : ∃ key, c.saves key p = true
  · obtain ⟨key, hsaves⟩ := hsaves
    rw [onResponse_of_saves hworks hsaves]
    exact Or.inl ⟨key, hsaves, rfl⟩
  · have hnone (key : String) : c.saves key p = false := by
      rw [Bool.eq_false_iff]
      exact fun hkey => hsaves ⟨key, hkey⟩
    exact Or.inr ⟨hnone, (onResponse_of_not_saves hnone).1⟩

/-- Whatever fails, a response is written under its own key only, and not among the requests. -/
theorem get?_writeResponse (s : Store) {key key' : String} (p : Response) {t : Table}
    (h : t = .requests ∨ key ≠ key') :
    ((writeResponse s key p).2.table t).get? key' = (s.table t).get? key' := by
  have hother {u : Table} (hu : u ≠ .requests) : ¬ (u = t ∧ key = key') := by
    rintro ⟨rfl, rfl⟩
    exact h.elim hu fun hne => hne rfl
  rw [writeResponse]
  cases hbody : s.put .responses key p.body with
  | error e => rfl
  | ok written =>
    have hwritten := (get?_of_put hbody t key').trans (if_neg (hother (by decide)))
    dsimp only
    cases hfields : written.putHeaders key p.headers with
    | error e => exact hwritten
    | ok both =>
      rw [get?_of_put hfields, if_neg (hother (by decide))]
      exact hwritten

/-- A response leaves the requests alone, and every entry under another key than its own. -/
theorem get?_onResponse (c : Cache) {p : Response} {t : Table} {key : String}
    (h : t = .requests ∨ p.context.fingerprint ≠ some key) :
    ((c.onResponse p).store.table t).get? key = (c.store.table t).get? key := by
  unfold onResponse
  split
  · rfl
  cases hkey : p.context.fingerprint with
  | none => rfl
  | some key' =>
    have h : t = .requests ∨ key' ≠ key := by
      refine h.imp_right ?_
      rintro hne rfl
      exact hne hkey
    show ((c.saveResponse key' p).store.table t).get? key = _
    unfold saveResponse
    split
    · rfl
    · dsimp only
      split
      · exact get?_writeResponse c.store p h
      · exact get?_writeResponse c.store p h

/-- A response leaves the settings alone. -/
theorem settings_onResponse (c : Cache) (r : Response) :
    (c.onResponse r).settings = c.settings := by
  unfold onResponse
  split
  · rfl
  split
  · unfold saveResponse
    split
    · rfl
    · dsimp only
      split
      · rfl
      · rfl
  · rfl

end EvalProxy.Cache
