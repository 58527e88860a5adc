/-
# Stored requests

A stored request lies under the digest of its text, and the text reads back as the request in
canonical form: whatever reached the cache, in whatever order, and whatever failed meanwhile.

Main statements: `parse_canonicalText`, `requests_step`, `requests_read_back`.
-/
import EvalProxy.Proofs.Cache.Trouble
import EvalProxy.Proofs.Json.Compact
namespace EvalProxy.Cache

open Store

/-! ## Texts of requests -/

/-- A body and its canonical form have the same canonical text. -/
theorem canonicalText_canonical (body : Json) :
    canonicalText body.canonical = canonicalText body := by
  rw [canonicalText, Json.canonical_canonical, canonicalText]

/-- A body and its canonical form have the same fingerprint. -/
theorem fingerprint_canonical (body : Json) : fingerprint body.canonical = fingerprint body := by
  rw [fingerprint, canonicalText_canonical, fingerprint]

section Texts

variable {body : Json} (hwhole : body.Whole) {text : Bytes} (hread : Json.parse text = .ok body)

include hwhole hread

/-- **The canonical text of a body that was read** can be read again. -/
theorem parse_canonicalText :
    Json.parse (Text.encode (canonicalText body)) = .ok body.canonical := by
  have hparse :=
    Json.parse_compact hwhole.canonical (Json.nests_of_parse hread).canonical
  rwa [Json.canonical_canonical] at hparse

end Texts

/-! ## Visits amid trouble -/

variable {c : Cache} {key : String} {cell : Cell}

/-- A request that is stored after a call was stored before, or is the call's own. -/
theorem requests_noted {r : Request} (h : (c.noted r).store.requests.get? key = some cell) :
    c.store.requests.get? key = some cell ∨
      (key = fingerprint r.body ∧ cell = .sound (Text.encode (canonicalText r.body))) := by
  unfold noted at h
  split at h
  · unfold saveRequest at h
    split at h
    · exact .inl h
    · dsimp only at h
      cases hput : c.store.put .requests (fingerprint r.body)
          (Text.encode (canonicalText r.body)) with
      | error e =>
        rw [hput] at h
        exact .inl h
      | ok store =>
        rw [hput] at h
        have hget := (get?_of_put hput .requests key).symm.trans h
        split at hget
        · rename_i hkey
          exact .inr ⟨hkey.2.symm, (Option.some.inj hget).symm⟩
        · exact .inl hget
  · exact .inl h

/-- **One visit** stores nothing among the requests but a request under its fingerprint. -/
theorem requests_step {v : Visit} (h : (c.step v).store.requests.get? key = some cell) :
    c.store.requests.get? key = some cell ∨
      ∃ r, v = .request r ∧ key = fingerprint r.body ∧
        cell = .sound (Text.encode (canonicalText r.body)) := by
  cases v with
  | request r =>
    have hstore : (c.step (.request r)).store = (c.noted r).store := (onRequest_eq_noted c r).2.1
    rw [hstore] at h
    exact (requests_noted h).imp_right fun hstored => ⟨r, rfl, hstored⟩
  | response p =>
    have hsame : (c.onResponse p).store.requests.get? key = c.store.requests.get? key :=
      get?_onResponse (t := .requests) c (.inl rfl)
    exact .inl (hsame.symm.trans h)

/-- **Any number of visits** store only the requests among them, whatever fails meanwhile. -/
theorem requests_runAmid {visits : List (Trouble × Visit)}
    (h : (c.runAmid visits).store.requests.get? key = some cell) :
    c.store.requests.get? key = some cell ∨
      ∃ t r, (t, .request r) ∈ visits ∧ key = fingerprint r.body ∧
        cell = .sound (Text.encode (canonicalText r.body)) := by
  induction visits generalizing c with
  | nil => exact .inl h
  | cons v rest ih =>
    rcases ih h with hstored | ⟨t, r, hmem, hstored⟩
    · -- the trouble of a visit changes no entry
      rcases requests_step hstored with hbefore | ⟨r, hv, hstored⟩
      · exact .inl hbefore
      · exact .inr ⟨v.1, r, by simp [← hv], hstored⟩
    · exact .inr ⟨t, r, List.mem_cons_of_mem v hmem, hstored⟩

/-- **Stored requests are addressed by their content and read back**: each lies under the digest of
its value, and the value is the canonical text of what it spells. -/
theorem requests_read_back {visits : List (Trouble × Visit)}
    (hempty : c.store.requests = .empty)
    (hbodies : ∀ t r, (t, Visit.request r) ∈ visits →
      (∃ text, Json.parse text = .ok r.body) ∧ r.body.Whole)
    (hstored : (c.runAmid visits).store.requests.get? key = some cell) :
    ∃ value v, cell = .sound value ∧ key = Digest.sha256Hex value ∧
      Json.parse value = .ok v ∧ Text.encode (canonicalText v) = value ∧ fingerprint v = key := by
  rcases requests_runAmid hstored with hbefore | ⟨t, r, hmem, rfl, rfl⟩
  · rw [hempty] at hbefore
    cases hbefore
  · obtain ⟨⟨text, hread⟩, hwhole⟩ := hbodies t r hmem
    refine ⟨_, r.body.canonical, rfl, rfl, parse_canonicalText hwhole hread, ?_, ?_⟩
    · rw [canonicalText_canonical]
    · exact fingerprint_canonical r.body

/-- A request that was stored is read back after all operations on the store have failed. -/
theorem requests_read_back_after_failure :
    let settings : Settings := ⟨none, false, true, true, none, none, false, none, none⟩
    let c : Cache := ⟨settings, .empty, .fresh settings, []⟩
    let body : Json := .object [("a", .null), ("b", .array [.int (-2), .text "x"])]
    let call (body : Json) : Visit := .request ⟨"POST", "/", [], body, .arrived "a"⟩
    let visits : List (Trouble × Visit) :=
      [(⟨.none, false⟩, call body), (⟨.none, true⟩, call .null)]
    ∃ value v, (c.runAmid visits).store.requests.get? (fingerprint body) = some (.sound value) ∧
      fingerprint body = Digest.sha256Hex value ∧ Json.parse value = .ok v ∧
      Text.encode (canonicalText v) = value ∧ fingerprint v = fingerprint body := by
  intro settings c body call visits
  have hbody : body.Whole := by
    refine .object ?_
    simp only [List.forall_mem_cons]
    refine ⟨.null, .array ?_, nofun⟩
    simp only [List.forall_mem_cons]
    exact ⟨.int (by decide) (by decide), .text _, nofun⟩
  have hnests : body.Nests (Json.maxDepth - 1) := by
    refine .object ?_
    simp only [List.forall_mem_cons]
    refine ⟨.scalar rfl rfl, .array ?_, nofun⟩
    simp only [List.forall_mem_cons]
    exact ⟨.scalar rfl rfl, .scalar rfl rfl, nofun⟩
  have hbodies : ∀ t r, (t, Visit.request r) ∈ visits →
      (∃ text, Json.parse text = .ok r.body) ∧ r.body.Whole := by
    intro t r hmem
    rcases List.mem_pair.1 hmem with heq | heq
    · cases heq
      exact ⟨⟨_, Json.parse_compact hbody hnests⟩, hbody⟩
    · cases heq
      exact ⟨⟨_, Json.parse_compact .null (.scalar rfl rfl)⟩, .null⟩
  have hstored : (c.runAmid visits).store.requests.get? (fingerprint body)
      = some (.sound (Text.encode (canonicalText body))) := by
    have hrequests : (c.runAmid visits).store.requests
        = Dict.empty.insert (fingerprint body) (.sound (Text.encode (canonicalText body))) := rfl
    rw [hrequests, Dict.get?_insert, if_pos rfl]
  obtain ⟨value, v, hcell, hkey, hparse, htext, hprint⟩ := requests_read_back rfl hbodies hstored
  exact ⟨value, v, hstored.trans (congrArg some hcell), hkey, hparse, htext, hprint⟩

end EvalProxy.Cache
