/-
# A store that works

A store whose reads and writes do not fail answers what was written last. A stored response is a
body and the normal form of header fields under one key; a look-up finds it exactly as it was
written.

Main statements: `Store.decodeHeaders_encode`, `lookup_of_holds`, `writeResponse_of_works`.
-/
import EvalProxy.Cache.Caching
import EvalProxy.Proofs.Dict
import EvalProxy.Proofs.Json.TextMap
namespace EvalProxy.Cache

namespace Store

/-- Reads and writes of a store do not fail. -/
structure Works (s : Store) : Prop where
  present : s.lost = false
  reads : ∀ t key, s.faults.reads t key = false
  writes : ∀ t key, s.faults.writes t key = false

/-- A table has no entries. -/
def IsBlank (s : Store) : Prop := ∀ t, s.table t = .empty

theorem works_empty : empty.Works := ⟨rfl, fun _ _ => rfl, fun _ _ => rfl⟩

theorem isBlank_empty : empty.IsBlank := by
  intro t
  cases t <;> rfl

theorem Works.withTable {s : Store} (h : s.Works) (t : Table) (entries : Dict Cell) :
    (s.withTable t entries).Works := by
  constructor
  · rw [lost_withTable]
    exact h.present
  · rw [faults_withTable]
    exact h.reads
  · rw [faults_withTable]
    exact h.writes

/-- A write to a store that works. -/
theorem put_of_works {s : Store} (h : s.Works) (t : Table) (key : String) (value : Bytes) :
    s.put t key value = .ok (s.withTable t ((s.table t).insert key (.sound value))) := by
  rw [put, h.present, h.writes]
  rfl

/-- What stands under the keys of all tables once a write has succeeded. -/
theorem get?_of_put {s s' : Store} {t : Table} {key : String} {value : Bytes}
    (h : s.put t key value = .ok s') (u : Table) (key' : String) :
    (s'.table u).get? key' =
      if t = u ∧ key = key' then some (.sound value) else (s.table u).get? key' := by
  unfold put at h
  split at h
  · simp at h
  · obtain rfl := Except.ok.inj h
    rw [table_withTable]
    by_cases htable : t = u
    · subst htable
      simp [Dict.get?_insert]
    · simp [htable]

/-- A read from a store that works. -/
theorem get_of_works {s : Store} (h : s.Works) (t : Table) (key : String) :
    s.get t key = match (s.table t).get? key with
      | some (.sound value) => .ok (some value)
      | some .damaged => .error broken
      | none => .ok none := by
  rw [get, h.present, h.reads]
  rfl

/-- The value that a read gives is stored at the key. -/
theorem get?_of_get {s : Store} {t : Table} {key : String} {found : Option Bytes}
    (h : s.get t key = .ok found) : (s.table t).get? key = found.map .sound := by
  unfold Store.get at h
  split at h
  · cases h
  · cases hcell : (s.table t).get? key with
    | none =>
      rw [hcell] at h
      cases h
      rfl
    | some cell =>
      rw [hcell] at h
      cases cell with
      | sound value =>
        cases h
        rfl
      | damaged => cases h

/-- What is stored at a key, if anything is, can be read. -/
structure Reads (s : Store) (t : Table) (key : String) : Prop where
  works : s.faults.reads t key = false
  whole : (s.table t).get? key ≠ some .damaged

/-- A key that was answered is one that reads. -/
theorem reads_of_get {s : Store} {t : Table} {key : String} {found : Option Bytes}
    (h : s.get t key = .ok found) : s.Reads t key := by
  refine ⟨?_, ?_⟩
  · unfold Store.get at h
    split at h
    · cases h
    · rename_i hworks
      rw [Bool.not_eq_true, Bool.or_eq_false_iff] at hworks
      exact hworks.2
  · rw [get?_of_get h]
    cases found with
    | none => nofun
    | some value => nofun

/-- In a store that is present, a key that reads is answered. -/
theorem Reads.exists_get {s : Store} (hpresent : s.lost = false) {t : Table} {key : String}
    (h : s.Reads t key) : ∃ found, s.get t key = .ok found := by
  rw [get, hpresent, h.works]
  cases hcell : (s.table t).get? key with
  | none => exact ⟨none, rfl⟩
  | some cell =>
    cases cell with
    | sound value => exact ⟨some value, rfl⟩
    | damaged => exact absurd hcell h.whole

/-! ## Stored header fields -/

/-- A stored header map is read back as it was. -/
theorem decodeHeaders_encode (map : Dict String) :
    decodeHeaders (Text.encode (headersJson map).compact) = .ok map := by
  -- the entries stand in key order, so building the object again changes nothing
  have hordered : Assoc.Ordered (map.entries.map Json.textMember) :=
    map.ordered.mapValues fun _ t => Json.text t
  have hread : headersOf (Json.object (map.entries.map Json.textMember)) = map := by
    have hentries : (map.entries.map Json.textMember).map (fun m => (m.1, Json.asText m.2))
        = map.entries := by
      rw [List.map_map]
      show map.entries.map id = map.entries
      rw [List.map_id]
    show Dict.ofList ((map.entries.map Json.textMember).map fun m => (m.1, Json.asText m.2)) = map
    rw [hentries, Dict.ofList_entries]
  have hparse := Json.parse_textMembers map.entries
  rw [Json.ofMembers, Assoc.ofList_of_ordered hordered] at hparse
  rw [decodeHeaders, Json.Shape.parseText, headersShape]
  show ((((Json.Shape.dict .text).parse (Text.encode (Json.object
    (map.entries.map Json.textMember)).compact)).mapError _).map headersOf).mapError _ = _
  rw [hparse]
  show Except.ok (headersOf (Json.object (map.entries.map Json.textMember))) = _
  rw [hread]

/-! ## Stored responses -/

/-- A store holds a body and a header map under a key. -/
def Holds (s : Store) (key : String) (body : Bytes) (map : Dict String) : Prop :=
  s.responses.get? key = some (.sound body) ∧
    s.headers.get? key = some (.sound (Text.encode (headersJson map).compact))

/-- Two stores differ in their requests at most. -/
structure SameResponses (s s' : Store) : Prop where
  responses : s'.responses = s.responses
  headers : s'.headers = s.headers
  faults : s'.faults = s.faults
  lost : s'.lost = s.lost

theorem SameResponses.refl (s : Store) : s.SameResponses s := ⟨rfl, rfl, rfl, rfl⟩

/-- A store works if one with the same responses does. -/
theorem SameResponses.works {s s' : Store} (h : s.SameResponses s') (hs : s.Works) : s'.Works := by
  constructor
  · rw [h.lost]
    exact hs.present
  · rw [h.faults]
    exact hs.reads
  · rw [h.faults]
    exact hs.writes

/-- Stores with the same responses answer alike in every table but that of the requests. -/
theorem SameResponses.get_eq {s s' : Store} (h : s.SameResponses s') {t : Table}
    (ht : t ≠ .requests) (key : String) : s'.get t key = s.get t key := by
  rw [get, get, h.lost, h.faults]
  cases t with
  | requests => exact absurd rfl ht
  | responses => rw [table, h.responses]; rfl
  | headers => rw [table, h.headers]; rfl

/-- Stores with the same responses hold the same responses. -/
theorem SameResponses.holds {s s' : Store} (h : s.SameResponses s') {key : String} {body : Bytes}
    {map : Dict String} (hholds : s.Holds key body map) : s'.Holds key body map := by
  obtain ⟨hbody, hfields⟩ := hholds
  constructor
  · rw [h.responses]
    exact hbody
  · rw [h.headers]
    exact hfields

/-- A write to the requests changes nothing else. -/
theorem sameResponses_of_put {s s' : Store} {key : String} {value : Bytes}
    (h : s.put .requests key value = .ok s') : s.SameResponses s' := by
  unfold put at h
  split at h
  · simp at h
  · obtain rfl := Except.ok.inj h
    exact ⟨rfl, rfl, rfl, rfl⟩

end Store

open Store

/-- A look-up reads the responses and their header fields only. -/
theorem lookup_congr {s s' : Store} (h : s.SameResponses s') (key : String) :
    lookup s' key = lookup s key := by
  have hbody := h.get_eq (t := .responses) (by decide) key
  have hheaders := h.get_eq (t := .headers) (by decide) key
  rw [lookup, lookup, getHeaders, getHeaders, hbody, hheaders]

/-- **A stored response is found as it was written.** -/
theorem lookup_of_holds {s : Store} {key : String} {body : Bytes} {map : Dict String}
    (hworks : s.Works) (h : s.Holds key body map) :
    lookup s key = .ok (some ⟨200, replayHeaders map, body⟩) := by
  have hbody : s.get .responses key = .ok (some body) := by
    rw [get_of_works hworks, table, h.1]
  have hmap : s.getHeaders key = .ok (some map) := by
    rw [getHeaders, get_of_works hworks, table, h.2]
    simp only [bind, Except.bind]
    rw [decodeHeaders_encode]
  rw [lookup, hbody]
  simp only [bind, Except.bind, hmap, Option.getD_some]

/-- A key without a response is not found. -/
theorem lookup_of_none {s : Store} {key : String} (hworks : s.Works)
    (h : s.responses.get? key = none) : lookup s key = .ok none := by
  have hbody : s.get .responses key = .ok none := by
    rw [get_of_works hworks, table, h]
  rw [lookup, hbody]
  rfl

/-- The store with a response written under a key. -/
def written (s : Store) (key : String) (r : Response) : Store :=
  { s with
    responses := s.responses.insert key (.sound r.body)
    headers :=
      s.headers.insert key (.sound (Text.encode (headersJson r.headers.normalize).compact)) }

/-- **A response is written as a whole** to a store that works. -/
theorem writeResponse_of_works {s : Store} (hworks : s.Works) (key : String) (r : Response) :
    writeResponse s key r = (true, written s key r) := by
  rw [writeResponse, put_of_works hworks]
  simp only [putHeaders, putHeaderMap]
  rw [put_of_works (hworks.withTable _ _)]
  rfl

theorem works_written {s : Store} (hworks : s.Works) (key : String) (r : Response) :
    (written s key r).Works :=
  ⟨hworks.present, hworks.reads, hworks.writes⟩

/-- A response that was written is held, with its headers in normal form. -/
theorem holds_written (s : Store) (key : String) (r : Response) :
    (written s key r).Holds key r.body r.headers.normalize := by
  constructor
  · simp [written, Dict.get?_insert]
  · simp [written, Dict.get?_insert]

/-- What a key other than the written one answers. -/
theorem get?_written_of_ne (s : Store) {key key' : String} (hne : key ≠ key') (r : Response) :
    (written s key r).responses.get? key' = s.responses.get? key' ∧
      (written s key r).headers.get? key' = s.headers.get? key' := by
  constructor
  · simp [written, Dict.get?_insert, hne]
  · simp [written, Dict.get?_insert, hne]

end EvalProxy.Cache
