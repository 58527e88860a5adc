/-
# What an export holds

An export of a store that can be read as a whole answers at each key what the store answers there,
and there is only one such export. Merged into a store that works, it lays the exported entries over
those that were there.

Main definitions: `Store.Legible`, `Exports`, `Overlays`.
Main statements: `exists_exportStore`, `overlays_merge`, `Exports.merge_of_isBlank`.
-/
import EvalProxy.Proofs.Cache.Listing
import EvalProxy.Proofs.Cache.Merge
import Mathlib.Tactic.Choose
namespace EvalProxy.Cache

open Store

/-- A store can be read as a whole: listing and reading do not fail, and every header entry spells a
header map. -/
structure Store.Legible (s : Store) : Prop where
  lists : s.Lists
  entries : ∀ t key, ∃ value, s.get t key = .ok value
  headers : ∀ key, ∃ map, s.getHeaders key = .ok map

/-- An export answers at each key what a store answers there. -/
structure Exports (s : Store) (e : Export) : Prop where
  version : e.version = Export.currentVersion
  requests : ∀ key, s.get .requests key = .ok (e.requests.get? key)
  responses : ∀ key, s.get .responses key = .ok (e.responses.get? key)
  headers : ∀ key, s.getHeaders key = .ok (e.headers.get? key)

/-- A store has one export only. -/
theorem Exports.unique {s : Store} {e e' : Export} (h : Exports s e) (h' : Exports s e') :
    e = e' := by
  have hrequests : e.requests = e'.requests :=
    Dict.ext_get? fun key => Except.ok.inj ((h.requests key).symm.trans (h'.requests key))
  have hresponses : e.responses = e'.responses :=
    Dict.ext_get? fun key => Except.ok.inj ((h.responses key).symm.trans (h'.responses key))
  have hheaders : e.headers = e'.headers :=
    Dict.ext_get? fun key => Except.ok.inj ((h.headers key).symm.trans (h'.headers key))
  have hversion : e.version = e'.version := h.version.trans h'.version.symm
  cases e
  cases e'
  simp_all

/-! ## Collecting entries -/

section

variable {α : Type} {read : String → Except Failure (Option α)} {f : String → Option α}

/-- The entries of some keys that answer something. -/
def answered (f : String → Option α) (keys : List String) : List (String × α) :=
  keys.filterMap fun key => (f key).map fun v => (key, v)

/-- Reading at some keys gives the entries of those that answer something. -/
theorem mapM_read (hread : ∀ key, read key = .ok (f key)) (keys : List String) :
    (keys.mapM fun key => do
      let value ← read key
      Except.ok (value.map fun v => (key, v)))
      = (.ok (keys.map fun key => (f key).map fun v => (key, v)) :
          Except Failure (List (Option (String × α)))) := by
  have hpure (key : String) : (do
      let value ← read key
      Except.ok (value.map fun v => (key, v)))
        = (pure ((f key).map fun v => (key, v)) : Except Failure (Option (String × α))) := by
    rw [hread]
    rfl
  simp only [hpure]
  exact List.mapM_pure

theorem nodup_answered {keys : List String} (h : keys.Nodup) :
    ((answered f keys).map (·.1)).Nodup := by
  -- the keys that answer something are some of the keys
  have hsublist : ((answered f keys).map (·.1)).Sublist keys := by
    induction keys with
    | nil => exact .slnil
    | cons key rest ih =>
      have hrest := ih (List.nodup_cons.1 h).2
      rw [answered, List.filterMap_cons]
      cases hvalue : f key with
      | none => exact hrest.cons key
      | some v => exact hrest.cons_cons key
  exact h.sublist hsublist

/-- The entries that were collected answer what their keys answer. -/
theorem get?_answered {keys : List String} (h : keys.Nodup)
    (hall : ∀ key, key ∉ keys → f key = none) (key : String) :
    (Dict.ofList (answered f keys)).get? key = f key := by
  refine Option.ext fun v => ?_
  rw [Dict.get?_ofList (nodup_answered h), Assoc.get?_eq_some_iff (nodup_answered h)]
  simp only [answered, List.mem_filterMap, Option.map_eq_some_iff, Prod.mk.injEq]
  constructor
  · rintro ⟨key', -, v', hv', rfl, rfl⟩
    exact hv'
  · intro hv
    refine ⟨key, ?_, v, hv, rfl, rfl⟩
    by_contra hmem
    rw [hall key hmem] at hv
    cases hv

end

/-! ## Exporting -/

/-- Where there is no entry, a read that does not fail finds nothing. -/
theorem get_of_not_mem {s : Store} {t : Table} {key : String} {value : Option Bytes}
    (hget : s.get t key = .ok value) (hmem : key ∉ (s.table t).keys) : value = none := by
  have hnone : (s.table t).get? key = none := by
    rw [Dict.mem_keys_iff] at hmem
    simpa using hmem
  rw [Store.get, hnone] at hget
  split at hget
  · cases hget
  · exact (Except.ok.inj hget).symm

/-- A key that is not in the table has no headers. -/
theorem getHeaders_of_not_mem {s : Store} (h : s.Legible) {key : String}
    (hmem : key ∉ s.headers.keys) : s.getHeaders key = .ok none := by
  obtain ⟨value, hvalue⟩ := h.entries .headers key
  obtain rfl := get_of_not_mem hvalue hmem
  rw [getHeaders, hvalue]
  rfl

/-- **A store that can be read as a whole has an export.** -/
theorem exists_exportStore {s : Store} (h : s.Legible) :
    ∃ e, exportStore s = .ok e ∧ Exports s e := by
  choose values hvalues using h.entries
  choose maps hmaps using h.headers
  have hnone (t : Table) (key : String) (hmem : key ∉ (s.table t).keys) : values t key = none :=
    get_of_not_mem (hvalues t key) hmem
  have hnoMap (key : String) (hmem : key ∉ (s.table .headers).keys) : maps key = none :=
    Except.ok.inj ((hmaps key).symm.trans (getHeaders_of_not_mem h hmem))
  have hcollect (t : Table) : collect s t (s.table t).keys
      = .ok (answered (values t) (s.table t).keys) := by
    rw [collect, mapM_read (hvalues t)]
    show Except.ok (((s.table t).keys.map _).filterMap id) = _
    rw [List.filterMap_map]
    rfl
  have hheaders := mapM_read hmaps (s.table .headers).keys
  refine ⟨⟨Export.currentVersion, .ofList (answered (values .requests) (s.table .requests).keys),
    .ofList (answered (values .responses) (s.table .responses).keys),
    .ofList (answered maps (s.table .headers).keys)⟩, ?_, rfl, ?_, ?_, ?_⟩
  · simp only [bind, Except.bind] at hheaders
    simp only [exportStore, keys_eq h.lists, hcollect, bind, Except.bind, hheaders]
    rw [List.filterMap_map]
    rfl
  · intro key
    rw [get?_answered (Dict.nodup_keys _) (hnone .requests)]
    exact hvalues .requests key
  · intro key
    rw [get?_answered (Dict.nodup_keys _) (hnone .responses)]
    exact hvalues .responses key
  · intro key
    rw [get?_answered (Dict.nodup_keys _) hnoMap]
    exact hmaps key

/-! ## Laying one store over another -/

/-- Putting values in leaves a store that lists one that lists. -/
theorem Store.Lists.withValues {s : Store} (h : s.Lists) (t : Table)
    (values : List (String × Bytes)) : (s.withValues t values).Lists := by
  constructor
  · rw [Store.withValues, lost_withTable]
    exact h.present
  · rw [Store.withValues, faults_withTable]
    exact h.scans

/-- A store holds the values of one store where that has any, and otherwise the entries of another.
Header entries are compared as header maps. -/
structure Overlays (source old new : Store) : Prop where
  requests : ∀ key value, source.get .requests key = .ok (some value) →
    new.get .requests key = .ok (some value)
  responses : ∀ key value, source.get .responses key = .ok (some value) →
    new.get .responses key = .ok (some value)
  headers : ∀ key map, source.getHeaders key = .ok (some map) →
    new.getHeaders key = .ok (some map)
  others : ∀ t key, source.get t key = .ok none → (new.table t).get? key = (old.table t).get? key

/-- What is stored at the key of an exported value. -/
theorem get_merge_of_some {c : Cache} (h : c.store.Works) {e : Export} {t : Table} {key : String}
    {value : Bytes} (hvalue : Assoc.get? key (e.values t) = some value) :
    (c.merge e).2.store.get t key = .ok (some value) := by
  rw [get_of_works (works_merge h e), get?_merge h, hvalue]
  rfl

/-- A key that an export has no value for gives after the merge what it gave before. -/
theorem get?_merge_of_none {c : Cache} (h : c.store.Works) {e : Export} {t : Table} {key : String}
    (hnone : Assoc.get? key (e.values t) = none) :
    ((c.merge e).2.store.table t).get? key = (c.store.table t).get? key := by
  rw [get?_merge h, hnone]
  rfl

/-- The value that an export has for the headers of a key is their compact text. -/
theorem get?_values_headers (e : Export) (key : String) :
    Assoc.get? key (e.values .headers)
      = (e.headers.get? key).map fun map => Text.encode (headersJson map).compact :=
  Assoc.get?_map (fun map => Text.encode (headersJson map).compact) key e.headers.entries

/-- The headers of an export are read back after the merge. -/
theorem getHeaders_merge_of_some {c : Cache} (h : c.store.Works) {e : Export} {key : String}
    {map : Dict String} (hmap : e.headers.get? key = some map) :
    (c.merge e).2.store.getHeaders key = .ok (some map) := by
  have hvalue : Assoc.get? key (e.values .headers)
      = some (Text.encode (headersJson map).compact) := by
    rw [get?_values_headers, hmap]
    rfl
  rw [getHeaders, get_merge_of_some h hvalue]
  simp only [bind, Except.bind, decodeHeaders_encode]

/-- A header map is stored where there is a header entry. -/
theorem getHeaders_eq_none {s : Store} {key : String} (h : s.get .headers key = .ok none) :
    s.getHeaders key = .ok none := by
  rw [getHeaders, h]
  rfl

/-- **A merge lays the exported entries over the old ones.** -/
theorem overlays_merge {s : Store} {e : Export} (hexports : Exports s e) {c : Cache}
    (h : c.store.Works) : Overlays s c.store (c.merge e).2.store := by
  constructor
  · intro key value hvalue
    have hget : e.requests.get? key = some value :=
      Except.ok.inj ((hexports.requests key).symm.trans hvalue)
    exact get_merge_of_some (t := .requests) h hget
  · intro key value hvalue
    have hget : e.responses.get? key = some value :=
      Except.ok.inj ((hexports.responses key).symm.trans hvalue)
    exact get_merge_of_some (t := .responses) h hget
  · intro key map hmap
    have hget : e.headers.get? key = some map :=
      Except.ok.inj ((hexports.headers key).symm.trans hmap)
    exact getHeaders_merge_of_some h hget
  · intro t key hnone
    refine get?_merge_of_none h ?_
    cases t with
    | requests => exact Except.ok.inj ((hexports.requests key).symm.trans hnone)
    | responses => exact Except.ok.inj ((hexports.responses key).symm.trans hnone)
    | headers =>
      have hget : e.headers.get? key = none :=
        Except.ok.inj ((hexports.headers key).symm.trans (getHeaders_eq_none hnone))
      rw [get?_values_headers, hget]
      rfl

/-- **A second merge changes no entry.** -/
theorem table_merge_merge {c c' : Cache} {e : Export} (h : c.store.Works)
    (hsame : c'.store = (c.merge e).2.store) (t : Table) :
    (c'.merge e).2.store.table t = c'.store.table t := by
  have hworks : c'.store.Works := hsame ▸ works_merge h e
  refine Dict.ext_get? fun key => ?_
  rw [get?_merge hworks, hsame, get?_merge h, ← Option.or_assoc, Option.or_self]

/-- **Merged into a blank store**, an export is the export of that store. -/
theorem Exports.merge_of_isBlank {s : Store} {e : Export} (hexports : Exports s e) {c : Cache}
    (h : c.store.Works) (hblank : c.store.IsBlank) : Exports (c.merge e).2.store e := by
  have hvalues (t : Table) (key : String) :
      (c.merge e).2.store.get t key = .ok (Assoc.get? key (e.values t)) := by
    cases hvalue : Assoc.get? key (e.values t) with
    | some value => exact get_merge_of_some h hvalue
    | none =>
      rw [get_of_works (works_merge h e), get?_merge_of_none h hvalue, hblank t]
      rfl
  refine ⟨hexports.version, hvalues .requests, hvalues .responses, ?_⟩
  intro key
  cases hmap : e.headers.get? key with
  | some map => exact getHeaders_merge_of_some h hmap
  | none =>
    refine getHeaders_eq_none ?_
    rw [hvalues, get?_values_headers, hmap]
    rfl

/-- A merge does not touch the faults of a store. -/
theorem lists_merge {c : Cache} (h : c.store.Works) (hlists : c.store.Lists) (e : Export) :
    (c.merge e).2.store.Lists := by
  rw [merge_of_works h]
  exact ((hlists.withValues .requests _).withValues .responses _).withValues .headers _

/-- A store whose keys can be listed and that has an export can be read as a whole. -/
theorem Exports.legible {s : Store} {e : Export} (h : Exports s e) (hlists : s.Lists) :
    s.Legible := by
  refine ⟨hlists, ?_, fun key => ⟨_, h.headers key⟩⟩
  intro t key
  cases t with
  | requests => exact ⟨_, h.requests key⟩
  | responses => exact ⟨_, h.responses key⟩
  | headers =>
    have hmap := h.headers key
    cases hget : s.get .headers key with
    | ok value => exact ⟨value, rfl⟩
    | error e =>
      rw [getHeaders, hget] at hmap
      cases hmap

end EvalProxy.Cache
