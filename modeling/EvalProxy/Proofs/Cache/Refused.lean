/-
# Imports, as a whole or not at all

A file is merged only if it starts with a complete export of the version that is understood. Any
other file, however it goes wrong and at whatever octet, is refused before the first of its entries
is stored.

Main definition: `Caching.Merges`.
Main statement: `Caching.imports_whole_or_nothing`.
-/
import EvalProxy.Proofs.Cache.Merge
import EvalProxy.Proofs.Cache.Placed
import EvalProxy.Proofs.Cache.Renderings
namespace EvalProxy

open Cache (Export Summary readBytes readDict readEntries readText)
open Files (Tree)

/-- Octets start with a complete export of the version that is understood. -/
def Cache.Export.Heads (e : Export) (content : Bytes) : Prop :=
  e.version = Export.currentVersion ∧ ∃ octets rest, content = octets ++ rest ∧ e.Renders octets

/-- **A content is refused, or the export that it starts with is merged.** -/
theorem Cache.importContent_cases (c : Cache) (path : String) (content : Bytes) :
    (∃ reason, c.importContent path content = (.error (.settings reason), c)) ∧
        (∀ e : Export, ¬ e.Heads content) ∨
      ∃ e : Export, e.Heads content ∧
        c.importContent path content = (.ok (c.merge e).1, (c.merge e).2) := by
  unfold importContent
  cases hdecode : Export.decode? content with
  | none =>
    refine .inl ⟨⟨_, rfl⟩, fun e hheads => ?_⟩
    rw [Export.decode?_eq_some_iff.2 hheads.2] at hdecode
    cases hdecode
  | some e =>
    by_cases hversion : e.version = Export.currentVersion
    · exact .inr ⟨e, ⟨hversion, Export.decode?_eq_some_iff.1 hdecode⟩, if_pos hversion⟩
    · refine .inl ⟨⟨_, if_neg hversion⟩, fun e' hheads => ?_⟩
      rw [Export.decode?_eq_some_iff.2 hheads.2] at hdecode
      cases hdecode
      exact hversion hheads.1

namespace Caching

variable {c : Caching} {w : World}

theorem settle_cache (c : Caching) (w : World) : c.settle w (c.cache w) = (c, w) := by
  rw [settle]
  show (c, { w.withStore c.place (w.store c.place) with events := w.events }) = _
  rw [World.withStore_store]

/-- The tables of a store that was merged into, once it is put back. -/
theorem table_settle_merge (c : Caching) (w : World) (e : Export) (t : Cache.Table) :
    ((c.settle w ((c.cache w).merge e).2).2.store c.place).table t =
      Cache.Store.putAll ((w.store c.place).table t) (e.taken (w.store c.place) t) := by
  show (World.store { w.withStore c.place ((c.cache w).merge e).2.store with events := _ }
    c.place).table t = _
  rw [World.store_withEvents]
  rcases w.store_withStore_or c.place ((c.cache w).merge e).2.store with hthere | ⟨hnone, hsame⟩
  · rw [hthere]
    exact Cache.table_merge_taken (c.cache w) e t
  -- without a store nothing can be written, and nothing is there
  · rw [hsame, hnone]
    have htaken : e.taken World.noStore t = [] := List.filter_eq_nil_iff.2 fun _ _ => nofun
    rw [htaken]
    rfl

/-- What an import leaves once it has merged an export: it tells how many entries of each table were
stored, all that could be written, and that the others were not; the stored requests and responses
count as saved; and in each table the stored values stand at their keys and nothing else has
changed. -/
structure Merges (c : Caching) (w : World) (e : Export) (sum : Summary) (c' : Caching)
    (w' : World) : Prop where
  requests : sum.requests = (e.taken (w.store c.place) .requests).length
  responses : sum.responses = (e.taken (w.store c.place) .responses).length
  headers : sum.headers = (e.taken (w.store c.place) .headers).length
  all : sum.requests + sum.responses + sum.headers + sum.failed
    = e.requests.size + e.responses.size + e.headers.size
  counters : c' =
    { c with counters :=
      { c.counters with
        requests := c.counters.requests.more sum.requests
        responses := c.counters.responses.more sum.responses } }
  tables : ∀ t, (w'.store c.place).table t =
    Cache.Store.putAll ((w.store c.place).table t) (e.taken (w.store c.place) t)

/-- A merge whose outcome is settled is a merge of the stage and the world. -/
theorem merges_settle (c : Caching) (w : World) (e : Export) :
    c.Merges w e ((c.cache w).merge e).1 (c.settle w ((c.cache w).merge e).2).1
      (c.settle w ((c.cache w).merge e).2).2 := by
  obtain ⟨hrequests, hresponses, hheaders, hall⟩ := Cache.summary_merge (c.cache w) e
  refine ⟨hrequests, hresponses, hheaders, hall, ?_, c.table_settle_merge w e⟩
  rw [hrequests, hresponses]
  exact congrArg (fun counters => { c with counters := counters })
    (Cache.counters_merge_taken (c.cache w) e)

/-- **A file is imported as a whole or not at all.** Either the import fails, no file or no complete
export of the version that is understood stands there, and caching stage and world are as they were;
or the file starts with such an export, and exactly that export is merged. Reading it ends by itself
on all octets: with one unit of fuel for each octet, more fuel changes nothing, whatever the number
of entries that they claim. -/
theorem imports_whole_or_nothing (c : Caching) (path : String) (w : World) :
    ((∃ reason, c.importFile path w = (.error (.settings reason), c, w)) ∧
          (∀ content, w.tree.read path = .ok content → ∀ e : Export, ¬ e.Heads content) ∨
        ∃ content, w.tree.read path = .ok content ∧ ∃ e : Export, e.Heads content ∧
          ∃ sum c' w', c.importFile path w = (.ok sum, c', w') ∧ c.Merges w e sum c' w') ∧
      ∀ (octets : Bytes) (count fuel : Nat), octets.length ≤ fuel →
        readEntries readBytes fuel count octets
            = readEntries readBytes octets.length count octets ∧
          readEntries readText fuel count octets
            = readEntries readText octets.length count octets ∧
          readEntries (readDict readText) fuel count octets
            = readEntries (readDict readText) octets.length count octets := by
  constructor
  · unfold importFile
    cases hread : w.tree.read path with
    | error fault => exact .inl ⟨⟨_, rfl⟩, nofun⟩
    | ok content =>
      rcases (c.cache w).importContent_cases path content with ⟨⟨reason, h⟩, hnone⟩ | ⟨e, he, h⟩
      · left
        refine ⟨⟨reason, ?_⟩, ?_⟩
        · simp only [h, settle_cache]
        · rintro _ ⟨⟩
          exact hnone
      · right
        refine ⟨content, rfl, e, he, _, _, _, ?_, c.merges_settle w e⟩
        simp only [h]
  · intro octets count fuel hfuel
    have hmaps := Cache.takes_readDict Cache.takes_readText
    exact ⟨Cache.readEntries_eq_of_le Cache.takes_readBytes Cache.reads_of_rendersBytes hfuel
        le_rfl count,
      Cache.readEntries_eq_of_le Cache.takes_readText Cache.reads_of_rendersText hfuel le_rfl count,
      Cache.readEntries_eq_of_le hmaps (Cache.reads_readDict Cache.reads_of_rendersText) hfuel
        le_rfl count⟩

/-- The octets of an export that has one request twice. -/
def twofold : Bytes :=
  Cache.littleEndian 4 1 ++ (Cache.encodeLength 2 ++
    (Cache.encodeText "k" ++ Cache.encodeBytes [1] ++ (Cache.encodeText "k" ++
      Cache.encodeBytes [2]))) ++ (Cache.encodeLength 0 ++ Cache.encodeLength 0)

/-- A world with one file. -/
def holding (content : Bytes) : World :=
  { World.initial (fun _ => .error (.storage "")) fun _ => true with
    tree := Tree.empty.withNode ["in"] (.file content) }

/-- A file with a request twice, and more behind its export, is merged with the later value; without
the last octet of its export it is refused. -/
theorem imports_whole_or_nothing_truncated :
    let c : Caching := .onPlace ⟨none, true, true, true, none, none, false, none, none⟩ .memory
    (∃ sum c' w', c.importFile "in" (holding (twofold ++ [7])) = (.ok sum, c', w') ∧
      sum.requests = 1 ∧ (w'.store .memory).requests.get? "k" = some (.sound [2])) ∧
    ∃ reason, c.importFile "in" (holding twofold.dropLast)
      = (.error (.settings reason), c, holding twofold.dropLast) := by
  intro c
  have hread (content : Bytes) : (holding content).tree.read "in" = .ok content := rfl
  constructor
  · let e : Export := ⟨1, Dict.empty.insert "k" [2], .empty, .empty⟩
    have hdecode : Export.decode? (twofold ++ [7]) = some e := rfl
    have hheads : e.Heads (twofold ++ [7]) := ⟨rfl, Export.decode?_eq_some_iff.1 hdecode⟩
    rcases (imports_whole_or_nothing c "in" (holding (twofold ++ [7]))).1 with
      ⟨-, hnone⟩ | ⟨content, hcontent, e', he', sum, c', w', himport, hmerges⟩
    · exact absurd hheads (hnone _ (hread _) e)
    · cases (hread _).symm.trans hcontent
      have hsame := Export.decode?_eq_some_iff.2 he'.2
      rw [hdecode, Option.some.injEq] at hsame
      subst hsame
      refine ⟨sum, c', w', himport, hmerges.requests, ?_⟩
      have htable : (w'.store .memory).requests = Dict.empty.insert "k" (.sound [2]) :=
        hmerges.tables .requests
      rw [htable, Dict.get?_insert, if_pos rfl]
  · have hdecode : Export.decode? twofold.dropLast = none := rfl
    rcases (imports_whole_or_nothing c "in" (holding twofold.dropLast)).1 with
      ⟨hrefused, -⟩ | ⟨content, hcontent, e', he', -⟩
    · exact hrefused
    · cases (hread _).symm.trans hcontent
      rw [Export.decode?_eq_some_iff.2 he'.2] at hdecode
      cases hdecode

end Caching

end EvalProxy
