/-
# From cache to cache through a file

A cache writes all its entries to a file, and another one merges them from there. What arrives is
what was sent, whatever stood in the other store before, and merging it again changes nothing.

Main definitions: `Files.Tree.Writable`, `Location.Apart`.
Main statements: `Caching.exportFile_spec`, `Caching.importFile_spec`,
`Caching.import_after_export`.
-/
import EvalProxy.Proofs.Cache.Codec
import EvalProxy.Proofs.Cache.Placed
import EvalProxy.Proofs.Cache.Snapshot
namespace EvalProxy

open Cache (Export Overlays exportStore)
open Files (Tree)

/-! ## The file -/

/-- A file with some content can be written at a path, as soon as its directory is made. -/
def Files.Tree.Writable (t : Tree) (path : String) (content : Bytes) : Prop :=
  ∃ made written, t.createParent path = .ok made ∧ made.put path content = (written, none)

/-- A path does not lead to the database in which a store lies. -/
def Location.Apart (path : String) : Location → Prop
  | .memory => True
  | .file database => Tree.key (Files.Path.parts database) ≠ Tree.key (Files.Path.parts path)

/-- Putting a store back leaves every file as it is. -/
theorem World.find_withStore {w : World} {path : String} {content : Bytes}
    (h : w.tree.find path = .ok (some (.file content))) (place : Location) (s : Cache.Store) :
    (w.withStore place s).tree.find path = .ok (some (.file content)) := by
  obtain ⟨hne, hget⟩ := Tree.get?_of_find h (by simp)
  cases place with
  | memory => exact h
  | file database =>
    unfold withStore
    dsimp only
    split
    · rename_i s' hfind
      have hdatabase := (Tree.get?_of_find hfind (by simp)).2
      -- a database stands at one key and a file at the other
      have hapart : Tree.key (Files.Path.parts database) ≠ Tree.key (Files.Path.parts path) := by
        intro heq
        rw [heq, hget] at hdatabase
        simp at hdatabase
      have hplace : w.tree.nodes.get? (Tree.key (Files.Path.parts database)) ≠ some .directory := by
        rw [hdatabase]
        simp
      rw [Tree.find_of_directories (fun _ hk => Tree.directories_withNode hplace _ hk) h,
        Tree.node?, if_neg (by simpa using hne), Tree.get?_withNode, if_neg hapart, hget]
    · exact h

namespace Caching

/-- **Exporting** writes the file and leaves alone every store that does not lie in it. -/
theorem exportFile_spec {c : Caching} {w : World} {path : String} {e : Export}
    (hexport : exportStore (w.store c.place) = .ok e) (hpath : w.tree.Writable path e.encode) :
    ∃ w', c.exportFile path w = (.ok (), w') ∧
      w'.tree.find path = .ok (some (.file e.encode)) ∧
      ∀ place : Location, place.Apart path → (w.store place).Works →
        w'.store place = w.store place := by
  obtain ⟨made, written, hmade, hput⟩ := hpath
  obtain ⟨hwrite, -⟩ := Tree.put_eq_none_iff.1 hput
  refine ⟨{ w with tree := written }, ?_, Tree.find_of_write hwrite, ?_⟩
  · rw [exportFile, hexport]
    simp only [hmade]
    exact World.writeFile_eq (w := { w with tree := made }) hput
  · intro place hapart hworks
    refine World.store_of_undisturbed hworks
      ⟨rfl, rfl, rfl, (Tree.kept_createParent hmade).trans (Tree.kept_put hput)⟩ ?_
    cases place with
    | memory => exact not_false
    | file database =>
      have hget := (Tree.get?_of_find (World.find_of_works hworks) (by simp)).2
      intro hgone
      refine hgone (w.store (.file database)) ?_
      exact (Tree.get?_of_put hput (Ne.symm hapart)).trans (Tree.get?_of_createParent hmade hget)

/-- **Importing** merges the export that a file holds, and leaves the file as it is. -/
theorem importFile_spec {c : Caching} {w : World} {path : String} {e : Export}
    (hworks : (w.store c.place).Works)
    (hfile : w.tree.find path = .ok (some (.file e.encode))) (hfits : e.Fits)
    (hversion : e.version = Export.currentVersion) :
    ∃ c' w', c.importFile path w = (.ok ((c.cache w).merge e).1, c', w') ∧
      c'.place = c.place ∧ w'.store c.place = ((c.cache w).merge e).2.store ∧
      w'.tree.find path = .ok (some (.file e.encode)) := by
  have hread : w.tree.read path = .ok e.encode := by
    rw [Tree.read, hfile]
    rfl
  have hdecode : Export.decode? e.encode = some e := by
    have hdecode := Export.decode?_encode hfits []
    rwa [List.append_nil] at hdecode
  have hcontent : (c.cache w).importContent path e.encode
      = (.ok ((c.cache w).merge e).1, ((c.cache w).merge e).2) := by
    rw [Cache.importContent, hdecode]
    simp only [if_pos hversion]
  refine ⟨(c.settle w ((c.cache w).merge e).2).1, (c.settle w ((c.cache w).merge e).2).2, ?_, rfl,
    store_settle hworks _, World.find_withStore hfile c.place _⟩
  rw [importFile, hread]
  simp only [hcontent]

/-- **Export and import are inverse through a file.** For every cache whose store can be read as a
whole and every cache whose store works, the export is written and merged without failure; the
target then holds the values of the source, and elsewhere its own old ones; merging the file again
changes no entry; and a target that was blank has the same export as the source. An export is read
back from its octets, whatever follows them. -/
theorem import_after_export :
    (∀ (source target : Caching) (w : World) (path : String),
      (w.store source.place).Legible → (w.store target.place).Works → target.place.Apart path →
      (∀ e, exportStore (w.store source.place) = .ok e → w.tree.Writable path e.encode ∧ e.Fits) →
      ∃ w₁ sum₂ c₂ w₂ sum₃ c₃ w₃,
        source.exportFile path w = (.ok (), w₁) ∧
        target.importFile path w₁ = (.ok sum₂, c₂, w₂) ∧ sum₂.failed = 0 ∧
        Overlays (w.store source.place) (w.store target.place) (w₂.store target.place) ∧
        c₂.importFile path w₂ = (.ok sum₃, c₃, w₃) ∧ sum₃.failed = 0 ∧
        (∀ t, (w₃.store target.place).table t = (w₂.store target.place).table t) ∧
        ((w.store target.place).IsBlank → (w.store target.place).Lists →
          exportStore (w₂.store target.place) = exportStore (w.store source.place))) ∧
    ∀ (e : Export) (z : Bytes), e.Fits → Export.decode? (e.encode ++ z) = some e := by
  refine ⟨?_, fun e z hfits => Export.decode?_encode hfits z⟩
  intro source target w path hsource hworks hapart hpath
  obtain ⟨e, hexport, hexports⟩ := Cache.exists_exportStore hsource
  obtain ⟨hpath, hfits⟩ := hpath e hexport
  obtain ⟨w₁, hexported, hfile₁, hothers⟩ := exportFile_spec hexport hpath
  -- the first import finds the store of the target as it was
  have hsame : (target.cache w₁).store = w.store target.place := hothers _ hapart hworks
  have hworks₁ : (target.cache w₁).store.Works := by
    rw [hsame]
    exact hworks
  obtain ⟨c₂, w₂, himported, hplace, hstore₂, hfile₂⟩ :=
    importFile_spec hworks₁ hfile₁ hfits hexports.version
  -- the second one finds it merged
  have hmerged : (c₂.cache w₂).store = ((target.cache w₁).merge e).2.store := by
    show w₂.store c₂.place = _
    rw [hplace, hstore₂]
  have hworks₂ : (c₂.cache w₂).store.Works := by
    rw [hmerged]
    exact Cache.works_merge hworks₁ e
  obtain ⟨c₃, w₃, hagain, -, hstore₃, -⟩ :=
    importFile_spec hworks₂ hfile₂ hfits hexports.version
  rw [hplace] at hstore₃
  refine ⟨w₁, _, c₂, w₂, _, c₃, w₃, hexported, himported, Cache.failed_merge hworks₁ e, ?_, hagain,
    Cache.failed_merge hworks₂ e, ?_, ?_⟩
  · rw [hstore₂, ← hsame]
    exact Cache.overlays_merge hexports hworks₁
  · intro t
    rw [hstore₃, hstore₂, Cache.table_merge_merge hworks₁ hmerged t, hmerged]
  · intro hblank hlists
    rw [← hsame] at hblank hlists
    -- the merged store has an export, and there is only one that fits
    have hnew := hexports.merge_of_isBlank hworks₁ hblank
    obtain ⟨e', hexport', hexports'⟩ :=
      Cache.exists_exportStore (hnew.legible (Cache.lists_merge hworks₁ hlists e))
    rw [hstore₂, hexport', hexport, hexports'.unique hnew]

/-- A store in memory with one request, and a blank database at `db`. -/
def sendingWorld : World :=
  { World.initial (fun _ => .error (.storage "")) fun _ => true with
    memory := Cache.Store.empty.withTable .requests (Dict.empty.insert "k" (.sound [1]))
    tree := Tree.empty.withNode ["db"] (.database .empty) }

theorem get_sendingWorld (t : Cache.Table) (key : String) :
    (sendingWorld.store .memory).get t key
      = .ok (if .requests = t ∧ "k" = key then some [1] else none) := by
  have hput : Cache.Store.empty.put .requests "k" [1] = .ok (sendingWorld.store .memory) := rfl
  have hempty : Cache.Store.empty.get t key = .ok none := by
    cases t <;> rfl
  rw [Cache.Store.get_put hput, hempty, if_neg (by exact Bool.false_ne_true)]
  split <;> rfl

theorem legible_sendingWorld : (sendingWorld.store .memory).Legible := by
  refine ⟨⟨rfl, fun _ => rfl⟩, fun t key => ⟨_, get_sendingWorld t key⟩, fun key => ⟨none, ?_⟩⟩
  exact Cache.getHeaders_eq_none (get_sendingWorld .headers key)

/-- Any content can be written to the file `out` of the sending world. -/
theorem writable_sendingWorld (content : Bytes) : sendingWorld.tree.Writable "out" content := by
  have hparent : Files.Path.parent? "out" = some "" := by
    simp [Files.Path.parent?, Files.Path.splitLast, Files.Path.trimEnd]
  refine ⟨sendingWorld.tree, _, ?_, Tree.put_eq_none_iff.2 ⟨rfl, rfl⟩⟩
  rw [Tree.createParent, hparent]
  rfl

/-- The export of one request is taken in by a cache with a database of its own, which then exports
the same; behind the octets of an export others may stand. -/
theorem import_after_export_into_database :
    let source : Caching := .onPlace ⟨none, true, true, true, none, none, false, none, none⟩ .memory
    let target : Caching := .onPlace source.settings (.file "db")
    ∃ w₁ sum c₂ w₂, source.exportFile "out" sendingWorld = (.ok (), w₁) ∧
      target.importFile "out" w₁ = (.ok sum, c₂, w₂) ∧
      (w₂.store (.file "db")).get .requests "k" = .ok (some [1]) ∧
      exportStore (w₂.store (.file "db")) = exportStore (sendingWorld.store .memory) ∧
      Export.decode? (Export.empty.encode ++ [7]) = some .empty := by
  intro source target
  have hexport : exportStore (sendingWorld.store .memory)
      = .ok ⟨1, Dict.empty.insert "k" [1], .empty, .empty⟩ := rfl
  have hfits : ∀ e, exportStore (sendingWorld.store .memory) = .ok e →
      sendingWorld.tree.Writable "out" e.encode ∧ e.Fits := by
    intro e he
    obtain rfl := Except.ok.inj (hexport.symm.trans he)
    refine ⟨writable_sendingWorld _, by decide, ⟨by decide, ?_, ?_⟩, Cache.fits_empty _,
      Cache.fits_empty _⟩
    · intro e he
      obtain rfl := List.mem_singleton.1 he
      show (Text.encode "k").length < 2 ^ 64
      decide
    · intro e he
      obtain rfl := List.mem_singleton.1 he
      show [1].length < 2 ^ 64
      decide
  have hempty : Export.empty.Fits :=
    ⟨by decide, Cache.fits_empty _, Cache.fits_empty _, Cache.fits_empty _⟩
  have hapart : target.place.Apart "out" := by
    show Tree.key (Files.Path.parts "db") ≠ Tree.key (Files.Path.parts "out")
    decide
  obtain ⟨hfile, hcodec⟩ := import_after_export
  obtain ⟨w₁, sum, c₂, w₂, _, _, _, hexported, himported, -, hoverlays, -, -, -, hsame⟩ :=
    hfile source target sendingWorld "out" legible_sendingWorld Cache.Store.works_empty hapart hfits
  exact ⟨w₁, sum, c₂, w₂, hexported, himported, hoverlays.requests "k" [1] (get_sendingWorld _ _),
    hsame Cache.Store.isBlank_empty ⟨rfl, fun _ => rfl⟩, hcodec .empty [7] hempty⟩

end Caching

end EvalProxy
