/-
# Tables of a document

A table grows by entries that are put in at their place, so its keys stand in order; and so do those
of the tables in it. Hence the settings that a manifest declares are a dictionary.

Main definitions: `Item.InOrder`, `Tidy`, `Keeps`.
Main statements: `Keeps.update?`, `tidy_of_readLines`, `Preset.exists_dict_of_ofFile`.
-/
import EvalProxy.Discovery.Preset
import EvalProxy.Proofs.Dict
namespace EvalProxy

namespace Toml

/-- An item that is a table has its keys in order. -/
def Item.InOrder : Item → Prop
  | .value (.table entries) => Assoc.Ordered entries
  | .table _ entries => Assoc.Ordered entries
  | _ => True

/-- The keys stand in order, and so do those of the tables at them. -/
structure Tidy (entries : Entries) : Prop where
  ordered : Assoc.Ordered entries
  items : ∀ e ∈ entries, e.2.InOrder

theorem tidy_nil : Tidy [] :=
  ⟨List.Pairwise.nil, fun _ h => nomatch h⟩

/-- The items of tidy entries are in order. -/
theorem Tidy.inOrder {entries : Entries} {key : String} {item : Item} (h : Tidy entries)
    (hitem : Assoc.get? key entries = some item) : item.InOrder :=
  h.items (key, item) (Assoc.mem_of_get? hitem)

/-! ## Changes -/

/-- A change leaves keys that stand in order in order and tidy entries tidy. -/
structure Keeps (change : TableKind → Entries → Option Entries) : Prop where
  ordered : ∀ kind es es', change kind es = some es' → Assoc.Ordered es → Assoc.Ordered es'
  tidy : ∀ kind es es', change kind es = some es' → Tidy es → Tidy es'

/-- So does a change that puts in one item. -/
theorem keeps_of_insert {change : TableKind → Entries → Option Entries} (key : String)
    (h : ∀ kind es es', change kind es = some es' →
      ∃ item, es' = Assoc.insert key item es ∧ (Tidy es → item.InOrder)) : Keeps change where
  ordered kind es es' hchange hes := by
    obtain ⟨item, rfl, -⟩ := h kind es es' hchange
    exact hes.insert key item
  tidy kind es es' hchange hes := by
    obtain ⟨item, rfl, hitem⟩ := h kind es es' hchange
    refine ⟨hes.ordered.insert key item, fun e he => ?_⟩
    rcases Assoc.mem_of_mem_insert he with rfl | he
    · exact hitem hes
    · exact hes.items e he

/-- So does a change at the end of a path. -/
theorem Keeps.update? {change : TableKind → Entries → Option Entries} (h : Keeps change)
    (dotted : Bool) (kind : TableKind) (path : List String) :
    Keeps fun _ => Toml.update? dotted change kind path := by
  induction path generalizing kind with
  | nil => exact ⟨fun _ => h.ordered kind, fun _ => h.tidy kind⟩
  | cons key path ih =>
    refine keeps_of_insert key fun _ es es' hchange => ?_
    rw [Toml.update?] at hchange
    split at hchange
    · obtain ⟨inner, hinner, hchange⟩ := Option.bind_eq_some_iff.1 hchange
      exact ⟨_, (Option.some.inj hchange).symm, fun _ =>
        (ih _).ordered .headed _ _ hinner List.Pairwise.nil⟩
    · cases hchange
    · cases hchange
    · obtain ⟨inner, -, hchange⟩ := Option.bind_eq_some_iff.1 hchange
      exact ⟨_, (Option.some.inj hchange).symm, fun _ => trivial⟩
    · rename_i kind' inner hget
      split at hchange
      · cases hchange
      · obtain ⟨inner', hinner, hchange⟩ := Option.bind_eq_some_iff.1 hchange
        exact ⟨_, (Option.some.inj hchange).symm, fun htidy =>
          (ih kind').ordered .headed inner inner' hinner (htidy.inOrder hget)⟩

/-- Adding a key keeps entries tidy. -/
theorem keeps_addKey? {v : Toml} (hv : (Item.value v).InOrder) (path : List String)
    (key : String) : Keeps fun _ => addKey? path key v := by
  refine (keeps_of_insert key fun kind es es' hchange => ?_).update? true .headed path
  split at hchange
  · cases hchange
  · split at hchange
    · cases hchange
    · exact ⟨_, (Option.some.inj hchange).symm, fun _ => hv⟩

theorem keeps_openTable? (path : List String) (key : String) :
    Keeps fun _ => openTable? path key := by
  refine (keeps_of_insert key fun kind es es' hchange => ?_).update? false .headed path
  split at hchange
  · exact ⟨_, (Option.some.inj hchange).symm, fun _ => List.Pairwise.nil⟩
  · rename_i inner hget
    have hinner (htidy : Tidy es) : (Item.table .implied inner).InOrder := htidy.inOrder hget
    exact ⟨_, (Option.some.inj hchange).symm, hinner⟩
  · cases hchange

theorem keeps_openElement? (path : List String) (key : String) :
    Keeps fun _ => openElement? path key := by
  refine (keeps_of_insert key fun kind es es' hchange => ?_).update? false .headed path
  split at hchange
  · exact ⟨_, (Option.some.inj hchange).symm, fun _ => trivial⟩
  · exact ⟨_, (Option.some.inj hchange).symm, fun _ => trivial⟩
  · cases hchange

/-! ## Reading -/

theorem finishedEntries_eq_map (entries : Entries) :
    finishedEntries entries = entries.map fun e => (e.1, e.2.finished) := by
  induction entries with
  | nil => rw [finishedEntries, List.map_nil]
  | cons e rest ih => rw [finishedEntries, ih, List.map_cons]

/-- Finished entries keep the order of their keys. -/
theorem ordered_finishedEntries {entries : Entries} (h : Assoc.Ordered entries) :
    Assoc.Ordered (finishedEntries entries) := by
  rw [finishedEntries_eq_map]
  exact h.mapValues fun _ item => item.finished

/-- A value of a single word is in order. -/
theorem inOrder_of_ofToken? {cs : List Char} {v : Toml} (h : ofToken? cs = some v) :
    (Item.value v).InOrder := by
  rw [ofToken?] at h
  split at h
  · obtain rfl := Option.some.inj h
    trivial
  split at h
  · obtain rfl := Option.some.inj h
    trivial
  split at h
  · obtain rfl := Option.some.inj h
    trivial
  split at h
  · obtain rfl := Option.some.inj h
    trivial
  · obtain ⟨m, -, rfl⟩ := Option.map_eq_some_iff.1 h
    trivial

/-- A value that is read with some fuel and is a table has its keys in order. -/
def ValuesInOrder (fuel : Nat) : Prop :=
  ∀ levels cs v rest, readValue fuel levels cs = some (v, rest) → (Item.value v).InOrder

/-- Pairs that are read with some fuel leave keys that stand in order in order. -/
def PairsInOrder (fuel : Nat) : Prop :=
  ∀ levels first entries cs entries' rest,
    readPairs fuel levels first entries cs = some (entries', rest) →
      Assoc.Ordered entries → Assoc.Ordered entries'

/-- Values are in order if the pairs inside them are. -/
theorem valuesInOrder_succ {fuel : Nat} (hpairs : PairsInOrder fuel) :
    ValuesInOrder (fuel + 1) := by
  intro levels cs v rest h
  cases cs with
  | nil => cases h
  | cons c cs =>
    rw [readValue] at h
    split at h
    · obtain ⟨⟨s, rest'⟩, -, h⟩ := Option.bind_eq_some_iff.1 h
      obtain ⟨rfl, -⟩ := Prod.mk.inj (Option.some.inj h)
      trivial
    split at h
    · split at h
      · cases h
      · obtain ⟨⟨items, rest'⟩, -, h⟩ := Option.bind_eq_some_iff.1 h
        obtain ⟨rfl, -⟩ := Prod.mk.inj (Option.some.inj h)
        trivial
    split at h
    · split at h
      · cases h
      · obtain ⟨⟨entries, rest'⟩, hread, h⟩ := Option.bind_eq_some_iff.1 h
        obtain ⟨rfl, -⟩ := Prod.mk.inj (Option.some.inj h)
        exact ordered_finishedEntries (hpairs _ _ _ _ _ _ hread List.Pairwise.nil)
    · obtain ⟨v', hv, h⟩ := Option.bind_eq_some_iff.1 h
      obtain ⟨rfl, -⟩ := Prod.mk.inj (Option.some.inj h)
      exact inOrder_of_ofToken? hv

/-- Pairs are in order if the values and the pairs behind them are. -/
theorem pairsInOrder_succ {fuel : Nat} (hvalues : ValuesInOrder fuel)
    (hpairs : PairsInOrder fuel) : PairsInOrder (fuel + 1) := by
  intro levels first entries cs entries' rest h hentries
  unfold readPairs at h
  split at h
  · obtain ⟨rfl, -⟩ := Prod.mk.inj (Option.some.inj h)
    exact hentries
  · obtain ⟨⟨path, key, rest₁⟩, -, h⟩ := Option.bind_eq_some_iff.1 h
    obtain ⟨rest₂, -, h⟩ := Option.bind_eq_some_iff.1 h
    obtain ⟨⟨v, rest₃⟩, hv, h⟩ := Option.bind_eq_some_iff.1 h
    obtain ⟨es, hadd, h⟩ := Option.bind_eq_some_iff.1 h
    have hes : Assoc.Ordered es :=
      (keeps_addKey? (hvalues _ _ _ _ hv) path key).ordered .headed _ _ hadd hentries
    split at h
    · obtain ⟨rfl, -⟩ := Prod.mk.inj (Option.some.inj h)
      exact hes
    · exact hpairs _ _ _ _ _ _ h hes
    · cases h

/-- A table that is read within a line has its keys in order. -/
theorem inOrder_of_read (fuel : Nat) : ValuesInOrder fuel ∧ PairsInOrder fuel := by
  induction fuel with
  | zero =>
    refine ⟨fun levels cs v rest h => ?_, fun levels first entries cs entries' rest h => ?_⟩
    · cases h
    · cases h
  | succ fuel ih => exact ⟨valuesInOrder_succ ih.2, pairsInOrder_succ ih.1 ih.2⟩

/-! ## Lines -/

/-- The value of a line that has one is in order if it is a table. -/
def Statement.InOrder : Statement → Prop
  | .pair _ _ v => (Item.value v).InOrder
  | _ => True

/-- The value of a line that is read is in order. -/
theorem inOrder_of_readStatement {cs rest : List Char} {s : Statement}
    (h : readStatement cs = some (s, rest)) : s.InOrder := by
  unfold readStatement at h
  split at h
  · obtain ⟨⟨path, key, rest₁⟩, -, h⟩ := Option.bind_eq_some_iff.1 h
    obtain ⟨rest₂, -, h⟩ := Option.bind_eq_some_iff.1 h
    obtain ⟨rest₃, -, h⟩ := Option.bind_eq_some_iff.1 h
    obtain ⟨rfl, -⟩ := Prod.mk.inj (Option.some.inj h)
    trivial
  · obtain ⟨⟨path, key, rest₁⟩, -, h⟩ := Option.bind_eq_some_iff.1 h
    obtain ⟨rest₂, -, h⟩ := Option.bind_eq_some_iff.1 h
    obtain ⟨rfl, -⟩ := Prod.mk.inj (Option.some.inj h)
    trivial
  · obtain ⟨⟨path, key, rest₁⟩, -, h⟩ := Option.bind_eq_some_iff.1 h
    obtain ⟨rest₂, -, h⟩ := Option.bind_eq_some_iff.1 h
    obtain ⟨⟨v, rest₃⟩, hv, h⟩ := Option.bind_eq_some_iff.1 h
    obtain ⟨rfl, -⟩ := Prod.mk.inj (Option.some.inj h)
    exact (inOrder_of_read _).1 _ _ _ _ hv

/-- A line leaves a tidy document tidy. -/
theorem tidy_of_add? {d d' : Draft} {s : Statement} (hs : s.InOrder) (h : d.add? s = some d')
    (hd : Tidy d.root) : Tidy d'.root := by
  cases s with
  | header path key =>
    obtain ⟨root, hroot, h⟩ := Option.bind_eq_some_iff.1 h
    obtain rfl := Option.some.inj h
    exact (keeps_openTable? path key).tidy .headed _ _ hroot hd
  | element path key =>
    obtain ⟨root, hroot, h⟩ := Option.bind_eq_some_iff.1 h
    obtain rfl := Option.some.inj h
    exact (keeps_openElement? path key).tidy .headed _ _ hroot hd
  | pair path key v =>
    obtain ⟨root, hroot, h⟩ := Option.bind_eq_some_iff.1 h
    obtain rfl := Option.some.inj h
    exact ((keeps_addKey? hs path key).update? false .headed d.place).tidy .headed _ _ hroot hd

/-- Lines that are read keep entries tidy. -/
theorem tidy_of_readLines {fuel : Nat} {d d' : Draft} {cs : List Char}
    (h : readLines fuel d cs = some d') (hd : Tidy d.root) : Tidy d'.root := by
  induction fuel generalizing d cs with
  | zero => cases h
  | succ fuel ih =>
    rw [readLines] at h
    split at h
    · obtain rfl := Option.some.inj h
      exact hd
    · obtain ⟨⟨s, rest⟩, hs, h⟩ := Option.bind_eq_some_iff.1 h
      obtain ⟨d₁, hadd, h⟩ := Option.bind_eq_some_iff.1 h
      obtain ⟨rest', -, h⟩ := Option.bind_eq_some_iff.1 h
      exact ih h (tidy_of_add? (inOrder_of_readStatement hs) hadd hd)

/-- A table in a document has its keys in order. -/
theorem ordered_of_document? {text key : String} {table entries : List (String × Toml)}
    (h : document? text = some table) (hkey : Assoc.get? key table = some (.table entries)) :
    Assoc.Ordered entries := by
  obtain ⟨d, hd, rfl⟩ := Option.map_eq_some_iff.1 h
  have htidy : Tidy d.root := tidy_of_readLines hd tidy_nil
  have hmem := Assoc.mem_of_get? hkey
  rw [finishedEntries_eq_map] at hmem
  obtain ⟨⟨key', item⟩, hitem, heq⟩ := List.mem_map.1 hmem
  have hfinished : item.finished = .table entries := (Prod.mk.inj heq).2
  have hordered : item.InOrder := htidy.items _ hitem
  cases item with
  | value v =>
    rw [Item.finished] at hfinished
    subst hfinished
    exact hordered
  | table kind inner =>
    rw [Item.finished, table.injEq] at hfinished
    subst hfinished
    exact ordered_finishedEntries hordered
  | tables elements =>
    rw [Item.finished] at hfinished
    cases hfinished

theorem entriesJson_eq_map (entries : List (String × Toml)) :
    entriesJson entries = entries.map fun e => (e.1, toJson e.2) := by
  induction entries with
  | nil => rw [entriesJson, List.map_nil]
  | cons e rest ih => rw [entriesJson, ih, List.map_cons]

end Toml

/-! ## Manifests -/

namespace Preset

/-- The defaults of a manifest are a dictionary. -/
theorem exists_dict_of_defaults? {v : Option Toml} {defaults : Json}
    (hv : ∀ entries, v = some (.table entries) → Assoc.Ordered entries)
    (h : defaults? v = some defaults) : ∃ d : Dict Json, defaults = .object d.entries := by
  unfold defaults? at h
  split at h
  · obtain rfl := Option.some.inj h
    exact ⟨.empty, rfl⟩
  · rename_i entries
    obtain rfl := Option.some.inj h
    have hordered : Assoc.Ordered (Toml.entriesJson entries) := by
      rw [Toml.entriesJson_eq_map]
      exact (hv entries rfl).mapValues fun _ v => v.toJson
    exact ⟨⟨Toml.entriesJson entries, hordered⟩, by rw [Toml.toJson]⟩
  · rename_i m
    obtain rfl := Option.some.inj h
    exact ⟨⟨[(Toml.momentKey, .text m.text)], List.pairwise_singleton _ _⟩, by rw [Toml.toJson]⟩
  · cases h

/-- The settings that a manifest declares are a dictionary. -/
theorem exists_dict_of_ofFile {tree : Files.Tree} {path : String} {p : Preset}
    (h : ofFile tree path = .ok p) : ∃ d : Dict Json, p.defaults = .object d.entries := by
  rw [ofFile] at h
  split at h
  · cases h
  split at h
  · rename_i hdocument
    obtain rfl := Except.ok.inj h
    obtain ⟨table, htable, hp⟩ := Option.bind_eq_some_iff.1 hdocument
    obtain ⟨name, -, hp⟩ := Option.bind_eq_some_iff.1 hp
    obtain ⟨base, -, hp⟩ := Option.bind_eq_some_iff.1 hp
    obtain ⟨kind, -, hp⟩ := Option.bind_eq_some_iff.1 hp
    obtain ⟨defaults, hdefaults, hp⟩ := Option.bind_eq_some_iff.1 hp
    split at hp
    · obtain rfl := Option.some.inj hp
      exact exists_dict_of_defaults? (fun _ => Toml.ordered_of_document? htable) hdefaults
    · cases hp
  · cases h

end Preset

end EvalProxy
