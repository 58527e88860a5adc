/-
# Dictionaries from lists

What a dictionary answers that was built entry by entry, dictionaries rebuilt from their own
entries, and entries put in another order.

Main statements: `Dict.get?_ofList`, `Dict.ofList_entries`, `Dict.mem_keys_iff`,
`Assoc.ofList_eq_iff`.
-/
import EvalProxy.Assoc
import Mathlib.Data.List.Induction
import Mathlib.Data.List.Perm.Basic
namespace EvalProxy

namespace Assoc

variable {α : Type}

instance (entries : List (String × α)) : Decidable (Ordered entries) :=
  inferInstanceAs (Decidable (entries.Pairwise fun a b => a.1 < b.1))

/-- A key larger than all others goes to the end. -/
theorem insert_of_forall_lt {key : String} {entries : List (String × α)}
    (h : ∀ e ∈ entries, e.1 < key) (value : α) :
    insert key value entries = entries ++ [(key, value)] := by
  induction entries with
  | nil => rfl
  | cons e rest ih =>
    obtain ⟨k, v⟩ := e
    have hk : k < key := h (k, v) (by simp)
    have hlt : ¬ key < k := fun hkey => String.lt_irrefl _ (String.lt_trans hkey hk)
    have hne : key ≠ k := by
      rintro rfl
      exact hlt hk
    rw [insert, if_neg hlt, if_neg hne, ih fun e he => h e (by simp [he])]
    rfl

/-- Entries in key order are put in one after the other as they are. -/
theorem foldl_insert_of_ordered {done rest : List (String × α)} (h : Ordered (done ++ rest)) :
    rest.foldl (fun acc e => insert e.1 e.2 acc) done = done ++ rest := by
  induction rest generalizing done with
  | nil => simp
  | cons e rest ih =>
    -- the key order puts this entry behind all that are done
    have hlt : ∀ d ∈ done, d.1 < e.1 := by
      intro d hd
      exact (List.pairwise_append.1 h).2.2 d hd e (by simp)
    rw [List.foldl_cons, insert_of_forall_lt hlt, ih (by simpa using h)]
    simp

/-- A list of entries in key order is its own dictionary. -/
theorem ofList_of_ordered {entries : List (String × α)} (h : Ordered entries) :
    ofList entries = entries := by
  rw [ofList, foldl_insert_of_ordered (by simpa using h)]
  simp

/-- What a key answers stands in an entry. -/
theorem mem_of_get? {key : String} {entries : List (String × α)} {value : α}
    (h : get? key entries = some value) : (key, value) ∈ entries := by
  induction entries with
  | nil => simp [get?] at h
  | cons e rest ih =>
    obtain ⟨k, v⟩ := e
    rw [get?] at h
    split at h
    · rename_i heq
      obtain rfl := Option.some.inj h
      simp [heq]
    · exact List.mem_cons_of_mem _ (ih h)

/-- A key answers something exactly when it has an entry. -/
theorem isSome_get?_iff (key : String) (entries : List (String × α)) :
    (get? key entries).isSome = true ↔ key ∈ entries.map (·.1) := by
  induction entries with
  | nil => simp [get?]
  | cons e rest ih =>
    obtain ⟨k, v⟩ := e
    by_cases h : k = key
    · simp [get?, h]
    · have hne : key ≠ k := fun heq => h heq.symm
      rw [get?, if_neg h, ih]
      simp [hne]

end Assoc

namespace Dict

variable {α : Type}

/-! ## Keys -/

/-- The keys are those that answer something. -/
theorem mem_keys_iff (d : Dict α) (key : String) : key ∈ d.keys ↔ (d.get? key).isSome = true :=
  (Assoc.isSome_get?_iff key d.entries).symm

/-- After an insertion the keys are those before and the new one. -/
theorem mem_keys_insert (d : Dict α) (key key' : String) (value : α) :
    key' ∈ (d.insert key value).keys ↔ key' = key ∨ key' ∈ d.keys :=
  Assoc.mem_keys_insert key key' value d.entries

/-- No key stands twice. -/
theorem nodup_keys (d : Dict α) : d.keys.Nodup := by
  rw [keys, List.nodup_iff_pairwise_ne, List.pairwise_map]
  refine d.ordered.imp ?_
  intro a b hlt heq
  exact String.lt_irrefl _ (heq ▸ hlt)

/-! ## Lists of entries -/

/-- Inserting entries into a dictionary is inserting them into its list. -/
theorem entries_foldl_insert (d : Dict α) (entries : List (String × α)) :
    (entries.foldl (fun d e => d.insert e.1 e.2) d).entries
      = entries.foldl (fun acc e => Assoc.insert e.1 e.2 acc) d.entries := by
  induction entries generalizing d with
  | nil => rfl
  | cons e rest ih =>
    rw [List.foldl_cons, ih]
    rfl

/-- A dictionary is rebuilt from its entries. -/
theorem ofList_entries (d : Dict α) : ofList d.entries = d := by
  refine ext ?_
  rw [ofList, entries_foldl_insert]
  exact Assoc.ofList_of_ordered d.ordered

/-- After entries with different keys are inserted, a key gives its new value or else its old one.
-/
theorem get?_foldl_insert (d : Dict α) {entries : List (String × α)}
    (h : (entries.map (·.1)).Nodup) (key : String) :
    (entries.foldl (fun d e => d.insert e.1 e.2) d).get? key
      = (Assoc.get? key entries).or (d.get? key) := by
  induction entries generalizing d with
  | nil => simp [Assoc.get?]
  | cons e rest ih =>
    obtain ⟨k, v⟩ := e
    obtain ⟨hk, hrest⟩ := List.nodup_cons.1 h
    rw [List.foldl_cons, ih _ hrest, get?_insert, Assoc.get?]
    by_cases heq : k = key
    · subst heq
      have hnone : Assoc.get? k rest = none := by
        refine Assoc.get?_eq_none_of_forall_ne ?_
        rintro e he rfl
        exact hk (List.mem_map.2 ⟨e, he, rfl⟩)
      simp [hnone]
    · rw [if_neg heq, if_neg heq]

/-- A dictionary of entries with distinct keys answers what the list answers. -/
theorem get?_ofList {entries : List (String × α)} (h : (entries.map (·.1)).Nodup) (key : String) :
    (ofList entries).get? key = Assoc.get? key entries := by
  rw [ofList, get?_foldl_insert empty h, get?_empty, Option.or_none]

end Dict

/-! ## Entries in another order -/

namespace Assoc

variable {α : Type}

/-- A new key joins the entries. -/
theorem perm_insert {key : String} {entries : List (String × α)}
    (hnew : key ∉ entries.map (·.1)) (value : α) :
    (insert key value entries).Perm ((key, value) :: entries) := by
  induction entries with
  | nil => exact .refl _
  | cons e rest ih =>
    obtain ⟨k, v⟩ := e
    obtain ⟨hne, hrest⟩ := not_or.1 (mt List.mem_cons.2 hnew)
    have hne : key ≠ k := hne
    rw [insert]
    by_cases hlt : key < k
    · rw [if_pos hlt]
    · rw [if_neg hlt, if_neg hne]
      exact ((ih hrest).cons (k, v)).trans (.swap _ _ _)

/-- A change brings in nothing but what is put in. -/
theorem mem_of_mem_insert {key : String} {value : α} {entries : List (String × α)}
    {e : String × α} (h : e ∈ insert key value entries) : e = (key, value) ∨ e ∈ entries := by
  induction entries with
  | nil => exact .inl (List.mem_singleton.1 h)
  | cons d rest ih =>
    obtain ⟨k, v⟩ := d
    rw [insert] at h
    split at h
    · exact List.mem_cons.1 h
    split at h
    · exact (List.mem_cons.1 h).imp_right (List.mem_cons_of_mem _)
    · rcases List.mem_cons.1 h with rfl | h
      · exact .inr (by simp)
      · exact (ih h).imp_right (List.mem_cons_of_mem _)

theorem mem_of_mem_ofList {entries : List (String × α)} {e : String × α}
    (h : e ∈ ofList entries) : e ∈ entries := by
  induction entries using List.reverseRecOn with
  | nil => exact h
  | append_singleton done d ih =>
    rw [ofList, List.foldl_append] at h
    rcases mem_of_mem_insert h with rfl | h
    · simp
    · exact List.mem_append_left _ (ih h)

/-- A list that entries were inserted into one by one is ordered. -/
theorem ordered_ofList (entries : List (String × α)) : Ordered (ofList entries) := by
  have h : (Dict.ofList entries).entries = ofList entries :=
    Dict.entries_foldl_insert .empty entries
  rw [← h]
  exact (Dict.ofList entries).ordered

/-- Entries with distinct keys are only put in another order. -/
theorem perm_ofList {entries : List (String × α)} (h : (entries.map (·.1)).Nodup) :
    (ofList entries).Perm entries := by
  -- the last entry is put in last
  induction entries using List.reverseRecOn with
  | nil => exact .refl _
  | append_singleton done e ih =>
    rw [List.map_append, List.nodup_append] at h
    obtain ⟨hdone, -, hdisjoint⟩ := h
    have hperm := ih hdone
    have hnew : e.1 ∉ (ofList done).map (·.1) := by
      intro hmem
      exact hdisjoint e.1 ((hperm.map _).mem_iff.1 hmem) e.1 (by simp) rfl
    have hlast : ofList (done ++ [e]) = insert e.1 e.2 (ofList done) := by
      rw [ofList, List.foldl_append]
      rfl
    rw [hlast]
    calc insert e.1 e.2 (ofList done)
      _ |>.Perm (e :: ofList done) := perm_insert hnew e.2
      _ |>.Perm (e :: done) := hperm.cons e
      _ |>.Perm (done ++ [e]) := (List.perm_append_singleton e done).symm

/-- Among entries with distinct keys, a key answers the value that it stands with. -/
theorem get?_eq_some_iff {entries : List (String × α)} (h : (entries.map (·.1)).Nodup)
    {key : String} {value : α} : get? key entries = some value ↔ (key, value) ∈ entries := by
  refine ⟨mem_of_get?, ?_⟩
  intro hmem
  induction entries with
  | nil => cases hmem
  | cons e rest ih =>
    obtain ⟨k, v⟩ := e
    obtain ⟨hk, hrest⟩ := List.nodup_cons.1 h
    rw [get?]
    rcases List.mem_cons.1 hmem with heq | hlater
    · obtain ⟨rfl, rfl⟩ := Prod.mk.inj heq
      rw [if_pos rfl]
    · have hne : k ≠ key := by
        rintro rfl
        exact hk (List.mem_map.2 ⟨(k, value), hlater, rfl⟩)
      rw [if_neg hne]
      exact ih hrest hlater

/-- Entries in key order stand in one order only. -/
theorem eq_of_perm {xs ys : List (String × α)} (hx : Ordered xs) (hy : Ordered ys)
    (h : xs.Perm ys) : xs = ys := by
  refine h.eq_of_pairwise ?_ hx hy
  intro a b _ _ hab hba
  exact absurd (String.lt_trans hab hba) (String.lt_irrefl _)

/-- The order in which entries with distinct keys are put in does not matter. -/
theorem ofList_eq_iff {xs ys : List (String × α)} (hx : (xs.map (·.1)).Nodup)
    (hy : (ys.map (·.1)).Nodup) : ofList xs = ofList ys ↔ xs.Perm ys := by
  constructor
  · intro h
    have hperm := perm_ofList hx
    rw [h] at hperm
    exact hperm.symm.trans (perm_ofList hy)
  · intro h
    refine eq_of_perm (ordered_ofList xs) (ordered_ofList ys) ?_
    exact (perm_ofList hx).trans (h.trans (perm_ofList hy).symm)

end Assoc

namespace Dict

variable {α : Type}

/-- A map is what it answers. -/
theorem ext_get? {d e : Dict α} (h : ∀ key, d.get? key = e.get? key) : d = e := by
  refine ext (Assoc.eq_of_perm d.ordered e.ordered ?_)
  have hnodup (d : Dict α) : d.entries.Nodup := by
    rw [List.nodup_iff_pairwise_ne]
    refine d.ordered.imp ?_
    intro a b hlt heq
    exact String.lt_irrefl _ (heq ▸ hlt)
  rw [List.perm_ext_iff_of_nodup (hnodup d) (hnodup e)]
  rintro ⟨key, value⟩
  rw [← Assoc.get?_eq_some_iff d.nodup_keys, ← Assoc.get?_eq_some_iff e.nodup_keys]
  exact Eq.congr_left (h key)

/-- A new key is one more. -/
theorem size_insert_of_not_mem {d : Dict α} {key : String} (hnew : key ∉ d.keys) (value : α) :
    (d.insert key value).size = d.size + 1 :=
  (Assoc.perm_insert hnew value).length_eq

theorem length_keys (d : Dict α) : d.keys.length = d.size := List.length_map _

/-- A value at a key that is there makes no more entries. -/
theorem size_insert_of_mem {d : Dict α} {key : String} (hmem : key ∈ d.keys) (value : α) :
    (d.insert key value).size = d.size := by
  rw [← length_keys, ← length_keys]
  refine List.Perm.length_eq ((List.perm_ext_iff_of_nodup (nodup_keys _) (nodup_keys _)).2 ?_)
  intro key'
  rw [mem_keys_insert]
  refine ⟨?_, .inr⟩
  rintro (rfl | hmem')
  · exact hmem
  · exact hmem'

end Dict

end EvalProxy
