/-
# Ordered association lists

Lists of keyed entries in strictly increasing key order, where texts are compared character by
character (which is the order of their UTF-8 octets), and `Dict`, such a list with its order.

Main statements: `get?_insert`, `get?_erase` (what an entry list answers after a change) and
`Ordered.insert`, `Ordered.erase` (both changes keep the order).
-/
namespace EvalProxy

namespace Assoc

variable {α β : Type}

/-- The keys stand in strictly increasing order. -/
def Ordered (entries : List (String × α)) : Prop :=
  entries.Pairwise (fun a b => a.1 < b.1)

/-- The value at a key. -/
def get? (key : String) : List (String × α) → Option α
  | [] => none
  | (k, v) :: rest => if k = key then some v else get? key rest

/-- The entries with a value put at a key: in place of the old one, or before the first larger
key. -/
def insert (key : String) (value : α) : List (String × α) → List (String × α)
  | [] => [(key, value)]
  | (k, v) :: rest =>
    if key < k then (key, value) :: (k, v) :: rest
    else if key = k then (key, value) :: rest
    else (k, v) :: insert key value rest

/-- The entries without the one at a key. -/
def erase (key : String) : List (String × α) → List (String × α)
  | [] => []
  | (k, v) :: rest => if k = key then rest else (k, v) :: erase key rest

/-- The entries in key order; of several at one key the last stays. -/
def ofList (entries : List (String × α)) : List (String × α) :=
  entries.foldl (fun acc e => insert e.1 e.2 acc) []

/-- After a change at a key, that key answers the new value and every other key its old one. -/
theorem get?_insert (key key' : String) (value : α) (entries : List (String × α)) :
    get? key' (insert key value entries)
      = if key = key' then some value else get? key' entries := by
  induction entries with
  | nil => simp [insert, get?]
  | cons e rest ih =>
    obtain ⟨k, v⟩ := e
    simp only [insert]
    split
    · simp [get?]
    · split
      · rename_i heq
        subst heq
        by_cases h : key = key' <;> simp [get?, h]
      · by_cases h : k = key'
        · have : key ≠ key' := by
            rintro rfl
            simp_all
          simp [get?, h, this]
        · simp [get?, h, ih]

/-- The keys after a change are the old ones and the changed one. -/
theorem mem_keys_insert (key k : String) (value : α) (entries : List (String × α)) :
    k ∈ (insert key value entries).map (·.1) ↔ k = key ∨ k ∈ entries.map (·.1) := by
  induction entries with
  | nil => simp [insert]
  | cons e rest ih =>
    obtain ⟨k', v⟩ := e
    simp only [insert]
    split
    · simp
    · split
      · subst_vars
        simp
      · simp only [List.map_cons, List.mem_cons, ih, or_left_comm]

/-- A change keeps the order. -/
theorem Ordered.insert {entries : List (String × α)} (h : Ordered entries) (key : String)
    (value : α) : Ordered (Assoc.insert key value entries) := by
  induction entries with
  | nil => simp [Assoc.insert, Ordered]
  | cons e rest ih =>
    obtain ⟨k, v⟩ := e
    have ⟨hk, hrest⟩ := List.pairwise_cons.1 h
    simp only [Assoc.insert]
    split
    · rename_i hlt
      refine List.pairwise_cons.2 ⟨?_, h⟩
      intro b hb
      rcases List.mem_cons.1 hb with rfl | hb
      · exact hlt
      · exact String.lt_trans hlt (hk b hb)
    · split
      · subst_vars
        exact List.pairwise_cons.2 ⟨hk, hrest⟩
      · rename_i hlt hne
        refine List.pairwise_cons.2 ⟨?_, ih hrest⟩
        intro b hb
        have hmem : b.1 ∈ (Assoc.insert key value rest).map (·.1) := List.mem_map_of_mem hb
        rcases (mem_keys_insert key b.1 value rest).1 hmem with heq | hmem
        · rw [heq]
          exact Std.lt_of_le_of_ne (String.not_lt.1 hlt) fun h => hne h.symm
        · obtain ⟨c, hc, hcb⟩ := List.mem_map.1 hmem
          rw [← hcb]
          exact hk c hc

/-- A removal leaves a sublist. -/
theorem erase_sublist (key : String) (entries : List (String × α)) :
    (erase key entries).Sublist entries := by
  induction entries with
  | nil => simp [erase]
  | cons e rest ih =>
    obtain ⟨k, v⟩ := e
    simp only [erase]
    split
    · exact List.sublist_cons_self _ _
    · exact ih.cons_cons _

/-- A removal keeps the order. -/
theorem Ordered.erase {entries : List (String × α)} (h : Ordered entries) (key : String) :
    Ordered (Assoc.erase key entries) :=
  List.Pairwise.sublist (erase_sublist key entries) h

/-- Mapping the values keeps the order. -/
theorem Ordered.mapValues {entries : List (String × α)} (h : Ordered entries) (f : String → α → β) :
    Ordered (entries.map fun e => (e.1, f e.1 e.2)) := by
  unfold Ordered
  rw [List.pairwise_map]
  exact h

/-- A key below all others has no entry. -/
theorem get?_eq_none_of_forall_ne {key : String} {entries : List (String × α)}
    (h : ∀ e ∈ entries, e.1 ≠ key) : get? key entries = none := by
  induction entries with
  | nil => rfl
  | cons e rest ih =>
    obtain ⟨k, v⟩ := e
    have hk : k ≠ key := h (k, v) (by simp)
    simp only [get?, if_neg hk]
    exact ih fun e he => h e (by simp [he])

/-- After a removal the key answers nothing and every other key its old value. -/
theorem get?_erase {entries : List (String × α)} (h : Ordered entries) (key key' : String) :
    get? key' (erase key entries) = if key = key' then none else get? key' entries := by
  induction entries with
  | nil => simp [erase, get?]
  | cons e rest ih =>
    obtain ⟨k, v⟩ := e
    have ⟨hk, hrest⟩ := List.pairwise_cons.1 h
    simp only [erase]
    split
    · rename_i heq
      subst heq
      split
      · rename_i heq
        subst heq
        refine get?_eq_none_of_forall_ne fun e he heq => ?_
        exact absurd (heq ▸ hk e he) (String.lt_irrefl k)
      · rename_i hne
        simp [get?, hne]
    · rename_i hne
      by_cases h' : k = key'
      · have : key ≠ key' := fun heq => hne (h'.trans heq.symm)
        simp [get?, h', this]
      · simp [get?, h', ih hrest]

end Assoc

/-! ## Dictionaries -/

/-- A finite map from texts, its entries in key order. -/
structure Dict (α : Type) where
  entries : List (String × α)
  ordered : Assoc.Ordered entries

namespace Dict

variable {α : Type}

/-- The map without entries. -/
def empty : Dict α := ⟨[], List.Pairwise.nil⟩

instance : Inhabited (Dict α) := ⟨empty⟩

/-- The value at a key. -/
def get? (d : Dict α) (key : String) : Option α := Assoc.get? key d.entries

/-- Whether a key has a value. -/
def contains (d : Dict α) (key : String) : Bool := (d.get? key).isSome

/-- The map with a value put at a key. -/
def insert (d : Dict α) (key : String) (value : α) : Dict α :=
  ⟨Assoc.insert key value d.entries, d.ordered.insert key value⟩

/-- The map without a key. -/
def erase (d : Dict α) (key : String) : Dict α :=
  ⟨Assoc.erase key d.entries, d.ordered.erase key⟩

/-- The keys in increasing order. -/
def keys (d : Dict α) : List String := d.entries.map (·.1)

/-- The number of entries. -/
def size (d : Dict α) : Nat := d.entries.length

/-- The map of the entries of a list; of several at one key the last stays. -/
def ofList (entries : List (String × α)) : Dict α :=
  entries.foldl (fun d e => d.insert e.1 e.2) empty

@[simp] theorem get?_empty (key : String) : (empty : Dict α).get? key = none := rfl

/-- What a map answers after a change. -/
theorem get?_insert (d : Dict α) (key key' : String) (value : α) :
    (d.insert key value).get? key' = if key = key' then some value else d.get? key' :=
  Assoc.get?_insert key key' value d.entries

/-- What a map answers after a removal. -/
theorem get?_erase (d : Dict α) (key key' : String) :
    (d.erase key).get? key' = if key = key' then none else d.get? key' :=
  Assoc.get?_erase d.ordered key key'

/-- Maps with the same entries are equal. -/
theorem ext {d e : Dict α} (h : d.entries = e.entries) : d = e := by
  cases d
  cases e
  simp_all

end Dict

end EvalProxy
