/-
# Listing gives every key once

The keys of a table come in pages. Each page starts behind the last key that was given out, so that
the pages together are the keys of the table, none of them lost and none repeated, however many
there are.

Main definitions: `Store.Listable`, `Cursor.Ahead`.
Main statement: `Store.keys_eq`.
-/
import EvalProxy.Cache.Keys
namespace EvalProxy.Cache

namespace Store

/-- Listing the keys of a store does not fail. -/
structure Lists (s : Store) : Prop where
  present : s.lost = false
  scans : ∀ t, s.faults.scans t = false

/-- Listing the keys of a table does not fail. -/
structure Listable (s : Store) (t : Table) : Prop where
  present : s.lost = false
  scans : s.faults.scans t = false

theorem Lists.listable {s : Store} (h : s.Lists) (t : Table) : s.Listable t :=
  ⟨h.present, h.scans t⟩

/-- Whether a key stands behind a given one. -/
def isBehind (after : Option String) (key : String) : Bool :=
  match after with
  | some last => last < key
  | none => true

/-- Behind the last of some keys in increasing order come the others. -/
theorem filter_isBehind {done todo : List String} (h : (done ++ todo).Pairwise (· < ·)) :
    (done ++ todo).filter (isBehind done.getLast?) = todo := by
  rcases List.eq_nil_or_concat done with rfl | ⟨init, last, hlast⟩
  · exact List.filter_eq_self.2 fun _ _ => rfl
  · rw [List.concat_eq_append] at hlast
    subst hlast
    obtain ⟨hdone, -, hacross⟩ := List.pairwise_append.1 h
    rw [List.getLast?_concat, List.filter_append]
    have hbefore : (init ++ [last]).filter (isBehind (some last)) = [] := by
      rw [List.filter_eq_nil_iff]
      intro key hkey
      simp only [isBehind, decide_eq_true_eq]
      rcases List.mem_append.1 hkey with hinit | hlast
      · have hlt := (List.pairwise_append.1 hdone).2.2 key hinit last (by simp)
        exact fun hgt => String.lt_irrefl _ (String.lt_trans hlt hgt)
      · rw [List.mem_singleton.1 hlast]
        exact String.lt_irrefl last
    have hbehind : todo.filter (isBehind (some last)) = todo := by
      rw [List.filter_eq_self]
      intro key hkey
      simp only [isBehind, decide_eq_true_eq]
      exact hacross last (by simp) key hkey
    rw [hbefore, hbehind, List.nil_append]

/-- The keys of a dictionary come in increasing order. -/
theorem pairwise_keys {α : Type} (d : Dict α) : d.keys.Pairwise (· < ·) := by
  rw [Dict.keys, List.pairwise_map]
  exact d.ordered

/-- A page holds the first of the keys that are still to come. -/
theorem page_eq {s : Store} {t : Table} (h : s.Listable t) {done todo : List String}
    (hkeys : (s.table t).keys = done ++ todo) :
    s.page t done.getLast? = .ok (todo.take pageSize) := by
  have hsorted : (done ++ todo).Pairwise (· < ·) := hkeys ▸ pairwise_keys (s.table t)
  rw [page, h.present, h.scans]
  show Except.ok (((s.table t).keys.filter (isBehind done.getLast?)).take pageSize) = _
  rw [hkeys, filter_isBehind hsorted]

/-- A table that cannot be listed has no page. -/
theorem page_of_not_listable {s : Store} {t : Table} (h : ¬ s.Listable t) (after : Option String) :
    s.page t after = .error broken := by
  rw [page]
  split
  · rfl
  · rename_i hworks
    rw [Bool.not_eq_true, Bool.or_eq_false_iff] at hworks
    exact absurd ⟨hworks.1, hworks.2⟩ h

end Store

namespace Cursor

open Store

/-- Some keys of a table are given out, and the others are still to come: those on the page first,
and all of them if no page follows. -/
structure Ahead (s : Store) (t : Table) (c : Cursor) (done todo : List String) : Prop where
  table : c.table = t
  keys : (s.table t).keys = done ++ todo
  last : c.last = done.getLast?
  buffer : c.buffer <+: todo
  complete : c.exhausted = true → c.buffer = todo

variable {s : Store} {t : Table}

/-- At the start every key of the table is still ahead. -/
theorem ahead_start (s : Store) (t : Table) : Ahead s t (start t) [] (s.table t).keys :=
  ⟨rfl, rfl, rfl, List.nil_prefix, nofun⟩

/-- The listing of a table that cannot be listed begins with a failure. -/
theorem next_start_of_not_listable (h : ¬ s.Listable t) :
    ∃ c', (start t).next s = (some (.error broken), c') := by
  have hpage : s.page (start t).table (start t).last = .error broken := page_of_not_listable h _
  refine ⟨{ start t with exhausted := true }, ?_⟩
  unfold next
  rw [hpage]
  rfl

/-- The cursor with a new page, if its page is empty and another follows. -/
theorem next_eq_pop (hlists : s.Listable t) {c : Cursor} {done todo : List String}
    (h : Ahead s t c done todo) :
    ∃ c', c.next s = c'.pop ∧ Ahead s t c' done todo ∧ (c'.buffer = [] → todo = []) := by
  unfold next
  split
  · rename_i hempty
    rw [h.last, h.table, page_eq hlists h.keys]
    refine ⟨_, rfl, ⟨rfl, h.keys, rfl, List.take_prefix _ _, ?_⟩, ?_⟩
    -- a short page is the last
    · intro hshort
      refine List.take_of_length_le ?_
      have hlength := of_decide_eq_true hshort
      rw [List.length_take] at hlength
      omega
    · intro hnil
      exact (List.take_eq_nil_iff.1 hnil).resolve_left (by decide)
  · rename_i hready
    refine ⟨c, rfl, h, ?_⟩
    intro hnil
    have hexhausted : c.exhausted = true := by
      simpa [hnil] using hready
    rw [← h.complete hexhausted, hnil]

/-- A listing with no key ahead is over. -/
theorem next_of_ahead_nil (hlists : s.Listable t) {c : Cursor} {done : List String}
    (h : Ahead s t c done []) : ∃ c', c.next s = (none, c') := by
  obtain ⟨c₁, hnext, hahead, -⟩ := next_eq_pop hlists h
  rw [hnext, pop, List.prefix_nil.1 hahead.buffer]
  exact ⟨c₁, rfl⟩

/-- **One step** gives out the first of the keys that are to come. -/
theorem next_of_ahead_cons (hlists : s.Listable t) {c : Cursor} {done rest : List String}
    {key : String} (h : Ahead s t c done (key :: rest)) :
    ∃ c', c.next s = (some (.ok key), c') ∧ Ahead s t c' (done ++ [key]) rest := by
  obtain ⟨c₁, hnext, hahead, hnil⟩ := next_eq_pop hlists h
  obtain ⟨more, hmore⟩ := hahead.buffer
  rw [hnext, pop]
  cases hbuffer : c₁.buffer with
  | nil => exact absurd (hnil hbuffer) (List.cons_ne_nil key rest)
  | cons first buffer =>
    rw [hbuffer] at hmore
    obtain ⟨rfl, rfl⟩ := List.cons.inj hmore
    refine ⟨_, rfl, hahead.table, ?_, ?_, List.prefix_append buffer more, ?_⟩
    · rw [List.append_assoc]
      exact hahead.keys
    · rw [List.getLast?_concat]
    · intro hexhausted
      have hall := hahead.complete hexhausted
      rw [hbuffer] at hall
      exact (List.cons.inj hall).2

/-- **Many steps** give out all keys that are to come. -/
theorem take_of_ahead (hlists : s.Listable t) {c : Cursor} {done todo : List String}
    (h : Ahead s t c done todo) {count : Nat} (hcount : todo.length < count) :
    ∃ c', c.take s count = .ok (todo, c') := by
  induction count generalizing c done todo with
  | zero => exact absurd hcount (Nat.not_lt_zero _)
  | succ count ih =>
    cases todo with
    | nil =>
      obtain ⟨c', hnext⟩ := next_of_ahead_nil hlists h
      rw [take, hnext]
      exact ⟨c', rfl⟩
    | cons key rest =>
      obtain ⟨c', hnext, hahead⟩ := next_of_ahead_cons hlists h
      obtain ⟨c'', htake⟩ := ih hahead (Nat.lt_of_succ_lt_succ hcount)
      rw [take, hnext]
      simp only [htake, bind, Except.bind]
      exact ⟨c'', rfl⟩

end Cursor

/-- **All keys of a table are listed**, in their order. -/
theorem Store.keys_eq {s : Store} (h : s.Lists) (t : Table) :
    s.keys t = .ok (s.table t).keys := by
  let count := (s.table t).size + (Cursor.start t).buffer.length + 1
  have hcount : (s.table t).keys.length < count := by
    show ((s.table t).entries.map (·.1)).length < (s.table t).entries.length + 0 + 1
    rw [List.length_map]
    omega
  obtain ⟨c', htake⟩ := Cursor.take_of_ahead (h.listable t) (Cursor.ahead_start s t) hcount
  rw [keys, Cursor.rest]
  show ((Cursor.start t).take s count).map (·.1) = _
  rw [htake]
  rfl

end EvalProxy.Cache
