/-
# What a report lists

A report goes through the stored responses a page at a time, in the order of their keys, and reads
the request and the response of each key before it asks for the next one. Wherever the pages end, it
lists the entries of the smallest keys, up to its bound if it has one. It fails exactly if a value
at one of these keys cannot be read: what stands behind the bound is never read.

Main definitions: `Spells`, `Row`, `FirstKeys`.
Main statements: `collect_cases`, `FirstKeys.exists_rows`, `FirstKeys.fails_iff`,
`lists_first_entries`.
-/
import EvalProxy.Hooks.Report
import EvalProxy.Proofs.Cache.Listing
import EvalProxy.Proofs.Cache.Store
import EvalProxy.Proofs.Json.Fields
import EvalProxy.Proofs.Text.Order
import Mathlib.Data.List.Sort
namespace EvalProxy.Report

open Cache (Store Cursor)

/-! ## Rows -/

/-- What stored octets are shown as: the JSON value that they spell, or else the text that they hold
with malformed octets replaced. -/
inductive Spells (b : Bytes) : Json → Prop where
  | json {v : Json} (h : Json.parseText b = .ok v) : Spells b v
  | other {m : String} (h : Json.parseText b = .error m) : Spells b (.text (Text.lossy b))

/-- The row of a key shows the response that is stored there, and the request if there is one. -/
structure Row (s : Store) (key : String) (e : Entry) : Prop where
  fingerprint : e.fingerprint = key
  response : ∃ b, s.responses.get? key = some (.sound b) ∧ Spells b e.response
  request : (s.requests.get? key = none ∧ e.request = .null) ∨
    ∃ b, s.requests.get? key = some (.sound b) ∧ Spells b e.request

/-- A decoded text spells its octets. -/
theorem spells_decode (b : Bytes) : Spells b (decode (some b)) := by
  rw [decode]
  split
  · rename_i v h
    exact .json h
  · rename_i m h
    exact .other h

variable {s : Store} {key : String}

/-- An entry is read exactly if its request and its response are. -/
theorem entry_eq_ok_iff {e : Entry} :
    entry s key = .ok e ↔ ∃ request response, s.get .requests key = .ok request ∧
      s.get .responses key = .ok response ∧ e = ⟨key, decode request, decode response⟩ := by
  constructor
  · intro h
    obtain ⟨request, hrequest, h⟩ := Json.exists_of_bind_eq_ok h
    obtain ⟨response, hresponse, h⟩ := Json.exists_of_bind_eq_ok h
    exact ⟨request, response, hrequest, hresponse, (Except.ok.inj h).symm⟩
  · rintro ⟨request, response, hrequest, hresponse, rfl⟩
    rw [entry, hrequest, hresponse]
    rfl

/-- An entry is read exactly if both of its values can be. -/
theorem exists_entry_iff (hpresent : s.lost = false) :
    (∃ e, entry s key = .ok e) ↔ s.Reads .requests key ∧ s.Reads .responses key := by
  simp only [entry_eq_ok_iff]
  constructor
  · rintro ⟨-, request, response, hrequest, hresponse, -⟩
    exact ⟨Store.reads_of_get hrequest, Store.reads_of_get hresponse⟩
  · rintro ⟨hrequests, hresponses⟩
    obtain ⟨request, hrequest⟩ := hrequests.exists_get hpresent
    obtain ⟨response, hresponse⟩ := hresponses.exists_get hpresent
    exact ⟨_, request, response, hrequest, hresponse, rfl⟩

/-- The entry of a stored response is its row. -/
theorem row_of_entry {e : Entry} (hmem : key ∈ s.responses.keys) (h : entry s key = .ok e) :
    Row s key e := by
  obtain ⟨request, response, hrequest, hresponse, rfl⟩ := entry_eq_ok_iff.1 h
  have hrequest := Store.get?_of_get hrequest
  have hresponse := Store.get?_of_get hresponse
  refine ⟨rfl, ?_, ?_⟩
  · cases response with
    | none =>
      -- there is a response at each of the listed keys
      rw [Dict.mem_keys_iff, show s.responses.get? key = none from hresponse] at hmem
      cases hmem
    | some b => exact ⟨b, hresponse, spells_decode b⟩
  · cases request with
    | none => exact .inl ⟨hrequest, rfl⟩
    | some b => exact .inr ⟨b, hrequest, spells_decode b⟩

/-! ## Going through the keys -/

/-- **The entries of the next keys** are read one by one, up to the first that cannot be read. -/
theorem collect_cases (hlists : s.Listable .responses) {c : Cursor} {done todo : List String}
    (h : c.Ahead s .responses done todo) (count : Nat) :
    (∃ rows, collect s count c = .ok rows ∧
      List.Forall₂ (fun key e => entry s key = .ok e) (todo.take count) rows) ∨
    ∃ f, collect s count c = .error f ∧ ∃ key ∈ todo.take count, entry s key = .error f := by
  induction count generalizing c done todo with
  | zero => exact .inl ⟨[], rfl, .nil⟩
  | succ count ih =>
    cases todo with
    | nil =>
      obtain ⟨c', hnext⟩ := Cursor.next_of_ahead_nil hlists h
      exact .inl ⟨[], by rw [collect, hnext], .nil⟩
    | cons key todo =>
      obtain ⟨c', hnext, hahead⟩ := Cursor.next_of_ahead_cons hlists h
      have hcollect : collect s (count + 1) c
          = entry s key >>= fun first => collect s count c' >>= fun others =>
              .ok (first :: others) := by
        rw [collect, hnext]
      rw [hcollect, List.take_succ_cons]
      cases hentry : entry s key with
      | error f => exact .inr ⟨f, rfl, key, List.mem_cons_self, hentry⟩
      | ok e =>
        obtain ⟨rows, hrows, hall⟩ | ⟨f, hfails, key', hmem, hkey⟩ := ih hahead
        · rw [hrows]
          exact .inl ⟨e :: rows, rfl, .cons hentry hall⟩
        · rw [hfails]
          exact .inr ⟨f, rfl, key', List.mem_cons_of_mem key hmem, hkey⟩

/-! ## The first keys -/

/-- The smallest keys of the stored responses in the order of their octets: as many as the bound
allows, or all of them. -/
structure FirstKeys (s : Store) (max : Option Nat) (keys : List String) : Prop where
  stored : ∀ key ∈ keys, key ∈ s.responses.keys
  increasing : keys.Pairwise fun a b => Text.encode a < Text.encode b
  smallest : ∀ key ∈ s.responses.keys, key ∉ keys → ∀ first ∈ keys,
    Text.encode first < Text.encode key
  count : keys.length = match max with
    | some m => min m s.responses.size
    | none => s.responses.size

variable {max : Option Nat} {keys : List String}

/-- There is only one choice of first keys: they stand at the front of the listing. -/
theorem FirstKeys.eq_take (h : FirstKeys s max keys) :
    keys = s.responses.keys.take keys.length := by
  let others := s.responses.keys.filter (· ∉ keys)
  have hkeys : keys.Pairwise (· < ·) := h.increasing.imp Text.encode_lt_encode_iff.1
  have hsorted := Store.pairwise_keys s.responses
  have hall : (keys ++ others).Pairwise (· < ·) := by
    refine List.pairwise_append.2 ⟨hkeys, hsorted.filter _, ?_⟩
    intro first hfirst key hkey
    obtain ⟨hstored, hother⟩ := List.mem_filter.1 hkey
    have hother : key ∉ keys := of_decide_eq_true hother
    exact Text.encode_lt_encode_iff.1 (h.smallest key hstored hother first hfirst)
  have hmem (key : String) : key ∈ keys ++ others ↔ key ∈ s.responses.keys := by
    simp only [others, List.mem_append, List.mem_filter, decide_eq_true_eq]
    refine ⟨fun hkey => hkey.elim (h.stored key) And.left, fun hkey => ?_⟩
    exact (Decidable.em (key ∈ keys)).imp_right fun hother => ⟨hkey, hother⟩
  rw [← hall.eq_of_mem_iff hsorted hmem, List.take_left]

/-- The front of the listing are first keys. -/
theorem firstKeys_take (s : Store) (max : Option Nat) :
    FirstKeys s max (s.responses.keys.take (max.getD s.responses.size)) := by
  have hsorted := Store.pairwise_keys s.responses
  generalize hcount : max.getD s.responses.size = count
  refine ⟨fun key => List.mem_of_mem_take, ?_, ?_, ?_⟩
  · exact (hsorted.sublist (List.take_sublist _ _)).imp Text.encode_lt_encode_iff.2
  · intro key hkey hother first hfirst
    rw [← List.take_append_drop count s.responses.keys] at hsorted hkey
    have hdrop := (List.mem_append.1 hkey).resolve_left hother
    exact Text.encode_lt_encode_iff.2 ((List.pairwise_append.1 hsorted).2.2 first hfirst key hdrop)
  · rw [List.length_take, Dict.length_keys, ← hcount]
    cases max with
    | none => exact Nat.min_self _
    | some m => rfl

/-- The loop takes as many steps as there are first keys, or ends at the last key. -/
theorem FirstKeys.take_eq (h : FirstKeys s max keys) :
    s.responses.keys.take (max.getD (s.responses.size + 1)) = keys := by
  rw [h.eq_take, h.count]
  cases max with
  | none =>
    rw [List.take_of_length_le, List.take_of_length_le]
    · exact Nat.le_of_eq (Dict.length_keys _)
    · exact Nat.le_succ_of_le (Nat.le_of_eq (Dict.length_keys _))
  | some m => rw [Option.getD_some, ← Dict.length_keys, List.take_eq_take_min]

/-! ## Reports -/

/-- A report reads the values at the first keys, up to the first that cannot be read. -/
theorem FirstKeys.collectEntries_cases (h : FirstKeys s max keys)
    (hlists : s.Listable .responses) :
    (∃ rows, collectEntries s max = .ok rows ∧
      List.Forall₂ (fun key e => entry s key = .ok e) keys rows) ∨
    ∃ f, collectEntries s max = .error f ∧ ∃ key ∈ keys, entry s key = .error f := by
  have hcases := collect_cases hlists (Cursor.ahead_start s .responses)
    (max.getD (s.responses.size + 1))
  rw [show (s.table .responses).keys = s.responses.keys from rfl, h.take_eq] at hcases
  exact hcases

/-- A report of which all values can be read shows the rows of the first keys. -/
theorem FirstKeys.exists_rows (h : FirstKeys s max keys) (hlists : s.Listable .responses)
    (hread : ∀ key ∈ keys, s.Reads .requests key ∧ s.Reads .responses key) :
    ∃ rows, collectEntries s max = .ok rows ∧ List.Forall₂ (Row s) keys rows := by
  obtain ⟨rows, hrows, hall⟩ | ⟨f, -, key, hmem, hkey⟩ := h.collectEntries_cases hlists
  · have hstored := (List.forall₂_and_left keys rows).2 ⟨h.stored, hall⟩
    exact ⟨rows, hrows, hstored.imp fun key e hentry => row_of_entry hentry.1 hentry.2⟩
  · obtain ⟨e, he⟩ := (exists_entry_iff hlists.present).2 (hread key hmem)
    rw [hkey] at he
    cases he

/-- A report fails exactly if a value at one of the first keys cannot be read. -/
theorem FirstKeys.fails_iff (h : FirstKeys s max keys) (hlists : s.Listable .responses) :
    (∃ f, collectEntries s max = .error f) ↔
      ∃ key ∈ keys, ¬ s.Reads .requests key ∨ ¬ s.Reads .responses key := by
  constructor
  · rintro ⟨f, hfails⟩
    by_contra hnone
    push Not at hnone
    obtain ⟨rows, hrows, -⟩ := h.exists_rows hlists hnone
    rw [hfails] at hrows
    cases hrows
  · rintro ⟨key, hmem, hunread⟩
    obtain ⟨rows, -, hall⟩ | ⟨f, hfails, -⟩ := h.collectEntries_cases hlists
    · have hentry : ∀ key ∈ keys, ∃ e, entry s key = .ok e := by
        have hboth : List.Forall₂ (fun key e => (∃ e, entry s key = .ok e) ∧ entry s key = .ok e)
            keys rows := hall.imp fun _ e hentry => ⟨⟨e, hentry⟩, hentry⟩
        exact ((List.forall₂_and_left keys rows).1 hboth).1
      have hread := (exists_entry_iff hlists.present).1 (hentry key hmem)
      exact absurd hread (not_and_or.2 hunread)
    · exact ⟨f, hfails⟩

/-- Without a listing there is a report only if it is not to show anything. -/
theorem collectEntries_of_not_listable (h : ¬ s.Listable .responses) (max : Option Nat) :
    collectEntries s max = if max = some 0 then .ok [] else .error Store.broken := by
  have hfails (count : Nat) : collect s (count + 1) (.start .responses) = .error Store.broken := by
    obtain ⟨c', hnext⟩ := Cursor.next_start_of_not_listable h
    rw [collect, hnext]
  cases max with
  | none => exact hfails _
  | some m =>
    cases m with
    | zero => rfl
    | succ m => exact hfails m

/-- **A report lists the first entries.** In a store whose responses can be listed, whatever their
number, it shows one row for each of the first keys if it can read their values, and it fails
exactly if a request or a response at one of these keys cannot be read. -/
theorem lists_first_entries (s : Store) (max : Option Nat) :
    (s.Listable .responses →
      (∃ keys, FirstKeys s max keys) ∧
      ∀ keys, FirstKeys s max keys →
        ((∀ key ∈ keys, s.Reads .requests key ∧ s.Reads .responses key) →
          ∃ rows, collectEntries s max = .ok rows ∧ List.Forall₂ (Row s) keys rows) ∧
        ((∃ f, collectEntries s max = .error f) ↔
          ∃ key ∈ keys, ¬ s.Reads .requests key ∨ ¬ s.Reads .responses key)) ∧
    (¬ s.Listable .responses →
      collectEntries s max = if max = some 0 then .ok [] else .error Store.broken) := by
  refine ⟨fun hlists => ⟨⟨_, firstKeys_take s max⟩, fun keys hkeys => ?_⟩, fun h => ?_⟩
  · exact ⟨hkeys.exists_rows hlists, hkeys.fails_iff hlists⟩
  · exact collectEntries_of_not_listable h max

/-- A damaged response behind the bound does no harm; without a bound the report fails. -/
theorem lists_first_entries_damaged :
    let cells : Dict Cache.Cell := .ofList
      [("c", .damaged), ("b", .sound (Text.encode "plain text")), ("a", .sound (Text.encode "[1]"))]
    let s : Store := { Store.empty with responses := cells }
    s.Listable .responses ∧
    (∃ rows, collectEntries s (some 2) = .ok rows ∧ List.Forall₂ (Row s) ["a", "b"] rows) ∧
    ∃ f, collectEntries s none = .error f := by
  intro cells s
  have hlists : s.Listable .responses := ⟨rfl, rfl⟩
  have hkeys : s.responses.keys = ["a", "b", "c"] := by decide +kernel
  have hsome : FirstKeys s (some 2) ["a", "b"] := by
    have h := firstKeys_take s (some 2)
    rwa [hkeys] at h
  have hnone : FirstKeys s none ["a", "b", "c"] := by
    have h := firstKeys_take s none
    rwa [hkeys, Option.getD_none, ← Dict.length_keys, hkeys] at h
  have hcell (key : String) : s.responses.get? key =
      if "a" = key then some (.sound (Text.encode "[1]"))
      else if "b" = key then some (.sound (Text.encode "plain text"))
      else if "c" = key then some .damaged else none := by
    simp only [s, cells, Dict.ofList, List.foldl_cons, List.foldl_nil, Dict.get?_insert,
      Dict.get?_empty]
  have hrequests (key : String) : s.Reads .requests key := by
    refine ⟨rfl, ?_⟩
    rw [show (s.table .requests).get? key = none from rfl]
    simp
  have hresponses : ∀ key ∈ ["a", "b"], s.Reads .responses key := by
    intro key hmem
    refine ⟨rfl, fun hdamaged => ?_⟩
    rw [show (s.table .responses).get? key = _ from hcell key] at hdamaged
    rcases List.mem_pair.1 hmem with rfl | rfl
    · simp at hdamaged
    · simp at hdamaged
  have hdamaged : ¬ s.Reads .responses "c" := fun h => h.whole (hcell "c")
  refine ⟨hlists, ?_, ?_⟩
  · exact (((lists_first_entries s (some 2)).1 hlists).2 _ hsome).1
      fun key hmem => ⟨hrequests key, hresponses key hmem⟩
  · exact (((lists_first_entries s none).1 hlists).2 _ hnone).2.2 ⟨"c", by simp, .inr hdamaged⟩

end EvalProxy.Report
