/-
# Merging an export

Of an export those entries are stored that can be written; every other entry stays as it was, and
every stored request and response counts as saved. Into a store that works an export is merged as a
whole.

Main definitions: `Store.withValues`, `Store.takes`, `Store.withTaken`, `Export.values`, `Admits`.
Main statements: `merge_eq`, `merge_of_works`, `get?_merge`, `merge_isolates_failures`.
-/
import EvalProxy.Proofs.Cache.Store
namespace EvalProxy

/-! ## Values put at keys -/

theorem Assoc.get?_map {α β : Type} (f : α → β) (key : String) (entries : List (String × α)) :
    Assoc.get? key (entries.map fun e => (e.1, f e.2)) = (Assoc.get? key entries).map f := by
  induction entries with
  | nil => rfl
  | cons e rest ih =>
    rw [List.map_cons, get?, get?, ih]
    split <;> rfl

namespace Cache

namespace Store

/-- The entries of a table with values put at some keys. -/
def putAll (entries : Dict Cell) (values : List (String × Bytes)) : Dict Cell :=
  values.foldl (fun d e => d.insert e.1 (.sound e.2)) entries

/-- After some values are put in, a key gives its new value or else its old one. -/
theorem get?_putAll (entries : Dict Cell) {values : List (String × Bytes)}
    (h : (values.map (·.1)).Nodup) (key : String) :
    (putAll entries values).get? key
      = ((Assoc.get? key values).map Cell.sound).or (entries.get? key) := by
  have hfold : putAll entries values
      = (values.map fun e => (e.1, Cell.sound e.2)).foldl (fun d e => d.insert e.1 e.2)
        entries := by
    rw [putAll, List.foldl_map]
  have hkeys : ((values.map fun e => (e.1, Cell.sound e.2)).map (·.1)).Nodup := by
    rw [List.map_map]
    exact h
  rw [hfold, Dict.get?_foldl_insert _ hkeys, Assoc.get?_map]

/-- The store with values put at some keys of a table. -/
def withValues (s : Store) (t : Table) (values : List (String × Bytes)) : Store :=
  s.withTable t (putAll (s.table t) values)

/-- Of two replacements of a table the later one stands. -/
theorem withTable_withTable (s : Store) (t : Table) (entries entries' : Dict Cell) :
    (s.withTable t entries).withTable t entries' = s.withTable t entries' := by
  cases t <;> rfl

/-- Putting values into a table leaves the other tables. -/
theorem table_withValues (s : Store) (t : Table) (values : List (String × Bytes)) (u : Table) :
    (s.withValues t values).table u = if t = u then putAll (s.table u) values else s.table u := by
  rw [withValues, table_withTable]
  split
  · subst u
    rfl
  · rfl

theorem withValues_nil (s : Store) (t : Table) : s.withValues t [] = s := by
  cases t <;> rfl

/-- Putting in a list of values is putting in its first one and then the others. -/
theorem withValues_cons (s : Store) (t : Table) (e : String × Bytes)
    (rest : List (String × Bytes)) :
    s.withValues t (e :: rest) = (s.withValues t [e]).withValues t rest := by
  simp only [withValues, table_withTable, if_true, withTable_withTable]
  rfl

theorem Works.withValues {s : Store} (h : s.Works) (t : Table) (values : List (String × Bytes)) :
    (s.withValues t values).Works :=
  h.withTable t _

/-- Whether a write at a key works. -/
def takes (s : Store) (t : Table) (key : String) : Bool := !s.lost && !s.faults.writes t key

theorem takes_of_works {s : Store} (h : s.Works) (t : Table) (key : String) :
    s.takes t key = true := by
  rw [takes, h.present, h.writes]
  rfl

theorem takes_withValues (s : Store) (t : Table) (values : List (String × Bytes)) :
    (s.withValues t values).takes = s.takes := by
  cases t <;> rfl

/-- **A write** puts one value, if it works. -/
theorem put_eq (s : Store) (t : Table) (key : String) (value : Bytes) :
    s.put t key value =
      if s.takes t key then .ok (s.withValues t [(key, value)]) else .error broken := by
  unfold put takes
  cases s.lost <;> cases s.faults.writes t key <;> rfl

/-- The store with values put at those keys of a table that can be written. -/
def withTaken (s : Store) (t : Table) (values : List (String × Bytes)) : Store :=
  s.withValues t (values.filter fun e => s.takes t e.1)

/-- A working store takes all the values that are put in. -/
theorem withTaken_of_works {s : Store} (h : s.Works) (t : Table)
    (values : List (String × Bytes)) : s.withTaken t values = s.withValues t values := by
  simp only [withTaken, takes_of_works h, List.filter_true]

/-- A write whose failure is passed over. -/
theorem put_getD_eq (s : Store) (t : Table) (key : String) (value : Bytes) :
    (match s.put t key value with
      | .ok written => written
      | .error _ => s) = s.withTaken t [(key, value)] := by
  rw [put_eq, withTaken]
  cases htakes : s.takes t key with
  | true => simp [htakes]
  | false => simp [htakes, withValues_nil]

end Store

open Store

/-! ## Imported entries -/

/-- The octets that an export puts at the keys of a table. -/
def Export.values (e : Export) : Table → List (String × Bytes)
  | .requests => e.requests.entries
  | .responses => e.responses.entries
  | .headers => e.headers.entries.map fun h => (h.1, Text.encode (headersJson h.2).compact)

theorem Export.nodup_values (e : Export) (t : Table) : ((e.values t).map (·.1)).Nodup := by
  cases t with
  | requests => exact e.requests.nodup_keys
  | responses => exact e.responses.nodup_keys
  | headers =>
    rw [values, List.map_map]
    exact e.headers.nodup_keys

/-- The summary with some more stored entries of a table. -/
def Summary.more (sum : Summary) (n : Nat) : Table → Summary
  | .requests => { sum with requests := sum.requests + n }
  | .responses => { sum with responses := sum.responses + n }
  | .headers => { sum with headers := sum.headers + n }

/-- The limit with some more saves. -/
def SaveLimit.more (l : SaveLimit) (n : Nat) : SaveLimit := { l with saved := l.saved + n }

/-- The counters with some more stored entries of a table; header maps are not counted. -/
def Counters.more (c : Counters) (n : Nat) : Table → Counters
  | .requests => { c with requests := c.requests.more n }
  | .responses => { c with responses := c.responses.more n }
  | .headers => c

/-- What an import makes of entries that are all stored. -/
def takeIn (t : Table) (values : List (String × Bytes)) (s : Summary × Cache) : Summary × Cache :=
  (s.1.more values.length t,
    { s.2 with
      store := s.2.store.withValues t values
      counters := s.2.counters.more values.length t })

theorem takeIn_nil (t : Table) (s : Summary × Cache) : takeIn t [] s = s := by
  rw [takeIn, withValues_nil]
  cases t <;> rfl

/-- Taking in a list of values is taking in its first one and then the others. -/
theorem takeIn_cons (t : Table) (e : String × Bytes) (rest : List (String × Bytes))
    (s : Summary × Cache) : takeIn t (e :: rest) s = takeIn t rest (takeIn t [e] s) := by
  have hlength (n : Nat) : n + (e :: rest).length = n + [e].length + rest.length := by
    rw [List.length_cons, List.length_singleton]
    omega
  rw [takeIn, withValues_cons]
  cases t <;> simp only [takeIn, Summary.more, Counters.more, SaveLimit.more, hlength]

theorem works_takeIn {s : Summary × Cache} (h : s.2.store.Works) (t : Table)
    (values : List (String × Bytes)) : (takeIn t values s).2.store.Works :=
  h.withValues t values

theorem takes_takeIn (t : Table) (values : List (String × Bytes)) (s : Summary × Cache) :
    (takeIn t values s).2.store.takes = s.2.store.takes :=
  takes_withValues s.2.store t values

/-- The summary with some more entries that could not be written. -/
def Summary.missing (sum : Summary) (n : Nat) : Summary := { sum with failed := sum.failed + n }

/-- What an import makes of some entries: those that can be written are stored, and the others are
counted. -/
def importValues (t : Table) (values : List (String × Bytes)) (s : Summary × Cache) :
    Summary × Cache :=
  let taken := takeIn t (values.filter fun e => s.2.store.takes t e.1) s
  (taken.1.missing (values.countP fun e => !s.2.store.takes t e.1), taken.2)

/-- Over a working store an import takes in every value. -/
theorem importValues_of_works {s : Summary × Cache} (h : s.2.store.Works) (t : Table)
    (values : List (String × Bytes)) : importValues t values s = takeIn t values s := by
  simp only [importValues, takes_of_works h, List.filter_true, Bool.not_true, List.countP_false]
  rfl

/-- What an import makes of one entry. -/
def importValue (t : Table) (e : String × Bytes) (s : Summary × Cache) : Summary × Cache :=
  if s.2.store.takes t e.1 then takeIn t [e] s else (s.1.missing 1, s.2)

theorem importValues_cons (t : Table) (e : String × Bytes) (rest : List (String × Bytes))
    (s : Summary × Cache) :
    importValues t (e :: rest) s = importValues t rest (importValue t e s) := by
  obtain ⟨sum, c⟩ := s
  cases htaken : c.store.takes t e.1 with
  | true =>
    have hone : importValue t e (sum, c) = takeIn t [e] (sum, c) := if_pos htaken
    rw [hone, importValues, importValues, takes_takeIn]
    simp only [List.filter_cons, List.countP_cons, htaken, if_true]
    rw [takeIn_cons]
    rfl
  | false =>
    have hone : importValue t e (sum, c) = (sum.missing 1, c) := by
      simp [importValue, htaken]
    rw [hone, importValues, importValues]
    simp only [List.filter_cons, List.countP_cons, htaken, Bool.not_false, Bool.false_eq_true,
      if_false, if_true]
    cases t <;> simp only [takeIn, Summary.more, Summary.missing, Nat.add_assoc, Nat.add_comm 1]

theorem importRequest_eq (s : Summary × Cache) (e : String × Bytes) :
    importRequest s e = importValue .requests e s := by
  rw [importRequest, put_eq, importValue]
  cases s.2.store.takes .requests e.1 <;> rfl

theorem importResponse_eq (s : Summary × Cache) (e : String × Bytes) :
    importResponse s e = importValue .responses e s := by
  rw [importResponse, put_eq, importValue]
  cases s.2.store.takes .responses e.1 <;> rfl

theorem importHeaders_eq (s : Summary × Cache) (e : String × Dict String) :
    importHeaders s e
      = importValue .headers (e.1, Text.encode (headersJson e.2).compact) s := by
  rw [importHeaders, putHeaderMap, put_eq, importValue]
  cases s.2.store.takes .headers e.1 <;> rfl

/-- Entries that are imported one after the other are imported together. -/
theorem foldl_eq_importValues {α : Type} {f : Summary × Cache → α → Summary × Cache} {t : Table}
    {entry : α → String × Bytes} (hf : ∀ s a, f s a = importValue t (entry a) s) (as : List α)
    (s : Summary × Cache) : as.foldl f s = importValues t (as.map entry) s := by
  induction as generalizing s with
  | nil =>
    rw [List.map_nil, importValues, List.filter_nil, takeIn_nil]
    rfl
  | cons a rest ih => rw [List.foldl_cons, List.map_cons, importValues_cons, hf, ih]

/-! ## The merge -/

/-- **An export is merged as far as it can be written.** -/
theorem merge_eq (c : Cache) (e : Export) :
    c.merge e = importValues .headers (e.values .headers)
      (importValues .responses (e.values .responses)
        (importValues .requests (e.values .requests) (⟨0, 0, 0, 0⟩, c))) := by
  have hrequests := foldl_eq_importValues importRequest_eq e.requests.entries
  have hresponses := foldl_eq_importValues importResponse_eq e.responses.entries
  rw [List.map_id'] at hrequests hresponses
  rw [merge, hrequests, hresponses]
  exact foldl_eq_importValues importHeaders_eq e.headers.entries _

/-- The values of an export that can be written to a table of a store. -/
def Export.taken (e : Export) (s : Store) (t : Table) : List (String × Bytes) :=
  (e.values t).filter fun v => s.takes t v.1

/-- Whatever fails, exactly the values that can be written are put at their keys. -/
theorem table_merge_taken (c : Cache) (e : Export) (t : Table) :
    (c.merge e).2.store.table t = putAll (c.store.table t) (e.taken c.store t) := by
  rw [merge_eq]
  simp only [importValues, takes_takeIn]
  show (((c.store.withValues .requests (e.taken c.store .requests)).withValues .responses
    (e.taken c.store .responses)).withValues .headers (e.taken c.store .headers)).table t = _
  rw [table_withValues, table_withValues, table_withValues]
  cases t <;> rfl

/-- The number of values of an export that cannot be written to a table of a store. -/
def Export.missed (e : Export) (s : Store) (t : Table) : Nat :=
  (e.values t).countP fun v => !s.takes t v.1

/-- As many values are taken as have a key whose write goes well. -/
theorem length_taken (e : Export) (s : Store) (t : Table) :
    (e.taken s t).length = (e.values t).countP fun v => s.takes t v.1 :=
  List.countP_eq_length_filter.symm

/-- Every value of an export is taken or missed. -/
theorem taken_add_missed (e : Export) (s : Store) (t : Table) :
    (e.taken s t).length + e.missed s t = (e.values t).length := by
  have h := List.length_eq_countP_add_countP (fun v => s.takes t v.1) (l := e.values t)
  simpa [length_taken, Export.missed] using h.symm

/-- A merge tells how many entries of each table were stored, and how many were not. -/
theorem summary_merge_eq (c : Cache) (e : Export) :
    (c.merge e).1 =
      ⟨(e.taken c.store .requests).length, (e.taken c.store .responses).length,
        (e.taken c.store .headers).length,
        e.missed c.store .requests + e.missed c.store .responses + e.missed c.store .headers⟩ := by
  rw [merge_eq]
  simp only [importValues, takes_takeIn]
  simp [takeIn, Summary.more, Summary.missing, Export.taken, Export.missed]

/-- **A merge accounts for every entry**: it tells how many of each table were stored, and how many
were not. -/
theorem summary_merge (c : Cache) (e : Export) :
    (c.merge e).1.requests = (e.taken c.store .requests).length ∧
    (c.merge e).1.responses = (e.taken c.store .responses).length ∧
    (c.merge e).1.headers = (e.taken c.store .headers).length ∧
    (c.merge e).1.requests + (c.merge e).1.responses + (c.merge e).1.headers + (c.merge e).1.failed
      = e.requests.size + e.responses.size + e.headers.size := by
  have hrequests : (e.values .requests).length = e.requests.size := rfl
  have hresponses : (e.values .responses).length = e.responses.size := rfl
  have hheaders : (e.values .headers).length = e.headers.size := List.length_map _
  rw [summary_merge_eq]
  refine ⟨rfl, rfl, rfl, ?_⟩
  rw [← hrequests, ← hresponses, ← hheaders, ← taken_add_missed e c.store,
    ← taken_add_missed e c.store, ← taken_add_missed e c.store]
  dsimp only
  omega

theorem settings_merge (c : Cache) (e : Export) : (c.merge e).2.settings = c.settings := by
  rw [merge_eq]
  rfl

/-- Every request and response that is stored counts as saved. -/
theorem counters_merge_taken (c : Cache) (e : Export) :
    (c.merge e).2.counters =
      { c.counters with
        requests := c.counters.requests.more (e.taken c.store .requests).length
        responses := c.counters.responses.more (e.taken c.store .responses).length } := by
  rw [merge_eq]
  simp only [importValues, takes_takeIn]
  rfl

/-! ### Into a store that works -/

/-- **An export is merged as a whole** into a store that works. -/
theorem merge_of_works {c : Cache} (h : c.store.Works) (e : Export) :
    c.merge e = takeIn .headers (e.values .headers)
      (takeIn .responses (e.values .responses)
        (takeIn .requests (e.values .requests) (⟨0, 0, 0, 0⟩, c))) := by
  have hstart : (⟨⟨0, 0, 0, 0⟩, c⟩ : Summary × Cache).2.store.Works := h
  have hrequests := works_takeIn hstart .requests (e.values .requests)
  have hresponses := works_takeIn hrequests .responses (e.values .responses)
  rw [merge_eq, importValues_of_works hstart, importValues_of_works hrequests,
    importValues_of_works hresponses]

theorem works_merge {c : Cache} (h : c.store.Works) (e : Export) : (c.merge e).2.store.Works := by
  have hstart : (⟨⟨0, 0, 0, 0⟩, c⟩ : Summary × Cache).2.store.Works := h
  rw [merge_of_works h]
  exact works_takeIn (works_takeIn (works_takeIn hstart _ _) _ _) _ _

/-- Every entry of an export is stored. -/
theorem failed_merge {c : Cache} (h : c.store.Works) (e : Export) : (c.merge e).1.failed = 0 := by
  rw [merge_of_works h]
  rfl

theorem taken_of_works {s : Store} (h : s.Works) (e : Export) (t : Table) :
    e.taken s t = e.values t := by
  simp only [Export.taken, takes_of_works h, List.filter_true]

/-- Every imported request and response counts as saved. -/
theorem counters_merge {c : Cache} (h : c.store.Works) (e : Export) :
    (c.merge e).2.counters =
      { c.counters with
        requests := c.counters.requests.more (e.values .requests).length
        responses := c.counters.responses.more (e.values .responses).length } := by
  rw [counters_merge_taken, taken_of_works h, taken_of_works h]

/-- The values of an export are put at their keys. -/
theorem table_merge {c : Cache} (h : c.store.Works) (e : Export) (t : Table) :
    (c.merge e).2.store.table t = putAll (c.store.table t) (e.values t) := by
  rw [table_merge_taken, taken_of_works h]

/-- **A merged store** answers what the export has at a key, and its old value elsewhere. -/
theorem get?_merge {c : Cache} (h : c.store.Works) (e : Export) (t : Table) (key : String) :
    ((c.merge e).2.store.table t).get? key
      = ((Assoc.get? key (e.values t)).map Cell.sound).or ((c.store.table t).get? key) := by
  rw [table_merge h, get?_putAll _ (e.nodup_values t)]

/-! ### Around entries that cannot be written -/

theorem Export.nodup_taken (e : Export) (s : Store) (t : Table) :
    ((e.taken s t).map (·.1)).Nodup :=
  (e.nodup_values t).sublist (List.filter_sublist.map _)

/-- After a merge a key gives the value taken for it, or else what it gave before. -/
theorem get?_merge_taken (c : Cache) (e : Export) (t : Table) (key : String) :
    ((c.merge e).2.store.table t).get? key
      = ((Assoc.get? key (e.taken c.store t)).map Cell.sound).or ((c.store.table t).get? key) := by
  rw [table_merge_taken, get?_putAll _ (e.nodup_taken c.store t)]

/-- An entry that can be written is stored. -/
theorem get?_merge_of_takes (c : Cache) {e : Export} {t : Table} {v : String × Bytes}
    (hmem : v ∈ e.values t) (htakes : c.store.takes t v.1 = true) :
    ((c.merge e).2.store.table t).get? v.1 = some (.sound v.2) := by
  have htaken : v ∈ e.taken c.store t := List.mem_filter.2 ⟨hmem, htakes⟩
  rw [get?_merge_taken, (Assoc.get?_eq_some_iff (e.nodup_taken c.store t)).2 htaken]
  rfl

/-- A key under which nothing is written keeps what it has. -/
theorem get?_merge_of_notMem (c : Cache) {e : Export} {t : Table} {key : String}
    (h : ∀ v ∈ e.values t, v.1 = key → c.store.takes t key = false) :
    ((c.merge e).2.store.table t).get? key = (c.store.table t).get? key := by
  have hnone : Assoc.get? key (e.taken c.store t) = none := by
    refine Assoc.get?_eq_none_of_forall_ne ?_
    rintro v hv rfl
    obtain ⟨hmem, htakes⟩ := List.mem_filter.1 hv
    rw [h v hmem rfl] at htakes
    cases htakes
  rw [get?_merge_taken, hnone]
  rfl

/-- What an import makes of a cache, whatever writes fail. An entry that can be written stands with
its value, a header map as one that is read back as it was; a key whose write fails, or that the
export does not have, keeps what it had. The import tells how many entries of each table were
stored, and how many of all tables were not; each stored request and response counts as saved, also
beyond the limit. -/
structure Admits (c : Cache) (e : Export) (sum : Summary) (c' : Cache) : Prop where
  stored : ∀ t, ∀ v ∈ e.values t, c.store.takes t v.1 = true →
    (c'.store.table t).get? v.1 = some (.sound v.2)
  legible : ∀ m ∈ e.headers.entries, c.store.takes .headers m.1 = true →
    ∃ value, c'.store.headers.get? m.1 = some (.sound value) ∧ decodeHeaders value = .ok m.2
  failing : ∀ t key, c.store.takes t key = false →
    (c'.store.table t).get? key = (c.store.table t).get? key
  foreign : ∀ t key, (∀ v ∈ e.values t, v.1 ≠ key) →
    (c'.store.table t).get? key = (c.store.table t).get? key
  requests : sum.requests = (e.values .requests).countP fun v => c.store.takes .requests v.1
  responses : sum.responses = (e.values .responses).countP fun v => c.store.takes .responses v.1
  headers : sum.headers = (e.values .headers).countP fun v => c.store.takes .headers v.1
  failed : sum.failed =
    (e.values .requests).countP (fun v => !c.store.takes .requests v.1)
      + (e.values .responses).countP (fun v => !c.store.takes .responses v.1)
      + (e.values .headers).countP fun v => !c.store.takes .headers v.1
  all : sum.requests + sum.responses + sum.headers + sum.failed
    = e.requests.size + e.responses.size + e.headers.size
  counters : c'.counters =
    { c.counters with
      requests :=
        { c.counters.requests with saved := c.counters.requests.saved + sum.requests }
      responses :=
        { c.counters.responses with saved := c.counters.responses.saved + sum.responses } }

/-- **An import passes over the entries that cannot be written**, and over nothing else. -/
theorem merge_isolates_failures (c : Cache) (e : Export) :
    c.Admits e (c.merge e).1 (c.merge e).2 := by
  obtain ⟨hrequests, hresponses, hheaders, hall⟩ := summary_merge c e
  refine ⟨fun t v hmem htakes => get?_merge_of_takes c hmem htakes, ?_, ?_, ?_, ?_, ?_, ?_, ?_,
    hall, ?_⟩
  · intro m hm htakes
    have hmem : (m.1, Text.encode (headersJson m.2).compact) ∈ e.values .headers :=
      List.mem_map.2 ⟨m, hm, rfl⟩
    exact ⟨_, get?_merge_of_takes c hmem htakes, decodeHeaders_encode m.2⟩
  · exact fun t key hfails => get?_merge_of_notMem c fun _ _ _ => hfails
  · exact fun t key hforeign => get?_merge_of_notMem c fun v hv heq => absurd heq (hforeign v hv)
  · rw [hrequests, length_taken]
  · rw [hresponses, length_taken]
  · rw [hheaders, length_taken]
  · rw [summary_merge_eq]
    rfl
  · rw [counters_merge_taken, hrequests, hresponses]
    rfl

/-- A store in which the request `a` stands and cannot be written. -/
def stuck : Store :=
  { Store.empty with
    requests := Dict.empty.insert "a" (.sound [0])
    faults := { Faults.none with writes := fun t key => t = .requests && key = "a" } }

/-- Of two requests the first stays as it is and the second is stored and counted, although no
request may be saved; the response under the key of the first is stored all the same. -/
theorem merge_isolates_failures_stuck :
    let c : Cache :=
      ⟨⟨none, true, true, true, some 0, some 0, false, none, none⟩, stuck,
        ⟨0, 0, .fresh (some 0), .fresh (some 0)⟩, []⟩
    let e : Export :=
      ⟨1, .ofList [("a", [1]), ("b", [2])], .ofList [("a", [3])],
        .ofList [("a", .ofList [("x", "y")])]⟩
    let c' := (c.merge e).2
    c'.store.requests.get? "a" = some (.sound [0]) ∧
      c'.store.requests.get? "b" = some (.sound [2]) ∧
      c'.store.responses.get? "a" = some (.sound [3]) ∧
      (∃ value, c'.store.headers.get? "a" = some (.sound value) ∧
        decodeHeaders value = .ok (.ofList [("x", "y")])) ∧
      c'.store.requests.get? "c" = none ∧ (c.merge e).1.failed = 1 ∧
      c'.counters.requests.saved = 1 ∧ c'.counters.responses.saved = 1 := by
  intro c e c'
  have h := merge_isolates_failures c e
  have hrequests : e.values .requests = [("a", [1]), ("b", [2])] := rfl
  have hresponses : e.values .responses = [("a", [3])] := rfl
  have hheaders : e.headers.entries = [("a", .ofList [("x", "y")])] := rfl
  have hfailed := h.failed
  have hcounters := h.counters
  refine ⟨h.failing .requests "a" rfl, h.stored .requests ("b", [2]) ?_ rfl,
    h.stored .responses ("a", [3]) ?_ rfl, h.legible ("a", .ofList [("x", "y")]) ?_ rfl,
    h.foreign .requests "c" ?_, ?_, ?_, ?_⟩
  · simp [hrequests]
  · simp [hresponses]
  · simp [hheaders]
  · simp [hrequests]
  · rw [hfailed]
    rfl
  · rw [hcounters, h.requests]
    rfl
  · rw [hcounters, h.responses]
    rfl

end Cache

end EvalProxy
