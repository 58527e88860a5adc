/-
# Slots of a save limit

A save that is granted takes up a slot of its limit, whatever becomes of it: a new entry, another
value for an entry that is there, or nothing where the write fails. The counter of a kind is the
number of slots that are taken up, and so the number of its entries only where no granted save fails
or comes twice.

Main definitions: `Slot`, `Kind.slots`, `Kind.asked`, `SaveLimit.admits`.
Main statements: `length_slots`, `size_runAmid`, `mem_keys_runAmid`, `slots_account`.
-/
import Mathlib.Data.List.Dedup
import EvalProxy.Proofs.Cache.Trouble
namespace EvalProxy.Cache

open Store

/-! ## Slots -/

/-- What becomes of a save that is granted: a new entry, another value for an entry, or nothing. -/
inductive Slot where
  | entry
  | repeated
  | failed
  deriving DecidableEq

namespace Kind

/-- The key under which a visit asks for a save, if it asks for one. -/
def key? (k : Kind) (s : Settings) (v : Visit) : Option String :=
  if k.asks s v.move then ((v.move.puts k.table).map (·.1)).head? else none

/-- The slot that a visit takes up, and its key, if the visit is granted a save. -/
def slot (k : Kind) (c : Cache) (v : Visit) : Option (String × Slot) :=
  if (k.limit c.counters).isReached then none
  else
    (k.key? c.settings v).map fun key =>
      (key,
        if !c.store.takes k.table key then .failed
        else if (c.store.table k.table).contains key then .repeated
        else .entry)

/-- The slots that visits take up, in their order. -/
def slots (k : Kind) (c : Cache) : List (Trouble × Visit) → List (String × Slot)
  | [] => []
  | (t, v) :: rest => (k.slot (c.amid t) v).toList ++ k.slots ((c.amid t).step v) rest

/-- The keys under which visits ask for saves, in their order. -/
def asked (k : Kind) (s : Settings) (visits : List (Trouble × Visit)) : List String :=
  visits.filterMap fun v => k.key? s v.2

end Kind

/-- Those of some saves that a limit still admits. -/
def SaveLimit.admits (l : SaveLimit) (asked : List String) : List String :=
  match l.max with
  | some max => asked.take (max - l.saved)
  | none => asked

/-- The fingerprint of a request. -/
def Visit.requested? : Visit → Option String
  | .request r => some (fingerprint r.body)
  | .response _ => none

/-- Nothing keeps values from being written to a table. -/
def Trouble.Spares (t : Trouble) (table : Table) : Prop :=
  t.lost = false ∧ ∀ key, t.faults.writes table key = false

/-! ## What is asked for -/

variable {k : Kind} {c : Cache} {v : Visit} {key : String}

/-- What asks for a save puts one value. -/
theorem exists_puts_of_asks {s : Settings} (h : k.asks s v.move = true) :
    ∃ key value, v.move.puts k.table = [(key, value)] := by
  cases k with
  | requests =>
    cases v with
    | request r => exact ⟨_, _, rfl⟩
    | response p => cases h
  | responses =>
    cases v with
    | request r => cases h
    | response p =>
      obtain ⟨key, hkey⟩ := Option.isSome_iff_exists.1 (Bool.and_eq_true_iff.1 h).2
      refine ⟨key, p.body, ?_⟩
      rw [Visit.move, Kind.table, Move.puts, hkey]
      rfl

/-- A visit with a key of a kind asks for a slot and puts in one value, under that key. -/
theorem asks_of_key? {s : Settings} (h : k.key? s v = some key) :
    k.asks s v.move = true ∧ ∃ value, v.move.puts k.table = [(key, value)] := by
  unfold Kind.key? at h
  split at h
  · rename_i hasks
    obtain ⟨key', value, hputs⟩ := exists_puts_of_asks hasks
    rw [hputs] at h
    cases h
    exact ⟨hasks, value, hputs⟩
  · cases h

/-- A visit without a key of a kind asks for no slot of it. -/
theorem not_asks_of_key? {s : Settings} (h : k.key? s v = none) : k.asks s v.move = false := by
  rw [Bool.eq_false_iff]
  intro hasks
  obtain ⟨key, value, hputs⟩ := exists_puts_of_asks hasks
  rw [Kind.key?, if_pos hasks, hputs] at h
  cases h

/-- While requests are saved, every request asks for a save under its fingerprint. -/
theorem asked_requests {s : Settings} (h : s.saveRequests = true)
    (visits : List (Trouble × Visit)) :
    Kind.requests.asked s visits = visits.filterMap fun v => v.2.requested? := by
  refine List.filterMap_congr fun v _ => ?_
  cases v.2 with
  | request r => simp [Kind.key?, Kind.asks, Visit.move, h, Visit.requested?, Move.puts, Kind.table]
  | response p => rfl

/-! ## One visit -/

/-- **A visit counts the slot that it takes up.** -/
theorem limit_step_slot (k : Kind) (c : Cache) (v : Visit) :
    k.limit (c.step v).counters = (k.limit c.counters).more (k.slot c v).toList.length := by
  rw [limit_step, Kind.granted, Kind.slot]
  cases hkey : k.key? c.settings v with
  | none =>
    rw [not_asks_of_key? hkey]
    split <;> rfl
  | some key =>
    rw [(asks_of_key? hkey).1]
    split
    · rename_i hreached
      rw [hreached]
      rfl
    · rename_i hopen
      rw [Bool.eq_false_iff.2 hopen]
      rfl

/-- **What a visit does to the table**: it puts a value where its slot is not a failure. -/
theorem table_step_slot (k : Kind) (c : Cache) (v : Visit) :
    ((k.slot c v = none ∨ ∃ key, k.slot c v = some (key, .failed) ∧
          c.store.takes k.table key = false) ∧
        (c.step v).store.table k.table = c.store.table k.table) ∨
      ∃ key value, k.slot c v =
          some (key, if (c.store.table k.table).contains key then .repeated else .entry) ∧
        (c.step v).store.table k.table = (c.store.table k.table).insert key (.sound value) := by
  rw [table_step, Kind.granted, Kind.slot]
  cases hkey : k.key? c.settings v with
  | none =>
    rw [not_asks_of_key? hkey]
    refine .inl ⟨.inl ?_, rfl⟩
    split <;> rfl
  | some key =>
    obtain ⟨hasks, value, hputs⟩ := asks_of_key? hkey
    rw [hasks, hputs, withTaken]
    cases hreached : (k.limit c.counters).isReached with
    | true => exact .inl ⟨.inl rfl, rfl⟩
    | false =>
      cases htakes : c.store.takes k.table key with
      | false =>
        refine .inl ⟨.inr ⟨key, ?_, htakes⟩, ?_⟩
        · simp [htakes]
        · simp [htakes, withValues_nil]
      | true =>
        refine .inr ⟨key, value, ?_, ?_⟩
        · simp [htakes]
        · simp [htakes, table_withValues, putAll]

/-- A visit makes one more entry if its slot is one. -/
theorem size_step (k : Kind) (c : Cache) (v : Visit) :
    ((c.step v).store.table k.table).size =
      (c.store.table k.table).size + ((k.slot c v).toList.map (·.2)).count .entry := by
  rcases table_step_slot k c v with ⟨hslot, htable⟩ | ⟨key, value, hslot, htable⟩
  · rw [htable]
    rcases hslot with hslot | ⟨key, hslot, -⟩
    all_goals
      rw [hslot]
      rfl
  · rw [htable, hslot]
    cases hcontains : (c.store.table k.table).contains key with
    | true =>
      rw [Dict.size_insert_of_mem ((Dict.mem_keys_iff _ _).2 hcontains)]
      rfl
    | false =>
      have hnew : key ∉ (c.store.table k.table).keys := by
        rw [Dict.mem_keys_iff]
        exact Bool.eq_false_iff.1 hcontains
      rw [Dict.size_insert_of_not_mem hnew]
      rfl

/-- A visit makes its key one of the table where its slot is not a failure. -/
theorem mem_keys_step (k : Kind) (c : Cache) (v : Visit) (key : String) :
    key ∈ ((c.step v).store.table k.table).keys ↔
      key ∈ (c.store.table k.table).keys ∨
        ∃ kept ∈ (k.slot c v).toList, kept.1 = key ∧ kept.2 ≠ .failed := by
  rcases table_step_slot k c v with ⟨hslot, htable⟩ | ⟨key', value, hslot, htable⟩
  · rw [htable]
    rcases hslot with hslot | ⟨key', hslot, -⟩
    all_goals
      rw [hslot]
      simp
  · rw [htable, hslot, Dict.mem_keys_insert, or_comm]
    refine or_congr_right ⟨?_, ?_⟩
    · rintro rfl
      refine ⟨_, List.mem_singleton_self _, rfl, ?_⟩
      split <;> exact nofun
    · rintro ⟨kept, hkept, hkey, -⟩
      rw [← hkey, List.mem_singleton.1 hkept]

/-! ## Runs -/

/-- A limit that is reached admits no more. -/
theorem admits_of_isReached {l : SaveLimit} (h : l.isReached = true) (asked : List String) :
    l.admits asked = [] := by
  unfold SaveLimit.isReached at h
  unfold SaveLimit.admits
  cases hmax : l.max with
  | none =>
    rw [hmax] at h
    cases h
  | some max =>
    rw [hmax] at h
    show asked.take (max - l.saved) = []
    rw [Nat.sub_eq_zero_of_le (of_decide_eq_true h)]
    rfl

/-- A save that is admitted leaves room for one less. -/
theorem admits_cons {l : SaveLimit} (h : l.isReached = false) (key : String) (rest : List String) :
    l.admits (key :: rest) = key :: (l.more 1).admits rest := by
  unfold SaveLimit.isReached at h
  unfold SaveLimit.admits SaveLimit.more
  cases hmax : l.max with
  | none => rfl
  | some max =>
    rw [hmax] at h
    have hroom := of_decide_eq_false h
    have hleft : max - l.saved = max - (l.saved + 1) + 1 := by omega
    show (key :: rest).take (max - l.saved) = key :: rest.take (max - (l.saved + 1))
    rw [hleft]
    rfl

/-- The keys that were asked for are that of the first visit and those of the others. -/
theorem asked_cons (k : Kind) (s : Settings) (v : Trouble × Visit) (rest : List (Trouble × Visit)) :
    k.asked s (v :: rest) = (k.key? s v.2).toList ++ k.asked s rest := by
  rw [Kind.asked, List.filterMap_cons]
  cases k.key? s v.2 <;> rfl

/-- **The counter is the number of slots.** -/
theorem limit_runAmid (k : Kind) (c : Cache) (visits : List (Trouble × Visit)) :
    k.limit (c.runAmid visits).counters = (k.limit c.counters).more (k.slots c visits).length := by
  induction visits generalizing c with
  | nil => rfl
  | cons v rest ih =>
    refine (ih ((c.amid v.1).step v.2)).trans ?_
    rw [limit_step_slot, Kind.slots, List.length_append]
    exact congrArg (SaveLimit.mk _) (Nat.add_assoc _ _ _)

/-- **The slots are those saves that the limit admits.** -/
theorem keys_slots (k : Kind) (c : Cache) (visits : List (Trouble × Visit)) :
    (k.slots c visits).map (·.1) = (k.limit c.counters).admits (k.asked c.settings visits) := by
  induction visits generalizing c with
  | nil =>
    cases hmax : (k.limit c.counters).max <;> simp [Kind.slots, SaveLimit.admits, Kind.asked, hmax]
  | cons v rest ih =>
    obtain ⟨t, v⟩ := v
    have hrest := ih ((c.amid t).step v)
    rw [settings_step, limit_step_slot] at hrest
    rw [Kind.slots, List.map_append, hrest, asked_cons]
    show _ ++ ((k.limit c.counters).more _).admits (k.asked c.settings rest) = _
    cases hreached : (k.limit c.counters).isReached with
    | true =>
      have hslot : k.slot (c.amid t) v = none := if_pos hreached
      rw [hslot, admits_of_isReached hreached]
      exact admits_of_isReached hreached _
    | false =>
      have hopen : (k.limit (c.amid t).counters).isReached = false := hreached
      have hsettings : (c.amid t).settings = c.settings := rfl
      rw [Kind.slot, hopen, hsettings]
      cases k.key? c.settings v with
      | none => rfl
      | some key => exact (admits_cons hreached key _).symm

/-- **The entries are those slots that are one.** -/
theorem size_runAmid (k : Kind) (c : Cache) (visits : List (Trouble × Visit)) :
    ((c.runAmid visits).store.table k.table).size =
      (c.store.table k.table).size + ((k.slots c visits).map (·.2)).count .entry := by
  induction visits generalizing c with
  | nil => rfl
  | cons v rest ih =>
    have htable : (c.amid v.1).store.table k.table = c.store.table k.table :=
      table_amid c.store v.1 k.table
    refine (ih ((c.amid v.1).step v.2)).trans ?_
    rw [size_step, Kind.slots, List.map_append, List.count_append, ← Nat.add_assoc, htable]

/-- **The keys of the table are those of the slots that are not failures.** -/
theorem mem_keys_runAmid (k : Kind) (c : Cache) (visits : List (Trouble × Visit)) (key : String) :
    key ∈ ((c.runAmid visits).store.table k.table).keys ↔
      key ∈ (c.store.table k.table).keys ∨
        ∃ kept ∈ k.slots c visits, kept.1 = key ∧ kept.2 ≠ .failed := by
  induction visits generalizing c with
  | nil => simp [runAmid, Kind.slots]
  | cons v rest ih =>
    have htable : (c.amid v.1).store.table k.table = c.store.table k.table :=
      table_amid c.store v.1 k.table
    refine (ih ((c.amid v.1).step v.2)).trans ?_
    rw [mem_keys_step, htable, or_assoc, Kind.slots]
    refine or_congr_right ?_
    simp only [List.mem_append, or_and_right, exists_or]

/-- Where every value can be written, no slot is a failure. -/
theorem not_failed_of_spares {visits : List (Trouble × Visit)}
    (h : ∀ v ∈ visits, v.1.Spares k.table) (c : Cache) :
    ∀ kept ∈ k.slots c visits, kept.2 ≠ .failed := by
  induction visits generalizing c with
  | nil => exact nofun
  | cons v rest ih =>
    intro kept hkept
    rcases List.mem_append.1 hkept with hkept | hkept
    · obtain ⟨hpresent, hwrites⟩ := h v List.mem_cons_self
      rcases table_step_slot k (c.amid v.1) v.2 with
        ⟨hslot | ⟨key, -, hrefused⟩, -⟩ | ⟨key, value, hslot, -⟩
      · rw [hslot] at hkept
        cases hkept
      · have htakes : (c.amid v.1).store.takes k.table key = true := by
          show (!v.1.lost && !v.1.faults.writes k.table key) = true
          rw [hpresent, hwrites]
          rfl
        rw [htakes] at hrefused
        cases hrefused
      · rw [hslot] at hkept
        rw [List.mem_singleton.1 hkept]
        dsimp only
        split <;> exact nofun
    · exact ih (fun u hu => h u (List.mem_cons_of_mem v hu)) _ kept hkept

/-! ## New caches -/

/-- Where every value can be written, the entries of a new cache are the different saves that the
limit admits. -/
theorem size_of_spares {s : Settings} {store : Store} (hblank : store.IsBlank)
    {visits : List (Trouble × Visit)} (h : ∀ v ∈ visits, v.1.Spares k.table) :
    (((start s store).runAmid visits).store.table k.table).size =
      ((SaveLimit.fresh (k.max s)).admits (k.asked s visits)).dedup.length := by
  have hkeys : (k.slots (start s store) visits).map (·.1) =
      (SaveLimit.fresh (k.max s)).admits (k.asked s visits) := by
    have hslots := keys_slots k (start s store) visits
    rwa [limit_start] at hslots
  have hblank' : (start s store).store.table k.table = .empty := hblank k.table
  rw [← Dict.length_keys]
  refine List.Perm.length_eq
    ((List.perm_ext_iff_of_nodup (Dict.nodup_keys _) (List.nodup_dedup _)).2 fun key => ?_)
  rw [mem_keys_runAmid, hblank', List.mem_dedup, ← hkeys, List.mem_map]
  constructor
  · rintro (hnone | ⟨kept, hkept, hkey, -⟩)
    · cases hnone
    · exact ⟨kept, hkept, hkey⟩
  · rintro ⟨kept, hkept, hkey⟩
    exact .inr ⟨kept, hkept, hkey, not_failed_of_spares h _ kept hkept⟩

/-- **A slot is spent on every save that is granted**, whatever becomes of it. The counter of a kind
is the number of slots, and these are the first saves that were asked for, as many as the limit
admits; the entries are those slots that neither failed nor found their key taken. So counter and
entries are as many exactly if there were no others, and where every value can be written the table
ends with the different keys among the saves that the limit admits. -/
theorem slots_account (s : Settings) {store : Store} (hblank : store.IsBlank)
    (visits : List (Trouble × Visit)) :
    let c := (start s store).runAmid visits
    (∀ k : Kind,
      let slots := k.slots (start s store) visits
      let admitted := (SaveLimit.fresh (k.max s)).admits (k.asked s visits)
      (k.limit c.counters).saved = slots.length ∧
      slots.map (·.1) = admitted ∧
      (c.store.table k.table).size = (slots.map (·.2)).count .entry ∧
      ((k.limit c.counters).saved = (c.store.table k.table).size ↔
        ∀ slot ∈ slots, slot.2 = .entry) ∧
      ((∀ v ∈ visits, v.1.Spares k.table) →
        (c.store.table k.table).size = admitted.dedup.length)) ∧
    (s.saveRequests = true → (∀ v ∈ visits, v.1.Spares .requests) →
      ∀ max, s.maxRequests = some max →
        c.store.requests.size =
          ((visits.filterMap fun v => v.2.requested?).take max).dedup.length) := by
  have hkind (k : Kind) :
      (k.limit ((start s store).runAmid visits).counters).saved =
          (k.slots (start s store) visits).length ∧
        (((start s store).runAmid visits).store.table k.table).size =
          ((k.slots (start s store) visits).map (·.2)).count .entry := by
    have hblank' : (start s store).store.table k.table = .empty := hblank k.table
    constructor
    · rw [limit_runAmid, limit_start]
      exact Nat.zero_add _
    · rw [size_runAmid, hblank']
      exact Nat.zero_add _
  refine ⟨fun k => ?_, fun hsaves hspares max hmax => ?_⟩
  · obtain ⟨hsaved, hsize⟩ := hkind k
    have hkeys := keys_slots k (start s store) visits
    rw [limit_start] at hkeys
    refine ⟨hsaved, hkeys, hsize, ?_, size_of_spares hblank⟩
    rw [hsaved, hsize, ← List.length_map (f := (·.2)), eq_comm, List.count_eq_length]
    simp only [List.forall_mem_map, eq_comm]
  · have hsize := size_of_spares (k := .requests) (s := s) hblank hspares
    rw [asked_requests hsaves, SaveLimit.admits] at hsize
    show (((start s store).runAmid visits).store.table Kind.requests.table).size = _
    rw [hsize]
    show (match s.maxRequests with | some max => _ | none => _ : List String).dedup.length = _
    rw [hmax]
    rfl

/-- A request that comes twice takes up both slots of a limit of two. -/
theorem slots_account_twice :
    let s : Settings := ⟨none, true, true, true, some 2, none, false, none, none⟩
    let call (body : Json) : Trouble × Visit :=
      (⟨.none, false⟩, .request ⟨"POST", "/", [], body, .arrived "a"⟩)
    let visits := [call .null, call .null, call (.bool true)]
    (Kind.requests.limit ((start s .empty).runAmid visits).counters).saved = 2 ∧
      ((start s .empty).runAmid visits).store.requests.size = 1 := by
  intro s call visits
  obtain ⟨hkinds, hrequests⟩ := slots_account s isBlank_empty visits
  obtain ⟨hsaved, hadmitted, -⟩ := hkinds .requests
  have hspares : ∀ v ∈ visits, v.1.Spares .requests := by
    simp only [visits, List.forall_mem_cons]
    exact ⟨⟨rfl, fun _ => rfl⟩, ⟨rfl, fun _ => rfl⟩, ⟨rfl, fun _ => rfl⟩, nofun⟩
  have hlength := congrArg List.length hadmitted
  rw [List.length_map] at hlength
  have htwice : (visits.filterMap fun v => v.2.requested?).take 2 =
      [fingerprint .null, fingerprint .null] := rfl
  constructor
  · rw [hsaved, hlength]
    rfl
  · rw [hrequests rfl hspares 2 rfl, htwice, List.dedup_cons_of_mem (List.mem_singleton_self _)]
    rfl

/-- **A slot is spent where nothing is stored.** A request whose write fails counts as saved, and
one that comes twice takes the slot of the next. -/
theorem slot_spent_in_vain :
    let s : Settings := ⟨none, true, true, true, some 2, none, false, none, none⟩
    let call (body : Json) : Visit := .request ⟨"POST", "/", [], body, .arrived "a"⟩
    let calm : Trouble := ⟨.none, false⟩
    let full : Trouble := ⟨{ Faults.none with writes := fun _ _ => true }, false⟩
    let failed := (start s .empty).runAmid [(full, call .null)]
    let twice := (start s .empty).runAmid
      [(calm, call .null), (calm, call .null), (calm, call (.bool true))]
    failed.counters.requests.saved = 1 ∧ failed.store.requests.keys = [] ∧
      twice.counters.requests.saved = 2 ∧ twice.store.requests.keys = [fingerprint .null] ∧
      fingerprint .null ≠ fingerprint (.bool true) := by
  decide +kernel

end EvalProxy.Cache
