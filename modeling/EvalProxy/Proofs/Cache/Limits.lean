/-
# Save limits over whole runs

Requests, responses and imports reach a cache in any order. What it saves of each kind is limited on
its own: the counter of a kind is the number of its saves and imports so far, a save is granted
exactly while that number is below the limit, and nothing else touches the kind.

Main definitions: `Kind`, `Move`, `Kind.grants`, `Kind.Limited`.
Main statements: `table_moved`, `limit_after`, `limited_after`, `Alike.after`.
-/
import EvalProxy.Proofs.Cache.Calls
import EvalProxy.Proofs.Cache.Merge
import Mathlib.Algebra.Ring.Nat
namespace EvalProxy.Cache

open Store

/-! ## Kinds of saves -/

/-- What a cache saves, each kind under a limit of its own. -/
inductive Kind where
  | requests
  | responses
  deriving DecidableEq

/-- The kind that a table belongs to. -/
def Table.kind : Table → Kind
  | .requests => .requests
  | .responses => .responses
  | .headers => .responses

namespace Kind

/-- The table that has an entry for each save. -/
def table : Kind → Table
  | requests => .requests
  | responses => .responses

/-- The limit of a kind. -/
def limit (k : Kind) (c : Counters) : SaveLimit :=
  match k with
  | requests => c.requests
  | responses => c.responses

/-- The configured maximum of a kind. -/
def max (k : Kind) (s : Settings) : Option Nat :=
  match k with
  | requests => s.maxRequests
  | responses => s.maxResponses

/-- Settings with another maximum for a kind. -/
def withMax (k : Kind) (s : Settings) (max : Option Nat) : Settings :=
  match k with
  | requests => { s with maxRequests := max }
  | responses => { s with maxResponses := max }

end Kind

/-- A limit that is reached stays reached however often it is asked. -/
theorem SaveLimit.isReached_more {l : SaveLimit} (h : l.isReached = true) (n : Nat) :
    (l.more n).isReached = true := by
  unfold isReached at h ⊢
  cases hmax : l.max with
  | none => simp [hmax] at h
  | some max =>
    simp only [hmax, decide_eq_true_eq] at h
    simp only [more, hmax, decide_eq_true_eq]
    omega

/-! ## Moves -/

/-- What reaches a cache. -/
inductive Move where
  | request (r : Request)
  | response (r : Response)
  | merge (e : Export)

/-- A new cache over a store. -/
def start (s : Settings) (store : Store) : Cache := ⟨s, store, .fresh s, []⟩

/-- The cache after a move. -/
def moved (c : Cache) : Move → Cache
  | .request r => (c.onRequest r).2
  | .response r => c.onResponse r
  | .merge e => (c.merge e).2

/-- The cache after some moves. -/
def after (c : Cache) (moves : List Move) : Cache := moves.foldl moved c

theorem after_append (c : Cache) (moves later : List Move) :
    c.after (moves ++ later) = (c.after moves).after later :=
  List.foldl_append

namespace Move

/-- What a move puts into a table, if it is not refused. -/
def puts : Move → Table → List (String × Bytes)
  | request r, .requests => [(fingerprint r.body, Text.encode (canonicalText r.body))]
  | response r, .responses => r.context.fingerprint.toList.map fun key => (key, r.body)
  | response r, .headers => r.context.fingerprint.toList.map fun key =>
      (key, Text.encode (headersJson r.headers.normalize).compact)
  | merge e, t => e.values t
  | _, _ => []

/-- Whether a move is an import. -/
def isMerge : Move → Bool
  | merge _ => true
  | _ => false

end Move

namespace Kind

/-- Whether a move asks for a save. -/
def asks (k : Kind) (s : Settings) (m : Move) : Bool :=
  match k, m with
  | requests, .request _ => s.saveRequests
  | responses, .response r =>
    s.saveResponses && !r.context.fromCache && r.isSuccess && r.context.fingerprint.isSome
  | _, _ => false

/-- Whether a move is granted a save. -/
def granted (k : Kind) (c : Cache) (m : Move) : Bool :=
  k.asks c.settings m && !(k.limit c.counters).isReached

/-- How many entries a move imports. -/
def imports (k : Kind) : Move → Nat
  | .merge e => (e.values k.table).length
  | _ => 0

/-- How many saves are granted in a run. -/
def grants (k : Kind) (c : Cache) : List Move → Nat
  | [] => 0
  | m :: rest => (k.granted c m).toNat + k.grants (c.moved m) rest

/-- How many entries are imported in a run. -/
def imported (k : Kind) (moves : List Move) : Nat := (moves.map k.imports).sum

end Kind

/-! ## What one move does -/

/-- The limit after a save was asked for. -/
theorem acquire_eq (l : SaveLimit) : l.acquire = (!l.isReached, l.more (!l.isReached).toNat) := by
  unfold SaveLimit.acquire
  cases l.isReached <;> rfl

/-- A request touches store and limits only where it is saved. -/
theorem onRequest_eq_noted (c : Cache) (r : Request) :
    (c.onRequest r).2.settings = (c.noted r).settings ∧
      (c.onRequest r).2.store = (c.noted r).store ∧
      (c.onRequest r).2.counters.requests = (c.noted r).counters.requests ∧
      (c.onRequest r).2.counters.responses = (c.noted r).counters.responses := by
  rcases onRequest_cases c r with ⟨-, h⟩ | ⟨-, reply, -, h⟩ | ⟨-, -, -, d, h⟩ | ⟨-, -, -, h⟩
  · rw [h]
    exact ⟨rfl, rfl, rfl, rfl⟩
  · rw [h]
    exact ⟨rfl, rfl, rfl, rfl⟩
  · rw [h]
    exact ⟨rfl, rfl, rfl, rfl⟩
  · rw [h]
    exact ⟨rfl, rfl, rfl, rfl⟩

/-- A granted request is put under its fingerprint, if it can be written. -/
theorem noted_spec (c : Cache) (r : Request) :
    (c.noted r).counters.requests
        = c.counters.requests.more (Kind.requests.granted c (.request r)).toNat ∧
      (c.noted r).store =
        if Kind.requests.granted c (.request r) then
          c.store.withTaken .requests ((Move.request r).puts .requests)
        else c.store := by
  cases hsaves : c.settings.saveRequests with
  | false => simp [noted, Kind.granted, Kind.asks, hsaves, SaveLimit.more]
  | true =>
    simp only [noted, Kind.granted, Kind.asks, Kind.limit, hsaves, saveRequest, acquire_eq, if_true,
      Bool.true_and]
    cases hreached : c.counters.requests.isReached with
    | true => exact ⟨rfl, rfl⟩
    | false => exact ⟨rfl, put_getD_eq c.store .requests _ _⟩

/-- Writing a response is putting in its body and then its headers. -/
theorem written_eq_withValues (s : Store) {key : String} {r : Response}
    (hkey : r.context.fingerprint = some key) :
    written s key r = (s.withValues .responses ((Move.response r).puts .responses)).withValues
      .headers ((Move.response r).puts .headers) := by
  simp only [Move.puts, hkey, Option.toList_some, List.map_cons, List.map_nil]
  rfl

/-- A response is granted a slot if it is saved under some key. -/
theorem granted_responses_iff {c : Cache} {r : Response} :
    Kind.responses.granted c (.response r) = true ↔ ∃ key, c.saves key r = true := by
  simp only [Kind.granted, Kind.asks, Kind.limit, Bool.and_eq_true, Bool.not_eq_true',
    Option.isSome_iff_exists, saves_iff, acquire_eq, Response.isSuccess, beq_iff_eq]
  constructor
  · rintro ⟨⟨⟨⟨hsaves, hfresh⟩, hstatus⟩, key, hkey⟩, hlimit⟩
    exact ⟨key, hstatus, hfresh, hkey, hsaves, hlimit⟩
  · rintro ⟨key, hstatus, hfresh, hkey, hsaves, hlimit⟩
    exact ⟨⟨⟨⟨hsaves, hfresh⟩, hstatus⟩, key, hkey⟩, hlimit⟩

/-- A response that is not granted a save changes neither store nor counters. -/
theorem onResponse_of_not_granted {c : Cache} {r : Response}
    (h : Kind.responses.granted c (.response r) = false) :
    (c.onResponse r).store = c.store ∧ (c.onResponse r).counters = c.counters := by
  have hnone (key : String) : c.saves key r = false := by
    rw [Bool.eq_false_iff]
    intro hsaves
    rw [granted_responses_iff.2 ⟨key, hsaves⟩] at h
    cases h
  obtain ⟨hstore, -, hcounters⟩ := onResponse_of_not_saves hnone
  exact ⟨hstore, hcounters⟩

/-- A granted response is put under the fingerprint of its call. -/
theorem store_onResponse_of_works {c : Cache} (h : c.store.Works) (r : Response) :
    (c.onResponse r).store =
      if Kind.responses.granted c (.response r) then
        (c.store.withValues .responses ((Move.response r).puts .responses)).withValues .headers
          ((Move.response r).puts .headers)
      else c.store := by
  cases hgranted : Kind.responses.granted c (.response r) with
  | true =>
    obtain ⟨key, hsaves⟩ := granted_responses_iff.1 hgranted
    rw [onResponse_of_saves h hsaves, if_pos rfl,
      ← written_eq_withValues c.store (saves_iff.1 hsaves).2.2.1]
    rfl
  | false => exact (onResponse_of_not_granted hgranted).1

theorem settings_moved (c : Cache) (m : Move) : (c.moved m).settings = c.settings := by
  cases m with
  | request r => exact (sameSaving_onRequest c r).settings
  | response r => exact settings_onResponse c r
  | merge e => exact settings_merge c e

theorem works_moved {c : Cache} (h : c.store.Works) (m : Move) : (c.moved m).store.Works := by
  cases m with
  | request r => exact (sameSaving_onRequest c r).store.works h
  | response r =>
    show (c.onResponse r).store.Works
    rw [store_onResponse_of_works h]
    split
    · exact (h.withValues _ _).withValues _ _
    · exact h
  | merge e => exact works_merge h e

/-- Whatever fails, a request counts the save that it is granted. -/
theorem limit_onRequest (c : Cache) (k : Kind) (r : Request) :
    k.limit (c.onRequest r).2.counters
      = (k.limit c.counters).more (k.granted c (.request r)).toNat := by
  obtain ⟨-, -, hrequests, hresponses⟩ := onRequest_eq_noted c r
  cases k with
  | requests => exact hrequests.trans (noted_spec c r).1
  | responses => exact hresponses.trans (sameSaving_noted c r).limit

/-- Whatever fails, a response counts the save that it is granted. -/
theorem limit_onResponse (c : Cache) (k : Kind) (r : Response) :
    k.limit (c.onResponse r).counters
      = (k.limit c.counters).more (k.granted c (.response r)).toNat := by
  cases hgranted : Kind.responses.granted c (.response r) with
  | true =>
    obtain ⟨key, hsaves⟩ := granted_responses_iff.1 hgranted
    have hcounters : (c.onResponse r).counters
        = { c.counters with responses := c.counters.responses.acquire.2 } := by
      rw [onResponse_eq_of_saves hsaves]
      dsimp only
      split <;> rfl
    have hlimit : (!c.counters.responses.isReached) = true := by
      have hacquired := (saves_iff.1 hsaves).2.2.2.2
      rwa [acquire_eq] at hacquired
    rw [hcounters, acquire_eq, hlimit]
    cases k with
    | requests => rfl
    | responses =>
      rw [hgranted]
      rfl
  | false =>
    rw [(onResponse_of_not_granted hgranted).2]
    cases k with
    | requests => rfl
    | responses =>
      rw [hgranted]
      rfl

/-- **One move counts what it saves and imports**, for each kind on its own. -/
theorem limit_moved {c : Cache} (h : c.store.Works) (k : Kind) (m : Move) :
    k.limit (c.moved m).counters
      = (k.limit c.counters).more ((k.granted c m).toNat + k.imports m) := by
  cases m with
  | request r => exact limit_onRequest c k r
  | response r => exact limit_onResponse c k r
  | merge e =>
    show k.limit (c.merge e).2.counters = _
    rw [counters_merge h]
    cases k <;> simp [Kind.limit, Kind.granted, Kind.asks, Kind.imports, Kind.table]

/-- **One move puts what it is granted or imports**, into the tables of each kind on its own. -/
theorem table_moved {c : Cache} (h : c.store.Works) (m : Move) (t : Table) :
    (c.moved m).store.table t =
      if t.kind.granted c m || m.isMerge then putAll (c.store.table t) (m.puts t)
      else c.store.table t := by
  cases m with
  | request r =>
    show (c.onRequest r).2.store.table t = _
    rw [(onRequest_eq_noted c r).2.1, (noted_spec c r).2, withTaken_of_works h]
    cases t with
    | requests =>
      simp only [Table.kind, Move.isMerge, Bool.or_false]
      split
      · rw [table_withValues, if_pos rfl]
      · rfl
    | responses => split <;> rfl
    | headers => split <;> rfl
  | response r =>
    show (c.onResponse r).store.table t = _
    rw [store_onResponse_of_works h]
    cases t with
    | requests => split <;> rfl
    | responses =>
      simp only [Table.kind, Move.isMerge, Bool.or_false]
      split
      · rfl
      · rfl
    | headers =>
      simp only [Table.kind, Move.isMerge, Bool.or_false]
      split
      · rfl
      · rfl
  | merge e =>
    show (c.merge e).2.store.table t = _
    rw [table_merge h]
    simp [Move.isMerge, Move.puts]

/-! ## Runs -/

theorem works_after {c : Cache} (h : c.store.Works) (moves : List Move) :
    (c.after moves).store.Works := by
  induction moves generalizing c with
  | nil => exact h
  | cons m rest ih => exact ih (works_moved h m)

theorem settings_after (c : Cache) (moves : List Move) :
    (c.after moves).settings = c.settings := by
  induction moves generalizing c with
  | nil => rfl
  | cons m rest ih => exact (ih (c.moved m)).trans (settings_moved c m)

/-- **The counter of a kind is the number of its saves and imports.** -/
theorem limit_after {c : Cache} (h : c.store.Works) (k : Kind) (moves : List Move) :
    k.limit (c.after moves).counters
      = (k.limit c.counters).more (k.grants c moves + k.imported moves) := by
  induction moves generalizing c with
  | nil => rfl
  | cons m rest ih =>
    refine (ih (works_moved h m)).trans ?_
    rw [limit_moved h, Kind.grants, Kind.imported, Kind.imported, List.map_cons, List.sum_cons]
    simp only [SaveLimit.more, SaveLimit.mk.injEq, true_and]
    omega

/-- No more saves are granted than the limit has left. -/
theorem grants_le {c : Cache} (h : c.store.Works) {k : Kind} {max : Nat}
    (hmax : (k.limit c.counters).max = some max) (moves : List Move) :
    k.grants c moves ≤ max - (k.limit c.counters).saved := by
  induction moves generalizing c with
  | nil => exact Nat.zero_le _
  | cons m rest ih =>
    have hlimit := limit_moved h k m
    have hmax' : (k.limit (c.moved m).counters).max = some max := by
      rw [hlimit]
      exact hmax
    have hrest := ih (works_moved h m) hmax'
    rw [hlimit] at hrest
    simp only [SaveLimit.more] at hrest
    rw [Kind.grants]
    -- a save is granted only if there is one left
    cases hgranted : k.granted c m with
    | false =>
      simp only [hgranted, Bool.toNat_false] at hrest ⊢
      omega
    | true =>
      have hleft : (k.limit c.counters).saved < max := by
        simpa [Kind.granted, SaveLimit.isReached, hmax] using (Bool.and_eq_true_iff.1 hgranted).2
      simp only [hgranted, Bool.toNat_true] at hrest ⊢
      omega

/-- What is saved of a kind in a run from a new cache. -/
structure Kind.Limited (k : Kind) (s : Settings) (store : Store) (moves : List Move) : Prop where
  counted : (k.limit ((start s store).after moves).counters).saved
    = k.grants (start s store) moves + k.imported moves
  most : ∀ max, k.max s = some max → k.grants (start s store) moves ≤ max
  granted_iff : ∀ max, k.max s = some max → ∀ m,
    k.granted ((start s store).after moves) m = true ↔
      k.asks s m = true ∧ k.grants (start s store) moves + k.imported moves < max
  refused : ∀ m, k.asks s m = true → k.granted ((start s store).after moves) m = false →
    ∀ later m', k.granted ((start s store).after (moves ++ m :: later)) m' = false
  puts : ∀ m t, t.kind = k →
    (((start s store).after moves).moved m).store.table t =
      if k.granted ((start s store).after moves) m || m.isMerge then
        putAll (((start s store).after moves).store.table t) (m.puts t)
      else ((start s store).after moves).store.table t

/-- A cache starts with no slot of either kind taken. -/
theorem limit_start (k : Kind) (s : Settings) (store : Store) :
    k.limit (start s store).counters = .fresh (k.max s) := by
  cases k <;> rfl

/-- **Over a whole run the limit of a kind holds.** -/
theorem limited_after (k : Kind) (s : Settings) {store : Store} (h : store.Works)
    (moves : List Move) : k.Limited s store moves := by
  have hstart : (start s store).store.Works := h
  have hlimit := limit_after hstart k moves
  have hsettings : ((start s store).after moves).settings = s :=
    settings_after (start s store) moves
  rw [limit_start] at hlimit
  constructor
  · rw [hlimit]
    exact Nat.zero_add _
  · intro max hmax
    have hle := grants_le hstart (k := k) (by rw [limit_start]; exact hmax) moves
    rw [limit_start] at hle
    exact hle
  · intro max hmax m
    simp [Kind.granted, hsettings, hlimit, SaveLimit.isReached, SaveLimit.more, SaveLimit.fresh,
      hmax]
  · intro m hasks hrefused later m'
    have hreached : (k.limit ((start s store).after moves).counters).isReached = true := by
      simpa [Kind.granted, hsettings, hasks] using hrefused
    -- the counter only grows
    have hlater := limit_after (works_after hstart moves) k (m :: later)
    rw [Kind.granted, after_append, hlater, SaveLimit.isReached_more hreached]
    simp
  · intro m t ht
    rw [table_moved (works_after hstart moves), ht]

/-! ## One kind does not depend on the limit of the other -/

/-- Two caches save the same of a kind. -/
structure Kind.Alike (k : Kind) (c c' : Cache) : Prop where
  works : c.store.Works
  works' : c'.store.Works
  asks : ∀ m, k.asks c'.settings m = k.asks c.settings m
  limit : k.limit c'.counters = k.limit c.counters
  tables : ∀ t, t.kind = k → c'.store.table t = c.store.table t

/-- Caches that are alike for a kind grant the same moves of it. -/
theorem Kind.Alike.granted {k : Kind} {c c' : Cache} (h : k.Alike c c') (m : Move) :
    k.granted c' m = k.granted c m := by
  rw [Kind.granted, Kind.granted, h.asks, h.limit]

/-- One move saves the same in both. -/
theorem Kind.Alike.moved {k : Kind} {c c' : Cache} (h : k.Alike c c') (m : Move) :
    k.Alike (c.moved m) (c'.moved m) := by
  refine ⟨works_moved h.works m, works_moved h.works' m, ?_, ?_, ?_⟩
  · intro m'
    rw [settings_moved, settings_moved]
    exact h.asks m'
  · rw [limit_moved h.works, limit_moved h.works', h.limit, h.granted]
  · intro t ht
    rw [table_moved h.works, table_moved h.works', h.tables t ht, ht, h.granted]

/-- **A run saves the same** in both. -/
theorem Kind.Alike.after {k : Kind} {c c' : Cache} (h : k.Alike c c') (moves : List Move) :
    k.Alike (c.after moves) (c'.after moves) ∧ k.grants c' moves = k.grants c moves := by
  induction moves generalizing c c' with
  | nil => exact ⟨h, rfl⟩
  | cons m rest ih =>
    obtain ⟨hafter, hgrants⟩ := ih (h.moved m)
    refine ⟨hafter, ?_⟩
    rw [Kind.grants, Kind.grants, hgrants, h.granted]

/-- Another maximum for one kind leaves the other alone. -/
theorem alike_withMax {k other : Kind} (hne : k ≠ other) (s : Settings) (max : Option Nat)
    {store : Store} (h : store.Works) :
    k.Alike (start s store) (start (other.withMax s max) store) := by
  refine ⟨h, h, ?_, ?_, fun _ _ => rfl⟩
  · intro m
    cases other <;> cases k <;> cases m <;> rfl
  · rw [limit_start, limit_start]
    cases other <;> cases k
    · exact absurd rfl hne
    · rfl
    · rfl
    · exact absurd rfl hne

end EvalProxy.Cache
