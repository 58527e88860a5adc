/-
# Trouble with the store

Operations on a store may fail, others from one visit to the next. A save that is granted counts
whether or not its entry can be written, and what cannot be written leaves the store as it was: a
request is written or not, and of a response the body alone may be written.

Main definitions: `Trouble`, `Store.amid`, `runAmid`.
Main statements: `writeResponse_eq`, `limit_step`, `table_step`.
-/
import EvalProxy.Proofs.Cache.Limits
import EvalProxy.Proofs.Cache.Replay
namespace EvalProxy.Cache

open Store

/-! ## Visits amid trouble -/

/-- What fails while something reaches a cache: some operations on its store, or all of them. -/
structure Trouble where
  faults : Faults
  lost : Bool

/-- The store while operations fail. -/
def Store.amid (s : Store) (t : Trouble) : Store := { s with faults := t.faults, lost := t.lost }

theorem Store.table_amid (s : Store) (t : Trouble) (u : Table) :
    (s.amid t).table u = s.table u := by
  cases u <;> rfl

/-- The cache while operations fail. -/
def amid (c : Cache) (t : Trouble) : Cache :=
  { c with store := { c.store with faults := t.faults, lost := t.lost } }

/-- The cache after some visits, each with its own trouble. -/
def runAmid (c : Cache) (visits : List (Trouble × Visit)) : Cache :=
  visits.foldl (fun c v => (c.amid v.1).step v.2) c

/-! ## What is written -/

/-- **Whatever fails, a response is written as a whole, or only its body, or not at all.** -/
theorem writeResponse_eq (s : Store) (key : String) (p : Response) :
    writeResponse s key p =
      if s.takes .responses key then
        if s.takes .headers key then (true, written s key p)
        else (false, s.withValues .responses [(key, p.body)])
      else (false, s) := by
  rw [writeResponse, put_eq]
  cases s.takes .responses key with
  | true =>
    simp only [if_true, putHeaders, putHeaderMap, put_eq, takes_withValues]
    cases s.takes .headers key <;> rfl
  | false => rfl

/-- A response that is saved leaves the store that writing it leaves. -/
theorem store_onResponse_of_saves {c : Cache} {key : String} {p : Response}
    (h : c.saves key p = true) : (c.onResponse p).store = (writeResponse c.store key p).2 := by
  rw [onResponse_eq_of_saves h]
  dsimp only
  split <;> rfl

/-- A visit as a move. -/
def Visit.move : Visit → Move
  | .request r => .request r
  | .response p => .response p

/-- **Whatever fails, a visit counts the saves that it is granted.** -/
theorem limit_step (c : Cache) (k : Kind) (v : Visit) :
    k.limit (c.step v).counters = (k.limit c.counters).more (k.granted c v.move).toNat := by
  cases v with
  | request r => exact limit_onRequest c k r
  | response p => exact limit_onResponse c k p

/-- **Whatever fails, a visit puts what it is granted and what can be written.** -/
theorem table_step (c : Cache) (k : Kind) (v : Visit) :
    (c.step v).store.table k.table =
      if k.granted c v.move then (c.store.withTaken k.table (v.move.puts k.table)).table k.table
      else c.store.table k.table := by
  cases v with
  | request r =>
    have hstore : (c.step (.request r)).store = (c.noted r).store := (onRequest_eq_noted c r).2.1
    rw [hstore, (noted_spec c r).2]
    cases k with
    | requests => exact apply_ite (fun s => Store.table s .requests) _ _ _
    | responses => split <;> rfl
  | response p =>
    show (c.onResponse p).store.table k.table = _
    cases k with
    | requests => exact Dict.ext_get? fun key => get?_onResponse (t := .requests) c (.inl rfl)
    | responses =>
      show (c.onResponse p).store.responses
        = if Kind.responses.granted c (.response p) then
            (c.store.withTaken .responses ((Move.response p).puts .responses)).responses
          else c.store.responses
      cases hgranted : Kind.responses.granted c (.response p) with
      | true =>
        obtain ⟨key, hsaves⟩ := granted_responses_iff.1 hgranted
        have hputs : (Move.response p).puts .responses = [(key, p.body)] := by
          rw [Move.puts, (saves_iff.1 hsaves).2.2.1]
          rfl
        rw [store_onResponse_of_saves hsaves, writeResponse_eq, hputs, withTaken]
        cases htakes : c.store.takes .responses key with
        | true =>
          simp only [List.filter_cons, htakes, List.filter_nil, if_true]
          split <;> rfl
        | false =>
          simp only [List.filter_cons, htakes, List.filter_nil]
          rfl
      | false => rw [(onResponse_of_not_granted hgranted).1]; rfl

end EvalProxy.Cache
