/-
# A cache over its store in the world

A cache as a stage of a chain takes its store out of the world and puts it back. What it does to the
store is what it does on its own.

Main statements: `Caching.store_settle`, `Caching.onRequest_spec`, `Caching.onResponse_spec`.
-/
import EvalProxy.Cache.Interceptor
import EvalProxy.Proofs.Cache.Calls
import EvalProxy.Proofs.World
namespace EvalProxy

open Cache (fingerprint lookup marked replayed written)

/-- Nothing that a cache would replay is stored under a key. -/
def Cache.Lacks (settings : Cache.Settings) (store : Cache.Store) (key : String) : Prop :=
  settings.reuse = true → ∀ reply, lookup store key ≠ .ok (some reply)

namespace Caching

variable {c : Caching} {w : World}

/-- When a cache settles, the store at its place is the one it left. -/
theorem store_settle (hworks : (w.store c.place).Works) (after : Cache) :
    (c.settle w after).2.store c.place = after.store := by
  show World.store { w.withStore c.place after.store with events := after.events } c.place = _
  rw [World.store_withEvents, World.store_withStore hworks]

/-- A place that is dislodged stays so when a cache settles. -/
theorem dislodged_settle {place : Location} (h : w.Dislodged place) (after : Cache) :
    (c.settle w after).2.Dislodged place := by
  have hput := h.withStore c.place after.store
  cases place with
  | memory => exact h
  | file path => exact hput

/-- What a cache makes of a request, with its store put back into the world. -/
theorem onRequest_spec (hworks : (w.store c.place).Works) (r : Request) :
    ∃ c' w', c'.settings = c.settings ∧ c'.place = c.place ∧
      c'.counters.responses = c.counters.responses ∧ w'.model = w.model ∧ w'.asked = w.asked ∧
      (w.store c.place).SameResponses (w'.store c.place) ∧
      ((Cache.Lacks c.settings (w.store c.place) (fingerprint r.body) ∧
          ∃ e, c.onRequest r w = (.error e, c', w')) ∨
        (c.settings.reuse = true ∧ ∃ reply,
          lookup (w.store c.place) (fingerprint r.body) = .ok (some reply) ∧
          c.onRequest r w = (.ok (.answer (replayed r reply)), c', w')) ∨
        (Cache.Lacks c.settings (w.store c.place) (fingerprint r.body) ∧
          c.onRequest r w = (.ok (.proceed (marked r)), c', w'))) := by
  have hsame := Cache.sameSaving_onRequest (c.cache w) r
  have htaken : c.onRequest r w =
      (((c.cache w).onRequest r).1, c.settle w ((c.cache w).onRequest r).2) := rfl
  obtain ⟨hmodel, hasked⟩ := World.questions_withStore w c.place ((c.cache w).onRequest r).2.store
  refine ⟨(c.settle w ((c.cache w).onRequest r).2).1, (c.settle w ((c.cache w).onRequest r).2).2,
    rfl, rfl, hsame.limit, hmodel, hasked, ?_, ?_⟩
  · rw [store_settle hworks]
    exact hsame.store
  · rw [htaken]
    rcases Cache.onRequest_cases (c.cache w) r with
      ⟨hno, h⟩ | ⟨hreuse, reply, hfound, h⟩ | ⟨-, hmiss, -, d, h⟩ | ⟨-, hmiss, -, h⟩
    · refine Or.inr (Or.inr ⟨?_, by rw [h]⟩)
      intro hreuse
      exact absurd hno (by simp [cache, hreuse])
    · exact Or.inr (Or.inl ⟨hreuse, reply, hfound, by rw [h]⟩)
    · exact Or.inl ⟨fun _ => hmiss, _, by rw [h]⟩
    · exact Or.inr (Or.inr ⟨fun _ => hmiss, by rw [h]⟩)

/-- What a cache does with a response, with its store put back into the world. -/
theorem onResponse_spec (hworks : (w.store c.place).Works) (p : Response) :
    ∃ c' w', c.onResponse p w = (.ok p, c', w') ∧ c'.settings = c.settings ∧ c'.place = c.place ∧
      w'.model = w.model ∧ w'.asked = w.asked ∧
      (∀ key, (c.cache w).saves key p = true →
        w'.store c.place = written (w.store c.place) key p ∧
          c'.counters.responses = c.counters.responses.acquire.2) ∧
      ((∀ key, (c.cache w).saves key p = false) →
        w'.store c.place = w.store c.place ∧ c'.counters.responses = c.counters.responses) := by
  obtain ⟨hmodel, hasked⟩ := World.questions_withStore w c.place ((c.cache w).onResponse p).store
  refine ⟨(c.settle w ((c.cache w).onResponse p)).1, (c.settle w ((c.cache w).onResponse p)).2,
    rfl, rfl, rfl, hmodel, hasked, ?_, ?_⟩
  · intro key hsaves
    rw [store_settle hworks, Cache.onResponse_of_saves hworks hsaves]
    exact ⟨rfl, rfl⟩
  · intro hnot
    obtain ⟨hstore, -, hcounters⟩ := Cache.onResponse_of_not_saves hnot
    have hlimit : ((c.cache w).onResponse p).counters.responses = c.counters.responses := by
      rw [hcounters]
      rfl
    rw [store_settle hworks]
    exact ⟨hstore, hlimit⟩

end Caching

end EvalProxy
