/-
# Calls under a save limit

A chain whose only cache saves a limited number of responses takes calls one after another. Hits
keep a key from being saved twice, so that the table of responses fills up with the keys that the
model answered until the limit is reached.

Main definition: `CachedChain.Filled`.
Main statement: `CachedChain.saves_within_limits`.
-/
import EvalProxy.Proofs.Cache.Limits
import EvalProxy.Proofs.Chain.Repeated
import Mathlib.Data.List.Dedup
namespace EvalProxy.CachedChain

open Cache (Kind Move fingerprint written)
open Chain (answeredKeys isAnswered isAnswered_self isAnswered_cons served)

/-! ## A table that fills up -/

/-- The table of responses holds some of the keys that the model answered: all of them, as long as
there are saves left. -/
structure Filled (max : Nat) (keys : List String) (v : View) : Prop where
  works : v.store.Works
  limit : v.limit.max = some max
  counted : v.limit.saved = v.store.responses.size
  most : v.store.responses.size ≤ max
  held : ∀ key ∈ v.store.responses.keys, ∃ body map, v.store.Holds key body map
  answered : ∀ key ∈ v.store.responses.keys, key ∈ keys
  complete : v.store.responses.size < max → ∀ key ∈ keys, key ∈ v.store.responses.keys

/-- A working blank store under a fresh limit is filled by no key. -/
theorem filled_of_isBlank {v : View} {max : Nat} (hworks : v.store.Works)
    (hlimit : v.limit = .fresh (some max)) (hblank : v.store.IsBlank) : Filled max [] v := by
  have hempty : v.store.responses = .empty := hblank .responses
  constructor
  · exact hworks
  · rw [hlimit]
    rfl
  · rw [hlimit, hempty]
    rfl
  · rw [hempty]
    exact Nat.zero_le max
  · rw [hempty]
    nofun
  · rw [hempty]
    nofun
  · intro _
    nofun

/-- A save is granted as long as the table is not full. -/
theorem Filled.granted_iff {max : Nat} {keys : List String} {v : View} (h : Filled max keys v) :
    v.limit.acquire.1 = true ↔ v.store.responses.size < max := by
  simp [Cache.SaveLimit.acquire_granted_iff, Cache.SaveLimit.isReached, h.limit, h.counted]

/-- A call that saves nothing may leave a key unsaved only if the table is full. -/
theorem Filled.kept {max : Nat} {keys more : List String} {v v' : View} (h : Filled max keys v)
    (hstore : v.store.SameResponses v'.store) (hlimit : v'.limit = v.limit)
    (hmore : v.store.responses.size < max → more = []) : Filled max (keys ++ more) v' := by
  refine ⟨hstore.works h.works, ?_, ?_, ?_, ?_, ?_, ?_⟩
  · rw [hlimit]
    exact h.limit
  · rw [hlimit, hstore.responses]
    exact h.counted
  · rw [hstore.responses]
    exact h.most
  · rw [hstore.responses]
    intro key hkey
    obtain ⟨body, map, hholds⟩ := h.held key hkey
    exact ⟨body, map, hstore.holds hholds⟩
  · rw [hstore.responses]
    exact fun key hkey => List.mem_append_left _ (h.answered key hkey)
  · rw [hstore.responses]
    intro hleft key hkey
    rw [hmore hleft, List.append_nil] at hkey
    exact h.complete hleft key hkey

/-- A call that saves a new key fills the table by one. -/
theorem Filled.saved {max : Nat} {keys : List String} {v v' : View} {s : Cache.Store}
    {key : String} {kept : Response} (h : Filled max keys v)
    (hgranted : v.limit.acquire.1 = true) (hnew : key ∉ v.store.responses.keys)
    (hstore : v.store.SameResponses s) (hwritten : v'.store = written s key kept)
    (hlimit : v'.limit = v.limit.acquire.2) : Filled max (keys ++ [key]) v' := by
  have hleft := h.granted_iff.1 hgranted
  have hresponses : v'.store.responses = v.store.responses.insert key (.sound kept.body) := by
    rw [hwritten, ← hstore.responses]
    rfl
  have hsize : v'.store.responses.size = v.store.responses.size + 1 := by
    rw [hresponses, Dict.size_insert_of_not_mem hnew]
  have hkeys (key' : String) :
      key' ∈ v'.store.responses.keys ↔ key' = key ∨ key' ∈ v.store.responses.keys := by
    rw [hresponses, Dict.mem_keys_insert]
  constructor
  · rw [hwritten]
    exact Cache.works_written (hstore.works h.works) key kept
  · rw [hlimit, Cache.SaveLimit.max_acquire]
    exact h.limit
  · rw [hlimit, Cache.SaveLimit.saved_acquire, if_pos hgranted, hsize, h.counted]
  · rw [hsize]
    exact hleft
  · intro key' hkey'
    rw [hwritten]
    by_cases heq : key = key'
    · subst heq
      exact ⟨_, _, Cache.holds_written s key kept⟩
    · have hold := ((hkeys key').1 hkey').resolve_left (Ne.symm heq)
      obtain ⟨body, map, hholds⟩ := h.held key' hold
      obtain ⟨hbody, hfields⟩ := hstore.holds hholds
      have hget := Cache.get?_written_of_ne s heq kept
      exact ⟨body, map, hget.1.trans hbody, hget.2.trans hfields⟩
  · intro key' hkey'
    rcases (hkeys key').1 hkey' with rfl | hold
    · simp
    · exact List.mem_append_left _ (h.answered key' hold)
  · intro _ key' hkey'
    rw [hkeys]
    rcases List.mem_append.1 hkey' with hold | hlast
    · exact .inr (h.complete hleft key' hold)
    · exact .inl (List.mem_singleton.1 hlast)

/-- **One call** keeps a table filled with what the model answered. -/
theorem Filled.step {ch : CachedChain} {model : List Request → Except Failure Reply} {r : Request}
    {v v' : View} {outcome : Except Failure Response} {max : Nat} {keys : List String}
    (h : Filled max keys v) (heffect : ch.Effect model r v outcome v')
    (hreuse : ch.cache.settings.reuse = true) (hsaves : ch.cache.settings.saveResponses = true) :
    Filled max (keys ++
      if isAnswered model v.asked v'.asked = true then (ch.key? r).toList else []) v' := by
  have hunasked (hasked : v'.asked = v.asked) :
      (if isAnswered model v.asked v'.asked = true then (ch.key? r).toList else []) = [] := by
    rw [hasked, isAnswered_self, if_neg Bool.false_ne_true]
  cases heffect with
  | refused e _ hlacks hsame =>
    exact h.kept hsame.store hsame.limit fun _ => hunasked hsame.asked
  | replayed key reply p _ hkey _ hfound hp hsame =>
    exact h.kept hsame.store hsame.limit fun _ => hunasked hsame.asked
  | unanswered key q e _ hkey hlacks hasked hfails hstore hlimit =>
    refine h.kept hstore hlimit fun _ => if_neg ?_
    rw [hasked, isAnswered_cons]
    rintro ⟨reply, hreply, -⟩
    rw [hasked, hreply] at hfails
    cases hfails
  | unsaved key q reply p _ hkey hlacks hasked hreply hp hnot hstore hlimit =>
    -- an answer that is not saved met a full table
    refine h.kept hstore hlimit fun hleft => if_neg ?_
    rw [hasked, isAnswered_cons]
    rintro ⟨reply', hreply', hstatus⟩
    rw [hasked, hreply'] at hreply
    obtain rfl := Except.ok.inj hreply
    exact hnot ⟨hstatus, hsaves, h.granted_iff.2 hleft⟩
  | saved key q reply p _ s kept hkey hlacks hasked hreply hp hstatus _ hgranted _ _ hstore hwritten
      hlimit =>
    have hanswered : isAnswered model v.asked v'.asked = true := by
      rw [hasked, isAnswered_cons]
      exact ⟨reply, hasked ▸ hreply, hstatus⟩
    -- what is stored would have been replayed
    have hnew : key ∉ v.store.responses.keys := by
      intro hmem
      obtain ⟨body, map, hholds⟩ := h.held key hmem
      exact not_lacks_of_holds hreuse h.works hholds hlacks
    rw [if_pos hanswered, hkey]
    exact h.saved hgranted hnew hstore hwritten hlimit

/-- A filled table has as many entries as different keys were answered, up to the limit. -/
theorem Filled.size_eq {max : Nat} {keys : List String} {v : View} (h : Filled max keys v) :
    v.store.responses.size = min max keys.dedup.length := by
  have hsize : v.store.responses.size = v.store.responses.keys.length := by
    rw [Dict.keys, List.length_map, Dict.size]
  have hnodup := v.store.responses.nodup_keys
  have hsubset : v.store.responses.keys ⊆ keys.dedup :=
    fun key hkey => List.mem_dedup.2 (h.answered key hkey)
  have hle := (List.subperm_of_subset hnodup hsubset).length_le
  have hmost := h.most
  by_cases hleft : v.store.responses.size < max
  · have hsuperset : keys.dedup ⊆ v.store.responses.keys :=
      fun key hkey => h.complete hleft key (List.mem_dedup.1 hkey)
    have hge := (List.subperm_of_subset (List.nodup_dedup keys) hsuperset).length_le
    omega
  · omega

/-! ## Limits over whole runs -/

/-- **Save limits hold over whole runs.** In any run of requests, responses and imports the saves of
each kind stay within its limit, count together with the imports, end for good with the first one
that is refused, and do not depend on the limit of the other kind. When calls go one after another
through a chain with this cache alone, over a store that is blank at first, the table of responses
ends with as many entries as different keys were answered, up to the limit. -/
theorem saves_within_limits (s : Cache.Settings) :
    (∀ (store : Cache.Store) (moves : List Move) (k : Kind), store.Works →
      k.Limited s store moves ∧
      ∀ (other : Kind) (max : Option Nat), k ≠ other →
        let c := (Cache.start s store).after moves
        let c' := (Cache.start (other.withMax s max) store).after moves
        (∀ m, k.granted c' m = k.granted c m) ∧
          ∀ t, t.kind = k → c'.store.table t = c.store.table t) ∧
    ∀ (ch : CachedChain) (w : World) (calls : List Request) (max : Nat),
      ch.cache.settings = s → ch.cache.counters = .fresh s → s.reuse = true →
      s.saveResponses = true → s.maxResponses = some max →
      (w.store ch.cache.place).IsBlank → (∀ r ∈ calls, r.context.fromCache = false) →
      ch.WorksThroughout w calls →
      ((served ch.stages w calls).2.store ch.cache.place).responses.size
        = min max (answeredKeys ch.key? ch.stages w calls).dedup.length := by
  constructor
  · intro store moves k hworks
    refine ⟨Cache.limited_after k s hworks moves, ?_⟩
    intro other max hne c c'
    obtain ⟨halike, -⟩ := (Cache.alike_withMax hne s max hworks).after moves
    exact ⟨halike.granted, halike.tables⟩
  · rintro ch w calls max rfl hcounters hreuse hsaves hmax hblank hfresh hworks
    have hlimit : (ch.view w).limit = .fresh (some max) := by
      show ch.cache.counters.responses = _
      rw [hcounters, ← hmax]
      rfl
    obtain ⟨ch', w', hserved, halike, -, hfilled⟩ :=
      served_keeps (P := Filled max)
        (fun halike heffect _ _ h =>
          h.step heffect (halike.settings ▸ hreuse) (halike.settings ▸ hsaves))
        hfresh hworks [] (filled_of_isBlank hworks.start hlimit hblank)
    have hsize := hfilled.size_eq
    rw [hserved, ← halike.place]
    exact hsize

/-- The settings of a cache that saves one response. -/
def oneSettings : Cache.Settings := { plainSettings with maxResponses := some 1 }

/-- A cache that may save one response saves one of two, and leaves one entry behind a call. -/
theorem saves_within_limits_one :
    let saved : Response := ⟨200, [], [], ⟨"a", some "k", false⟩⟩
    let ch : CachedChain := ⟨[], .onPlace oneSettings .memory, [], by simp⟩
    let twice : List Move := [.response saved, .response saved]
    Kind.responses.grants (Cache.start oneSettings .empty) twice ≤ 1 ∧
      ((served ch.stages (constantWorld []) [emptyRequest]).2.store .memory).responses.size
        = 1 := by
  intro saved ch twice
  obtain ⟨hlimits, hchain⟩ := saves_within_limits oneSettings
  constructor
  · exact (hlimits .empty _ .responses Cache.Store.works_empty).1.most 1 rfl
  · have hfresh : ∀ r ∈ [emptyRequest], r.context.fromCache = false := by
      simp [emptyRequest, Context.arrived]
    have hworks : ch.WorksThroughout (constantWorld []) [emptyRequest] :=
      worksThroughout_of_memory rfl hfresh Cache.Store.works_empty
    have hanswered : fingerprint .null ∈
        (answeredKeys ch.key? ch.stages (constantWorld []) [emptyRequest]).dedup := by
      rw [List.mem_dedup, answeredKeys]
      split
      · exact List.mem_cons_self
      · rename_i hnot
        exact absurd rfl hnot
    have hsize := hchain ch (constantWorld []) [emptyRequest] 1 rfl rfl rfl rfl rfl
      Cache.Store.isBlank_empty hfresh hworks
    refine hsize.trans (Nat.min_eq_left ?_)
    exact List.length_pos_of_mem hanswered

end EvalProxy.CachedChain
