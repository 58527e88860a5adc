/-
# Stored entries

What is stored under a fingerprint is a body and header fields. It changes only when a response is
saved under that fingerprint, which then takes its place as a whole. A cache that reuses responses
saves none for a call that begins once the entry is stored, so the entry gives way only to calls
that were already in flight.

Main definitions: `Store.entry`, `entryOf`, `Begun`.
Main statements: `entry_run`, `entries_only_replaced`.
-/
import EvalProxy.Proofs.Cache.Replay
namespace EvalProxy.Cache

open Store

/-! ## Entries -/

/-- What is stored under a key: a body and header fields. -/
def Store.entry (s : Store) (key : String) : Option Cell × Option Cell :=
  (s.responses.get? key, s.headers.get? key)

/-- What is stored once a response is saved. -/
def entryOf (p : Response) : Option Cell × Option Cell :=
  (some (.sound p.body), some (.sound (Text.encode (headersJson p.headers.normalize).compact)))

/-- Stores with the same responses hold the same entry under every key. -/
theorem Store.SameResponses.entry_eq {s s' : Store} (h : s.SameResponses s') (key : String) :
    s'.entry key = s.entry key := by
  rw [Store.entry, Store.entry, h.responses, h.headers]

/-- A response that is written is the entry under its key. -/
theorem entry_written (s : Store) (key : String) (p : Response) :
    (written s key p).entry key = entryOf p :=
  Prod.ext (holds_written s key p).1 (holds_written s key p).2

/-- Writing a response leaves the entries under other keys. -/
theorem entry_written_of_ne (s : Store) {key key' : String} (hne : key ≠ key') (p : Response) :
    (written s key p).entry key' = s.entry key' :=
  Prod.ext (get?_written_of_ne s hne p).1 (get?_written_of_ne s hne p).2

/-- A response that is stored is found. -/
theorem lookup_of_entry {s : Store} {key : String} {p : Response} (hworks : s.Works)
    (h : s.entry key = entryOf p) : ∃ reply, lookup s key = .ok (some reply) := by
  obtain ⟨hbody, hfields⟩ := Prod.mk.inj h
  exact ⟨_, lookup_of_holds hworks ⟨hbody, hfields⟩⟩

/-- Whatever fails, a response changes no entry but that of its own fingerprint. -/
theorem entry_onResponse_of_ne (c : Cache) {p : Response} {key : String}
    (hne : p.context.fingerprint ≠ some key) :
    (c.onResponse p).store.entry key = c.store.entry key :=
  Prod.ext (get?_onResponse (t := .responses) c (.inr hne))
    (get?_onResponse (t := .headers) c (.inr hne))

/-! ## Visits -/

variable {c : Cache} {key : String} {p : Response} {v : Visit} {visits : List Visit}

theorem run_append (c : Cache) (past rest : List Visit) :
    c.run (past ++ rest) = (c.run past).run rest :=
  List.foldl_append

theorem works_step (hworks : c.store.Works) (v : Visit) : (c.step v).store.Works := by
  cases v with
  | request r => exact (sameSaving_onRequest c r).store.works hworks
  | response p =>
    show (c.onResponse p).store.Works
    rcases store_onResponse hworks p with ⟨key, -, hstore⟩ | ⟨-, hstore⟩
    · rw [hstore]
      exact works_written hworks key p
    · rw [hstore]
      exact hworks

theorem works_run (hworks : c.store.Works) (visits : List Visit) : (c.run visits).store.Works := by
  induction visits generalizing c with
  | nil => exact hworks
  | cons v rest ih => exact ih (works_step hworks v)

/-- **One visit** changes an entry only by saving a response under its key. -/
theorem entry_step (hworks : c.store.Works) (key : String) (v : Visit) :
    (c.step v).store.entry key = ((c.savedBy key v).map entryOf).getD (c.store.entry key) := by
  cases v with
  | request r => exact (sameSaving_onRequest c r).store.entry_eq key
  | response p =>
    show (c.onResponse p).store.entry key = _
    rcases store_onResponse hworks p with ⟨key', hsaves, hstore⟩ | ⟨hnone, hstore⟩
    · rw [hstore]
      by_cases hne : key' = key
      · subst hne
        rw [entry_written, savedBy, if_pos hsaves]
        rfl
      · rw [entry_written_of_ne _ hne, savedBy, saves_of_ne hsaves hne]
        rfl
    · rw [hstore, savedBy, hnone]
      rfl

/-- **Any number of visits** leave the entry of the last response that they saved under its key, or
the entry that was there. -/
theorem entry_run (hworks : c.store.Works) (key : String) (visits : List Visit) :
    (c.run visits).store.entry key =
      ((savedFor key c visits).getLast?.map entryOf).getD (c.store.entry key) := by
  induction visits generalizing c with
  | nil => rfl
  | cons v rest ih =>
    have hrest := ih (works_step hworks v)
    rw [entry_step hworks] at hrest
    refine hrest.trans ?_
    rw [savedFor, List.getLast?_append]
    -- a response that the other visits save hides one that the first visit saves
    cases (savedFor key (c.step v) rest).getLast? with
    | some last => rfl
    | none => cases c.savedBy key v <;> rfl

/-- A response that is saved is what is stored under its key. -/
theorem entry_of_saves (hworks : c.store.Works) {past : List Visit}
    (hsaves : (c.run past).saves key p = true) :
    (c.run (past ++ [.response p])).store.entry key = entryOf p := by
  rw [run_append]
  show ((c.run past).step (.response p)).store.entry key = _
  rw [entry_step (works_run hworks past), savedBy, if_pos hsaves]
  rfl

/-! ## Calls in flight -/

/-- The context with which a request is handed on or answered, unless it is refused. -/
def contextOf (c : Cache) (r : Request) : Option Context :=
  match (c.onRequest r).1 with
  | .ok (.proceed q) => some q.context
  | .ok (.answer a) => some a.context
  | .error _ => none

/-- Every response with a fingerprint that is among the visits belongs to a call that begins among
them. -/
def Begun (c : Cache) (key : String) (visits : List Visit) : Prop :=
  ∀ past p rest, visits = past ++ .response p :: rest → p.context.fingerprint = some key →
    ∃ before r after, past = before ++ .request r :: after ∧
      (c.run before).contextOf r = some p.context

/-- A request whose response is stored is answered from the cache. -/
theorem fromCache_of_entry (hreuse : c.settings.reuse = true) (hworks : c.store.Works)
    (hstored : c.store.entry key = entryOf p) {r : Request} {context : Context}
    (hcontext : c.contextOf r = some context) (hkey : context.fingerprint = some key) :
    context.fromCache = true := by
  obtain ⟨reply, hfound⟩ := lookup_of_entry hworks hstored
  unfold contextOf at hcontext
  rcases onRequest_cases c r with ⟨hno, -⟩ | ⟨-, reply', -, h⟩ | ⟨-, -, -, d, h⟩ | ⟨-, hmiss, -, h⟩
  · rw [hreuse] at hno
    simp at hno
  · rw [h] at hcontext
    obtain rfl := Option.some.inj hcontext
    rfl
  · rw [h] at hcontext
    simp at hcontext
  -- a request that goes on has another fingerprint, since nothing is stored for it
  · rw [h] at hcontext
    obtain rfl := Option.some.inj hcontext
    obtain rfl : fingerprint r.body = key := Option.some.inj hkey
    exact absurd hfound (hmiss reply)

/-- Whatever a call that begins once an entry is stored comes to, the entry stays. -/
theorem entry_run_of_begun (hreuse : c.settings.reuse = true) (hworks : c.store.Works)
    (hstored : c.store.entry key = entryOf p) (hbegun : Begun c key visits) :
    ∀ past, past <+: visits → (c.run past).store.entry key = entryOf p := by
  -- induction on what went before; every request of it found the entry in place
  suffices hall : ∀ past, past <+: visits → ∀ before, before <+: past →
      (c.run before).store.entry key = entryOf p from
    fun past hpast => hall past hpast past List.prefix_rfl
  intro past
  induction past using List.reverseRecOn with
  | nil =>
    intro _ before hbefore
    rw [List.prefix_nil.1 hbefore]
    exact hstored
  | append_singleton past v ih =>
    intro hpast before hbefore
    have hkept := ih ((List.prefix_append past [v]).trans hpast)
    rcases List.prefix_concat_iff.1 hbefore with rfl | hbefore
    · rw [run_append]
      show ((c.run past).step v).store.entry key = _
      rw [entry_step (works_run hworks past), hkept past List.prefix_rfl]
      cases v with
      | request r => rfl
      | response p' =>
        have hnot : (c.run past).saves key p' = false := by
          rw [Bool.eq_false_iff]
          intro hsaves
          obtain ⟨-, hfresh, hkey, -⟩ := saves_iff.1 hsaves
          obtain ⟨rest, hvisits⟩ := hpast
          obtain ⟨before, r, after, hbegan, hcontext⟩ :=
            hbegun past p' rest (by simp [← hvisits]) hkey
          have hreuse' : (c.run before).settings.reuse = true := by
            rw [settings_run]
            exact hreuse
          have hcached := fromCache_of_entry hreuse' (works_run hworks before)
            (hkept before ⟨_, hbegan.symm⟩) hcontext hkey
          rw [hfresh] at hcached
          simp at hcached
        rw [savedBy, hnot]
        rfl
    · exact hkept before hbefore

/-- **An entry is only ever replaced**, as a whole, by a later response that is saved under its
fingerprint: no request changes it, and no response that is not saved. A cache that reuses responses
keeps it through all calls that begin once it is stored. -/
theorem entries_only_replaced (hworks : c.store.Works) (past : List Visit)
    (hsaved : (c.run past).saves key p = true) (later : List Visit) :
    let stored := (c.run past).step (.response p)
    stored.store.entry key = entryOf p ∧
    (stored.run later).store.entry key = entryOf ((savedFor key stored later).getLastD p) ∧
    (c.settings.reuse = true → Begun stored key later →
      (stored.run later).store.entry key = entryOf p) := by
  intro stored
  have hrun : c.run (past ++ [.response p]) = stored := run_append c past _
  have hstored : stored.store.entry key = entryOf p := by
    rw [← hrun]
    exact entry_of_saves hworks hsaved
  have hworks' : stored.store.Works := works_step (works_run hworks past) _
  refine ⟨hstored, ?_, ?_⟩
  · rw [entry_run hworks', hstored, List.getLastD_eq_getLast?]
    cases (savedFor key stored later).getLast? <;> rfl
  · intro hreuse hbegun
    have hreuse' : stored.settings.reuse = true := by
      rw [settings_step, settings_run]
      exact hreuse
    exact entry_run_of_begun hreuse' hworks' hstored hbegun later List.prefix_rfl

/-- A response that is saved while another call with its fingerprint is in flight gives way to the
response of that call. -/
theorem entries_only_replaced_in_flight :
    let settings : Settings := ⟨none, true, false, true, none, none, false, none, none⟩
    let c : Cache := ⟨settings, .empty, .fresh settings, []⟩
    let call (id : String) : Visit := .request ⟨"POST", "/", [], .null, .arrived id⟩
    let answer (id : String) (body : Bytes) : Response :=
      ⟨200, [], body, ⟨id, some (fingerprint .null), false⟩⟩
    let stored := (c.run [call "a", call "b"]).step (.response (answer "a" [0x61]))
    stored.store.entry (fingerprint .null) = entryOf (answer "a" [0x61]) ∧
      (stored.run [.response (answer "b" [0x62])]).store.entry (fingerprint .null)
        = entryOf (answer "b" [0x62]) := by
  intro settings c call answer stored
  have hsaved : (c.run [call "a", call "b"]).saves (fingerprint .null) (answer "a" [0x61]) = true :=
    saves_iff.2 ⟨rfl, rfl, rfl, rfl, rfl⟩
  have hsavedNext : stored.saves (fingerprint .null) (answer "b" [0x62]) = true :=
    saves_iff.2 ⟨rfl, rfl, rfl, rfl, rfl⟩
  obtain ⟨hstored, hlater, -⟩ := entries_only_replaced works_empty [call "a", call "b"] hsaved
    [.response (answer "b" [0x62])]
  refine ⟨hstored, hlater.trans ?_⟩
  rw [savedFor, savedBy, if_pos hsavedNext]
  rfl

/-- **An entry may be replaced.** Two calls that are in flight at once are both handed on, and the
response that comes second takes the place of the first; without reuse that happens to calls one
after another. -/
theorem entry_overwritten :
    let settings (reuse : Bool) : Settings :=
      ⟨none, reuse, false, true, none, none, false, none, none⟩
    let c (reuse : Bool) : Cache := ⟨settings reuse, .empty, .fresh (settings reuse), []⟩
    let call (id : String) : Request := ⟨"POST", "/", [], .null, .arrived id⟩
    let key := fingerprint .null
    let answer (id : String) (body : Bytes) : Response := ⟨200, [], body, ⟨id, some key, false⟩⟩
    let first := answer "a" [0x61]
    let second := answer "b" [0x62]
    let both := [.request (call "a"), .request (call "b")]
    let turn := [.request (call "a"), .response first, .request (call "b")]
    (c true).contextOf (call "a") = some first.context ∧
    ((c true).run [.request (call "a")]).contextOf (call "b") = some second.context ∧
    ((c true).run (both ++ [.response first])).store.entry key = entryOf first ∧
    ((c true).run (both ++ [.response first] ++ [.response second])).store.entry key
      = entryOf second ∧
    (c false).contextOf (call "a") = some first.context ∧
    ((c false).run ([.request (call "a")] ++ [.response first])).store.entry key = entryOf first ∧
    ((c false).run [.request (call "a"), .response first]).contextOf (call "b")
      = some second.context ∧
    ((c false).run (turn ++ [.response second])).store.entry key = entryOf second ∧
    entryOf first ≠ entryOf second := by
  intro settings c call key answer first second both turn
  have hsaves (cache : Cache) (id : String) (body : Bytes)
      (hsettings : cache.settings.saveResponses = true)
      (hgranted : cache.counters.responses.acquire.1 = true) :
      cache.saves key (answer id body) = true :=
    saves_iff.2 ⟨rfl, rfl, rfl, hsettings, hgranted⟩
  refine ⟨rfl, rfl, ?_, ?_, rfl, ?_, rfl, ?_, by simp [entryOf, first, second, answer]⟩
  · exact entry_of_saves works_empty (hsaves _ _ _ rfl rfl)
  · exact entry_of_saves works_empty (hsaves _ _ _ rfl rfl)
  · exact entry_of_saves works_empty (hsaves _ _ _ rfl rfl)
  · exact entry_of_saves works_empty (hsaves _ _ _ rfl rfl)

end EvalProxy.Cache
