/-
# Torn entries

A response is saved by two writes, its body first and its header fields afterwards, and either may
fail. An entry is whole as long as no save fails between the two. A save that does leaves the new
body with the header fields of an earlier response, and a later request is answered with both.

Main definitions: `embodies`, `completes`, `torn`, `kept`.
Main statements: `entry_onResponse`, `entry_runAmid`, `saved_whole_unless_torn`.
-/
import EvalProxy.Proofs.Cache.Entries
import EvalProxy.Proofs.Cache.Trouble
namespace EvalProxy.Cache

open Store

/-! ## The two writes of a save -/

/-- Whether a response is saved under a key and its body can be written. -/
def embodies (key : String) (c : Cache) (p : Response) : Bool :=
  c.saves key p && c.store.takes .responses key

/-- Whether a response is saved under a key and its body and its header fields can be written. -/
def completes (key : String) (c : Cache) (p : Response) : Bool :=
  embodies key c p && c.store.takes .headers key

/-- Whether a response is saved under a key and its body can be written, but not its header
fields. -/
def torn (key : String) (c : Cache) (p : Response) : Bool :=
  embodies key c p && !completes key c p

/-- **What a response does to an entry**, whatever fails: the body takes the place of the one that
was stored if it can be written, and the header fields do if they can be written after it. -/
theorem entry_onResponse (c : Cache) (key : String) (p : Response) :
    (c.onResponse p).store.entry key =
      (if embodies key c p then (entryOf p).1 else (c.store.entry key).1,
        if completes key c p then (entryOf p).2 else (c.store.entry key).2) := by
  rw [completes, embodies]
  cases hsaves : c.saves key p with
  | true =>
    rw [store_onResponse_of_saves hsaves, writeResponse_eq]
    cases c.store.takes .responses key with
    | true =>
      cases c.store.takes .headers key with
      | true => exact entry_written c.store key p
      | false =>
        refine Prod.ext ?_ rfl
        show (putAll c.store.responses [(key, p.body)]).get? key = some (.sound p.body)
        rw [get?_putAll _ (by simp)]
        simp [Assoc.get?]
    | false => rfl
  | false =>
    by_cases hkey : p.context.fingerprint = some key
    · have hnone (key' : String) : c.saves key' p = false := by
        rw [Bool.eq_false_iff]
        intro hsaves'
        have hsame := (saves_iff.1 hsaves').2.2.1
        rw [hkey, Option.some.injEq] at hsame
        rw [← hsame, hsaves] at hsaves'
        cases hsaves'
      rw [(onResponse_of_not_saves hnone).1]
      rfl
    · rw [entry_onResponse_of_ne c hkey]
      rfl

/-! ## Runs amid trouble -/

/-- The responses of a run of which something holds when they come, earliest first. -/
def kept (holds : Cache → Response → Bool) (c : Cache) : List (Trouble × Visit) → List Response
  | [] => []
  | (t, .request r) :: rest => kept holds ((c.amid t).step (.request r)) rest
  | (t, .response p) :: rest =>
    (if holds (c.amid t) p then [p] else []) ++ kept holds ((c.amid t).step (.response p)) rest

/-- **What a run does to an entry**, whatever fails: the body is the last one that was written, and
the header fields are the last ones that were written. -/
theorem entry_runAmid (c : Cache) (key : String) (visits : List (Trouble × Visit)) :
    (c.runAmid visits).store.entry key =
      (((kept (embodies key) c visits).getLast?.map fun p => (entryOf p).1).getD
          (c.store.entry key).1,
        ((kept (completes key) c visits).getLast?.map fun p => (entryOf p).2).getD
          (c.store.entry key).2) := by
  -- a later response hides the first one
  have hlast (b : Bool) (p : Response) (rest : List Response) (f : Response → Option Cell)
      (old : Option Cell) :
      (rest.getLast?.map f).getD (if b then f p else old) =
        (((if b then [p] else []) ++ rest).getLast?.map f).getD old := by
    rw [List.getLast?_append]
    cases rest.getLast? with
    | some last => rfl
    | none => cases b <;> rfl
  induction visits generalizing c with
  | nil => rfl
  | cons v rest ih =>
    obtain ⟨t, v⟩ := v
    have hbefore : (c.amid t).store.entry key = c.store.entry key := rfl
    refine (ih ((c.amid t).step v)).trans ?_
    cases v with
    | request r =>
      have hsame := (sameSaving_onRequest (c.amid t) r).store.entry_eq key
      have hstep : ((c.amid t).step (.request r)).store.entry key = c.store.entry key := hsame
      rw [hstep]
      rfl
    | response p =>
      have hstep := entry_onResponse (c.amid t) key p
      rw [hbefore] at hstep
      have hstep : ((c.amid t).step (.response p)).store.entry key = _ := hstep
      rw [hstep, hlast, hlast]
      rfl

/-- If no save is torn, the responses whose bodies are written are written as a whole. -/
theorem kept_embodies_eq {key : String} {c : Cache} {visits : List (Trouble × Visit)}
    (h : kept (torn key) c visits = []) :
    kept (embodies key) c visits = kept (completes key) c visits := by
  induction visits generalizing c with
  | nil => rfl
  | cons v rest ih =>
    obtain ⟨t, v⟩ := v
    cases v with
    | request r => exact ih h
    | response p =>
      obtain ⟨hnow, hrest⟩ := List.append_eq_nil_iff.1 h
      have hsame : embodies key (c.amid t) p = completes key (c.amid t) p := by
        rw [torn] at hnow
        rw [completes] at hnow ⊢
        revert hnow
        cases embodies key (c.amid t) p <;> cases (c.amid t).store.takes .headers key <;> simp
      rw [kept, kept, hsame, ih hrest]

/-! ## Hits -/

/-- The header fields that a read gives are stored at the key. -/
theorem eq_of_getHeaders {s : Store} {key : String} {found : Option (Dict String)}
    {fields : Option Response} (h : s.getHeaders key = .ok found)
    (hfields : s.headers.get? key = (fields.map fun p => (entryOf p).2).getD none) :
    found = fields.map fun p => p.headers.normalize := by
  unfold getHeaders at h
  cases hget : s.get .headers key with
  | error e =>
    rw [hget] at h
    cases h
  | ok value =>
    have hcell : s.headers.get? key = value.map .sound := get?_of_get hget
    rw [hget] at h
    cases fields with
    | none =>
      rw [hfields] at hcell
      cases value with
      | none =>
        cases h
        rfl
      | some value => cases hcell
    | some p =>
      rw [hfields] at hcell
      cases value with
      | none => cases hcell
      | some value =>
        cases hcell
        simp only [bind, Except.bind, decodeHeaders_encode] at h
        cases h
        rfl

/-- **What a look-up finds**, whatever fails: the stored body with the stored header fields. -/
theorem lookup_eq_of_entry {s : Store} {key : String} {reply : Reply}
    {body fields : Option Response}
    (hbody : s.responses.get? key = (body.map fun p => (entryOf p).1).getD none)
    (hfields : s.headers.get? key = (fields.map fun p => (entryOf p).2).getD none)
    (h : lookup s key = .ok (some reply)) :
    ∃ p, body = some p ∧
      reply = ⟨200, replayHeaders ((fields.map fun q => q.headers.normalize).getD .empty),
        p.body⟩ := by
  unfold lookup at h
  cases hget : s.get .responses key with
  | error e =>
    rw [hget] at h
    cases h
  | ok value =>
    have hcell : s.responses.get? key = value.map .sound := get?_of_get hget
    rw [hget] at h
    cases value with
    | none => cases h
    | some value =>
      rw [hbody] at hcell
      cases body with
      | none => cases hcell
      | some p =>
        cases hcell
        cases hmap : s.getHeaders key with
        | error e =>
          simp only [bind, Except.bind, hmap] at h
          cases h
        | ok map =>
          simp only [bind, Except.bind, hmap] at h
          cases h
          rw [eq_of_getHeaders hmap hfields]
          exact ⟨p, rfl, rfl⟩

/-- **A save is all or nothing unless it is torn.** A response whose header fields fail to be
written after its body leaves its body with the header fields that were there; every other response
is stored as a whole or leaves the entry as it was. So after any visits, whatever failed, a request
is answered with the last body that was written and the last header fields that were written, and as
long as no save was torn these belong to one response. -/
theorem saved_whole_unless_torn (c : Cache) (key : String) :
    (∀ p, (c.onResponse p).store.entry key =
      if torn key c p then ((entryOf p).1, (c.store.entry key).2)
      else if completes key c p then entryOf p else c.store.entry key) ∧
    ∀ visits,
      let bodies := kept (embodies key) c visits
      let wholes := kept (completes key) c visits
      (c.store.entry key = (none, none) → ∀ t r a, fingerprint r.body = key →
        (((c.runAmid visits).amid t).onRequest r).1 = .ok (.answer a) →
        ∃ p, bodies.getLast? = some p ∧
          a = replayed r ⟨200, replayHeaders
            ((wholes.getLast?.map fun q => q.headers.normalize).getD .empty), p.body⟩) ∧
      (kept (torn key) c visits = [] → bodies = wholes ∧
        (c.runAmid visits).store.entry key =
          (wholes.getLast?.map entryOf).getD (c.store.entry key)) := by
  refine ⟨fun p => ?_, fun visits => ⟨?_, ?_⟩⟩
  · rw [entry_onResponse, torn, completes]
    cases embodies key c p <;> cases c.store.takes .headers key <;> rfl
  · rintro hblank t r a rfl hanswered
    obtain ⟨reply, hfound, rfl⟩ := lookup_of_answered hanswered
    have hentry : ((c.runAmid visits).amid t).store.entry (fingerprint r.body) = _ :=
      entry_runAmid c (fingerprint r.body) visits
    obtain ⟨hbody, hfields⟩ := Prod.mk.inj hentry
    rw [hblank] at hbody hfields
    obtain ⟨p, hlast, rfl⟩ := lookup_eq_of_entry hbody hfields hfound
    exact ⟨p, hlast, rfl⟩
  · intro hwhole
    have hsame := kept_embodies_eq hwhole
    refine ⟨hsame, ?_⟩
    rw [entry_runAmid, hsame]
    cases (kept (completes key) c visits).getLast? <;> rfl

/-- A response whose body cannot be written leaves the entry whole, and a later request is answered
with the response that is stored. -/
theorem saved_whole_unless_torn_replayed :
    let settings : Settings := ⟨none, true, false, true, none, none, false, none, none⟩
    let c : Cache := ⟨settings, .empty, .fresh settings, []⟩
    let key := fingerprint .null
    let call (id : String) : Request := ⟨"POST", "/", [], .null, .arrived id⟩
    let answer (id : String) (body : Bytes) : Response := ⟨200, [], body, ⟨id, some key, false⟩⟩
    let calm : Trouble := ⟨.none, false⟩
    let full : Trouble := ⟨{ Faults.none with writes := fun t _ => t == .responses }, false⟩
    let visits : List (Trouble × Visit) :=
      [(calm, .request (call "a")), (calm, .request (call "b")),
        (calm, .response (answer "a" [0x61])), (full, .response (answer "b" [0x62]))]
    (c.runAmid visits).store.entry key = entryOf (answer "a" [0x61]) ∧
      ∃ a, (((c.runAmid visits).amid calm).onRequest (call "c")).1 = .ok (.answer a) ∧
        a.body = [0x61] := by
  intro settings c key call answer calm full visits
  have hsaves (d : Cache) (id : String) (body : Bytes) (hsettings : d.settings = settings)
      (hgranted : d.counters.responses.acquire.1 = true) : d.saves key (answer id body) = true := by
    refine saves_iff.2 ⟨rfl, rfl, rfl, ?_, hgranted⟩
    rw [hsettings]
  let before := c.runAmid [(calm, .request (call "a")), (calm, .request (call "b"))]
  let stored := (before.amid calm).step (.response (answer "a" [0x61]))
  have hfirst : completes key (before.amid calm) (answer "a" [0x61]) = true := by
    rw [completes, embodies, hsaves _ _ _ rfl rfl]
    rfl
  have hsecond : embodies key (stored.amid full) (answer "b" [0x62]) = false := by
    rw [embodies, hsaves _ _ _ rfl rfl]
    rfl
  have hwholes : kept (completes key) c visits = [answer "a" [0x61]] := by
    show (if completes key (before.amid calm) (answer "a" [0x61]) then _ else _) ++
      ((if completes key (stored.amid full) (answer "b" [0x62]) then _ else _) ++ []) = _
    rw [hfirst, completes, hsecond]
    rfl
  have htorn : kept (torn key) c visits = [] := by
    show (if torn key (before.amid calm) (answer "a" [0x61]) then _ else _) ++
      ((if torn key (stored.amid full) (answer "b" [0x62]) then _ else _) ++ []) = _
    rw [torn, torn, hfirst, hsecond, Bool.not_true, Bool.and_false]
    rfl
  obtain ⟨-, hrun⟩ := saved_whole_unless_torn c key
  obtain ⟨hhit, hwhole⟩ := hrun visits
  obtain ⟨hbodies, hentry⟩ := hwhole htorn
  have hstored : (c.runAmid visits).store.entry key = entryOf (answer "a" [0x61]) := by
    rw [hentry, hwholes]
    rfl
  refine ⟨hstored, ?_⟩
  have hholds : ((c.runAmid visits).amid calm).store.entry key = entryOf (answer "a" [0x61]) :=
    hstored
  obtain ⟨reply, hfound⟩ := lookup_of_entry ⟨rfl, fun _ _ => rfl, fun _ _ => rfl⟩ hholds
  have hanswered :=
    answered_of_lookup (c := (c.runAmid visits).amid calm) (r := call "c") rfl hfound
  obtain ⟨p, hp, heq⟩ := hhit rfl calm (call "c") _ rfl hanswered
  rw [hbodies, hwholes] at hp
  cases hp
  exact ⟨_, hanswered, congrArg Response.body heq⟩

/-- **A save may be torn.** Of two calls that are in flight at once the second loses its header
fields: what is stored is neither its response nor what was stored before, and a later request is
answered with its body and the header fields of the first. -/
theorem torn_entry :
    let settings : Settings := ⟨none, true, false, true, none, none, false, none, none⟩
    let c : Cache := ⟨settings, .empty, .fresh settings, []⟩
    let key := fingerprint .null
    let call (id : String) : Request := ⟨"POST", "/", [], .null, .arrived id⟩
    let answer (id : String) (value : UInt8) : Response :=
      ⟨200, [("x-run", [[value]])], [value], ⟨id, some key, false⟩⟩
    let full : Trouble := ⟨{ Faults.none with writes := fun t _ => t == .headers }, false⟩
    let before := c.run [.request (call "a"), .request (call "b"), .response (answer "a" 0x31)]
    let after := ((before.amid full).onResponse (answer "b" 0x32)).amid ⟨.none, false⟩
    before.store.entry key = entryOf (answer "a" 0x31) ∧
    (before.amid full).saves key (answer "b" 0x32) = true ∧
    after.store.entry key ≠ entryOf (answer "b" 0x32) ∧
    after.store.entry key ≠ before.store.entry key ∧
    ∃ a, (after.onRequest (call "c")).1 = .ok (.answer a) ∧
      a.body = (answer "b" 0x32).body ∧ a.headers.values "x-run" = [[0x31]] := by
  intro settings c key call answer full before after
  have hsaves (d : Cache) (id : String) (value : UInt8) (hsettings : d.settings = settings)
      (hgranted : d.counters.responses.acquire.1 = true) :
      d.saves key (answer id value) = true := by
    refine saves_iff.2 ⟨rfl, rfl, rfl, ?_, hgranted⟩
    rw [hsettings]
  let past : List Visit := [.request (call "a"), .request (call "b")]
  have hgranted : (c.run past).saves key (answer "a" 0x31) = true :=
    hsaves (c.run past) "a" 0x31 (settings_run c past) rfl
  have hbefore : before = c.run (past ++ [.response (answer "a" 0x31)]) := rfl
  have hfirst : before.store.entry key = entryOf (answer "a" 0x31) := by
    rw [hbefore]
    exact entry_of_saves works_empty hgranted
  have hsecond : (before.amid full).saves key (answer "b" 0x32) = true := hsaves _ _ _ rfl rfl
  have hafter : after.store.entry key =
      ((entryOf (answer "b" 0x32)).1, (entryOf (answer "a" 0x31)).2) := by
    have hentry := entry_onResponse (before.amid full) key (answer "b" 0x32)
    have hbody : (before.amid full).store.takes .responses key = true := rfl
    have hheaders : (before.amid full).store.takes .headers key = false := rfl
    rw [completes, embodies, hsecond, hbody, hheaders] at hentry
    have hkept : ((before.amid full).store.entry key).2 = (entryOf (answer "a" 0x31)).2 :=
      congrArg Prod.snd hfirst
    rw [hkept] at hentry
    exact hentry
  have hfields : (entryOf (answer "a" 0x31)).2 ≠ (entryOf (answer "b" 0x32)).2 := by
    intro heq
    have htext := Cell.sound.inj (Option.some.inj heq)
    revert htext
    decide
  refine ⟨hfirst, hsecond, ?_, ?_, ?_⟩
  · rw [hafter]
    exact fun heq => hfields (Prod.mk.inj heq).2
  · rw [hafter, hfirst]
    intro heq
    have hbody := Cell.sound.inj (Option.some.inj (Prod.mk.inj heq).1)
    revert hbody
    decide
  · obtain ⟨hbody, hheaders⟩ := Prod.mk.inj hafter
    have hholds : after.store.Holds key [0x32] (answer "a" 0x31).headers.normalize :=
      ⟨hbody, hheaders⟩
    have hfound := lookup_of_holds ⟨rfl, fun _ _ => rfl, fun _ _ => rfl⟩ hholds
    have hanswered := answered_of_lookup (c := after) (r := call "c") rfl hfound
    refine ⟨_, hanswered, rfl, ?_⟩
    show (replayHeaders (answer "a" 0x31).headers.normalize).values "x-run" = _
    decide

end EvalProxy.Cache
