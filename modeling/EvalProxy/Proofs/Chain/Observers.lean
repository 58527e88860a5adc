/-
# Observers

Stages that log, keep statistics or track progress only watch what passes. A chain with any number
of them inserted gives the same outcomes, asks the model the same and leaves every other stage and
every store of a cache the same.

Main definitions: `Interceptor.isObserver`, `Interceptor.Writes`, `Inserted`, `Twin`.
Main statements: `Twin.onRequest`, `Twin.onResponse`, `observers_are_invisible`.
-/
import EvalProxy.Proofs.Chain.Run
import EvalProxy.Proofs.Interceptor
namespace EvalProxy

open Chain (finish turns process requestPhase responsePhase served)
open Files (Tree)
open World (SamePlace)

/-! ## Caches with other events -/

namespace Cache

/-- Two caches differ in their events at most. -/
structure Agree (c c' : Cache) : Prop where
  settings : c'.settings = c.settings
  store : c'.store = c.store
  counters : c'.counters = c.counters

theorem Agree.saveRequest {c c' : Cache} (h : c.Agree c') (key text : String) :
    (c.saveRequest key text).Agree (c'.saveRequest key text) := by
  obtain ⟨hsettings, hstore, hcounters⟩ := h
  unfold Cache.saveRequest
  rw [hcounters, hstore]
  split
  · exact ⟨hsettings, hstore, hcounters⟩
  · exact ⟨hsettings, rfl, rfl⟩

/-- Caches that agree still do after both noted the same call. -/
theorem Agree.noted {c c' : Cache} (h : c.Agree c') (r : Request) :
    (c.noted r).Agree (c'.noted r) := by
  unfold Cache.noted
  rw [h.settings]
  split
  · exact h.saveRequest _ _
  · exact h

theorem Agree.hit {c c' : Cache} (h : c.Agree c') : c.hit.Agree c'.hit :=
  ⟨h.settings, h.store, by rw [Cache.hit, Cache.hit, note, note, h.counters]⟩

theorem Agree.missed {c c' : Cache} (h : c.Agree c') : c.missed.Agree c'.missed :=
  ⟨h.settings, h.store, by rw [Cache.missed, Cache.missed, note, note, h.counters]⟩

/-- **What caches make of a request** does not depend on the events so far. -/
theorem Agree.onRequest {c c' : Cache} (h : c.Agree c') (r : Request) :
    (c'.onRequest r).1 = (c.onRequest r).1 ∧ (c.onRequest r).2.Agree (c'.onRequest r).2 := by
  have hnoted := h.noted r
  have hsettings : c'.settings.reuse = c.settings.reuse := by rw [h.settings]
  cases hreuse : c.settings.reuse with
  | false =>
    rw [onRequest_of_no_reuse r hreuse, onRequest_of_no_reuse r (hsettings.trans hreuse)]
    exact ⟨rfl, hnoted⟩
  | true =>
    by_cases hfound : ∃ reply, lookup c.store (fingerprint r.body) = .ok (some reply)
    · obtain ⟨reply, hfound⟩ := hfound
      have hfound' : lookup c'.store (fingerprint r.body) = .ok (some reply) := by
        rw [h.store]
        exact hfound
      rw [onRequest_of_found hreuse hfound, onRequest_of_found (hsettings.trans hreuse) hfound']
      exact ⟨rfl, hnoted.hit⟩
    · have hmiss : c.Misses r := fun reply heq => hfound ⟨reply, heq⟩
      have hmiss' : c'.Misses r := by
        intro reply
        rw [h.store]
        exact hmiss reply
      rw [onRequest_of_misses hreuse hmiss, onRequest_of_misses (hsettings.trans hreuse) hmiss',
        h.settings, hnoted.store]
      split
      · exact ⟨rfl, hnoted.missed⟩
      · exact ⟨rfl, hnoted.missed⟩

/-- What caches do with a response does not depend on the events so far. -/
theorem Agree.onResponse {c c' : Cache} (h : c.Agree c') (p : Response) :
    (c.onResponse p).Agree (c'.onResponse p) := by
  unfold Cache.onResponse
  rw [h.settings]
  split
  · exact h
  split
  · obtain ⟨hsettings, hstore, hcounters⟩ := h
    unfold saveResponse
    rw [hcounters, hstore]
    split
    · exact ⟨hsettings, hstore, hcounters⟩
    · dsimp only
      split
      · exact ⟨hsettings, rfl, rfl⟩
      · exact ⟨hsettings, rfl, rfl⟩
  · exact h

end Cache

/-! ## What observers leave alone -/

namespace Interceptor

/-- Whether a stage only watches what passes. -/
def isObserver : Interceptor → Bool
  | stats _ | progress _ | requestLog _ | responseLog _ => true
  | caching _ | reasoning _ | payload _ | systemMessage _ => false

/-- The files that a stage may write, temporary ones among them. -/
def Writes : Interceptor → String → Prop
  | stats s, file =>
    ∃ path, (path = s.statePath ∨ path = s.metricsPath) ∧
      (file = path ∨ ∃ name, file = Tree.temporary path name)
  | progress t, file => t.settings.file = some file
  | _, _ => False

/-- A stage goes with some stores: those of caches are among them, and no file is written in the
place of one. -/
structure Fits (shared : Location → Prop) (i : Interceptor) : Prop where
  store : ∀ c, i = caching c → shared c.place
  files : ∀ file, i.Writes file → ∀ place, shared place → ¬ SamePlace (.file file) place

end Interceptor

/-- What stages read of the world is as before, with the stores at some locations. -/
structure Aside (shared : Location → Prop) (w w' : World) : Prop where
  model : w'.model = w.model
  asked : w'.asked = w.asked
  memory : w'.memory = w.memory
  now : w'.now = w.now
  latency : w'.latency = w.latency
  stamp : w'.stamp = w.stamp
  tree : w.tree.Kept w'.tree
  stores : ∀ place, shared place → w'.storeAt? place = w.storeAt? place

namespace Aside

variable {shared : Location → Prop} {w w₁ w₂ w₃ : World}

theorem refl (w : World) : Aside shared w w :=
  ⟨rfl, rfl, rfl, rfl, rfl, rfl, .refl _, fun _ _ => rfl⟩

theorem trans (h : Aside shared w₁ w₂) (h' : Aside shared w₂ w₃) : Aside shared w₁ w₃ where
  model := h'.model.trans h.model
  asked := h'.asked.trans h.asked
  memory := h'.memory.trans h.memory
  now := h'.now.trans h.now
  latency := h'.latency.trans h.latency
  stamp := h'.stamp.trans h.stamp
  tree := h.tree.trans h'.tree
  stores place hplace := (h'.stores place hplace).trans (h.stores place hplace)

theorem of_write (l : CallLog.Logger) (line : LogLine) (w : World) :
    Aside shared w (l.write line w).2 := by
  unfold CallLog.Logger.write
  split
  · exact refl w
  · exact ⟨rfl, rfl, rfl, rfl, rfl, rfl, .refl _, fun place _ => by cases place <;> rfl⟩

theorem of_events (w : World) (events : Metrics.Log) : Aside shared w { w with events := events } :=
  ⟨rfl, rfl, rfl, rfl, rfl, rfl, .refl _, fun place _ => by cases place <;> rfl⟩

/-- Files that change beside all stores leave them alone. -/
theorem of_tree {t : Tree} (w : World) (hkept : w.tree.Kept t)
    (hsame : ∀ path, shared (.file path) →
      Tree.SameDatabase (Tree.key (Files.Path.parts path)) w.tree t) :
    Aside shared w { w with tree := t } := by
  refine ⟨rfl, rfl, rfl, rfl, rfl, rfl, hkept, ?_⟩
  intro place hplace
  cases place with
  | memory => rfl
  | file path => exact World.storeAt?_of_sameDatabase (hsame path hplace)

/-- A recorder saves beside all stores. -/
theorem of_saveIn {s : Stats.Recorder} (h : (Interceptor.stats s).Fits shared) (w : World) :
    Aside shared w (s.saveIn w).2 := by
  have hapart (path : String) (hpath : path = s.statePath ∨ path = s.metricsPath) (name : String)
      (t : Tree) (content : Bytes) {place : String} (hplace : shared (.file place)) :
      Tree.SameDatabase (Tree.key (Files.Path.parts place)) t (t.replace path name content).1 :=
    Tree.sameDatabase_replace (h.files path ⟨path, hpath, Or.inl rfl⟩ _ hplace)
      (h.files _ ⟨path, hpath, Or.inr ⟨name, rfl⟩⟩ _ hplace) t content
  have hsame (name : String) {place : String} (hplace : shared (.file place)) :
      Tree.SameDatabase (Tree.key (Files.Path.parts place)) w.tree (s.save w.tree name).1 := by
    have hstate := hapart s.statePath (Or.inl rfl) name w.tree
      (Text.encode s.stats.toJson.pretty) hplace
    unfold Stats.Recorder.save
    dsimp only
    split
    · rename_i t e hreplace
      rw [hreplace] at hstate
      exact hstate
    · rename_i t hreplace
      rw [hreplace] at hstate
      exact hstate.trans (hapart s.metricsPath (Or.inr rfl) name t _ hplace)
  have hnamed : Aside shared w w.freshName.2 :=
    ⟨rfl, rfl, rfl, rfl, rfl, rfl, .refl _, fun place _ => by cases place <;> rfl⟩
  exact hnamed.trans (of_tree w.freshName.2 (s.kept_save _ _) fun path hpath => hsame _ hpath)

/-- A tracker writes its file beside all stores. -/
theorem of_emit {t : Progress.Tracker} (h : (Interceptor.progress t).Fits shared) (count : Nat)
    (w : World) : Aside shared w (t.emit count w).2 := by
  have hwrite : Aside shared w (Progress.Tracker.writeCount t.settings count w) := by
    unfold Progress.Tracker.writeCount
    split
    · rename_i file hfile
      rcases hput : w.tree.put file (Text.encode (toString count)) with ⟨tree, fault⟩
      rw [World.writeFile_eq hput]
      exact of_tree w (Tree.kept_put hput) fun path hpath =>
        Tree.sameDatabase_put hput (h.files file hfile _ hpath)
    · exact refl w
  have htell (w : World) : Aside shared w (Progress.Tracker.tellCount t.settings count w) := by
    unfold Progress.Tracker.tellCount
    split
    · exact ⟨rfl, rfl, rfl, rfl, rfl, rfl, .refl _, fun place _ => by cases place <;> rfl⟩
    · exact refl w
  unfold Progress.Tracker.emit
  split
  · exact refl w
  · exact hwrite.trans (htell _)

end Aside

namespace Interceptor

variable {shared : Location → Prop} {i : Interceptor}

/-- **A stage that is no cache takes a request** without touching what stages read. -/
theorem aside_onRequest (hplain : i.isCaching = false) (r : Request) (w : World) :
    Aside shared w (i.onRequest r w).2.2 := by
  cases i with
  | caching c => simp [isCaching] at hplain
  | requestLog l => exact .of_write l _ w
  | payload s =>
    rw [onRequest]
    cases s.apply r.body <;> exact .refl w
  | systemMessage s => exact .refl w
  | stats s => exact .refl w
  | progress t => exact .refl w
  | reasoning s => exact .refl w
  | responseLog l => exact .refl w

/-- **A stage that is no cache takes a response** without touching what stages read. -/
theorem aside_onResponse (hplain : i.isCaching = false) (hfits : i.Fits shared) (p : Response)
    (w : World) : Aside shared w (i.onResponse p w).2.2 := by
  cases i with
  | caching c => simp [isCaching] at hplain
  | stats s =>
    show Aside shared w (s.onResponse p w).2.2
    unfold Stats.Recorder.onResponse
    split
    · exact .refl w
    · dsimp only
      split
      · exact .of_saveIn (s := s.record p w.latency w.stamp) ⟨by simp, hfits.files⟩ w
      · exact .refl w
  | progress t =>
    show Aside shared w (t.onResponse p w).2.2
    unfold Progress.Tracker.onResponse
    dsimp only
    split
    · exact .of_emit (t := { t with tally := (t.tally.record t.settings).2 })
        ⟨by simp, hfits.files⟩ _ w
    · exact .refl w
  | responseLog l => exact .of_write l _ w
  | reasoning s => exact .refl w
  | payload s => exact .refl w
  | systemMessage s => exact .refl w
  | requestLog l => exact .refl w

/-- What a stage that is no cache becomes with a request does not depend on the world. -/
theorem same_onRequest (hplain : i.isCaching = false) (r : Request) (w w' : World) :
    (i.onRequest r w').1 = (i.onRequest r w).1 ∧
      (i.onRequest r w').2.1 = (i.onRequest r w).2.1 := by
  cases i with
  | caching c => simp [isCaching] at hplain
  | requestLog l =>
    refine ⟨rfl, congrArg requestLog ?_⟩
    show (l.write _ w').1 = (l.write _ w).1
    unfold CallLog.Logger.write
    split <;> rfl
  | payload s =>
    rw [onRequest, onRequest]
    cases s.apply r.body <;> exact ⟨rfl, rfl⟩
  | systemMessage s => exact ⟨rfl, rfl⟩
  | stats s => exact ⟨rfl, rfl⟩
  | progress t => exact ⟨rfl, rfl⟩
  | reasoning s => exact ⟨rfl, rfl⟩
  | responseLog l => exact ⟨rfl, rfl⟩

/-- What a stage that is no cache becomes with a response depends on the clock only. -/
theorem same_onResponse (hplain : i.isCaching = false) (p : Response) {w w' : World}
    (hnow : w'.now = w.now) (hlatency : w'.latency = w.latency) (hstamp : w'.stamp = w.stamp) :
    (i.onResponse p w').2.1 = (i.onResponse p w).2.1 := by
  cases i with
  | caching c => simp [isCaching] at hplain
  | stats s =>
    refine congrArg stats ?_
    show (s.onResponse p w').2.1 = (s.onResponse p w).2.1
    unfold Stats.Recorder.onResponse
    rw [hlatency, hstamp]
    split <;> rfl
  | progress t =>
    refine congrArg progress ?_
    show (t.onResponse p w').2.1 = (t.onResponse p w).2.1
    have hemit (t : Progress.Tracker) (count : Nat) :
        (t.emit count w').1 = (t.emit count w).1 ∧
          (t.emit count w').2.now = (t.emit count w).2.now := by
      have hfits : (Interceptor.progress t).Fits fun _ => False := ⟨by simp, by simp⟩
      have hkept (w : World) : (t.emit count w).2.now = w.now := (Aside.of_emit hfits count w).now
      refine ⟨?_, by rw [hkept, hkept, hnow]⟩
      unfold Progress.Tracker.emit
      split <;> rfl
    unfold Progress.Tracker.onResponse
    dsimp only
    split
    · obtain ⟨ht, hnow⟩ := hemit { t with tally := (t.tally.record t.settings).2 } ‹_›
      dsimp only
      rw [ht, hnow]
    · rfl
  | responseLog l =>
    refine congrArg responseLog ?_
    show (l.write _ w').1 = (l.write _ w).1
    unfold CallLog.Logger.write
    split <;> rfl
  | reasoning s => rfl
  | payload s => rfl
  | systemMessage s => rfl
  | requestLog l => rfl

end Interceptor

/-! ## Twin worlds -/

/-- Two worlds are the same to all stages that go with some stores, but for what files there are
beside these stores, and for events, log lines and reports. -/
structure Twin (shared : Location → Prop) (w w' : World) : Prop where
  model : w'.model = w.model
  asked : w'.asked = w.asked
  memory : w'.memory = w.memory
  now : w'.now = w.now
  latency : w'.latency = w.latency
  stamp : w'.stamp = w.stamp
  stores : ∀ place, shared place → w'.storeAt? place = w.storeAt? place
  reaches : ∀ place, shared place → w.Reaches place ∧ w'.Reaches place

namespace Twin

variable {shared : Location → Prop} {w w' w₁ : World}

theorem refl (hreaches : ∀ place, shared place → w.Reaches place) : Twin shared w w :=
  ⟨rfl, rfl, rfl, rfl, rfl, rfl, fun _ _ => rfl, fun place hplace =>
    ⟨hreaches place hplace, hreaches place hplace⟩⟩

/-- A store that can be reached still can after what stands aside from it. -/
theorem reaches_of_aside {place : Location} (h : w.Reaches place) (hplace : shared place)
    (haside : Aside shared w w₁) : w₁.Reaches place := by
  refine h.of_directories haside.tree.directories ?_
  rw [haside.stores place hplace]
  exact id

/-- The second world moves on aside. -/
theorem right (h : Twin shared w w') (haside : Aside shared w' w₁) : Twin shared w w₁ where
  model := haside.model.trans h.model
  asked := haside.asked.trans h.asked
  memory := haside.memory.trans h.memory
  now := haside.now.trans h.now
  latency := haside.latency.trans h.latency
  stamp := haside.stamp.trans h.stamp
  stores place hplace := (haside.stores place hplace).trans (h.stores place hplace)
  reaches place hplace :=
    ⟨(h.reaches place hplace).1, reaches_of_aside (h.reaches place hplace).2 hplace haside⟩

/-- The first world moves on aside. -/
theorem left (h : Twin shared w w') (haside : Aside shared w w₁) : Twin shared w₁ w' where
  model := h.model.trans haside.model.symm
  asked := h.asked.trans haside.asked.symm
  memory := h.memory.trans haside.memory.symm
  now := h.now.trans haside.now.symm
  latency := h.latency.trans haside.latency.symm
  stamp := h.stamp.trans haside.stamp.symm
  stores place hplace := (h.stores place hplace).trans (haside.stores place hplace).symm
  reaches place hplace :=
    ⟨reaches_of_aside (h.reaches place hplace).1 hplace haside, (h.reaches place hplace).2⟩

/-- Twin worlds have the same store at each of their locations. -/
theorem store (h : Twin shared w w') {place : Location} (hplace : shared place) :
    w'.store place = w.store place := by
  obtain ⟨hreaches, hreaches'⟩ := h.reaches place hplace
  rw [World.store_of_reaches hreaches, World.store_of_reaches hreaches', h.stores place hplace]

/-- Worlds stay twins whatever each of them logs. -/
theorem note (h : Twin shared w w') (events events' : Metrics.Log) :
    Twin shared { w with events := events } { w' with events := events' } :=
  (h.left (.of_events w events)).right (.of_events w' events')

theorem ask (h : Twin shared w w') (q : Request) :
    Twin shared (World.askModel q w).2 (World.askModel q w').2 := by
  have hstoreAt (w : World) (place : Location) :
      (World.askModel q w).2.storeAt? place = w.storeAt? place := by
    cases place <;> rfl
  have hreaches {w : World} {place : Location} (hw : w.Reaches place) :
      (World.askModel q w).2.Reaches place := by
    cases place with
    | memory => trivial
    | file path => exact hw
  refine ⟨h.model, congrArg (q :: ·) h.asked, h.memory, h.now, h.latency, h.stamp, ?_, ?_⟩
  · intro place hplace
    rw [hstoreAt, hstoreAt, h.stores place hplace]
  · intro place hplace
    exact ⟨hreaches (h.reaches place hplace).1, hreaches (h.reaches place hplace).2⟩

/-- Both worlds get the same store back. -/
theorem withStore (h : Twin shared w w') {place : Location} (hplace : shared place)
    (s : Cache.Store) : Twin shared (w.withStore place s) (w'.withStore place s) := by
  have hstores (place' : Location) (hplace' : shared place') :
      (w'.withStore place s).storeAt? place' = (w.withStore place s).storeAt? place' := by
    obtain ⟨hreaches, hreaches'⟩ := h.reaches place hplace
    by_cases hsame : SamePlace place place'
    · rw [World.storeAt?_withStore_of_same hreaches hsame,
        World.storeAt?_withStore_of_same hreaches' hsame, h.stores place' hplace']
    · rw [World.storeAt?_withStore_of_not_same hsame, World.storeAt?_withStore_of_not_same hsame,
        h.stores place' hplace']
  have hreaches (place' : Location) (hplace' : shared place') :
      (w.withStore place s).Reaches place' ∧ (w'.withStore place s).Reaches place' :=
    ⟨(h.reaches place' hplace').1.withStore place s, (h.reaches place' hplace').2.withStore place s⟩
  cases place with
  | memory => exact ⟨h.model, h.asked, rfl, h.now, h.latency, h.stamp, hstores, hreaches⟩
  | file path =>
    obtain ⟨t, ht⟩ := w.exists_withStore_file path s
    obtain ⟨t', ht'⟩ := w'.exists_withStore_file path s
    rw [ht, ht'] at hstores hreaches ⊢
    exact ⟨h.model, h.asked, h.memory, h.now, h.latency, h.stamp, hstores, hreaches⟩

/-- Worlds stay twins when the same cache settles in both, with caches that agree. -/
theorem settle (h : Twin shared w w') {c : Caching} (hplace : shared c.place) {after after' : Cache}
    (hagree : after.Agree after') :
    (c.settle w' after').1 = (c.settle w after).1 ∧
      Twin shared (c.settle w after).2 (c.settle w' after').2 := by
  constructor
  · rw [Caching.settle, Caching.settle, hagree.counters]
  · rw [Caching.settle, Caching.settle, hagree.store]
    exact (h.withStore hplace after.store).note _ _

/-- In twin worlds a stage finds caches that agree. -/
theorem agree (h : Twin shared w w') {c : Caching} (hplace : shared c.place) :
    (c.cache w).Agree (c.cache w') :=
  ⟨rfl, h.store hplace, rfl⟩

/-- **A stage takes a request alike** in both worlds. -/
theorem onRequest (h : Twin shared w w') {i : Interceptor} (hfits : i.Fits shared) (r : Request) :
    (i.onRequest r w').1 = (i.onRequest r w).1 ∧ (i.onRequest r w').2.1 = (i.onRequest r w).2.1 ∧
      Twin shared (i.onRequest r w).2.2 (i.onRequest r w').2.2 := by
  cases hcaching : i.isCaching with
  | true =>
    cases i with
    | caching c =>
      have hplace := hfits.store c rfl
      obtain ⟨houtcome, hagree⟩ := (h.agree hplace).onRequest r
      obtain ⟨hstage, htwin⟩ := h.settle hplace hagree
      exact ⟨houtcome, congrArg Interceptor.caching hstage, htwin⟩
    | _ => simp [Interceptor.isCaching] at hcaching
  | false =>
    obtain ⟨houtcome, hstage⟩ := Interceptor.same_onRequest hcaching r w w'
    exact ⟨houtcome, hstage, (h.left (Interceptor.aside_onRequest hcaching r w)).right
      (Interceptor.aside_onRequest hcaching r w')⟩

/-- **A stage takes a response alike** in both worlds. -/
theorem onResponse (h : Twin shared w w') {i : Interceptor} (hfits : i.Fits shared)
    (p : Response) :
    (i.onResponse p w').1 = (i.onResponse p w).1 ∧
      (i.onResponse p w').2.1 = (i.onResponse p w).2.1 ∧
      Twin shared (i.onResponse p w).2.2 (i.onResponse p w').2.2 := by
  refine ⟨by rw [i.outcome_onResponse, i.outcome_onResponse], ?_⟩
  cases hcaching : i.isCaching with
  | true =>
    cases i with
    | caching c =>
      have hplace := hfits.store c rfl
      obtain ⟨hstage, htwin⟩ := h.settle hplace ((h.agree hplace).onResponse p)
      exact ⟨congrArg Interceptor.caching hstage, htwin⟩
    | _ => simp [Interceptor.isCaching] at hcaching
  | false =>
    refine ⟨Interceptor.same_onResponse hcaching p h.now h.latency h.stamp, ?_⟩
    exact (h.left (Interceptor.aside_onResponse hcaching hfits p w)).right
      (Interceptor.aside_onResponse hcaching hfits p w')

end Twin

/-! ## Chains with observers inserted -/

/-- The second list of stages is the first with observers inserted. -/
inductive Inserted : List Interceptor → List Interceptor → Prop
  | nil : Inserted [] []
  | keep {xs ys : List Interceptor} (i : Interceptor) (rest : Inserted xs ys) :
      Inserted (i :: xs) (i :: ys)
  | insert {xs ys : List Interceptor} {o : Interceptor} (observes : o.isObserver = true)
      (rest : Inserted xs ys) : Inserted xs (o :: ys)

namespace Interceptor

/-- An observer hands every request on as it is. -/
theorem outcome_of_isObserver {o : Interceptor} (h : o.isObserver = true) (r : Request)
    (w : World) : (o.onRequest r w).1 = .ok (.proceed r) := by
  cases o with
  | stats s => rfl
  | progress t => rfl
  | requestLog l => rfl
  | responseLog l => rfl
  | _ => simp [isObserver] at h

/-- An observer is no cache and strips nothing. -/
theorem plain_of_isObserver {o : Interceptor} (h : o.isObserver = true) :
    o.isCaching = false ∧ ∀ body, o.strip body = body := by
  cases o with
  | stats s => exact ⟨rfl, fun _ => rfl⟩
  | progress t => exact ⟨rfl, fun _ => rfl⟩
  | requestLog l => exact ⟨rfl, fun _ => rfl⟩
  | responseLog l => exact ⟨rfl, fun _ => rfl⟩
  | _ => simp [isObserver] at h

/-- The file that a stage writes was settled when it was built. -/
theorem Writes.of_built {i j : Interceptor} (h : j.built = i.built) {file : String}
    (hwrites : j.Writes file) : i.Writes file := by
  have hbuilt (k : Interceptor) : k.built.Writes file ↔ k.Writes file := by
    cases k <;> exact Iff.rfl
  rw [← hbuilt i, ← h, hbuilt]
  exact hwrites

/-- Whether a stage fits was settled when it was built. -/
theorem Fits.of_built {shared : Location → Prop} {i j : Interceptor} (h : j.built = i.built)
    (hfits : i.Fits shared) : j.Fits shared := by
  refine ⟨?_, fun file hwrites => hfits.files file (hwrites.of_built h)⟩
  rintro c rfl
  obtain ⟨c', rfl, -, hplace⟩ := built_eq_caching h.symm
  rw [← hplace]
  exact hfits.store c' rfl

theorem isObserver_of_built {i j : Interceptor} (h : j.built = i.built) :
    j.isObserver = i.isObserver := by
  have hbuilt (k : Interceptor) : k.built.isObserver = k.isObserver := by
    cases k <;> rfl
  rw [← hbuilt j, h, hbuilt]

end Interceptor

namespace Inserted

variable {shared : Location → Prop} {xs ys : List Interceptor} {w w' : World}

/-- No cache is an observer. -/
theorem mem_of_caching (h : Inserted xs ys) {c : Caching} (hc : .caching c ∈ ys) :
    .caching c ∈ xs := by
  induction h with
  | nil => exact hc
  | keep i _ ih =>
    rcases List.mem_cons.1 hc with heq | hc
    · exact heq ▸ List.mem_cons_self
    · exact List.mem_cons_of_mem _ (ih hc)
  | insert observes _ ih =>
    rcases List.mem_cons.1 hc with heq | hc
    · rw [← heq] at observes
      simp [Interceptor.isObserver] at observes
    · exact ih hc

/-- **A request passes through both chains alike.** -/
theorem takes_request (h : Inserted xs ys) (hfits : ∀ i ∈ ys, i.Fits shared)
    (htwin : Twin shared w w') (r : Request) :
    (requestPhase ys r w').1 = (requestPhase xs r w).1 ∧
      Inserted (requestPhase xs r w).2.1 (requestPhase ys r w').2.1 ∧
      Twin shared (requestPhase xs r w).2.2 (requestPhase ys r w').2.2 := by
  induction h generalizing r w w' with
  | nil => exact ⟨rfl, .nil, htwin⟩
  | @keep xs ys i rest ih =>
    obtain ⟨hi, hrest⟩ := List.forall_mem_cons.1 hfits
    obtain ⟨houtcome, hstage, hnext⟩ := htwin.onRequest hi r
    rcases htaken : i.onRequest r w with ⟨outcome, i₁, w₁⟩
    rcases htaken' : i.onRequest r w' with ⟨outcome', i₁', w₁'⟩
    rw [htaken, htaken'] at houtcome hstage hnext
    obtain rfl : outcome' = outcome := houtcome
    obtain rfl : i₁' = i₁ := hstage
    have htaken : Stage.onRequest i r w = (outcome', i₁', w₁) := htaken
    have htaken' : Stage.onRequest i r w' = (outcome', i₁', w₁') := htaken'
    rw [requestPhase, requestPhase, htaken, htaken']
    rcases outcome' with e | q | p
    · exact ⟨rfl, .keep i₁' rest, hnext⟩
    · obtain ⟨hphase, hinserted, hend⟩ := ih hrest hnext q
      exact ⟨hphase, .keep i₁' hinserted, hend⟩
    · exact ⟨rfl, .keep i₁' rest, hnext⟩
  -- an observer hands the request on, and only the second world knows of it
  | @insert xs ys o observes rest ih =>
    obtain ⟨-, hrest⟩ := List.forall_mem_cons.1 hfits
    have houtcome := Interceptor.outcome_of_isObserver observes r w'
    have hbuilt := o.built_onRequest r w'
    have haside : Aside shared w' (o.onRequest r w').2.2 :=
      Interceptor.aside_onRequest (Interceptor.plain_of_isObserver observes).1 r w'
    rcases htaken : o.onRequest r w' with ⟨outcome, o', w₁⟩
    rw [htaken] at houtcome hbuilt haside
    obtain rfl : outcome = .ok (.proceed r) := houtcome
    have htaken : Stage.onRequest o r w' = (.ok (.proceed r), o', w₁) := htaken
    obtain ⟨hphase, hinserted, hend⟩ := ih hrest (htwin.right haside) r
    rw [requestPhase, htaken]
    have hobserves := (Interceptor.isObserver_of_built hbuilt).trans observes
    exact ⟨hphase, .insert hobserves hinserted, hend⟩

/-- **A response passes through both chains alike.** -/
theorem takes_response (h : Inserted xs ys) (hfits : ∀ i ∈ ys, i.Fits shared)
    (htwin : Twin shared w w') (p : Response) :
    (responsePhase ys p w').1 = (responsePhase xs p w).1 ∧
      Inserted (responsePhase xs p w).2.1 (responsePhase ys p w').2.1 ∧
      Twin shared (responsePhase xs p w).2.2 (responsePhase ys p w').2.2 := by
  induction h generalizing p w w' with
  | nil => exact ⟨rfl, .nil, htwin⟩
  | @keep xs ys i rest ih =>
    obtain ⟨hi, hrest⟩ := List.forall_mem_cons.1 hfits
    obtain ⟨houtcome, hstage, hnext⟩ := htwin.onResponse hi p
    have hstrips := i.outcome_onResponse p w
    rcases htaken : i.onResponse p w with ⟨outcome, i₁, w₁⟩
    rcases htaken' : i.onResponse p w' with ⟨outcome', i₁', w₁'⟩
    rw [htaken, htaken'] at houtcome hstage hnext
    rw [htaken] at hstrips
    obtain rfl : outcome' = outcome := houtcome
    obtain rfl : i₁' = i₁ := hstage
    obtain rfl : outcome' = _ := hstrips
    have htaken : Stage.onResponse i p w = (_, i₁', w₁) := htaken
    have htaken' : Stage.onResponse i p w' = (_, i₁', w₁') := htaken'
    obtain ⟨hphase, hinserted, hend⟩ := ih hrest hnext { p with body := i.strip p.body }
    rw [responsePhase, responsePhase, htaken, htaken']
    exact ⟨hphase, .keep i₁' hinserted, hend⟩
  | @insert xs ys o observes rest ih =>
    obtain ⟨ho, hrest⟩ := List.forall_mem_cons.1 hfits
    obtain ⟨hplain, hstrip⟩ := Interceptor.plain_of_isObserver observes
    have houtcome := o.outcome_onResponse p w'
    have hbuilt := o.built_onResponse p w'
    have haside : Aside shared w' (o.onResponse p w').2.2 :=
      Interceptor.aside_onResponse hplain ho p w'
    rw [hstrip] at houtcome
    rcases htaken : o.onResponse p w' with ⟨outcome, o', w₁⟩
    rw [htaken] at houtcome hbuilt haside
    obtain rfl : outcome = .ok p := houtcome
    have htaken : Stage.onResponse o p w' = (.ok p, o', w₁) := htaken
    obtain ⟨hphase, hinserted, hend⟩ := ih hrest (htwin.right haside) p
    rw [responsePhase, htaken]
    have hobserves := (Interceptor.isObserver_of_built hbuilt).trans observes
    exact ⟨hphase, .insert hobserves hinserted, hend⟩

/-- The response phase with observers put in ends as it does without them. -/
theorem finishes (h : Inserted xs ys) (hfits : ∀ i ∈ ys, i.Fits shared)
    (htwin : Twin shared w w') (p : Response) :
    (finish ys p w').1 = (finish xs p w).1 ∧
      Inserted (finish xs p w).2.1 (finish ys p w').2.1 ∧
      Twin shared (finish xs p w).2.2 (finish ys p w').2.2 := by
  obtain ⟨hphase, hinserted, hend⟩ := h.takes_response hfits htwin p
  exact ⟨congrArg Except.ok hphase, hinserted, hend.note _ _⟩

/-- The stages of a chain after a request go with the same stores. -/
theorem fits_of_built {ys' : List Interceptor} (hfits : ∀ i ∈ ys, i.Fits shared)
    (hbuilt : ys'.map Interceptor.built = ys.map Interceptor.built) : ∀ i ∈ ys', i.Fits shared := by
  intro i hi
  have hmem : i.built ∈ ys.map Interceptor.built := by
    rw [← hbuilt]
    exact List.mem_map_of_mem hi
  obtain ⟨j, hj, hsame⟩ := List.mem_map.1 hmem
  exact (hfits j hj).of_built hsame.symm

/-- **A call goes through both chains alike.** -/
theorem call (h : Inserted xs ys) (hfits : ∀ i ∈ ys, i.Fits shared) (htwin : Twin shared w w')
    (r : Request) :
    (process World.askModel ys r w').1 = (process World.askModel xs r w).1 ∧
      Inserted (process World.askModel xs r w).2.1 (process World.askModel ys r w').2.1 ∧
      Twin shared (process World.askModel xs r w).2.2 (process World.askModel ys r w').2.2 := by
  obtain ⟨houtcome, hinserted, hnext⟩ := h.takes_request hfits htwin r
  have hbuilt := Chain.map_requestPhase Interceptor.built_onRequest ys r w'
  rcases hphase : requestPhase xs r w with ⟨outcome, xs', w₁⟩
  rcases hphase' : requestPhase ys r w' with ⟨outcome', ys', w₁'⟩
  rw [hphase, hphase'] at houtcome hinserted hnext
  rw [hphase'] at hbuilt
  obtain rfl : outcome' = outcome := houtcome
  have hfits' := fits_of_built hfits hbuilt
  rcases outcome' with e | q | p
  · rw [Chain.process_of_refused _ hphase, Chain.process_of_refused _ hphase']
    exact ⟨rfl, hinserted, hnext⟩
  -- the model was asked the same before, so it gives the same answer
  · have hmodel : (World.askModel q w₁').1 = (World.askModel q w₁).1 := by
      rw [World.askModel, World.askModel, hnext.model, hnext.asked]
    have hasked := hnext.ask q
    cases hreply : (World.askModel q w₁).1 with
    | error e =>
      rw [Chain.process_of_unanswered hphase hreply,
        Chain.process_of_unanswered hphase' (hmodel.trans hreply)]
      exact ⟨rfl, hinserted, hasked⟩
    | ok p =>
      rw [Chain.process_of_replied hphase hreply,
        Chain.process_of_replied hphase' (hmodel.trans hreply)]
      exact hinserted.finishes hfits' hasked p
  · rw [Chain.process_of_answered _ hphase, Chain.process_of_answered _ hphase']
    exact hinserted.finishes hfits' hnext p

/-- **A run goes through both chains alike.** -/
theorem run (h : Inserted xs ys) (hfits : ∀ i ∈ ys, i.Fits shared) (htwin : Twin shared w w')
    (calls : List Request) :
    (turns ys w' calls).map (·.call.1) = (turns xs w calls).map (·.call.1) ∧
      Inserted (served xs w calls).1 (served ys w' calls).1 ∧
      Twin shared (served xs w calls).2 (served ys w' calls).2 := by
  induction calls generalizing xs ys w w' with
  | nil => exact ⟨rfl, h, htwin⟩
  | cons r rest ih =>
    obtain ⟨houtcome, hinserted, hnext⟩ := h.call hfits htwin r
    have hfits' := fits_of_built hfits (Chain.map_process Interceptor.built_onRequest
      Interceptor.built_onResponse World.askModel ys r w')
    obtain ⟨houtcomes, hend⟩ := ih hinserted hfits' hnext
    refine ⟨?_, hend⟩
    rw [turns, turns, List.map_cons, List.map_cons]
    exact congrArg₂ List.cons houtcome houtcomes

end Inserted

/-- **Observers are invisible.** A chain with any observers inserted gives the same outcomes, call
by call, sends the model the same requests in the same order, and leaves every stage of the chain
that it was made of as it would be without them, and every cache over the same store. The stores of
the caches are open, and no stage keeps a file in the place of one. -/
theorem observers_are_invisible {xs ys : List Interceptor} (h : Inserted xs ys) {w : World}
    (hopen : ∀ c, .caching c ∈ xs → w.Reaches c.place)
    (hfiles : ∀ i ∈ ys, ∀ file, i.Writes file → ∀ c, .caching c ∈ xs →
      ¬ SamePlace (.file file) c.place) (calls : List Request) :
    (turns ys w calls).map (·.call.1) = (turns xs w calls).map (·.call.1) ∧
      (served ys w calls).2.asked = (served xs w calls).2.asked ∧
      Inserted (served xs w calls).1 (served ys w calls).1 ∧
      ∀ c, .caching c ∈ (served xs w calls).1 →
        (served ys w calls).2.store c.place = (served xs w calls).2.store c.place := by
  -- what the stages share are the stores of the caches
  let shared (place : Location) : Prop := ∃ c, .caching c ∈ xs ∧ c.place = place
  have hfits : ∀ i ∈ ys, i.Fits shared := by
    intro i hi
    refine ⟨?_, ?_⟩
    · rintro c rfl
      exact ⟨c, h.mem_of_caching hi, rfl⟩
    · rintro file hwrites place ⟨c, hc, rfl⟩
      exact hfiles i hi file hwrites c hc
  have htwin : Twin shared w w := by
    refine .refl ?_
    rintro place ⟨c, hc, rfl⟩
    exact hopen c hc
  obtain ⟨houtcomes, hinserted, hend⟩ := h.run hfits htwin calls
  refine ⟨houtcomes, hend.asked, hinserted, ?_⟩
  intro c hc
  refine hend.store ?_
  have hmem : (Interceptor.caching c).built ∈ xs.map Interceptor.built := by
    rw [← Chain.map_served Interceptor.built_onRequest Interceptor.built_onResponse xs w calls]
    exact List.mem_map_of_mem hc
  obtain ⟨i, hi, hbuilt⟩ := List.mem_map.1 hmem
  obtain ⟨c₀, rfl, -, hplace⟩ := Interceptor.built_eq_caching hbuilt
  exact ⟨c₀, hi, hplace⟩

/-- A tracker and a log leave no trace in a chain of a cache in a file. -/
theorem observers_are_invisible_in_file :
    let cache : Caching :=
      .onPlace ⟨some "c", true, true, true, none, none, false, none, none⟩ (.file "c/cache.db")
    let tracker : Interceptor := .progress (.fresh ⟨none, 1, none, 0, some "progress"⟩)
    let xs : List Interceptor := [.caching cache]
    let ys : List Interceptor := [tracker, .caching cache, .requestLog (.fresh ⟨none, 10⟩)]
    let w : World :=
      ((World.initial (fun _ => .ok ⟨200, [], []⟩) fun _ => true).openStore "c").2
    let r : Request := ⟨"POST", "/", [], .null, .arrived "a"⟩
    (w.store (.file "c/cache.db")).Works ∧
      (turns ys w [r, r]).map (·.call.1) = (turns xs w [r, r]).map (·.call.1) ∧
      (served ys w [r, r]).2.asked = (served xs w [r, r]).2.asked := by
  intro cache tracker xs ys w r
  have hinserted : Inserted xs ys := .insert rfl (.keep _ (.insert rfl .nil))
  have hempty : w.store (.file "c/cache.db") = .empty := rfl
  have hopen : ∀ c, .caching c ∈ xs → w.Reaches c.place := by
    intro c hc
    obtain rfl := Interceptor.caching.inj (List.mem_singleton.1 hc)
    have hopened : World.openStore (.initial (fun _ => .ok ⟨200, [], []⟩) fun _ => true) "c"
        = (.ok cache.place, w) := rfl
    exact World.reaches_of_openStore hopened
  have hfiles : ∀ i ∈ ys, ∀ file, i.Writes file → ∀ c, .caching c ∈ xs →
      ¬ SamePlace (.file file) c.place := by
    intro i hi file hwrites c hc
    obtain rfl := Interceptor.caching.inj (List.mem_singleton.1 hc)
    rcases List.mem_cons.1 hi with rfl | hi
    · obtain rfl : "progress" = file := Option.some.inj hwrites
      show Tree.key (Files.Path.parts "progress") ≠ Tree.key (Files.Path.parts "c/cache.db")
      decide
    · rcases List.mem_cons.1 hi with rfl | hi
      · exact hwrites.elim
      · obtain rfl := List.mem_singleton.1 hi
        exact hwrites.elim
  obtain ⟨houtcomes, hasked, -, -⟩ := observers_are_invisible hinserted hopen hfiles [r, r]
  refine ⟨?_, houtcomes, hasked⟩
  rw [hempty]
  exact Cache.Store.works_empty

end EvalProxy
