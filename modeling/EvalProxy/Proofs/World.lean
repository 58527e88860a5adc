/-
# Stores in the world

What components other than caches do leaves the stores alone, except that a file may take the place
of a database. A store that is lost this way never works again; any other store is as it was.

Main statements: `store_of_undisturbed`, `store_withStore`, `not_works_of_dislodged`.
-/
import EvalProxy.World
import EvalProxy.Proofs.Cache.Store
import EvalProxy.Proofs.Files.Kept
namespace EvalProxy.World

open Files

/-! ## Nothing disturbed -/

/-- The model, what it was asked, and the stores are as before, but for databases that are gone. -/
structure Undisturbed (w w' : World) : Prop where
  model : w'.model = w.model
  asked : w'.asked = w.asked
  memory : w'.memory = w.memory
  tree : w.tree.Kept w'.tree

theorem Undisturbed.refl (w : World) : w.Undisturbed w := ⟨rfl, rfl, rfl, .refl _⟩

theorem Undisturbed.trans {w₁ w₂ w₃ : World} (h : w₁.Undisturbed w₂) (h' : w₂.Undisturbed w₃) :
    w₁.Undisturbed w₃ :=
  ⟨h'.model.trans h.model, h'.asked.trans h.asked, h'.memory.trans h.memory, h.tree.trans h'.tree⟩

theorem undisturbed_report (w : World) (r : Report) : w.Undisturbed (w.report r) :=
  ⟨rfl, rfl, rfl, .refl _⟩

/-- Writing a file is putting it on the disk. -/
theorem writeFile_eq {w : World} {path : String} {content : Bytes} {tree : Tree}
    {fault : Option Files.Fault} (h : w.tree.put path content = (tree, fault)) :
    w.writeFile path content
      = (fault.elim (.ok ()) fun e => .error (.file e.message), { w with tree := tree }) := by
  rw [writeFile, h]
  cases fault <;> rfl

/-- Writing a file leaves the world undisturbed. -/
theorem undisturbed_writeFile (w : World) (path : String) (content : Bytes) :
    w.Undisturbed (w.writeFile path content).2 := by
  rcases hput : w.tree.put path content with ⟨tree, fault⟩
  rw [writeFile_eq hput]
  exact ⟨rfl, rfl, rfl, Tree.kept_put hput⟩

/-- The model, what it was asked, the stores and the files are as before. -/
structure Untouched (w w' : World) : Prop where
  model : w'.model = w.model
  asked : w'.asked = w.asked
  memory : w'.memory = w.memory
  tree : w'.tree = w.tree

theorem Untouched.refl (w : World) : w.Untouched w := ⟨rfl, rfl, rfl, rfl⟩

theorem Untouched.trans {w₁ w₂ w₃ : World} (h : w₁.Untouched w₂) (h' : w₂.Untouched w₃) :
    w₁.Untouched w₃ :=
  ⟨h'.model.trans h.model, h'.asked.trans h.asked, h'.memory.trans h.memory, h'.tree.trans h.tree⟩

theorem Untouched.undisturbed {w w' : World} (h : w.Untouched w') : w.Undisturbed w' := by
  refine ⟨h.model, h.asked, h.memory, ?_⟩
  rw [h.tree]
  exact .refl _

theorem Untouched.store {w w' : World} (h : w.Untouched w') (place : Location) :
    w'.store place = w.store place := by
  cases place with
  | memory => exact h.memory
  | file path => rw [World.store, World.store, h.tree]

/-! ## What stands at a location -/

/-- The store that stands at a location, wherever a path to it may lead. -/
def storeAt? (w : World) : Location → Option Cache.Store
  | .memory => some w.memory
  | .file path =>
    match w.tree.nodes.get? (Tree.key (Path.parts path)) with
    | some (.database s) => some s
    | _ => none

/-- Two locations are one: both in memory, or files at the same place. -/
def SamePlace : Location → Location → Prop
  | .memory, .memory => True
  | .file path, .file path' => Tree.key (Path.parts path) = Tree.key (Path.parts path')
  | _, _ => False

theorem Untouched.storeAt? {w w' : World} (h : w.Untouched w') (place : Location) :
    w'.storeAt? place = w.storeAt? place := by
  cases place with
  | memory => exact congrArg some h.memory
  | file path => rw [World.storeAt?, World.storeAt?, h.tree]

/-- A store that is put back stands where the one was that it takes the place of, and all others
stand where they stood. -/
theorem storeAt?_withStore (w : World) (place' : Location) (s : Cache.Store) (place : Location) :
    (w.withStore place' s).storeAt? place = w.storeAt? place ∨
      SamePlace place' place ∧ w.storeAt? place = some (w.store place') ∧
        (w.withStore place' s).storeAt? place = some s := by
  cases place' with
  | memory =>
    cases place with
    | memory => exact Or.inr ⟨trivial, rfl, rfl⟩
    | file path => exact Or.inl rfl
  | file path' =>
    rw [withStore, store]
    split
    · rename_i s' hfind
      cases place with
      | memory => exact Or.inl rfl
      | file path =>
        by_cases heq : Tree.key (Path.parts path') = Tree.key (Path.parts path)
        -- the node that is replaced is the database that the path leads to
        · right
          have hget := (Tree.get?_of_find hfind (by simp)).2
          rw [heq] at hget
          refine ⟨heq, by rw [storeAt?, hget], ?_⟩
          rw [storeAt?, Tree.get?_withNode, if_pos heq]
        · left
          rw [storeAt?, storeAt?, Tree.get?_withNode, if_neg heq]
    · exact Or.inl rfl

/-- A file that is written leaves a store alone, or takes its place. -/
theorem storeAt?_writeFile (w : World) (path : String) (content : Bytes) (place : Location) :
    (w.writeFile path content).2.storeAt? place = w.storeAt? place ∨
      SamePlace (.file path) place ∧ (w.writeFile path content).2.storeAt? place = none := by
  rcases hput : w.tree.put path content with ⟨tree, fault⟩
  rw [writeFile_eq hput]
  cases place with
  | memory => exact Or.inl rfl
  | file path' =>
    obtain rfl | ⟨octets, rfl⟩ := Tree.eq_or_of_put hput
    · exact Or.inl rfl
    by_cases heq : Tree.key (Path.parts path) = Tree.key (Path.parts path')
    · exact Or.inr ⟨heq, by rw [storeAt?, Tree.get?_withNode, if_pos heq]⟩
    · left
      rw [storeAt?, storeAt?, Tree.get?_withNode, if_neg heq]

/-! ## Stores that are gone -/

/-- No database stands at a location. -/
def Dislodged (w : World) : Location → Prop
  | .memory => False
  | .file path => ∀ s, w.tree.nodes.get? (Tree.key (Path.parts path)) ≠ some (.database s)

/-- A store that works is a database that its path leads to. -/
theorem find_of_works {w : World} {path : String} (h : (w.store (.file path)).Works) :
    w.tree.find path = .ok (some (.database (w.store (.file path)))) := by
  unfold store at h ⊢
  dsimp only at h ⊢
  split
  · rename_i s hfind
    exact hfind
  -- whatever else the path leads to makes a store that is lost
  · rename_i hnone
    split at h
    · rename_i s hfind
      exact absurd hfind (hnone s)
    · exact absurd h.present (by simp [noStore])

/-- **Where there is no database, no store works.** -/
theorem not_works_of_dislodged {w : World} {place : Location} (h : w.Dislodged place) :
    ¬ (w.store place).Works := by
  cases place with
  | memory => exact h.elim
  | file path =>
    intro hworks
    have hget := (Tree.get?_of_find (find_of_works hworks) (by simp)).2
    exact h _ hget

/-- A place that is dislodged stays so while the world is undisturbed. -/
theorem Dislodged.undisturbed {w w' : World} {place : Location} (h : w.Dislodged place)
    (hw : w.Undisturbed w') : w'.Dislodged place := by
  cases place with
  | memory => exact h
  | file path =>
    intro s hs
    exact h s (hw.tree.databases _ s hs)

/-- **A store that is still there is as it was.** -/
theorem store_of_undisturbed {w w' : World} {place : Location} (hworks : (w.store place).Works)
    (h : w.Undisturbed w') (hthere : ¬ w'.Dislodged place) : w'.store place = w.store place := by
  cases place with
  | memory => exact h.memory
  | file path =>
    have hfind := find_of_works hworks
    obtain ⟨hne, hget⟩ := Tree.get?_of_find hfind (by simp)
    -- there is a database, it was there before, and so it is the one that was found
    obtain ⟨s, hs⟩ := Classical.not_forall.1 hthere
    have hs := Classical.not_not.1 hs
    have hbefore := h.tree.databases _ s hs
    rw [hget] at hbefore
    have hsame : w.store (.file path) = s := by simpa using hbefore
    have hfind' := Tree.find_of_kept h.tree hfind
    rw [Tree.node?, if_neg (by simpa using hne), hs] at hfind'
    rw [hsame, store]
    simp only [hfind']

/-! ## Stores that are put back -/

theorem store_note (w : World) (e : Metrics.Event) (place : Location) :
    (w.note e).store place = w.store place := by
  cases place with
  | memory => rfl
  | file path => rfl

theorem store_askModel (r : Request) (w : World) (place : Location) :
    (askModel r w).2.store place = w.store place := by
  cases place with
  | memory => rfl
  | file path => rfl

/-- The stores do not depend on what was counted. -/
theorem store_withEvents (w : World) (events : Metrics.Log) (place : Location) :
    World.store { w with events := events } place = w.store place := by
  cases place with
  | memory => rfl
  | file path => rfl

/-- A store that is put back is there, unless there is no store in that place. -/
theorem store_withStore_or (w : World) (place : Location) (s : Cache.Store) :
    (w.withStore place s).store place = s ∨
      w.store place = noStore ∧ w.withStore place s = w := by
  cases place with
  | memory => exact .inl rfl
  | file path =>
    rw [withStore]
    split
    · rename_i s' hfind
      left
      have hfind' := Tree.find_withNode hfind (by simp) (.database s)
      rw [store]
      simp only [hfind']
    · rename_i hnone
      right
      refine ⟨?_, rfl⟩
      rw [store]
      split
      · rename_i s' hfind
        exact absurd hfind (hnone s')
      · rfl

/-- A store that is put in the place of a working one is there. -/
theorem store_withStore {w : World} {place : Location} (hworks : (w.store place).Works)
    (s : Cache.Store) : (w.withStore place s).store place = s := by
  rcases w.store_withStore_or place s with hthere | ⟨hnone, -⟩
  · exact hthere
  · have hpresent := hworks.present
    rw [hnone] at hpresent
    cases hpresent

/-- Putting back the store that is there changes nothing. -/
theorem withStore_store (w : World) (place : Location) : w.withStore place (w.store place) = w := by
  cases place with
  | memory => rfl
  | file path =>
    rw [withStore]
    split
    · rename_i s hfind
      have hstore : w.store (.file path) = s := by
        rw [store]
        simp only [hfind]
      have hnodes : w.tree.nodes.insert (Tree.key (Path.parts path)) (.database s)
          = w.tree.nodes := by
        refine Dict.ext_get? fun k => ?_
        rw [Dict.get?_insert]
        split
        · rename_i heq
          rw [← heq, (Tree.get?_of_find hfind (by simp)).2]
        · rfl
      rw [hstore, Tree.withNode, hnodes]
    · rfl

/-- A place that is dislodged stays so when a store is put anywhere. -/
theorem Dislodged.withStore {w : World} {place : Location} (h : w.Dislodged place)
    (place' : Location) (s : Cache.Store) : (w.withStore place' s).Dislodged place := by
  cases place with
  | memory => exact h
  | file path =>
    cases place' with
    | memory => exact h
    | file path' =>
      unfold World.withStore
      dsimp only
      split
      · rename_i s' hfind
        intro s'' hs''
        have hget := (Tree.get?_of_find hfind (by simp)).2
        -- the node that was replaced is a database, so it does not stand at the location
        have hne : Tree.key (Path.parts path') ≠ Tree.key (Path.parts path) := by
          intro heq
          rw [heq] at hget
          exact h _ hget
        rw [Tree.get?_withNode, if_neg hne] at hs''
        exact h s'' hs''
      · exact h

/-- Putting a store back asks the model nothing. -/
theorem questions_withStore (w : World) (place : Location) (s : Cache.Store) :
    (w.withStore place s).model = w.model ∧ (w.withStore place s).asked = w.asked := by
  unfold withStore
  split
  · exact ⟨rfl, rfl⟩
  · split
    · exact ⟨rfl, rfl⟩
    · exact ⟨rfl, rfl⟩

/-! ## Stores that paths lead to -/

/-- A path leads to the store that stands at a location, if one does. -/
def Reaches (w : World) : Location → Prop
  | .memory => True
  | .file path => ∀ s, w.storeAt? (.file path) = some s →
      w.tree.find path = .ok (some (.database s))

/-- A store stands at a path exactly if the node there is its database. -/
theorem storeAt?_eq_some_iff {w : World} {path : String} {s : Cache.Store} :
    w.storeAt? (.file path) = some s ↔
      w.tree.nodes.get? (Tree.key (Path.parts path)) = some (.database s) := by
  rw [storeAt?]
  split
  · rename_i s' hget
    simp [hget]
  · rename_i hnone
    simp only [reduceCtorEq, false_iff]
    exact hnone s

/-- The store at a path is the same if the database there is. -/
theorem storeAt?_of_sameDatabase {w w' : World} {path : String}
    (h : Tree.SameDatabase (Tree.key (Path.parts path)) w.tree w'.tree) :
    w'.storeAt? (.file path) = w.storeAt? (.file path) := by
  apply Option.ext
  intro s
  rw [storeAt?_eq_some_iff, storeAt?_eq_some_iff]
  exact h s

/-- **The store of a location** is the one that stands there. -/
theorem store_of_reaches {w : World} {place : Location} (h : w.Reaches place) :
    w.store place = (w.storeAt? place).getD noStore := by
  cases place with
  | memory => rfl
  | file path =>
    cases hat : w.storeAt? (.file path) with
    | some s =>
      rw [store, h s hat]
      rfl
    | none =>
      rw [store]
      split
      -- a database that is found stands there
      · rename_i s hfind
        have hsome := storeAt?_eq_some_iff.2 (Tree.get?_of_find hfind (by simp)).2
        rw [hat] at hsome
        simp at hsome
      · rfl

/-- Where all directories are still there, paths lead to the stores that are still there. -/
theorem Reaches.of_directories {w w' : World} {place : Location} (h : w.Reaches place)
    (hdirectories : ∀ k, w.tree.nodes.get? k = some .directory →
      w'.tree.nodes.get? k = some .directory)
    (hbefore : (w'.storeAt? place).isSome → (w.storeAt? place).isSome) : w'.Reaches place := by
  cases place with
  | memory => trivial
  | file path =>
    intro s hs
    obtain ⟨s₀, hs₀⟩ := Option.isSome_iff_exists.1 (hbefore (by rw [hs]; rfl))
    have hfind := h s₀ hs₀
    obtain ⟨hne, -⟩ := Tree.get?_of_find hfind (by simp)
    rw [Tree.find_of_directories hdirectories hfind, Tree.node?, if_neg (by simpa using hne),
      storeAt?_eq_some_iff.1 hs]

/-- A store that is put back takes the place of the one that stands there. -/
theorem storeAt?_withStore_of_same {w : World} {place' place : Location} (h : w.Reaches place')
    (hsame : SamePlace place' place) (s : Cache.Store) :
    (w.withStore place' s).storeAt? place = (w.storeAt? place).map fun _ => s := by
  cases place' with
  | memory =>
    cases place with
    | memory => rfl
    | file path => exact hsame.elim
  | file path' =>
    cases place with
    | memory => exact hsame.elim
    | file path =>
      have hsame : Tree.key (Path.parts path') = Tree.key (Path.parts path) := hsame
      have hat : w.storeAt? (.file path') = w.storeAt? (.file path) := by
        rw [storeAt?, storeAt?, hsame]
      rw [withStore]
      split
      · rename_i s' hfind
        have hget := storeAt?_eq_some_iff.2 (Tree.get?_of_find hfind (by simp)).2
        rw [← hat, hget, storeAt?, Tree.get?_withNode, if_pos hsame]
        rfl
      -- a path leads to every store that stands there, so none does
      · rename_i hnone
        cases hs : w.storeAt? (.file path) with
        | none => rfl
        | some s' => exact absurd (h s' (hat.trans hs)) (hnone s')

/-- Putting a store elsewhere leaves the one at a place. -/
theorem storeAt?_withStore_of_not_same {w : World} {place' place : Location}
    (hnot : ¬ SamePlace place' place) (s : Cache.Store) :
    (w.withStore place' s).storeAt? place = w.storeAt? place := by
  rcases w.storeAt?_withStore place' s place with heq | ⟨hsame, -⟩
  · exact heq
  · exact absurd hsame hnot

/-- A store in a file that is put back changes files only. -/
theorem exists_withStore_file (w : World) (path : String) (s : Cache.Store) :
    ∃ t, w.withStore (.file path) s = { w with tree := t } := by
  rw [withStore]
  split
  · exact ⟨_, rfl⟩
  · exact ⟨w.tree, rfl⟩

/-- Putting a store back keeps the directories. -/
theorem directories_withStore (w : World) (place : Location) (s : Cache.Store) {k : String}
    (hk : w.tree.nodes.get? k = some .directory) :
    (w.withStore place s).tree.nodes.get? k = some .directory := by
  unfold withStore
  split
  · exact hk
  · split
    · rename_i s' hfind
      refine Tree.directories_withNode ?_ _ hk
      rw [(Tree.get?_of_find hfind (by simp)).2]
      simp
    · exact hk

/-- A place that is reached still is when a store is put anywhere. -/
theorem Reaches.withStore {w : World} {place : Location} (h : w.Reaches place)
    (place' : Location) (s : Cache.Store) : (w.withStore place' s).Reaches place := by
  refine h.of_directories (fun k hk => w.directories_withStore place' s hk) ?_
  intro hsome
  rcases w.storeAt?_withStore place' s place with heq | ⟨-, hbefore, -⟩
  · rwa [heq] at hsome
  · rw [hbefore]
    rfl

/-- **A store that was opened** is where its path leads. -/
theorem reaches_of_openStore {w w' : World} {directory : String} {place : Location}
    (h : w.openStore directory = (.ok place, w')) : w'.Reaches place := by
  have hplaced {t : Tree} {path : String} {n : Option Node} (hfind : t.find path = .ok n)
      (hn : n ≠ some .directory) (w : World) (s : Cache.Store) :
      World.Reaches { w with tree := t.withNode (Path.parts path) (.database s) } (.file path) := by
    intro s' hs'
    rw [storeAt?_eq_some_iff, Tree.get?_withNode, if_pos rfl] at hs'
    rw [Tree.find_withNode hfind hn]
    exact congrArg Except.ok hs'
  unfold openStore at h
  split at h
  · simp at h
  · dsimp only at h
    split at h
    · rename_i hfind
      obtain ⟨hplace, rfl⟩ := by simpa using h
      rw [← hplace]
      exact hplaced hfind (by simp) w _
    · rename_i content hfind
      split at h
      · obtain ⟨hplace, rfl⟩ := by simpa using h
        rw [← hplace]
        exact hplaced hfind (by simp) w _
      · simp at h
    · rename_i s hfind
      obtain ⟨hplace, rfl⟩ := by simpa using h
      rw [← hplace]
      exact hplaced hfind (by simp) w _
    · simp at h

end EvalProxy.World
