/-
# What writing files leaves in place

Writing and replacing files and making directories keep every directory and add or change no
database. So where a path leads stays the same, but for a file in the place of what was there.

Main definitions: `Kept`, `Breaks`, `Putting`, `Replacing`.
Main statements: `kept_put`, `kept_createDirectories`, `replacing`, `kept_replace`, `find_of_kept`.
-/
import EvalProxy.Files.Tree
namespace EvalProxy.Files.Tree

/-- All directories are still there, and all databases were there before. -/
structure Kept (t t' : Tree) : Prop where
  directories : ∀ k, t.nodes.get? k = some .directory → t'.nodes.get? k = some .directory
  databases : ∀ k s, t'.nodes.get? k = some (.database s) → t.nodes.get? k = some (.database s)

theorem Kept.refl (t : Tree) : t.Kept t := ⟨fun _ h => h, fun _ _ h => h⟩

theorem Kept.trans {t₁ t₂ t₃ : Tree} (h : t₁.Kept t₂) (h' : t₂.Kept t₃) : t₁.Kept t₃ :=
  ⟨fun k hk => h'.directories k (h.directories k hk),
    fun k s hk => h.databases k s (h'.databases k s hk)⟩

/-! ## Single changes -/

/-- After a node is put in its place, only its own key gives something else. -/
theorem get?_withNode (t : Tree) (parts : List String) (n : Node) (k : String) :
    (t.withNode parts n).nodes.get? k = if key parts = k then some n else t.nodes.get? k :=
  Dict.get?_insert t.nodes (key parts) k n

/-- After a node is taken away, only its own key gives something else. -/
theorem get?_without (t : Tree) (parts : List String) (k : String) :
    (t.without parts).nodes.get? k = if key parts = k then none else t.nodes.get? k :=
  Dict.get?_erase t.nodes (key parts) k

/-- What is put in no directory's place keeps the directories. -/
theorem directories_withNode {t : Tree} {parts : List String}
    (hplace : t.nodes.get? (key parts) ≠ some .directory) (n : Node) {k : String}
    (hk : t.nodes.get? k = some .directory) :
    (t.withNode parts n).nodes.get? k = some .directory := by
  have hne : key parts ≠ k := by
    rintro rfl
    exact hplace hk
  rw [get?_withNode, if_neg hne]
  exact hk

/-- Putting in a node that is no database, where no directory stands, keeps the tree. -/
theorem kept_withNode {t : Tree} {parts : List String}
    (hplace : t.nodes.get? (key parts) ≠ some .directory) {n : Node} (hn : ∀ s, n ≠ .database s) :
    t.Kept (t.withNode parts n) := by
  refine ⟨fun k hk => directories_withNode hplace n hk, ?_⟩
  intro k s hk
  rw [get?_withNode] at hk
  split at hk
  · exact absurd (Option.some.inj hk) (hn s)
  · exact hk

/-- Taking away what is no directory keeps the tree. -/
theorem kept_without {t : Tree} {parts : List String}
    (hplace : t.nodes.get? (key parts) ≠ some .directory) : t.Kept (t.without parts) := by
  constructor
  · intro k hk
    have hne : key parts ≠ k := by
      rintro rfl
      exact hplace hk
    rw [get?_without, if_neg hne]
    exact hk
  · intro k s hk
    rw [get?_without] at hk
    split at hk
    · simp at hk
    · exact hk

/-! ## Where paths lead -/

/-- A walk ends at the node of all parts. -/
theorem eq_node?_of_walk {t : Tree} {walked rest : List String} {n : Option Node}
    (h : t.walk walked rest = .ok n) : n = t.node? (walked ++ rest) := by
  induction rest generalizing walked with
  | nil =>
    rw [List.append_nil]
    exact (Except.ok.inj h).symm
  | cons p rest ih =>
    unfold walk at h
    split at h
    · split at h
      · simp at h
      · split at h
        · simp at h
        · have hn := ih h
          rwa [List.append_assoc] at hn
    · simp at h
    · simp at h

/-- Where all directories are still there, a walk takes the same way. -/
theorem walk_of_directories {t t' : Tree}
    (hdirectories : ∀ k, t.nodes.get? k = some .directory → t'.nodes.get? k = some .directory)
    {walked rest : List String} {n : Option Node} (h : t.walk walked rest = .ok n) :
    t'.walk walked rest = .ok (t'.node? (walked ++ rest)) := by
  -- a walk goes on through directories only, and these are all there
  have hnode {parts : List String} (hparts : t.node? parts = some .directory) :
      t'.node? parts = some .directory := by
    unfold node? at hparts ⊢
    split
    · rfl
    · rename_i hne
      rw [if_neg hne] at hparts
      exact hdirectories _ hparts
  induction rest generalizing walked with
  | nil =>
    rw [List.append_nil]
    rfl
  | cons p rest ih =>
    unfold walk at h ⊢
    split at h
    · rename_i hwalked
      rw [hnode hwalked]
      split at h
      · simp at h
      · rename_i hzero
        split at h
        · simp at h
        · rename_i hlength
          simp only [hzero, if_false, hlength]
          rw [ih h, List.append_assoc]
          rfl
    · simp at h
    · simp at h

/-- A path that led somewhere still leads there while its directories last. -/
theorem find_of_directories {t t' : Tree}
    (hdirectories : ∀ k, t.nodes.get? k = some .directory → t'.nodes.get? k = some .directory)
    {path : String} {n : Option Node} (h : t.find path = .ok n) :
    t'.find path = .ok (t'.node? (Path.parts path)) := by
  unfold find at h ⊢
  split at h
  · simp at h
  · rename_i hne
    rw [if_neg hne]
    exact walk_of_directories hdirectories h

/-- **A path that leads somewhere still does**, to what stands there now. -/
theorem find_of_kept {t t' : Tree} (h : t.Kept t') {path : String} {n : Option Node}
    (hfind : t.find path = .ok n) : t'.find path = .ok (t'.node? (Path.parts path)) :=
  find_of_directories h.directories hfind

/-- What is found at a path is the node in its place. -/
theorem eq_node?_of_find {t : Tree} {path : String} {n : Option Node} (h : t.find path = .ok n) :
    n = t.node? (Path.parts path) := by
  unfold find at h
  split at h
  · simp at h
  · exact eq_node?_of_walk h

/-- A path to anything but a directory has parts, and its node stands under their key. -/
theorem get?_of_find {t : Tree} {path : String} {n : Option Node} (h : t.find path = .ok n)
    (hn : n ≠ some .directory) :
    Path.parts path ≠ [] ∧ t.nodes.get? (key (Path.parts path)) = n := by
  have hnode := eq_node?_of_find h
  unfold node? at hnode
  split at hnode
  · exact absurd hnode hn
  · rename_i hne
    exact ⟨by simpa using hne, hnode.symm⟩

theorem node?_withNode {t : Tree} {parts : List String} (hne : parts ≠ []) (n : Node) :
    (t.withNode parts n).node? parts = some n := by
  rw [node?, if_neg (by simpa using hne), get?_withNode, if_pos rfl]

/-- A path leads to what is put in the place of what was there, if that was no directory. -/
theorem find_withNode {t : Tree} {path : String} {n : Option Node} (h : t.find path = .ok n)
    (hn : n ≠ some .directory) (n' : Node) :
    (t.withNode (Path.parts path) n').find path = .ok (some n') := by
  obtain ⟨hne, hget⟩ := get?_of_find h hn
  have hplace : t.nodes.get? (key (Path.parts path)) ≠ some .directory := by
    rw [hget]
    exact hn
  rw [find_of_directories (fun _ hk => directories_withNode hplace n' hk) h, node?_withNode hne]

/-! ## Operations -/

/-- What a write does. -/
theorem of_write {t t' : Tree} {path : String} {content : Bytes}
    (h : t.write path content = .ok t') :
    t' = t.withNode (Path.parts path) (.file content) ∧
      ∃ n, t.find path = .ok n ∧ n ≠ some .directory := by
  unfold write at h
  cases hfind : t.find path with
  | error e =>
    rw [hfind] at h
    simp [bind, Except.bind] at h
  | ok n =>
    rw [hfind] at h
    simp only [bind, Except.bind] at h
    split at h
    · simp at h
    · rename_i hn
      exact ⟨(Except.ok.inj h).symm, n, rfl, hn⟩

/-- **Writing a file** keeps directories and databases. -/
theorem kept_write {t t' : Tree} {path : String} {content : Bytes}
    (h : t.write path content = .ok t') : t.Kept t' := by
  obtain ⟨rfl, n, hfind, hn⟩ := of_write h
  refine kept_withNode ?_ (by simp)
  rw [(get?_of_find hfind hn).2]
  exact hn

/-- Whether a file can be written does not depend on its content. -/
theorem write_congr {t t' : Tree} {path : String} {content : Bytes}
    (h : t.write path content = .ok t') (other : Bytes) :
    t.write path other = .ok (t.withNode (Path.parts path) (.file other)) := by
  obtain ⟨-, n, hfind, hn⟩ := of_write h
  rw [write, hfind]
  simp only [bind, Except.bind]

/-- A file that was written is found. -/
theorem find_of_write {t t' : Tree} {path : String} {content : Bytes}
    (h : t.write path content = .ok t') : t'.find path = .ok (some (.file content)) := by
  obtain ⟨rfl, n, hfind, hn⟩ := of_write h
  exact find_withNode hfind hn _

/-- The disk breaks off a file that is written, after so many octets. -/
def Breaks (t : Tree) (path : String) (content : Bytes) (count : Nat) : Prop :=
  (∃ t', t.write path content = .ok t') ∧ ∃ e, t.disk (Path.parts path) content = .breaksOff count e

/-- How putting a file on the disk can end: nothing happens, only some octets are written, or all
are. -/
inductive Putting (t : Tree) (path : String) (content : Bytes) : Tree × Option Fault → Prop where
  | failed {e : Fault} (hwhole : ∀ count, ¬ t.Breaks path content count) :
    Putting t path content (t, some e)
  | cut {t' : Tree} {count : Nat} {e : Fault} (hbreaks : t.Breaks path content count)
    (hwrite : t.write path (content.take count) = .ok t') : Putting t path content (t', some e)
  | whole {t' : Tree} (hwhole : ∀ count, ¬ t.Breaks path content count)
    (hwrite : t.write path content = .ok t') : Putting t path content (t', none)

/-- **Putting a file on the disk** ends in one of these ways. -/
theorem putting (t : Tree) (path : String) (content : Bytes) :
    t.Putting path content (t.put path content) := by
  rw [put]
  cases hwrite : t.write path content with
  | error e =>
    refine .failed ?_
    rintro count ⟨⟨t', ht'⟩, -⟩
    cases hwrite.symm.trans ht'
  | ok written =>
    dsimp only
    cases hdisk : t.disk (Path.parts path) content with
    | takes =>
      refine .whole ?_ hwrite
      rintro count ⟨-, e', hbreaks⟩
      cases hdisk.symm.trans hbreaks
    | refuses e =>
      refine .failed ?_
      rintro count ⟨-, e', hbreaks⟩
      cases hdisk.symm.trans hbreaks
    | breaksOff count e => exact .cut ⟨⟨_, hwrite⟩, e, hdisk⟩ (write_congr hwrite _)

/-- What is on the disk without a fault was written as a whole. -/
theorem write_of_put {t t' : Tree} {path : String} {content : Bytes}
    (h : t.put path content = (t', none)) :
    t.write path content = .ok t' ∧ ∀ count, ¬ t.Breaks path content count := by
  have hputting := t.putting path content
  rw [h] at hputting
  cases hputting with
  | whole hwhole hwrite => exact ⟨hwrite, hwhole⟩

/-- A file is put on the disk without a fault exactly if it can be written and the disk takes it. -/
theorem put_eq_none_iff {t t' : Tree} {path : String} {content : Bytes} :
    t.put path content = (t', none) ↔
      t.write path content = .ok t' ∧ t.disk (Path.parts path) content = .takes := by
  rw [put]
  cases t.write path content with
  | error e => simp
  | ok written => cases t.disk (Path.parts path) content <;> simp

/-- **Putting a file on the disk** keeps directories and databases, also if the disk breaks off. -/
theorem kept_put {t t' : Tree} {path : String} {content : Bytes} {fault : Option Fault}
    (h : t.put path content = (t', fault)) : t.Kept t' := by
  have hputting := t.putting path content
  rw [h] at hputting
  cases hputting with
  | failed hwhole => exact .refl t
  | cut hbreaks hwrite => exact kept_write hwrite
  | whole hwhole hwrite => exact kept_write hwrite

/-- At most the file itself is another one after it was put on the disk. -/
theorem eq_or_of_put {t t' : Tree} {path : String} {content : Bytes} {fault : Option Fault}
    (h : t.put path content = (t', fault)) :
    t' = t ∨ ∃ octets, t' = t.withNode (Path.parts path) (.file octets) := by
  have hputting := t.putting path content
  rw [h] at hputting
  cases hputting with
  | failed hwhole => exact .inl rfl
  | cut hbreaks hwrite => exact .inr ⟨_, (of_write hwrite).1⟩
  | whole hwhole hwrite => exact .inr ⟨_, (of_write hwrite).1⟩

/-- Putting a file on the disk leaves what stands elsewhere. -/
theorem get?_of_put {t t' : Tree} {path k : String} {content : Bytes} {fault : Option Fault}
    (h : t.put path content = (t', fault)) (hpath : key (Path.parts path) ≠ k) :
    t'.nodes.get? k = t.nodes.get? k := by
  obtain rfl | ⟨octets, rfl⟩ := eq_or_of_put h
  · rfl
  · rw [get?_withNode, if_neg hpath]

theorem kept_makeDirectories {t t' : Tree} {walked rest : List String}
    (h : t.makeDirectories walked rest = .ok t') : t.Kept t' := by
  induction rest generalizing t walked with
  | nil =>
    obtain rfl := Except.ok.inj h
    exact .refl t
  | cons p rest ih =>
    unfold makeDirectories at h
    dsimp only at h
    split at h
    · simp at h
    · split at h
      · simp at h
      · split at h
        · exact ih h
        · simp at h
        · rename_i hnone
          -- a directory is made only where nothing stands
          refine Kept.trans (kept_withNode ?_ (by simp)) (ih h)
          have hget : t.nodes.get? (key (walked ++ [p])) = none := by
            simpa [node?] using hnone
          rw [hget]
          simp

/-- Where something stands, no directory is made. -/
theorem get?_of_makeDirectories {t t' : Tree} {walked rest : List String}
    (h : t.makeDirectories walked rest = .ok t') {k : String} {n : Node}
    (hk : t.nodes.get? k = some n) : t'.nodes.get? k = some n := by
  induction rest generalizing t walked with
  | nil =>
    obtain rfl := Except.ok.inj h
    exact hk
  | cons p rest ih =>
    unfold makeDirectories at h
    dsimp only at h
    split at h
    · simp at h
    · split at h
      · simp at h
      · split at h
        · exact ih h hk
        · simp at h
        · rename_i hnone
          have hget : t.nodes.get? (key (walked ++ [p])) = none := by
            simpa [node?] using hnone
          have hne : key (walked ++ [p]) ≠ k := by
            rintro rfl
            simp [hget] at hk
          refine ih h ?_
          rw [get?_withNode, if_neg hne]
          exact hk

/-- **Making directories** keeps directories and databases. -/
theorem kept_createDirectories {t t' : Tree} {path : String}
    (h : t.createDirectories path = .ok t') : t.Kept t' :=
  kept_makeDirectories h

theorem kept_createParent {t t' : Tree} {path : String} (h : t.createParent path = .ok t') :
    t.Kept t' := by
  unfold createParent at h
  split at h
  · exact kept_createDirectories h
  · obtain rfl := Except.ok.inj h
    exact .refl t

/-- Making the parent of a path leaves every node that is there. -/
theorem get?_of_createParent {t t' : Tree} {path : String} (h : t.createParent path = .ok t')
    {k : String} {n : Node} (hk : t.nodes.get? k = some n) : t'.nodes.get? k = some n := by
  unfold createParent at h
  split at h
  · exact get?_of_makeDirectories h hk
  · obtain rfl := Except.ok.inj h
    exact hk

/-- Moving a file keeps directories and databases. -/
theorem kept_rename {t t' : Tree} {source target : String} {content : Bytes}
    (hsource : t.find source = .ok (some (.file content))) (h : t.rename source target = .ok t') :
    t.Kept t' := by
  have hgone : t.nodes.get? (key (Path.parts source)) ≠ some .directory := by
    rw [(get?_of_find hsource (by simp)).2]
    simp
  unfold rename at h
  rw [hsource] at h
  cases hfind : t.find target with
  | error e =>
    rw [hfind] at h
    simp [bind, Except.bind] at h
  | ok n =>
    rw [hfind] at h
    simp only [bind, Except.bind] at h
    split at h
    · simp at h
    · rename_i hn
      obtain rfl := Except.ok.inj h
      -- the source is gone before the target is written
      have hwithout := kept_without hgone
      refine hwithout.trans (kept_withNode ?_ (by simp))
      rw [get?_without]
      split
      · simp
      · rw [(get?_of_find hfind hn).2]
        exact hn

/-! ## Replacing files -/

/-- The path of the temporary file through which a file is replaced. -/
def temporary (path name : String) : String := Path.withExtension path s!"json.{name}.tmp"

/-- How replacing a file can end. -/
inductive Replacing (t : Tree) (path name : String) (content : Bytes) :
    Tree × Option Fault → Prop where
  | noDirectory {e : Fault} (hparent : t.createParent path = .error e) :
    Replacing t path name content (t, some e)
  | notWritten {t₁ t₂ : Tree} {e : Fault} (hparent : t.createParent path = .ok t₁)
    (hput : t₁.put (temporary path name) content = (t₂, some e)) :
    Replacing t path name content (t₂, some e)
  | notMoved {t₁ written : Tree} {e : Fault} (hparent : t.createParent path = .ok t₁)
    (hput : t₁.put (temporary path name) content = (written, none))
    (hrename : written.rename (temporary path name) path = .error e) :
    Replacing t path name content (written.remove (temporary path name), some e)
  | replaced {t₁ written t' : Tree} (hparent : t.createParent path = .ok t₁)
    (hput : t₁.put (temporary path name) content = (written, none))
    (hrename : written.rename (temporary path name) path = .ok t') :
    Replacing t path name content (t', none)

/-- Replacing a file ends in one of the ways there are. -/
theorem replacing (t : Tree) (path name : String) (content : Bytes) :
    t.Replacing path name content (t.replace path name content) := by
  rw [replace]
  cases hparent : t.createParent path with
  | error e => exact .noDirectory hparent
  | ok t₁ =>
    dsimp only
    rcases hput : t₁.put (Path.withExtension path s!"json.{name}.tmp") content with ⟨written, fault⟩
    cases fault with
    | some e => exact .notWritten hparent hput
    | none =>
      dsimp only
      cases hrename : written.rename (Path.withExtension path s!"json.{name}.tmp") path with
      | error e => exact .notMoved hparent hput hrename
      | ok replaced => exact .replaced hparent hput hrename

/-- **Replacing a file** keeps directories and databases, whether or not it succeeds. -/
theorem kept_replace (t : Tree) (path name : String) (content : Bytes) :
    t.Kept (t.replace path name content).1 := by
  have h := t.replacing path name content
  generalize t.replace path name content = result at h ⊢
  cases h with
  | noDirectory hparent => exact .refl t
  | notWritten hparent hput => exact (kept_createParent hparent).trans (kept_put hput)
  | notMoved hparent hput hrename =>
    refine ((kept_createParent hparent).trans (kept_put hput)).trans (kept_without ?_)
    rw [(get?_of_find (find_of_write (write_of_put hput).1) (by simp)).2]
    simp
  | replaced hparent hput hrename =>
    have hwritten := (kept_createParent hparent).trans (kept_put hput)
    exact hwritten.trans (kept_rename (find_of_write (write_of_put hput).1) hrename)

/-! ## What lies apart -/

/-- What a move does. -/
theorem of_rename {t t' : Tree} {source target : String} (h : t.rename source target = .ok t') :
    ∃ n, t' = (t.without (Path.parts source)).withNode (Path.parts target) n := by
  unfold rename at h
  cases hsource : t.find source with
  | error e =>
    rw [hsource] at h
    simp [bind, Except.bind] at h
  | ok found =>
    rw [hsource] at h
    cases found with
    | none => simp [bind, Except.bind] at h
    | some n =>
      cases htarget : t.find target with
      | error e =>
        rw [htarget] at h
        simp [bind, Except.bind] at h
      | ok n' =>
        rw [htarget] at h
        simp only [bind, Except.bind] at h
        split at h
        · simp at h
        · exact ⟨n, (Except.ok.inj h).symm⟩

/-- **Replacing a file** leaves what stands elsewhere. -/
theorem get?_of_replace {t : Tree} {path name : String} {k : String}
    (hpath : key (Path.parts path) ≠ k) (htemporary : key (Path.parts (temporary path name)) ≠ k)
    {n : Node} (hk : t.nodes.get? k = some n) (content : Bytes) :
    (t.replace path name content).1.nodes.get? k = some n := by
  have h := t.replacing path name content
  generalize t.replace path name content = result at h ⊢
  have hwritten {t₁ t₂ : Tree} {fault : Option Fault} (hparent : t.createParent path = .ok t₁)
      (hput : t₁.put (temporary path name) content = (t₂, fault)) : t₂.nodes.get? k = some n :=
    (get?_of_put hput htemporary).trans (get?_of_createParent hparent hk)
  cases h with
  | noDirectory hparent => exact hk
  | notWritten hparent hput => exact hwritten hparent hput
  | notMoved hparent hput hrename =>
    exact (get?_without _ _ _).trans ((if_neg htemporary).trans (hwritten hparent hput))
  | replaced hparent hput hrename =>
    obtain ⟨n', rfl⟩ := of_rename hrename
    rw [get?_withNode, if_neg hpath]
    exact (get?_without _ _ _).trans ((if_neg htemporary).trans (hwritten hparent hput))

/-- The same database stands under a key, if any. -/
def SameDatabase (k : String) (t t' : Tree) : Prop :=
  ∀ s, t'.nodes.get? k = some (.database s) ↔ t.nodes.get? k = some (.database s)

theorem SameDatabase.trans {k : String} {t₁ t₂ t₃ : Tree} (h : SameDatabase k t₁ t₂)
    (h' : SameDatabase k t₂ t₃) : SameDatabase k t₁ t₃ := fun s => (h' s).trans (h s)

/-- Putting a file on the disk elsewhere leaves a database. -/
theorem sameDatabase_put {t t' : Tree} {path k : String} {content : Bytes} {fault : Option Fault}
    (h : t.put path content = (t', fault)) (hpath : key (Path.parts path) ≠ k) :
    SameDatabase k t t' := by
  intro s
  rw [get?_of_put h hpath]

/-- Replacing a file elsewhere leaves a database. -/
theorem sameDatabase_replace {path name k : String} (hpath : key (Path.parts path) ≠ k)
    (htemporary : key (Path.parts (temporary path name)) ≠ k) (t : Tree) (content : Bytes) :
    SameDatabase k t (t.replace path name content).1 :=
  fun s => ⟨(t.kept_replace path name content).databases k s,
    fun hs => get?_of_replace hpath htemporary hs content⟩

/-! ## What is read afterwards -/

/-- Paths that lead somewhere through the same parts lead to the same. -/
theorem find_eq_of_parts {t t' : Tree} {p q : String} {n m : Option Node}
    (hp : t.find p = .ok n) (hq : t'.find q = .ok m) (h : Path.parts p = Path.parts q)
    (s : Tree) : s.find p = s.find q := by
  have hnonempty {t : Tree} {path : String} {n : Option Node} (hfind : t.find path = .ok n) :
      ¬path.isEmpty := by
    intro hempty
    rw [find, if_pos hempty] at hfind
    cases hfind
  rw [find, find, if_neg (hnonempty hp), if_neg (hnonempty hq), h]

/-- A file that was renamed is found at its new path. -/
theorem find_of_rename {t t' : Tree} {source target : String} {content : Bytes}
    (hsource : t.find source = .ok (some (.file content))) (h : t.rename source target = .ok t') :
    t'.find target = .ok (some (.file content)) := by
  have hkept := kept_rename hsource h
  rw [rename, hsource] at h
  cases htarget : t.find target with
  | error e =>
    rw [htarget] at h
    cases h
  | ok n =>
    rw [htarget] at h
    simp only [bind, Except.bind] at h
    split at h
    · cases h
    · rename_i hn
      obtain rfl := Except.ok.inj h
      rw [find_of_kept hkept htarget, node?_withNode (get?_of_find htarget hn).1]

/-- **A file that was replaced** has its new content. -/
theorem find_of_replace {t t' : Tree} {path name : String} {content : Bytes}
    (h : t.replace path name content = (t', none)) :
    t'.find path = .ok (some (.file content)) := by
  have hreplacing := t.replacing path name content
  rw [h] at hreplacing
  cases hreplacing with
  | replaced hparent hput hrename =>
    exact find_of_rename (find_of_write (write_of_put hput).1) hrename

/-- Replacing a file elsewhere changes nothing about a file. -/
theorem find_of_replace_apart {t : Tree} {path name other : String}
    (hpath : key (Path.parts path) ≠ key (Path.parts other))
    (htemporary : key (Path.parts (temporary path name)) ≠ key (Path.parts other))
    {content kept : Bytes} (h : t.find other = .ok (some (.file kept))) :
    (t.replace path name content).1.find other = .ok (some (.file kept)) := by
  obtain ⟨hne, hget⟩ := get?_of_find h (by simp)
  have hkept := get?_of_replace hpath htemporary hget content
  rw [find_of_kept (t.kept_replace path name content) h, node?, if_neg (by simpa using hne), hkept]

end EvalProxy.Files.Tree
