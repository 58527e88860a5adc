/-
# Where paths lead

A name below a directory adds one part to those of the directory, and different parts have different
keys. So the temporary file through which a file is replaced stands in the place of no file whose
name ends otherwise.

Main statements: `parts_join`, `eq_of_key_eq`, `parts_temporary`.
-/
import EvalProxy.Proofs.Files.Kept
import Mathlib.Data.List.TakeWhile
namespace EvalProxy.Files

namespace Path

/-! ## Pieces -/

theorem pieces_ne_nil (cs : List Char) : pieces cs ≠ [] := by
  cases cs with
  | nil => simp [pieces]
  | cons c cs =>
    rw [pieces]
    split
    · simp
    · split <;> simp

/-- The pieces around a slash are those before it and those behind it. -/
theorem pieces_append (xs ys : List Char) :
    pieces (xs ++ '/' :: ys) = pieces xs ++ pieces ys := by
  induction xs with
  | nil => simp [pieces]
  | cons c xs ih =>
    obtain ⟨p, ps, hpieces⟩ := List.exists_cons_of_ne_nil (pieces_ne_nil xs)
    rw [List.cons_append, pieces, ih, pieces, hpieces]
    split <;> rfl

theorem pieces_of_notMem {xs : List Char} (h : '/' ∉ xs) : pieces xs = [xs] := by
  induction xs with
  | nil => rfl
  | cons c xs ih =>
    obtain ⟨hc, hxs⟩ := not_or.1 (mt List.mem_cons.2 h)
    rw [pieces, if_neg (Ne.symm hc), ih hxs]

theorem notMem_of_mem_pieces {xs p : List Char} (h : p ∈ pieces xs) : '/' ∉ p := by
  induction xs generalizing p with
  | nil =>
    obtain rfl := List.mem_singleton.1 h
    simp
  | cons c xs ih =>
    rw [pieces] at h
    split at h
    · rcases List.mem_cons.1 h with rfl | h
      · simp
      · exact ih h
    · rename_i hc
      split at h
      · obtain rfl := List.mem_singleton.1 h
        simpa using Ne.symm hc
      · rename_i q qs hpieces
        rw [hpieces] at ih
        rcases List.mem_cons.1 h with rfl | h
        · have hq := ih List.mem_cons_self
          simp only [List.mem_cons, not_or]
          exact ⟨Ne.symm hc, hq⟩
        · exact ih (List.mem_cons_of_mem q h)

/-! ## Names -/

/-- A text names something in a directory. -/
structure IsName (n : String) : Prop where
  slash : '/' ∉ n.toList
  nonempty : n ≠ ""
  dot : n ≠ "."
  dots : n ≠ ".."

/-- The names among pieces. -/
def namesOf (ps : List (List Char)) : List String :=
  (ps.filter fun p => !p.isEmpty && p != ['.']).map String.ofList

theorem names_eq (path : String) : names path = namesOf (pieces path.toList) := rfl

theorem namesOf_append (ps qs : List (List Char)) :
    namesOf (ps ++ qs) = namesOf ps ++ namesOf qs := by
  simp [namesOf]

theorem IsName.namesOf {n : String} (h : IsName n) : Path.namesOf (pieces n.toList) = [n] := by
  have hne : n.toList ≠ [] := by
    simpa using h.nonempty
  have hdot : n.toList ≠ ['.'] := by
    intro heq
    exact h.dot (String.toList_inj.1 heq)
  rw [pieces_of_notMem h.slash, Path.namesOf]
  simp [hne, hdot]

theorem IsName.isAbsolute {n : String} (h : IsName n) : isAbsolute n = false := by
  rw [Path.isAbsolute, beq_eq_false_iff_ne]
  intro hhead
  exact h.slash (List.mem_of_head? hhead)

/-- The names of a path below a directory are those of the directory and its own. -/
theorem names_append_slash (d n : String) :
    names (d ++ "/" ++ n) = names d ++ namesOf (pieces n.toList) := by
  have hchars : (d ++ "/" ++ n).toList = d.toList ++ '/' :: n.toList := by
    simp
  rw [names_eq, hchars, pieces_append, namesOf_append]
  rfl

/-- A path that ends with a slash. -/
theorem exists_of_getLast?_slash {d : String} (h : (d.toList.getLast? == some '/') = true) :
    ∃ e : String, d = e ++ "/" ++ "" := by
  obtain ⟨cs, hcs⟩ := List.getLast?_eq_some_iff.1 (beq_iff_eq.1 h)
  refine ⟨String.ofList cs, String.toList_inj.1 ?_⟩
  simp [hcs]

/-- A name below a directory is one more name. -/
theorem names_join {d n : String} (h : IsName n) : names (join d n) = names d ++ [n] := by
  rw [join, h.isAbsolute, Bool.or_false]
  split
  · rename_i hempty
    obtain rfl : d = "" := by simpa using hempty
    rw [names_eq, h.namesOf]
    rfl
  split
  · rename_i hslash
    obtain ⟨e, rfl⟩ := exists_of_getLast?_slash hslash
    have hjoin : e ++ "/" ++ "" ++ n = e ++ "/" ++ n := by simp
    have hnone : namesOf (pieces "".toList) = [] := rfl
    rw [hjoin, names_append_slash, names_append_slash, h.namesOf, hnone, List.append_nil]
  · rw [names_append_slash, h.namesOf]

/-- More text behind a path does not change whether it is absolute. -/
theorem isAbsolute_append {d : String} (h : d ≠ "") (e : String) :
    isAbsolute (d ++ e) = isAbsolute d := by
  obtain ⟨c, cs, hd⟩ : ∃ c cs, d.toList = c :: cs :=
    List.exists_cons_of_ne_nil (by simpa using h)
  rw [isAbsolute, isAbsolute, String.toList_append, hd]
  rfl

/-- A name in a directory is absolute if the directory is. -/
theorem isAbsolute_join {d n : String} (h : IsName n) : isAbsolute (join d n) = isAbsolute d := by
  rw [join, h.isAbsolute, Bool.or_false]
  split
  · rename_i hempty
    obtain rfl : d = "" := by simpa using hempty
    exact h.isAbsolute
  have hne : d ≠ "" := by
    rintro rfl
    contradiction
  split
  · exact isAbsolute_append hne n
  · rw [String.append_assoc]
    exact isAbsolute_append hne _

/-- **A name below a directory** is one more part. -/
theorem parts_join {d n : String} (h : IsName n) : parts (join d n) = parts d ++ [n] := by
  rw [parts, parts, isAbsolute_join h, names_join h, List.foldl_append, List.foldl_cons,
    List.foldl_nil, if_neg h.dots]
  split <;> simp

/-- What ends in a name has nothing to trim. -/
theorem trimEnd_reverse {n : String} (h : IsName n) (front : List Char) :
    trimEnd (n.toList.reverse ++ front) = n.toList.reverse ++ front := by
  have hslash : '/' ∉ n.toList.reverse := mt List.mem_reverse.1 h.slash
  cases hn : n.toList.reverse with
  | nil => exact absurd (by simpa using hn) h.nonempty
  | cons c cs =>
    rw [hn] at hslash
    refine trimEnd.eq_3 _ (fun rest heq => ?_) fun rest heq => ?_
    · obtain ⟨rfl, -⟩ := List.cons.inj heq
      exact hslash List.mem_cons_self
    · obtain ⟨rfl, hcs⟩ := List.cons.inj heq
      cases cs with
      -- the name is no single dot
      | nil =>
        refine absurd (String.toList_inj.1 ?_) h.dot
        simpa using congrArg List.reverse hn
      | cons d ds =>
        obtain ⟨rfl, -⟩ := List.cons.inj hcs
        exact hslash (List.mem_cons_of_mem _ List.mem_cons_self)

/-- A path below a directory ends in its name, behind a slash if anything. -/
theorem exists_toList_join {d n : String} (h : IsName n) :
    ∃ front : List Char, (join d n).toList = front.reverse ++ n.toList ∧
      ∀ c ∈ front.head?, c = '/' := by
  rw [join, h.isAbsolute, Bool.or_false]
  split
  · exact ⟨[], rfl, by simp⟩
  · split
    · rename_i hlast
      refine ⟨d.toList.reverse, by simp, fun c hc => ?_⟩
      rw [List.head?_reverse, beq_iff_eq.1 hlast] at hc
      exact (Option.some.inj hc).symm
    · exact ⟨'/' :: d.toList.reverse, by simp, fun c hc => (Option.some.inj hc).symm⟩

/-- **The last part** of a path below a directory is its name. -/
theorem fileName?_join {d n : String} (h : IsName n) : fileName? (join d n) = some n := by
  obtain ⟨front, hchars, hfront⟩ := exists_toList_join (d := d) h
  have hlast : (splitLast (join d n)).1 = n.toList := by
    have hclean : ∀ c ∈ n.toList.reverse, decide (c ≠ '/') = true := by
      intro c hc
      exact decide_eq_true fun heq => h.slash (heq ▸ List.mem_reverse.1 hc)
    have hstop : front.takeWhile (fun c => decide (c ≠ '/')) = [] := by
      cases front with
      | nil => rfl
      | cons c cs => simp [hfront c rfl]
    rw [splitLast, hchars, List.reverse_append, List.reverse_reverse, trimEnd_reverse h]
    dsimp only
    rw [List.takeWhile_append_of_pos hclean, hstop, List.append_nil, List.reverse_reverse]
  have hne (m : String) (hm : n ≠ m) : n.toList ≠ m.toList := fun heq => hm (String.toList_inj.1 heq)
  have hempty : n.toList ≠ [] := hne "" h.nonempty
  have hdot : n.toList ≠ ['.'] := hne "." h.dot
  have hdots : n.toList ≠ ['.', '.'] := hne ".." h.dots
  rw [fileName?, hlast]
  simp [hempty, hdot, hdots]

/-! ## Keys -/

/-- The parts of a path: names without slashes, perhaps below the root. -/
def Clean (ps : List String) : Prop :=
  ∃ ns, (ps = ns ∨ ps = "/" :: ns) ∧ ∀ n ∈ ns, '/' ∉ n.toList ∧ n ≠ ""

/-- The parts of a path are clean. -/
theorem clean_parts (path : String) : Clean (parts path) := by
  have hnames : ∀ n ∈ names path, '/' ∉ n.toList ∧ n ≠ "" := by
    intro n hn
    obtain ⟨cs, hcs, rfl⟩ := List.mem_map.1 hn
    obtain ⟨hpiece, hne⟩ := List.mem_filter.1 hcs
    rw [String.toList_ofList]
    refine ⟨notMem_of_mem_pieces hpiece, ?_⟩
    rintro hempty
    rw [String.ofList_eq_empty_iff] at hempty
    subst hempty
    simp at hne
  -- two dots take names away and bring none in
  have hsteps (ns acc : List String) (h : ∀ n ∈ acc, '/' ∉ n.toList ∧ n ≠ "")
      (hns : ∀ n ∈ ns, '/' ∉ n.toList ∧ n ≠ "") :
      ∀ n ∈ ns.foldl (fun acc n => if n = ".." then acc.drop 1 else n :: acc) acc,
        '/' ∉ n.toList ∧ n ≠ "" := by
    induction ns generalizing acc with
    | nil => exact h
    | cons m ns ih =>
      refine ih _ ?_ fun n hn => hns n (by simp [hn])
      dsimp only
      split
      · exact fun n hn => h n (List.mem_of_mem_drop hn)
      · intro n hn
        rcases List.mem_cons.1 hn with rfl | hn
        · exact hns n (by simp)
        · exact h n hn
  refine ⟨((names path).foldl (fun acc n => if n = ".." then acc.drop 1 else n :: acc) []).reverse,
    ?_, ?_⟩
  · rw [parts]
    split
    · exact .inr rfl
    · exact .inl rfl
  · intro n hn
    exact hsteps _ _ (by simp) hnames n (List.mem_reverse.1 hn)

end Path

namespace Tree

open Files.Path

/-- A key is its parts with slashes between them. -/
theorem toList_key (ps : List String) :
    (key ps).toList = ['/'].intercalate (ps.map String.toList) := by
  simp [key]

/-- Names with the same key are the same names. -/
theorem eq_of_key_eq_of_names {ns ms : List String} (hns : ∀ n ∈ ns, '/' ∉ n.toList ∧ n ≠ "")
    (hms : ∀ n ∈ ms, '/' ∉ n.toList ∧ n ≠ "") (hne : ns ≠ []) (hme : ms ≠ [])
    (h : key ns = key ms) : ns = ms := by
  have hsplit {ks : List String} (hks : ∀ n ∈ ks, '/' ∉ n.toList ∧ n ≠ "") (hne : ks ≠ []) :
      (key ks).toList.splitOn '/' = ks.map String.toList := by
    rw [toList_key]
    refine List.splitOn_intercalate '/' ?_ (by simpa using hne)
    intro l hl
    obtain ⟨n, hn, rfl⟩ := List.mem_map.1 hl
    exact (hks n hn).1
  have hmap : ns.map String.toList = ms.map String.toList := by
    rw [← hsplit hns hne, h, hsplit hms hme]
  exact (List.map_inj_right fun _ _ => String.toList_inj.1).1 hmap

/-- A key of names does not start with a slash. -/
theorem head?_key_ne {ns : List String} (hns : ∀ n ∈ ns, '/' ∉ n.toList ∧ n ≠ "") :
    (key ns).toList.head? ≠ some '/' := by
  cases ns with
  | nil => simp [key]
  | cons n ns =>
    obtain ⟨hslash, hne⟩ := hns n (by simp)
    obtain ⟨c, cs, hn⟩ : ∃ c cs, n.toList = c :: cs :=
      List.exists_cons_of_ne_nil (by simpa using hne)
    have hhead : (key (n :: ns)).toList.head? = some c := by
      rw [key]
      by_cases hmore : ns = []
      · subst hmore
        simp [hn]
      · rw [String.intercalate_cons_of_ne_nil hmore]
        simp [hn]
    rw [hhead]
    rintro ⟨⟩
    exact hslash (by simp [hn])

theorem key_root {ns : List String} (h : ns ≠ []) : key ("/" :: ns) = "//" ++ key ns := by
  rw [key, String.intercalate_cons_of_ne_nil h]
  rfl

/-- **Different parts have different keys.** -/
theorem eq_of_key_eq {ps qs : List String} (hp : Clean ps) (hq : Clean qs) (hpe : ps ≠ [])
    (hqe : qs ≠ []) (h : key ps = key qs) : ps = qs := by
  obtain ⟨ns, hps, hns⟩ := hp
  obtain ⟨ms, hqs, hms⟩ := hq
  have hroot (ks : List String) : (key ("/" :: ks)).toList.head? = some '/' := by
    by_cases hks : ks = []
    · rw [hks]
      rfl
    · rw [key_root hks]
      simp
  have hslash {ks : List String} (hne : ks ≠ []) (heq : key ("/" :: ks) = key ["/"]) : False := by
    rw [key_root hne] at heq
    have := congrArg (fun s : String => s.toList.length) heq
    simp [key] at this
  rcases hps with rfl | rfl <;> rcases hqs with rfl | rfl
  · exact eq_of_key_eq_of_names hns hms hpe hqe h
  · exact absurd (h ▸ hroot ms) (head?_key_ne hns)
  · exact absurd (h ▸ hroot ns) (head?_key_ne hms)
  · by_cases hne : ns = [] <;> by_cases hme : ms = []
    · rw [hne, hme]
    · subst hne
      exact (hslash hme h.symm).elim
    · subst hme
      exact (hslash hne h).elim
    · rw [key_root hne, key_root hme] at h
      have hkey : key ns = key ms := by
        have := congrArg String.toList h
        rw [String.toList_append, String.toList_append] at this
        exact String.toList_inj.1 (List.append_cancel_left this)
      rw [eq_of_key_eq_of_names hns hms hne hme hkey]

/-! ## Temporary files -/

/-- A name below a directory ends the key. -/
theorem getLast?_key_append {ps : List String} {n : String} (hne : n ≠ "") :
    (key (ps ++ [n])).toList.getLast? = n.toList.getLast? := by
  have hchars : n.toList ≠ [] := by simpa using hne
  by_cases hps : ps = []
  · subst hps
    simp [key]
  · rw [key, String.intercalate_append_of_ne_nil hps (by simp), String.intercalate_singleton,
      String.toList_append, List.getLast?_append, List.getLast?_eq_some_getLast hchars]
    rfl

theorem slash_notMem_fileName? {path n : String} (h : fileName? path = some n) :
    '/' ∉ n.toList := by
  have hlast : '/' ∉ (splitLast path).1 := by
    intro hmem
    have := List.mem_takeWhile_imp (List.mem_reverse.1 hmem)
    simp at this
  rw [fileName?] at h
  split at h
  · cases h
  · obtain rfl := Option.some.inj h
    rwa [String.toList_ofList]

theorem slash_notMem_splitExtension {n : String} (h : '/' ∉ n.toList) :
    '/' ∉ (splitExtension n).1.toList := by
  rw [splitExtension]
  split
  · exact h
  · rw [String.toList_ofList, List.mem_reverse]
    intro hmem
    exact h (List.mem_reverse.1 (List.mem_of_mem_drop hmem))

/-- The name of a temporary file. -/
theorem isName_temporary {stem name : String} (hstem : '/' ∉ stem.toList)
    (hname : '/' ∉ name.toList) :
    IsName (stem ++ "." ++ s!"json.{name}.tmp") ∧
      (stem ++ "." ++ s!"json.{name}.tmp").toList.getLast? = some 'p' := by
  have hchars : (stem ++ "." ++ s!"json.{name}.tmp").toList
      = stem.toList ++ ".json.".toList ++ name.toList ++ ".tmp".toList := by
    show (stem ++ "." ++ ("json." ++ name ++ ".tmp")).toList = _
    simp
  generalize stem ++ "." ++ s!"json.{name}.tmp" = changed at hchars
  have hlast : changed.toList.getLast? = some 'p' := by
    rw [hchars, List.getLast?_append, show ".tmp".toList.getLast? = some 'p' by decide]
    rfl
  have hend {m : String} (hm : m.toList.getLast? ≠ some 'p') : changed ≠ m := by
    rintro rfl
    exact hm hlast
  have hslash : '/' ∉ changed.toList := by
    rw [hchars]
    simp [hstem, hname]
  exact ⟨⟨hslash, hend (by decide), hend (by decide), hend (by decide)⟩, hlast⟩

/-- **The temporary file** through which a file is replaced ends in its own way, unless the path
names no file. -/
theorem parts_temporary (path : String) {name : String} (hname : '/' ∉ name.toList) :
    fileName? path = none ∧ parts (temporary path name) = parts path ∨
      ∃ ps n, parts (temporary path name) = ps ++ [n] ∧ n.toList.getLast? = some 'p' := by
  rw [temporary, withExtension]
  cases hfile : fileName? path with
  | none => exact .inl ⟨rfl, rfl⟩
  | some n =>
    obtain ⟨hvalid, hlast⟩ := isName_temporary
      (slash_notMem_splitExtension (slash_notMem_fileName? hfile)) hname
    refine .inr ?_
    dsimp only
    split
    · exact ⟨_, _, parts_join hvalid, hlast⟩
    · exact ⟨_, _, @parts_join "" _ hvalid, hlast⟩

end Tree

end EvalProxy.Files
