/-
# What is saved is loaded

A recorder writes two files, and the second may stand where the first one does: the metrics file
then is the state file with one member more. In either case the next run goes on from what was
saved.

Main definition: `Keeps`.
Main statement: `Recorder.keeps_of_save`.
-/
import EvalProxy.Proofs.Files.Paths
import EvalProxy.Proofs.Stats.State
import EvalProxy.Stats.Recorder
namespace EvalProxy

theorem World.slash_notMem_freshName (w : World) : '/' ∉ w.freshName.1.toList := by
  have hdigit (n : Nat) (h : n < 16) : '/' ≠ n.digitChar := by decide +revert
  have hdigits (n : Nat) : '/' ∉ Nat.toDigits 16 n := by
    induction n using Nat.strong_induction_on with
    | _ n ih =>
      rw [Nat.toDigits_eq_if (by decide)]
      split
      · rename_i hsmall
        exact List.not_mem_cons_of_ne_of_not_mem (hdigit n hsmall) List.not_mem_nil
      · rw [List.mem_append, List.mem_singleton, not_or]
        exact ⟨ih (n / 16) (by omega), hdigit (n % 16) (by omega)⟩
  rw [World.freshName, String.toList_ofList]
  simpa using hdigits w.serial

namespace Stats

open Files (Tree)

/-- The file at a path holds statistics akin to these, and of the same run. -/
def Keeps (t : Tree) (path : String) (a : Aggregate Float) : Prop :=
  ∃ content b, t.find path = .ok (some (.file content)) ∧ Aggregate.parse content = .ok b ∧
    Akin a b ∧ Sound b ∧ b.runId = a.runId

namespace Recorder

/-- The name of the state file is one in a directory. -/
theorem isName_stateName : Files.Path.IsName stateName :=
  ⟨by decide, by decide, by decide, by decide⟩

/-- What stands at a path below a directory by the name of the state file is no temporary file,
neither its own nor that of another place. -/
theorem key_temporary_ne {path directory name : String} (hname : '/' ∉ name.toList)
    (hpath : path = Files.Path.join directory stateName ∨
      Tree.key (Files.Path.parts path)
        ≠ Tree.key (Files.Path.parts (Files.Path.join directory stateName))) :
    Tree.key (Files.Path.parts (Tree.temporary path name))
      ≠ Tree.key (Files.Path.parts (Files.Path.join directory stateName)) := by
  rcases Tree.parts_temporary path hname with ⟨hnone, hsame⟩ | ⟨ps, n, hparts, hlast⟩
  · rw [hsame]
    refine hpath.resolve_left ?_
    rintro rfl
    cases hnone.symm.trans (Files.Path.fileName?_join isName_stateName)
  · intro heq
    have hne : n ≠ "" := by
      rintro rfl
      simp at hlast
    have hend := congrArg (fun k : String => k.toList.getLast?) heq
    rw [hparts, Files.Path.parts_join isName_stateName, Tree.getLast?_key_append hne,
      Tree.getLast?_key_append isName_stateName.nonempty, hlast] at hend
    revert hend
    decide

/-- Where the metrics file is the state file, it holds the statistics besides their member. -/
theorem keeps_of_shared {a : Aggregate Float} (ha : Sound a) {t t' : Tree} {path name : String}
    (hstate : t.find path = .ok (some (.file (Text.encode a.toJson.pretty))))
    (h : t.replace path name (Text.encode
      ((metricsObject t path).withMember metricsKey a.toJson).pretty) = (t', none)) :
    Keeps t' path a := by
  obtain ⟨members, hparse, hordered, hholds⟩ := exists_parseText ha
  have hmetrics : metricsObject t path = .object members := by
    have hread : t.read path = .ok (Text.encode a.toJson.pretty) := by
      rw [Tree.read, hstate]
      rfl
    rw [metricsObject, hread]
    dsimp only
    rw [hparse]
  have hkey : metricsKey ∉ a.members.map (·.1) :=
    show metricsKey ∉ stateFields.map Json.Field.key by decide
  obtain ⟨b, hb, hakin, hsound, hrun⟩ :=
    (hholds.insert hordered hkey (skips_toJson ha 1)).exists_parse ha
  rw [hmetrics] at h
  exact ⟨_, b, Tree.find_of_replace h, hb, hakin, hsound, hrun⟩

/-- **What is saved** is kept in the state file, wherever the metrics file is. -/
theorem keeps_of_save {r : Recorder} (hsound : Sound r.stats) {directory : String}
    (hplace : r.statePath = Files.Path.join directory stateName) {t t' : Tree} {name : String}
    (hname : '/' ∉ name.toList) (h : r.save t name = (t', none)) :
    Keeps t' r.statePath r.stats := by
  rw [save] at h
  rcases hfirst : t.replace r.statePath name (Text.encode r.stats.toJson.pretty) with ⟨t₁, fault⟩
  rw [hfirst] at h
  cases fault with
  | some e => cases h
  | none =>
    have hstate := Tree.find_of_replace hfirst
    dsimp only at h
    by_cases hkey : Tree.key (Files.Path.parts r.metricsPath)
        = Tree.key (Files.Path.parts r.statePath)
    -- both paths lead to the same file
    · have hmetrics := Tree.find_of_replace h
      have hparts := Tree.eq_of_key_eq (Files.Path.clean_parts _) (Files.Path.clean_parts _)
        (Tree.get?_of_find hmetrics (by simp)).1 (Tree.get?_of_find hstate (by simp)).1 hkey
      have hfind (s : Tree) : s.find r.metricsPath = s.find r.statePath :=
        Tree.find_eq_of_parts hmetrics hstate hparts s
      obtain ⟨content, b, hb⟩ := keeps_of_shared hsound ((hfind t₁).trans hstate) h
      rw [hfind] at hb
      exact ⟨content, b, hb⟩
    · obtain ⟨b, hb⟩ := exists_parse hsound
      rw [hplace] at hkey hstate ⊢
      -- no file of the second replacement stands where the state file does
      refine ⟨Text.encode r.stats.toJson.pretty, b, ?_, hb⟩
      rw [← show (t₁.replace _ _ _).1 = t' from congrArg Prod.fst h]
      exact Tree.find_of_replace_apart hkey (key_temporary_ne hname (.inr hkey)) hstate

/-- After a save that went well the state file keeps the statistics. -/
theorem keeps_of_saveIn {r : Recorder} (hsound : Sound r.stats) {directory : String}
    (hplace : r.statePath = Files.Path.join directory stateName) {w : World}
    (h : (r.saveIn w).1 = .ok ()) : Keeps (r.saveIn w).2.tree r.statePath r.stats := by
  rw [saveIn] at h ⊢
  dsimp only at h ⊢
  rcases hsave : r.save w.freshName.2.tree w.freshName.1 with ⟨tree, fault⟩
  rw [hsave] at h
  cases fault with
  | some e => cases h
  | none => exact keeps_of_save hsound hplace w.slash_notMem_freshName hsave

/-- **What is kept is loaded**, as statistics of the next run. -/
theorem exists_load_of_keeps {r : Recorder} {t : Tree} {a : Aggregate Float}
    (h : Keeps t r.statePath a) :
    ∃ b, r.load t = .ok { r with stats := nextRun b } ∧ Akin a b ∧ Sound b ∧ b.runId = a.runId := by
  obtain ⟨content, b, hfind, hparse, hb⟩ := h
  have hcontains : t.contains r.statePath = true := by
    rw [Tree.contains, hfind]
  have hread : t.read r.statePath = .ok content := by
    rw [Tree.read, hfind]
    rfl
  refine ⟨b, ?_, hb⟩
  rw [load, hcontains, hread]
  dsimp only
  rw [hparse]
  rfl

end Recorder

end Stats

end EvalProxy
