/-
# Renamed parameters

Parameters are renamed one after another, in the order of their old names and all in the same body.
A value that comes under a name whose own turn is still to come moves on at that turn, and what
stood there is lost. So every parameter has the name that is configured for it exactly if no
parameter of the body gets a name that is renamed later.

Main definitions: `Renamed`, `destination`, `arrivals`.
Main statements: `get?_foldl_moveMember`, `renamed_iff`, `renames_at_once_iff`,
`renaming_chain_loses_value`.
-/
import EvalProxy.Payload
import EvalProxy.Proofs.Dict
import Mathlib.Data.List.Induction
import Mathlib.Data.List.Nodup
namespace EvalProxy.Payload

open Assoc (Ordered get?)

/-- The names that are renamed. -/
def oldNames (rename : List (String × String)) : List String := rename.map (·.1)

/-- The names that they get. -/
def newNames (rename : List (String × String)) : List String := rename.map (·.2)

/-- Every parameter has moved to the name that is configured for it: its value stands under that
name, a name that is renamed is gone unless a parameter got it, and a name that is neither renamed
nor given answers what it did. -/
structure Renamed (rename : List (String × String)) (before after : List (String × Json)) :
    Prop where
  moved : ∀ old new, (old, new) ∈ rename → ∀ v, get? old before = some v → get? new after = some v
  gone : ∀ name ∈ oldNames rename, (∀ old, (old, name) ∈ rename → get? old before = none) →
    get? name after = none
  kept : ∀ name ∉ oldNames rename, (∀ old, (old, name) ∈ rename → get? old before = none) →
    get? name after = get? name before

/-! ## One rename -/

section

variable {members : List (String × Json)} (old new : String)

/-- The new name answers what the old one did, if it did. -/
theorem get?_moveMember_new : get? new (moveMember members (old, new))
    = (get? old members).or (get? new members) := by
  rw [moveMember]
  cases get? old members with
  | none => rfl
  | some v => exact (Assoc.get?_insert new new v _).trans (if_pos rfl)

/-- Of the other names only the old one answers otherwise, namely nothing. -/
theorem get?_moveMember_of_ne (h : Ordered members) {name : String} (hne : name ≠ new) :
    get? name (moveMember members (old, new))
      = if name = old then none else get? name members := by
  rw [moveMember]
  cases hvalue : get? old members with
  | none =>
    by_cases heq : name = old
    · rw [if_pos heq, heq, hvalue]
    · rw [if_neg heq]
  | some v =>
    simp only
    rw [Assoc.get?_insert, if_neg hne.symm, Assoc.get?_erase h]
    simp only [eq_comm]

theorem ordered_moveMember (h : Ordered members) (pair : String × String) :
    Ordered (moveMember members pair) := by
  rw [moveMember]
  split
  · exact (h.erase pair.1).insert pair.2 _
  · exact h

theorem ordered_foldl_moveMember (h : Ordered members) (rename : List (String × String)) :
    Ordered (rename.foldl moveMember members) := by
  induction rename generalizing members with
  | nil => exact h
  | cons pair rename ih => exact ih (ordered_moveMember h pair)

end

/-! ## The way of a value -/

/-- The name that a value ends up under, when it stood under a given name before the first turn. -/
def destination (rename : List (String × String)) (name : String) : String :=
  rename.foldl (fun current pair => if current = pair.1 then pair.2 else current) name

/-- The names whose values end up under a given one, in the order of their turns. -/
def arrivals (rename : List (String × String)) (name : String) : List String :=
  (oldNames rename).filter fun old => destination rename old = name

section

variable {done : List (String × String)} {old new name : String}

/-- One more turn moves on what has arrived at its old name. -/
theorem destination_concat (done : List (String × String)) (old new name : String) :
    destination (done ++ [(old, new)]) name
      = if destination done name = old then new else destination done name := by
  rw [destination, List.foldl_append]
  rfl

theorem oldNames_concat (done : List (String × String)) (old new : String) :
    oldNames (done ++ [(old, new)]) = oldNames done ++ [old] := by
  rw [oldNames, List.map_append]
  rfl

theorem mem_oldNames_of_mem {rename : List (String × String)} (h : (old, new) ∈ rename) :
    old ∈ oldNames rename := List.mem_map_of_mem h

theorem exists_mem_of_mem_oldNames {rename : List (String × String)} (h : old ∈ oldNames rename) :
    ∃ new, (old, new) ∈ rename := by
  obtain ⟨⟨_, new⟩, hmem, rfl⟩ := List.mem_map.1 h
  exact ⟨new, hmem⟩

/-- Earlier turns are those of smaller names. -/
theorem lt_of_mem_oldNames (h : Ordered (done ++ [(old, new)])) (hname : name ∈ oldNames done) :
    name < old := by
  obtain ⟨later, hmem⟩ := exists_mem_of_mem_oldNames hname
  exact (List.pairwise_append.1 h).2.2 (name, later) hmem (old, new) (by simp)

theorem ordered_of_concat (h : Ordered (done ++ [(old, new)])) : Ordered done :=
  (List.pairwise_append.1 h).1

/-- The old name of the last turn is none of those before. -/
theorem not_mem_oldNames (h : Ordered (done ++ [(old, new)])) : old ∉ oldNames done :=
  fun hmem => String.lt_irrefl old (lt_of_mem_oldNames h hmem)

/-- Without its last turn a table gives different new names, and none is that of the turn. -/
theorem nodup_newNames (h : (newNames (done ++ [(old, new)])).Nodup) :
    (newNames done).Nodup ∧ new ∉ newNames done := by
  rw [newNames, List.map_append, List.nodup_append] at h
  obtain ⟨hdone, -, hapart⟩ := h
  exact ⟨hdone, fun hmem => hapart new hmem new (by simp) rfl⟩

/-- A value whose name has no turn stays. -/
theorem destination_of_not_mem (h : name ∉ oldNames done) : destination done name = name := by
  induction done using List.reverseRecOn with
  | nil => rfl
  | append_singleton done pair ih =>
    obtain ⟨old, new⟩ := pair
    rw [oldNames_concat, List.mem_append, not_or] at h
    obtain ⟨hdone, hlast⟩ := h
    rw [destination_concat, ih hdone, if_neg fun heq => hlast (by simp [heq])]

/-- The value whose turn comes last is given its new name. -/
theorem destination_concat_old (hold : Ordered (done ++ [(old, new)])) :
    destination (done ++ [(old, new)]) old = new := by
  rw [destination_concat, destination_of_not_mem (not_mem_oldNames hold), if_pos rfl]

/-- A value that had its turn ends up under a name that it was given last, whose turn does not come
after. -/
theorem exists_last_of_mem (hold : Ordered done) (h : name ∈ oldNames done) :
    ∃ last, (last, destination done name) ∈ done ∧
      (destination done name ∈ oldNames done → ¬ last < destination done name) := by
  induction done using List.reverseRecOn with
  | nil => cases h
  | append_singleton done pair ih =>
    obtain ⟨old, new⟩ := pair
    rw [destination_concat]
    by_cases heq : destination done name = old
    · -- this turn is the last one of the value
      rw [if_pos heq]
      refine ⟨old, by simp, fun hnew hlt => ?_⟩
      rw [oldNames_concat, List.mem_append] at hnew
      rcases hnew with hnew | hnew
      · exact String.lt_irrefl old (String.lt_trans hlt (lt_of_mem_oldNames hold hnew))
      · rw [List.mem_singleton.1 hnew] at hlt
        exact String.lt_irrefl old hlt
    · rw [if_neg heq]
      rw [oldNames_concat, List.mem_append] at h
      have hname : name ∈ oldNames done := by
        refine h.resolve_right fun hlast => heq ?_
        rw [List.mem_singleton.1 hlast]
        exact destination_of_not_mem (not_mem_oldNames hold)
      obtain ⟨last, hmem, hlater⟩ := ih (ordered_of_concat hold) hname
      refine ⟨last, List.mem_append_left _ hmem, fun hmoved => hlater ?_⟩
      rw [oldNames_concat, List.mem_append] at hmoved
      exact hmoved.resolve_right fun hlast => heq (List.mem_singleton.1 hlast)

/-- A parameter that is renamed ends up under one of the new names. -/
theorem destination_mem_newNames (hold : Ordered done) (h : name ∈ oldNames done) :
    destination done name ∈ newNames done := by
  obtain ⟨last, hmem, -⟩ := exists_last_of_mem hold h
  exact List.mem_map_of_mem hmem

/-- A value that comes under a name without a later turn stays there. -/
theorem destination_of_mem {rename : List (String × String)} (hold : Ordered rename)
    (h : (old, new) ∈ rename) (hnew : new ∈ oldNames rename → ¬ old < new) :
    destination rename old = new := by
  induction rename using List.reverseRecOn with
  | nil => cases h
  | append_singleton done pair ih =>
    obtain ⟨old', new'⟩ := pair
    rw [oldNames_concat] at hnew
    rcases List.mem_append.1 h with hmem | hlast
    · have hstay : destination done old = new :=
        ih (ordered_of_concat hold) hmem fun hdone => hnew (List.mem_append_left _ hdone)
      rw [destination_concat, hstay]
      refine if_neg fun heq => ?_
      subst heq
      exact hnew (by simp) (lt_of_mem_oldNames hold (mem_oldNames_of_mem hmem))
    · obtain ⟨rfl, rfl⟩ := Prod.mk.inj (List.mem_singleton.1 hlast)
      exact destination_concat_old hold

/-! ## What every name answers -/

/-- Nothing arrives at a name that is renamed after it was given. -/
theorem arrivals_eq_nil (hold : Ordered done)
    (h : ∀ last, (last, name) ∈ done → name ∈ oldNames done ∧ last < name) :
    arrivals done name = [] := by
  rw [arrivals, List.filter_eq_nil_iff]
  intro n hn heq
  obtain ⟨last, hlast, hlater⟩ := exists_last_of_mem hold hn
  rw [of_decide_eq_true heq] at hlast hlater
  exact hlater (h last hlast).1 (h last hlast).2

/-- At the name that is given last arrive those values that had come under the name whose turn it
is, and the value that stood there. -/
theorem arrivals_concat_new (hold : Ordered (done ++ [(old, new)]))
    (hnew : (newNames (done ++ [(old, new)])).Nodup) :
    arrivals (done ++ [(old, new)]) new = arrivals done old ++ [old] := by
  have hdone : (oldNames done).filter (fun n => destination (done ++ [(old, new)]) n = new)
      = arrivals done old := by
    apply List.filter_congr
    intro name hname
    have hne : destination done name ≠ new := by
      intro heq
      exact (nodup_newNames hnew).2 (heq ▸ destination_mem_newNames (ordered_of_concat hold) hname)
    rw [destination_concat]
    by_cases heq : destination done name = old
    · simp [heq]
    · simp [heq, hne]
  rw [arrivals, oldNames_concat, List.filter_append, hdone, List.filter_singleton,
    decide_eq_true (destination_concat_old hold)]
  rfl

/-- At any other name the same values arrive as before, but at the one whose turn it is none. -/
theorem arrivals_concat_of_ne (hold : Ordered (done ++ [(old, new)])) (hne : name ≠ new) :
    arrivals (done ++ [(old, new)]) name = if name = old then [] else arrivals done name := by
  rw [arrivals, oldNames_concat, List.filter_append, List.filter_singleton,
    destination_concat_old hold, decide_eq_false hne.symm, cond_false, List.append_nil]
  by_cases heq : name = old
  · rw [if_pos heq, List.filter_eq_nil_iff]
    intro n _
    rw [destination_concat, decide_eq_true_iff, heq]
    split
    · exact fun h => hne (heq.trans h.symm)
    · assumption
  · rw [if_neg heq, arrivals]
    apply List.filter_congr
    intro n _
    rw [destination_concat]
    by_cases hn : destination done n = old
    · rw [if_pos hn, hn, decide_eq_false hne.symm, decide_eq_false (Ne.symm heq)]
    · rw [if_neg hn]

end

/-- What a name answers after all renames: of the parameters whose values end up there the first
that the body has, and else what it did, unless it was renamed itself. -/
def answer (rename : List (String × String)) (members : List (String × Json)) (name : String) :
    Option Json :=
  ((arrivals rename name).findSome? fun old => get? old members).or
    (if name ∈ oldNames rename then none else get? name members)

section

variable {done rename : List (String × String)} {old new name : String}
  {members : List (String × Json)}

/-- After one more turn its new name answers what its old one did, or else what it did itself. -/
theorem answer_concat_new (hold : Ordered (done ++ [(old, new)]))
    (hnew : (newNames (done ++ [(old, new)])).Nodup) :
    answer (done ++ [(old, new)]) members new
      = (answer done members old).or (answer done members new) := by
  have hnone : arrivals done new = [] := by
    apply arrivals_eq_nil (ordered_of_concat hold)
    intro last hlast
    exact absurd (List.mem_map_of_mem hlast) (nodup_newNames hnew).2
  rw [answer, answer, answer, arrivals_concat_new hold hnew, List.findSome?_append,
    List.findSome?_singleton, hnone, List.findSome?_nil, Option.none_or,
    if_neg (not_mem_oldNames hold), oldNames_concat]
  by_cases heq : new = old
  · subst heq
    simp [not_mem_oldNames hold, Option.or_assoc]
  · simp [heq]

/-- After one more turn its old name answers nothing, and other names answer what they did. -/
theorem answer_concat_of_ne (hold : Ordered (done ++ [(old, new)])) (hne : name ≠ new) :
    answer (done ++ [(old, new)]) members name
      = if name = old then none else answer done members name := by
  rw [answer, arrivals_concat_of_ne hold hne, oldNames_concat]
  by_cases heq : name = old
  · simp [heq]
  · simp [heq, answer]

/-- **The renames one after another** leave under every name what it is to answer. -/
theorem get?_foldl_moveMember (hold : Ordered rename) (hnew : (newNames rename).Nodup)
    (hmembers : Ordered members) (name : String) :
    get? name (rename.foldl moveMember members) = answer rename members name := by
  induction rename using List.reverseRecOn generalizing name with
  | nil => rfl
  | append_singleton done pair ih =>
    obtain ⟨old, new⟩ := pair
    have ih := ih (ordered_of_concat hold) (nodup_newNames hnew).1
    rw [List.foldl_append, List.foldl_cons, List.foldl_nil]
    by_cases hgiven : name = new
    · subst hgiven
      rw [get?_moveMember_new, ih, ih, answer_concat_new hold hnew]
    · rw [get?_moveMember_of_ne old new (ordered_foldl_moveMember hmembers done) hgiven, ih,
        answer_concat_of_ne hold hgiven]

/-! ## When every parameter has its name -/

/-- Of several names the only one that answers is the first. -/
theorem findSome?_eq_of_forall {names : List String} {v : Json} (hmem : old ∈ names)
    (hvalue : get? old members = some v)
    (honly : ∀ n ∈ names, get? n members ≠ none → n = old) :
    names.findSome? (fun n => get? n members) = some v := by
  cases hfirst : names.findSome? fun n => get? n members with
  | none =>
    rw [List.findSome?_eq_none_iff] at hfirst
    rw [hfirst old hmem] at hvalue
    cases hvalue
  | some v' =>
    obtain ⟨n, hn, hanswer⟩ := List.exists_of_findSome?_eq_some hfirst
    obtain rfl := honly n hn (by simp [hanswer])
    exact hanswer.symm.trans hvalue

/-- A name is given to one parameter at most. -/
theorem eq_of_mem_of_mem {old' : String} (hnew : (newNames rename).Nodup)
    (h : (old, new) ∈ rename) (h' : (old', new) ∈ rename) : old = old' :=
  congrArg Prod.fst (List.inj_on_of_nodup_map hnew h h' rfl)

/-- **Every parameter has the name that is configured for it** exactly if no parameter of the body
gets a name whose turn is still to come. -/
theorem renamed_iff (hold : Ordered rename) (hnew : (newNames rename).Nodup)
    (hmembers : Ordered members) :
    Renamed rename members (rename.foldl moveMember members) ↔
      ∀ old new, (old, new) ∈ rename → get? old members ≠ none → new ∈ oldNames rename →
        ¬ old < new := by
  constructor
  · intro h old new hmem hhas hturn hlt
    have hnone : arrivals rename new = [] := by
      apply arrivals_eq_nil hold
      intro last hlast
      obtain rfl := eq_of_mem_of_mem hnew hlast hmem
      exact ⟨hturn, hlt⟩
    obtain ⟨v, hv⟩ := Option.ne_none_iff_exists'.1 hhas
    have hmoved := h.moved old new hmem v hv
    rw [get?_foldl_moveMember hold hnew hmembers, answer, hnone, if_pos hturn] at hmoved
    cases hmoved
  · intro h
    -- whatever the body has arrives where it is to go
    have harrives {n new : String} (hn : n ∈ arrivals rename new) (hhas : get? n members ≠ none) :
        (n, new) ∈ rename := by
      obtain ⟨hn, heq⟩ := List.mem_filter.1 hn
      obtain ⟨new', hmem⟩ := exists_mem_of_mem_oldNames hn
      rw [decide_eq_true_iff, destination_of_mem hold hmem (h n new' hmem hhas)] at heq
      rwa [← heq]
    have hothers {name : String} (hfree : ∀ old, (old, name) ∈ rename → get? old members = none) :
        (arrivals rename name).findSome? (fun old => get? old members) = none := by
      rw [List.findSome?_eq_none_iff]
      intro n hn
      by_contra hhas
      exact hhas (hfree n (harrives hn hhas))
    refine ⟨?_, ?_, ?_⟩
    · intro old new hmem v hv
      have harrival : old ∈ arrivals rename new := by
        refine List.mem_filter.2 ⟨mem_oldNames_of_mem hmem, decide_eq_true ?_⟩
        exact destination_of_mem hold hmem (h old new hmem (by simp [hv]))
      have hfirst := findSome?_eq_of_forall harrival hv fun n hn hhas =>
        eq_of_mem_of_mem hnew (harrives hn hhas) hmem
      rw [get?_foldl_moveMember hold hnew hmembers, answer, hfirst, Option.some_or]
    · intro name hturn hfree
      rw [get?_foldl_moveMember hold hnew hmembers, answer, hothers hfree, if_pos hturn]
      rfl
    · intro name hturn hfree
      rw [get?_foldl_moveMember hold hnew hmembers, answer, hothers hfree, if_neg hturn]
      rfl

end

/-! ## A whole body -/

/-- Removals and additions keep the order. -/
theorem ordered_prepared (s : Settings) {members : List (String × Json)} (h : Ordered members) :
    Ordered ({ s with rename := [] }.applyMembers members) := by
  have hkept : Ordered (s.remove.foldl (fun ms key => Assoc.erase key ms) members) := by
    induction s.remove generalizing members with
    | nil => exact h
    | cons key keys ih => exact ih (h.erase key)
  rw [Settings.applyMembers]
  generalize s.remove.foldl (fun ms key => Assoc.erase key ms) members = kept at hkept
  induction s.add generalizing kept with
  | nil => exact hkept
  | cons m ms ih => exact ih _ (hkept.insert m.1 m.2)

/-- **Renaming in a body.** Old names are different and stand in order, new names are different. The
body after removals and additions decides what every name answers after the renames. Every parameter
has the name that is configured for it exactly if none of the body gets a name that is renamed after
its own. -/
theorem renames_at_once_iff {s : Settings} (hold : Ordered s.rename)
    (hnew : (newNames s.rename).Nodup) {members : List (String × Json)}
    (hmembers : Ordered members) :
    ∃ before after, { s with rename := [] }.apply (.object members) = .ok (.object before) ∧
      s.apply (.object members) = .ok (.object after) ∧
      (∀ name, get? name after = answer s.rename before name) ∧
      (Renamed s.rename before after ↔
        ∀ old new, (old, new) ∈ s.rename → get? old before ≠ none → new ∈ oldNames s.rename →
          ¬ old < new) := by
  have hbefore := ordered_prepared s hmembers
  refine ⟨_, _, rfl, rfl, ?_, ?_⟩
  · exact get?_foldl_moveMember hold hnew hbefore
  · exact renamed_iff hold hnew hbefore

/-- A chain of names that is gone through from its end: both values are kept. -/
theorem renames_at_once_falling_chain :
    let s : Settings := ⟨[("n", .int 3)], ["top_k"], [("b", "a"), ("c", "b")]⟩
    let members : List (String × Json) := [("b", .int 1), ("c", .int 2), ("top_k", .int 5)]
    Ordered s.rename ∧ (newNames s.rename).Nodup ∧ Ordered members ∧
      ∃ after, s.apply (.object members) = .ok (.object after) ∧
        get? "a" after = some (.int 1) ∧ get? "b" after = some (.int 2) ∧ get? "c" after = none := by
  intro s members
  have hold : Ordered s.rename := by decide
  have hnew : (newNames s.rename).Nodup := by decide
  have hmembers : Ordered members := by decide
  obtain ⟨before, after, hprepared, happly, -, hrenamed⟩ :=
    renames_at_once_iff hold hnew hmembers
  obtain rfl : [("b", .int 1), ("c", .int 2), ("n", .int 3)] = before :=
    Json.object.inj (Except.ok.inj hprepared)
  have hfalling : ∀ pair ∈ s.rename, ¬ pair.1 < pair.2 := by decide
  have h := hrenamed.2 fun old new hmem _ _ => hfalling (old, new) hmem
  refine ⟨hold, hnew, hmembers, after, happly, ?_, ?_, ?_⟩
  · exact h.moved "b" "a" (by decide) (.int 1) rfl
  · exact h.moved "c" "b" (by decide) (.int 2) rfl
  · apply h.gone "c" (by decide)
    intro old hmem
    have hnone : ∀ pair ∈ s.rename, pair.2 ≠ "c" := by decide
    exact absurd rfl (hnone (old, "c") hmem)

/-- A chain of names that is gone through from its start: the second value is lost and the first has
the name that is configured for the second. -/
theorem renaming_chain_loses_value :
    let s : Settings := ⟨[], [], [("a", "b"), ("b", "c")]⟩
    let members : List (String × Json) := [("a", .int 1), ("b", .int 2)]
    Ordered s.rename ∧ (newNames s.rename).Nodup ∧ Ordered members ∧
      { s with rename := [] }.apply (.object members) = .ok (.object members) ∧
      s.apply (.object members) = .ok (.object [("c", .int 1)]) ∧
      ¬ Renamed s.rename members [("c", .int 1)] := by
  intro s members
  refine ⟨by decide, by decide, by decide, rfl, rfl, ?_⟩
  intro h
  have hmoved := h.moved "a" "b" (by decide) (.int 1) rfl
  cases hmoved

end EvalProxy.Payload
