/-
# Values up to the order of members

Two values are the same if they differ at most in the order in which their objects list their
members, at every depth. The canonical form decides it: it sorts the members of every object and
changes nothing else.

Main definitions: `Json.Same`, `Json.Proper`.
Main statements: `canonical_canonical`, `Proper.canonical`, `canonical_eq_iff`.
-/
import EvalProxy.Json.Basic
import EvalProxy.Proofs.Dict
import Mathlib.Data.List.Forall2
import Mathlib.Tactic.Tauto
namespace EvalProxy

namespace Json

/-! ## Sameness -/

/-- Two values are equal up to the order of object members, at every depth. -/
inductive Same : Json → Json → Prop
  | null : Same null null
  | bool (b : Bool) : Same (bool b) (bool b)
  | int (n : Int) : Same (int n) (int n)
  | float (x : Float) : Same (float x) (float x)
  | text (s : String) : Same (text s) (text s)
  | array {xs ys : List Json} (items : List.Forall₂ Same xs ys) : Same (array xs) (array ys)
  | object {xs xs' ys : List (String × Json)} (order : xs.Perm xs')
      (keys : xs'.map (·.1) = ys.map (·.1))
      (values : List.Forall₂ Same (xs'.map (·.2)) (ys.map (·.2))) :
      Same (object xs) (object ys)

/-- A value that a message can hold: no object has a key twice, and every float is a number. -/
inductive Proper : Json → Prop
  | null : Proper null
  | bool (b : Bool) : Proper (bool b)
  | int (n : Int) : Proper (int n)
  | float {x : Float} (finite : x.isFinite = true) : Proper (float x)
  | text (s : String) : Proper (text s)
  | array {xs : List Json} (items : ∀ v ∈ xs, Proper v) : Proper (array xs)
  | object {xs : List (String × Json)} (keys : (xs.map (·.1)).Nodup)
      (values : ∀ m ∈ xs, Proper m.2) : Proper (object xs)

/-! ## The canonical form -/

/-- The canonical form of a member. -/
def canonicalMember (m : String × Json) : String × Json := (m.1, m.2.canonical)

theorem keys_canonicalMembers (members : List (String × Json)) :
    (members.map canonicalMember).map (·.1) = members.map (·.1) := by
  rw [List.map_map]
  rfl

theorem canonical_array (items : List Json) :
    (array items).canonical = array (items.map canonical) := by
  rw [canonical, canonicalItems_eq_map]

/-- The canonical form of an object has the canonical members in the order of their keys. -/
theorem canonical_object (members : List (String × Json)) :
    (object members).canonical = object (Assoc.ofList (members.map canonicalMember)) := by
  rw [canonical, canonicalMembers_eq_map]
  rfl

/-- The canonical form of a value is its own canonical form. -/
theorem canonical_canonical (v : Json) : v.canonical.canonical = v.canonical := by
  match v with
  | array items =>
    rw [canonical_array, canonical_array, List.map_map]
    exact congrArg array (List.map_congr_left fun v _ => canonical_canonical v)
  | object members =>
    -- what stands in key order already keeps its place
    have hmembers : (Assoc.ofList (members.map canonicalMember)).map canonicalMember
        = Assoc.ofList (members.map canonicalMember) := by
      refine (List.map_congr_left ?_).trans (List.map_id _)
      intro e he
      obtain ⟨⟨k, v⟩, hm, rfl⟩ := List.mem_map.1 (Assoc.mem_of_mem_ofList he)
      have hsmaller : sizeOf v < sizeOf members := by
        refine Nat.lt_trans ?_ (List.sizeOf_lt_of_mem hm)
        rw [Prod.mk.sizeOf_spec]
        omega
      exact Prod.ext rfl (canonical_canonical v)
    rw [canonical_object, canonical_object, hmembers,
      Assoc.ofList_of_ordered (Assoc.ordered_ofList _)]
  | null | bool _ | int _ | float _ | text _ => rfl
termination_by sizeOf v

/-- The canonical form of a value is one that a message can hold. -/
theorem Proper.canonical {v : Json} (h : v.Proper) : v.canonical.Proper := by
  induction h with
  | null => exact .null
  | bool b => exact .bool b
  | int n => exact .int n
  | float finite => exact .float finite
  | text s => exact .text s
  | array _ ih =>
    rw [canonical_array]
    refine .array ?_
    intro v hv
    obtain ⟨u, hu, rfl⟩ := List.mem_map.1 hv
    exact ih u hu
  | @object xs keys _ ih =>
    have hkeys : ((xs.map canonicalMember).map (·.1)).Nodup := by
      rw [keys_canonicalMembers]
      exact keys
    have hperm := Assoc.perm_ofList hkeys
    rw [canonical_object]
    refine .object ?_ ?_
    · rw [(hperm.map _).nodup_iff, keys_canonicalMembers]
      exact keys
    · intro m hm
      obtain ⟨u, hu, rfl⟩ := List.mem_map.1 (hperm.mem_iff.1 hm)
      exact ih u hu

/-! ## Sameness decided -/

/-- Lists are related element by element if a function makes the same of them, provided that it
tells exactly the unrelated elements apart. -/
theorem forall₂_iff_map_eq_map {α β : Type} {R : α → α → Prop} {f : α → β} {xs ys : List α}
    (hf : ∀ x ∈ xs, ∀ y ∈ ys, (f x = f y ↔ R x y)) :
    List.Forall₂ R xs ys ↔ xs.map f = ys.map f := by
  induction xs generalizing ys with
  | nil => cases ys <;> simp
  | cons x xs ih =>
    cases ys with
    | nil => simp
    | cons y ys =>
      have hrest : List.Forall₂ R xs ys ↔ xs.map f = ys.map f :=
        ih fun x' hx y' hy => hf x' (by simp [hx]) y' (by simp [hy])
      rw [List.forall₂_cons, List.map_cons, List.map_cons, List.cons.injEq, hrest,
        hf x (by simp) y (by simp)]

/-- Members have the same canonical forms if they have the same keys and values with the same
canonical forms. -/
theorem map_canonicalMember_eq_iff {xs ys : List (String × Json)} :
    xs.map canonicalMember = ys.map canonicalMember ↔
      xs.map (·.1) = ys.map (·.1) ∧
        (xs.map (·.2)).map canonical = (ys.map (·.2)).map canonical := by
  induction xs generalizing ys with
  | nil => cases ys <;> simp
  | cons x xs ih =>
    cases ys with
    | nil => simp
    | cons y ys =>
      simp only [List.map_cons, List.cons.injEq, ih, canonicalMember, Prod.mk.injEq]
      tauto

/-- Members that are the same in another order are brought into the same members. -/
theorem same_object_iff {xs ys : List (String × Json)}
    (hsame : ∀ x ∈ xs, ∀ y ∈ ys, (x.2.canonical = y.2.canonical ↔ x.2.Same y.2)) :
    (object xs).Same (object ys) ↔
      (xs.map canonicalMember).Perm (ys.map canonicalMember) := by
  -- the values of the reordered members are among the old ones
  have hvalues {xs' : List (String × Json)} (horder : xs.Perm xs') :
      List.Forall₂ Same (xs'.map (·.2)) (ys.map (·.2)) ↔
        (xs'.map (·.2)).map canonical = (ys.map (·.2)).map canonical := by
    apply forall₂_iff_map_eq_map
    intro v hv w hw
    obtain ⟨x, hx, rfl⟩ := List.mem_map.1 hv
    obtain ⟨y, hy, rfl⟩ := List.mem_map.1 hw
    exact hsame x (horder.mem_iff.2 hx) y hy
  constructor
  · intro h
    cases h with
    | @object _ xs' _ order keys values =>
      have hmembers : xs'.map canonicalMember = ys.map canonicalMember :=
        map_canonicalMember_eq_iff.2 ⟨keys, (hvalues order).1 values⟩
      rw [← hmembers]
      exact order.map canonicalMember
  · intro h
    obtain ⟨xs', hmembers, horder⟩ :
        Relation.Comp (fun a b => a = b.map canonicalMember) List.Perm
          (ys.map canonicalMember) xs := by
      rw [List.eq_map_comp_perm]
      exact h.symm
    obtain ⟨hkeys, hcanonical⟩ := map_canonicalMember_eq_iff.1 hmembers.symm
    exact .object horder.symm hkeys ((hvalues horder.symm).2 hcanonical)

/-- Values without parts are the same if they are equal. -/
theorem canonical_eq_iff_of_leaf {u v : Json} (hu : u.canonical = u) (hv : v.canonical = v)
    (hrefl : u.Same u) (heq : u.Same v → u = v) : u.canonical = v.canonical ↔ u.Same v := by
  rw [hu, hv]
  constructor
  · rintro rfl
    exact hrefl
  · exact heq

/-- **The canonical form decides sameness.** -/
theorem canonical_eq_iff {u v : Json} (hu : u.Proper) (hv : v.Proper) :
    u.canonical = v.canonical ↔ u.Same v := by
  induction hu generalizing v with
  | null =>
    cases hv with
    | null => exact iff_of_true rfl .null
    | _ => exact iff_of_false (by simp [canonical]) nofun
  | bool b =>
    cases hv with
    | bool c => exact canonical_eq_iff_of_leaf rfl rfl (.bool b) (by rintro ⟨⟩; rfl)
    | _ => exact iff_of_false (by simp [canonical]) nofun
  | int n =>
    cases hv with
    | int m => exact canonical_eq_iff_of_leaf rfl rfl (.int n) (by rintro ⟨⟩; rfl)
    | _ => exact iff_of_false (by simp [canonical]) nofun
  | @float x _ =>
    cases hv with
    | @float y _ => exact canonical_eq_iff_of_leaf rfl rfl (.float x) (by rintro ⟨⟩; rfl)
    | _ => exact iff_of_false (by simp [canonical]) nofun
  | text s =>
    cases hv with
    | text t => exact canonical_eq_iff_of_leaf rfl rfl (.text s) (by rintro ⟨⟩; rfl)
    | _ => exact iff_of_false (by simp [canonical]) nofun
  | @array xs hxs ih =>
    cases hv with
    | @array ys hys =>
      have hitems : List.Forall₂ Same xs ys ↔ xs.map canonical = ys.map canonical :=
        forall₂_iff_map_eq_map fun x hx y hy => ih x hx (hys y hy)
      rw [canonical_array, canonical_array, array.injEq, ← hitems]
      constructor
      · exact .array
      · rintro ⟨⟩
        assumption
    | _ => exact iff_of_false (by simp [canonical]) nofun
  | @object xs hkeys hvalues ih =>
    cases hv with
    | @object ys hkeys' hvalues' =>
      rw [canonical_object, canonical_object, object.injEq,
        same_object_iff fun x hx y hy => ih x hx (hvalues' y hy)]
      apply Assoc.ofList_eq_iff
      · rw [keys_canonicalMembers]
        exact hkeys
      · rw [keys_canonicalMembers]
        exact hkeys'
    | _ => exact iff_of_false (by simp [canonical]) nofun

end Json

end EvalProxy
