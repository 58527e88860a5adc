/-
# Members of objects

What an object answers after a member was put in, and how two objects compare that differ in some of
their members only.

Main definition: `Json.SameBut`.
Main statements: `Json.member?_withMember`, `Json.sameBut_withMember`, `Json.SameBut.member?_eq`.
-/
import EvalProxy.Json.Basic
namespace EvalProxy

/-! ## Entries -/

namespace Assoc

variable {α : Type}

/-- A change touches no entry at another key. -/
theorem filter_insert {keep : String × α → Bool} {key : String} (h : ∀ v, keep (key, v) = false)
    (value : α) (entries : List (String × α)) :
    (insert key value entries).filter keep = entries.filter keep := by
  induction entries with
  | nil => simp [insert, h]
  | cons e rest ih =>
    obtain ⟨k, v⟩ := e
    rw [insert]
    split
    · rw [List.filter_cons_of_neg (by simp [h])]
    · split
      · subst_vars
        rw [List.filter_cons_of_neg (by simp [h]), List.filter_cons_of_neg (by simp [h])]
      · rw [List.filter_cons, List.filter_cons, ih]

/-- A key whose entries stay answers what it did. -/
theorem get?_filter (keep : String → Bool) {key : String} (h : keep key = true)
    (entries : List (String × α)) :
    get? key (entries.filter fun e => keep e.1) = get? key entries := by
  induction entries with
  | nil => rfl
  | cons e rest ih =>
    obtain ⟨k, v⟩ := e
    rw [List.filter_cons, get?]
    split
    · rw [get?, ih]
    · rename_i hgone
      have hne : k ≠ key := by
        rintro rfl
        exact hgone h
      rw [if_neg hne, ih]

/-- Of two changes at one key the second counts. -/
theorem insert_insert (key : String) (value value' : α) (entries : List (String × α)) :
    insert key value (insert key value' entries) = insert key value entries := by
  have hirrefl : ¬ key < key := String.lt_irrefl key
  induction entries with
  | nil => exact (if_neg hirrefl).trans (if_pos rfl)
  | cons e rest ih =>
    obtain ⟨k, v⟩ := e
    by_cases hlt : key < k
    · rw [insert, if_pos hlt, insert, if_neg hirrefl, if_pos rfl, insert, if_pos hlt]
    · by_cases heq : key = k
      · subst heq
        rw [insert, if_neg hirrefl, if_pos rfl, insert, if_neg hirrefl, if_pos rfl, insert,
          if_neg hirrefl, if_pos rfl]
      · rw [insert, if_neg hlt, if_neg heq, insert, if_neg hlt, if_neg heq, ih, insert,
          if_neg hlt, if_neg heq]

end Assoc

namespace Json

/-! ## A member put in -/

/-- Only an object has members. -/
theorem exists_object_of_member? {v value : Json} {key : String}
    (h : v.member? key = some value) : ∃ members, v = object members := by
  cases v with
  | object members => exact ⟨members, rfl⟩
  | _ => cases h

/-- The key of a member that is put in answers it. -/
theorem member?_withMember (v : Json) (key : String) (value : Json) :
    (v.withMember key value).member? key = some value := by
  cases v with
  | object members =>
    rw [withMember, member?, Assoc.get?_insert, if_pos rfl]
  | _ => exact if_pos rfl

/-- Of two values that are put under a key the later one stays. -/
theorem withMember_withMember (v : Json) (key : String) (value value' : Json) :
    (v.withMember key value').withMember key value = v.withMember key value := by
  cases v with
  | object members =>
    rw [withMember, withMember, Assoc.insert_insert, withMember]
  | _ => exact congrArg object (Assoc.insert_insert key value value' [])

/-! ## Objects that differ in some members -/

/-- Two objects list the same members in the same order, apart from those at some keys, and the
second stands in key order if the first does. -/
inductive SameBut (keys : List String) : Json → Json → Prop
  | object {xs ys : List (String × Json)}
      (others : xs.filter (fun m => m.1 ∉ keys) = ys.filter fun m => m.1 ∉ keys)
      (ordered : Assoc.Ordered xs → Assoc.Ordered ys) :
      SameBut keys (object xs) (object ys)

section

variable {keys : List String} {u v w : Json}

theorem SameBut.trans (h : SameBut keys u v) (h' : SameBut keys v w) : SameBut keys u w := by
  cases h with
  | object others ordered =>
    cases h' with
    | object others' ordered' =>
      exact .object (others.trans others') fun h => ordered' (ordered h)

/-- Objects that are the same but at some keys are so but at more of them. -/
theorem SameBut.mono {keys' : List String} (h : SameBut keys u v) (hsub : keys ⊆ keys') :
    SameBut keys' u v := by
  cases h with
  | @object xs ys others ordered =>
    refine .object ?_ ordered
    -- what stands at none of the keys stands at none of the fewer keys
    have hfilter (ms : List (String × Json)) :
        ms.filter (fun m => m.1 ∉ keys')
          = (ms.filter fun m => m.1 ∉ keys).filter fun m => m.1 ∉ keys' := by
      rw [List.filter_filter]
      apply List.filter_congr
      intro m _
      by_cases hm : m.1 ∈ keys
      · simp [hsub hm]
      · simp [hm]
    rw [hfilter xs, others, ← hfilter ys]

/-- Every other key answers what it did. -/
theorem SameBut.member?_eq (h : SameBut keys u v) {key : String} (hkey : key ∉ keys) :
    v.member? key = u.member? key := by
  cases h with
  | @object xs ys others ordered =>
    have hstays (ms : List (String × Json)) :=
      Assoc.get?_filter (fun k => k ∉ keys) (decide_eq_true hkey) ms
    rw [member?, member?, ← hstays xs, ← hstays ys, others]

/-- An object with a member put in has its other members as before. -/
theorem sameBut_withMember {held : String} {old : Json} (h : v.member? held = some old)
    (key : String) (value : Json) : SameBut [key] v (v.withMember key value) := by
  obtain ⟨members, rfl⟩ := exists_object_of_member? h
  refine .object ?_ fun hordered => hordered.insert key value
  rw [Assoc.filter_insert (by simp)]

end

end Json

end EvalProxy
