/-
# What a record is read as

Every field of a record that was read is `null`, or the default of the field, or a value of its
shape. So a count that was read keeps to its limit, wherever it stood.

Main definitions: `ReadAs`, `Obtained`.
Main statements: `obtained_field`, `exists_nat_of_readAs`, `readAs_of_parseText`.
-/
import EvalProxy.Json.Typed
import EvalProxy.Proofs.Dict
namespace EvalProxy.Json

/-- What a sequence of steps gives, its first step has made possible. -/
theorem exists_of_bind_eq_ok {ε α β : Type} {x : Except ε α} {f : α → Except ε β} {b : β}
    (h : x >>= f = .ok b) : ∃ a, x = .ok a ∧ f a = .ok b := by
  cases x with
  | error e => cases h
  | ok a => exact ⟨a, rfl, h⟩

/-- A value of a shape was read somewhere. -/
def ReadAs (shape : Shape) (v : Json) : Prop :=
  ∃ fuel depth s rest, readShape fuel depth shape s = .ok (v, rest)

/-- What the field of a record can be after reading. -/
def Obtained (f : Field) (v : Json) : Prop :=
  v = .null ∨ f.fallback = some v ∨ ReadAs f.shape v

/-- A member belongs to a field and is what that field can be. -/
def OfField (fields : List Field) (m : String × Json) : Prop :=
  ∃ f ∈ fields, f.key = m.1 ∧ Obtained f m.2

/-- A member of some fields is one of more fields. -/
theorem OfField.cons {f : Field} {fields : List Field} {m : String × Json}
    (h : OfField fields m) : OfField (f :: fields) m :=
  let ⟨g, hg, hm⟩ := h
  ⟨g, List.mem_cons_of_mem f hg, hm⟩

/-! ## Members -/

/-- What is read for a field is what it can be. -/
theorem obtained_of_readField {fuel depth : Nat} {f : Field} {s rest : Bytes} {v : Json}
    (h : readField fuel depth f s = .ok (v, rest)) : Obtained f v := by
  cases fuel with
  | zero =>
    rw [readField] at h
    cases h
  | succ fuel =>
    rw [readField] at h
    split at h
    · cases h
    split at h
    · rename_i b after _ _
      cases hword : readWord nullTail after with
      | error e =>
        rw [hword] at h
        cases h
      | ok rest =>
        rw [hword] at h
        exact .inl (Prod.mk.inj (Except.ok.inj h)).1.symm
    · exact .inr (.inr ⟨_, _, _, _, h⟩)

/-- The members that are read of a record belong to its fields. -/
theorem ofField_of_readShapeMembers {fields : List Field} {depth : Nat} {closed : Bool}
    {rest : Bytes} {all : List (String × Json)} {fuel : Nat} {given : List (String × Json)}
    {first : Bool} {s : Bytes}
    (h : readShapeMembers fuel depth closed fields given first s = .ok (all, rest))
    (hgiven : ∀ m ∈ given, OfField fields m) : ∀ m ∈ all, OfField fields m := by
  induction fuel generalizing given first s with
  | zero =>
    rw [readShapeMembers] at h
    cases h
  | succ fuel ih =>
    rw [readShapeMembers] at h
    obtain ⟨next, -, h⟩ := exists_of_bind_eq_ok h
    cases next with
    | finished after =>
      obtain ⟨rfl, -⟩ := Prod.mk.inj (Except.ok.inj h)
      exact hgiven
    | more after =>
      obtain ⟨⟨key, after⟩, -, h⟩ := exists_of_bind_eq_ok h
      dsimp only at h
      split at h
      · rename_i f hfind
        split at h
        · cases h
        obtain ⟨after, -, h⟩ := exists_of_bind_eq_ok h
        obtain ⟨⟨v, after⟩, hfield, h⟩ := exists_of_bind_eq_ok h
        refine ih h fun m hm => ?_
        rcases List.mem_cons.1 hm with rfl | hm
        · exact ⟨f, List.mem_of_find?_eq_some hfind, by simpa using List.find?_some hfind,
            obtained_of_readField hfield⟩
        · exact hgiven m hm
      · split at h
        · cases h
        obtain ⟨after, -, h⟩ := exists_of_bind_eq_ok h
        obtain ⟨after, -, h⟩ := exists_of_bind_eq_ok h
        exact ih h hgiven

/-! ## Elements that stand for fields -/

/-- The members for places that were not given are those of their fields. -/
theorem ofField_of_fillPlaces {name : String} {count index : Nat} {fields : List Field}
    {all : List (String × Json)} (h : fillPlaces name count index fields = .ok all) :
    ∀ m ∈ all, OfField fields m := by
  induction fields generalizing index all with
  | nil =>
    obtain rfl := Except.ok.inj h
    simp
  | cons f fields ih =>
    rw [fillPlaces] at h
    split at h
    · rename_i v hfallback
      obtain ⟨tail, htail, h⟩ := exists_of_bind_eq_ok h
      obtain rfl := Except.ok.inj h
      intro m hm
      rcases List.mem_cons.1 hm with rfl | hm
      · exact ⟨f, by simp, rfl, .inr (.inl hfallback)⟩
      · exact (ih htail m hm).cons
    · cases h

/-- The members that are read place by place are those of their fields. -/
theorem ofField_of_readShapePlaces {name : String} {count depth : Nat} {rest : Bytes} {fuel : Nat}
    {index : Nat} {fields : List Field} {s : Bytes} {all : List (String × Json)}
    (h : readShapePlaces fuel depth name count index fields s = .ok (all, rest)) :
    ∀ m ∈ all, OfField fields m := by
  induction fuel generalizing index fields s all rest with
  | zero =>
    rw [readShapePlaces] at h
    cases h
  | succ fuel ih =>
    cases fields with
    | nil =>
      rw [readShapePlaces] at h
      obtain ⟨rfl, -⟩ := Prod.mk.inj (Except.ok.inj h)
      simp
    | cons f fields =>
      rw [readShapePlaces] at h
      obtain ⟨next, -, h⟩ := exists_of_bind_eq_ok h
      cases next with
      | finished after =>
        dsimp only at h
        split at h
        · rename_i given hfill
          obtain ⟨rfl, -⟩ := Prod.mk.inj (Except.ok.inj h)
          exact ofField_of_fillPlaces hfill
        · cases h
      | more after =>
        obtain ⟨⟨v, after⟩, hfield, h⟩ := exists_of_bind_eq_ok h
        obtain ⟨⟨given, after⟩, htail, h⟩ := exists_of_bind_eq_ok h
        obtain ⟨rfl, -⟩ := Prod.mk.inj (Except.ok.inj h)
        intro m hm
        rcases List.mem_cons.1 hm with rfl | hm
        · exact ⟨f, by simp, rfl, obtained_of_readField hfield⟩
        · exact (ih htail m hm).cons

/-! ## Records -/

/-- What stands in for a field that is absent is what it can be. -/
theorem obtained_of_absent {f : Field} {v : Json} (h : f.absent = .ok v) : Obtained f v := by
  rw [Field.absent] at h
  split at h
  · rename_i hfallback
    obtain rfl := Except.ok.inj h
    exact .inr (.inl hfallback)
  split at h
  · exact .inl (Except.ok.inj h).symm
  · cases h

/-- Given members and those that stand in for absent ones are those of their fields. -/
theorem ofField_of_fillFields {given all : List (String × Json)} {known fields : List Field}
    (hgiven : ∀ m ∈ given, OfField known m) (hknown : ∀ f ∈ fields, f ∈ known)
    (h : fillFields given fields = .ok all) : ∀ m ∈ all, OfField known m := by
  induction fields generalizing all with
  | nil =>
    obtain rfl := Except.ok.inj h
    simp
  | cons f fields ih =>
    obtain ⟨v, hv, tail, htail, rfl⟩ : ∃ v, OfField known (f.key, v) ∧
        ∃ tail, fillFields given fields = .ok tail ∧ all = (f.key, v) :: tail := by
      rw [fillFields] at h
      split at h
      · rename_i v hget
        obtain ⟨v, hv, h⟩ := exists_of_bind_eq_ok h
        obtain rfl := Except.ok.inj hv
        obtain ⟨tail, htail, h⟩ := exists_of_bind_eq_ok h
        exact ⟨v, hgiven _ (Assoc.mem_of_get? hget), tail, htail, (Except.ok.inj h).symm⟩
      · obtain ⟨v, hv, h⟩ := exists_of_bind_eq_ok h
        obtain ⟨tail, htail, h⟩ := exists_of_bind_eq_ok h
        exact ⟨v, ⟨f, hknown f (by simp), rfl, obtained_of_absent hv⟩, tail, htail,
          (Except.ok.inj h).symm⟩
    intro m hm
    rcases List.mem_cons.1 hm with rfl | hm
    · exact hv
    · exact ih (fun g hg => hknown g (by simp [hg])) htail m hm

/-- A record is read as an object whose members belong to its fields. -/
theorem exists_members_of_readAs {name : String} {closed : Bool} {fields : List Field} {v : Json}
    (h : ReadAs (.record name closed fields) v) :
    ∃ members, v = ofMembers members ∧ ∀ m ∈ members, OfField fields m := by
  obtain ⟨fuel, depth, s, rest, h⟩ := h
  cases fuel with
  | zero =>
    rw [readShape] at h
    cases h
  | succ fuel =>
    rw [readShape] at h
    split at h
    · cases h
    dsimp only at h
    split at h
    · split at h
      · cases h
      obtain ⟨⟨given, after⟩, hread, h⟩ := exists_of_bind_eq_ok h
      dsimp only at h
      split at h
      · rename_i all hfill
        obtain ⟨rfl, -⟩ := Prod.mk.inj (Except.ok.inj h)
        have hgiven := ofField_of_readShapeMembers hread (by simp)
        exact ⟨all, rfl, ofField_of_fillFields hgiven (fun _ => id) hfill⟩
      · cases h
    split at h
    · split at h
      · cases h
      obtain ⟨⟨given, after⟩, hread, h⟩ := exists_of_bind_eq_ok h
      obtain ⟨after, -, h⟩ := exists_of_bind_eq_ok h
      obtain ⟨rfl, -⟩ := Prod.mk.inj (Except.ok.inj h)
      exact ⟨given, rfl, ofField_of_readShapePlaces hread⟩
    · cases h

/-- **A field of a record** that was read is `null` or what that field can be. -/
theorem obtained_field {name : String} {closed : Bool} {fields : List Field} {v : Json}
    (h : ReadAs (.record name closed fields) v) (key : String) :
    field v key = .null ∨ OfField fields (key, field v key) := by
  obtain ⟨members, rfl, hmembers⟩ := exists_members_of_readAs h
  cases hget : Assoc.get? key (Assoc.ofList members) with
  | none => exact .inl (by rw [field, ofMembers, member?, hget]; rfl)
  | some w =>
    refine .inr ?_
    have hfield : field (ofMembers members) key = w := by
      rw [field, ofMembers, member?, hget]
      rfl
    rw [hfield]
    exact hmembers _ (Assoc.mem_of_mem_ofList (Assoc.mem_of_get? hget))

/-! ## Counts -/

/-- Whatever number is read, it is judged by its size. -/
theorem exists_nat_of_conformScalar {name : String} {limit : Nat} {u v : Json}
    (h : (Shape.natural name limit).conformScalar u = .ok v) : ∃ n ≤ limit, v = .nat n := by
  cases u with
  | int n =>
    rw [Shape.conformScalar] at h
    split at h
    · cases h
    · rename_i hrange
      obtain rfl := Except.ok.inj h
      simp only [Bool.or_eq_true, decide_eq_true_iff, not_or] at hrange
      refine ⟨n.toNat, by omega, ?_⟩
      rw [Json.nat, Int.toNat_of_nonneg (by omega)]
  | _ => cases h

/-- A number that was read is what some number conforms to. -/
theorem exists_conformScalar_of_readScalar {name : String} {limit : Nat} {s rest : Bytes} {v : Json}
    (h : readScalar (.natural name limit) s = .ok (v, rest)) :
    ∃ u, (Shape.natural name limit).conformScalar u = .ok v := by
  rw [readScalar] at h
  split at h
  · cases h
  dsimp only at h
  split at h
  · obtain ⟨⟨u, after⟩, -, h⟩ := exists_of_bind_eq_ok h
    split at h
    · rename_i w hw
      obtain ⟨rfl, -⟩ := Prod.mk.inj (Except.ok.inj h)
      exact ⟨_, hw⟩
    · cases h
  split at h
  · obtain ⟨⟨u, after⟩, -, h⟩ := exists_of_bind_eq_ok h
    split at h
    · rename_i w hw
      obtain ⟨rfl, -⟩ := Prod.mk.inj (Except.ok.inj h)
      exact ⟨_, hw⟩
    · cases h
  · cases h

/-- **A whole number that was read** keeps to its limit. -/
theorem exists_nat_of_readAs {name : String} {limit : Nat} {v : Json}
    (h : ReadAs (.natural name limit) v) : ∃ n ≤ limit, v = .nat n := by
  obtain ⟨fuel, depth, s, rest, h⟩ := h
  cases fuel with
  | zero =>
    rw [readShape] at h
    cases h
  | succ fuel =>
    rw [readShape] at h
    split at h
    · cases h
    dsimp only at h
    obtain ⟨u, hu⟩ := exists_conformScalar_of_readScalar h
    exact exists_nat_of_conformScalar hu

/-- What a text spells was read. -/
theorem readAs_of_parseText {shape : Shape} {s : Bytes} {v : Json}
    (h : shape.parseText s = .ok v) : ReadAs shape v := by
  rw [Shape.parseText] at h
  cases hparse : shape.parse s with
  | error e =>
    rw [hparse] at h
    cases h
  | ok w =>
    rw [hparse] at h
    obtain rfl := Except.ok.inj h
    rw [Shape.parse] at hparse
    obtain ⟨⟨w, rest⟩, hread, hparse⟩ := exists_of_bind_eq_ok hparse
    obtain ⟨-, -, hparse⟩ := exists_of_bind_eq_ok hparse
    obtain rfl := Except.ok.inj hparse
    exact ⟨_, _, _, _, hread⟩

end EvalProxy.Json
