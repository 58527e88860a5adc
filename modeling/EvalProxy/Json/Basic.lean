/-
# JSON values

JSON values with integers and floats kept apart, and their canonical form.

An object lists its members. Values read from text list them in increasing key order, each key
once; `canonical` brings any value into that form.

Main definitions: `Json`, `Json.member?`, `Json.canonical`.
-/
import EvalProxy.Assoc
namespace EvalProxy

/-- A JSON value. -/
inductive Json where
  | null
  | bool (b : Bool)
  | int (n : Int)
  | float (x : Float)
  | text (s : String)
  | array (items : List Json)
  | object (members : List (String × Json))
  deriving Inhabited

namespace Json

/-! ## Looking inside -/

/-- The member of an object at a key. -/
def member? (v : Json) (key : String) : Option Json :=
  match v with
  | object members => Assoc.get? key members
  | _ => none

/-- The text of a string value. -/
def text? : Json → Option String
  | text s => some s
  | _ => none

/-- The elements of an array. -/
def array? : Json → Option (List Json)
  | array items => some items
  | _ => none

/-- The members of an object. -/
def object? : Json → Option (List (String × Json))
  | object members => some members
  | _ => none

/-- Whether a value is `null`. -/
def isNull : Json → Bool
  | null => true
  | _ => false

/-- The object with a member put in; any other value becomes an object with that member alone. -/
def withMember (v : Json) (key : String) (value : Json) : Json :=
  match v with
  | object members => object (Assoc.insert key value members)
  | _ => object [(key, value)]

/-- An object of the given members, put in key order. -/
def ofMembers (members : List (String × Json)) : Json := object (Assoc.ofList members)

/-- An optional value, `null` when absent. -/
def ofOption {α : Type} (f : α → Json) : Option α → Json
  | none => null
  | some a => f a

/-- A natural number. -/
def nat (n : Nat) : Json := int n

/-! ## Canonical form -/

mutual

/-- The value with the members of every object in key order; of several at one key the last
stays. -/
def canonical : Json → Json
  | array items => array (canonicalItems items)
  | object members => object (Assoc.ofList (canonicalMembers members))
  | v => v

/-- The elements in canonical form. -/
def canonicalItems : List Json → List Json
  | [] => []
  | v :: rest => canonical v :: canonicalItems rest

/-- The members with their values in canonical form, in their old order. -/
def canonicalMembers : List (String × Json) → List (String × Json)
  | [] => []
  | (k, v) :: rest => (k, canonical v) :: canonicalMembers rest

end

/-- Every element is brought into canonical form. -/
theorem canonicalItems_eq_map (items : List Json) : canonicalItems items = items.map canonical := by
  induction items with
  | nil => rfl
  | cons v rest ih => simp [canonicalItems, ih]

/-- Every member value is brought into canonical form. -/
theorem canonicalMembers_eq_map (members : List (String × Json)) :
    canonicalMembers members = members.map fun m => (m.1, canonical m.2) := by
  induction members with
  | nil => rfl
  | cons m rest ih =>
    obtain ⟨k, v⟩ := m
    simp [canonicalMembers, ih]

end Json

end EvalProxy
