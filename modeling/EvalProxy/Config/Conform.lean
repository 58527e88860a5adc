/-
# Settings of a given shape

How configured values become those that a shape asks for. Scalars are converted where they can be:
a text may spell a number or a truth value, a number may stand for a truth value or a text, and a
float is rounded to a whole number. A refusal names the key and the source of the value.

Main definitions: `Setting.conform`, `Refusal.message`.
-/
import EvalProxy.Config.Setting
import EvalProxy.Json.Shape
namespace EvalProxy

/-- Why a configured value is refused: a value cannot be converted, with the key that leads to it
and its source, or something else is wrong. -/
inductive Refusal where
  | conversion (found expected key : String) (source : Option String)
  | other (message : String)

namespace Refusal

/-- The wording of a refusal. -/
def message : Refusal → String
  | conversion found expected key source =>
    let place := if key.isEmpty then "" else s!" for key `{key}`"
    let origin := match source with
      | some o => s!" in {o}"
      | none => ""
    Json.wrongKind found expected ++ place ++ origin
  | other m => m

/-- A refusal as seen from the group that has the value at a key. -/
def below (key : String) : Refusal → Refusal
  | conversion found expected inner source =>
    let path :=
      if inner.isEmpty then key
      else if inner.toList.head? == some '[' then key ++ inner
      else key ++ "." ++ inner
    conversion found expected path source
  | r => r

/-- A refusal as seen from the list that has the value at an index. -/
def within (index : Nat) : Refusal → Refusal
  | conversion found expected inner source =>
    conversion found expected (s!"[{index}]" ++ inner) source
  | r => r

end Refusal

namespace Setting

/-! ## Messages -/

/-- The kind of a value, as messages about conversions name it. -/
def kindText : Setting → String
  | null _ => "unit value"
  | flag _ b => s!"boolean `{b}`"
  | int _ n => s!"64-bit integer `{n}`"
  | float _ x => s!"floating point `{Decimal.Layout.plain.write x}`"
  | text _ s => s!"string {Text.shown s}"
  | list _ _ => "sequence"
  | group _ _ => "map"

/-- A float with a point. -/
def pointed (x : Float) : String :=
  let s := Decimal.Layout.plain.write x
  if x.isNaN || x.isInf || s.toList.contains '.' then s else s ++ ".0"

/-- The kind of a value, as messages about lists and records name it. -/
def plainKindText : Setting → String
  | int _ n => s!"integer `{n}`"
  | float _ x => s!"floating point `{pointed x}`"
  | s => s.kindText

/-- A value that cannot be converted. -/
def refuse {α : Type} (s : Setting) (found expected : String) : Except Refusal α :=
  .error (.conversion found expected "" s.source)

/-- A value that is neither a list nor a record. -/
def refusePlain {α : Type} (s : Setting) (expected : String) : Except Refusal α :=
  .error (.other (Json.wrongKind s.plainKindText expected))

/-! ## Scalars -/

/-- Texts that stand for true. -/
def yesTexts : List String := ["true", "on", "yes"]

/-- Texts that stand for false. -/
def noTexts : List String := ["false", "off", "no"]

/-- A truth value. -/
def toFlag (s : Setting) : Except Refusal Bool :=
  match s with
  | flag _ b => .ok b
  | int _ n => .ok (n != 0)
  | float _ x => .ok (x != 0)
  | text _ t =>
    let word := Text.lowered t
    if word == "1" || yesTexts.contains word then .ok true
    else if word == "0" || noTexts.contains word then .ok false
    else s.refuse s!"string {Text.shown word}" "a boolean"
  | _ => s.refuse s.kindText "a boolean"

/-- A float rounded to a whole number of 64 bits without a sign; half goes away from zero, and what
is out of range to the nearest end. -/
def roundFloat (x : Float) : Nat := if x.isNaN then 0 else x.round.toUInt64.toNat

/-- A whole number of 64 bits without a sign. -/
def toNatural (s : Setting) : Except Refusal Nat :=
  match s with
  | flag _ b => .ok (if b then 1 else 0)
  | int _ n =>
    if n < 0 then s.refuse s.kindText "an unsigned 64 bit or less integer" else .ok n.toNat
  | float _ x => .ok (roundFloat x)
  | text _ t =>
    let word := Text.lowered t
    if yesTexts.contains word then .ok 1
    else if noTexts.contains word then .ok 0
    else
      match Text.natural? t with
      | some n => .ok n
      | none => s.refuse s.kindText "an integer"
  | _ => s.refuse s.kindText "an integer"

/-- A whole number up to a limit. -/
def toLimited (limit : Nat) (s : Setting) : Except Refusal Nat := do
  let n ← s.toNatural
  if n ≤ limit then .ok n
  else
    .error (.conversion s!"64-bit unsigned integer `{n}`"
      s!"an unsigned {Nat.log2 (limit + 1)} bit integer" "" none)

/-- A text. -/
def toText (s : Setting) : Except Refusal String :=
  match s with
  | flag _ b => .ok (toString b)
  | int _ n => .ok (toString n)
  | float _ x => .ok (Decimal.Layout.plain.write x)
  | text _ t => .ok t
  | _ => s.refuse s.kindText "a string"

/-- A scalar in the normal form of a shape. -/
def conformScalar (shape : Json.Shape) (s : Setting) : Except Refusal Json :=
  match shape with
  | .any => .ok s.toJson
  | .flag => s.toFlag.map .bool
  | .natural _ limit => (s.toLimited limit).map .nat
  | .text | .path => s.toText.map .text
  | .float | .choice _ => (shape.conformScalar s.toJson).mapError .other
  | .list _ | .dict _ | .record .. => s.refusePlain shape.expectation

/-! ## Lists and records -/

mutual

/-- The normal form of a value of a shape. -/
def conform (shape : Json.Shape) : Setting → Except Refusal Json
  | list o vs =>
    match shape with
    | .list item => do
      let ws ← conformItems item 0 vs
      .ok (.array ws)
    | .record name _ fields => do
      let given ← conformPlaces name fields.length 0 fields vs
      .ok (.ofMembers given)
    | shape => (list o vs).conformScalar shape
  | group o es =>
    match shape with
    | .dict value => do
      let ws ← conformValues value es
      .ok (.object ws)
    | .record _ _ fields => do
      let given ← conformFields fields es
      let all ← (Json.fillFields given fields).mapError .other
      .ok (.ofMembers all)
    | shape => (group o es).conformScalar shape
  | null o => (null o).conformScalar shape
  | flag o b => (flag o b).conformScalar shape
  | int o n => (int o n).conformScalar shape
  | float o x => (float o x).conformScalar shape
  | text o s => (text o s).conformScalar shape

/-- The items of a list, the first of which stands at `index`. -/
def conformItems (item : Json.Shape) (index : Nat) : List Setting → Except Refusal (List Json)
  | [] => .ok []
  | v :: rest => do
    let w ← (conform item v).mapError (·.within index)
    let ws ← conformItems item (index + 1) rest
    .ok (w :: ws)

/-- The values of a dictionary. -/
def conformValues (value : Json.Shape) :
    List (String × Setting) → Except Refusal (List (String × Json))
  | [] => .ok []
  | (k, v) :: rest => do
    let w ← (conform value v).mapError (·.below k)
    let ws ← conformValues value rest
    .ok ((k, w) :: ws)

/-- The entries of a group that are fields of a record. -/
def conformFields (fields : List Json.Field) :
    List (String × Setting) → Except Refusal (List (String × Json))
  | [] => .ok []
  | (k, v) :: rest =>
    match fields.find? fun f => f.key == k with
    | some f => do
      let w ← (conform f.shape v).mapError (·.below k)
      let ws ← conformFields fields rest
      .ok ((k, w) :: ws)
    | none => conformFields fields rest

/-- The items of a list as the fields of a record; items beyond the last field do not matter. -/
def conformPlaces (name : String) (count index : Nat) (fields : List Json.Field) :
    List Setting → Except Refusal (List (String × Json))
  | [] => (Json.fillPlaces name count index fields).mapError .other
  | v :: rest =>
    match fields with
    | [] => .ok []
    | f :: fields => do
      let w ← (conform f.shape v).mapError (·.within index)
      let ws ← conformPlaces name count (index + 1) fields rest
      .ok ((f.key, w) :: ws)

end

end Setting

end EvalProxy
