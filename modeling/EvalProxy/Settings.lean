/-
# Component settings

How the free-form settings of a component are read: `null` stands for the defaults, anything else
must fit the component's form.

Main definition: `Form.read`.
-/
import EvalProxy.Failure
import EvalProxy.Json.Shape
namespace EvalProxy

/-- The form of a component's settings: the component's name, the shape, and the settings that
`null` stands for. -/
structure Form where
  component : String
  shape : Json.Shape
  unset : Json

namespace Form

/-- The values of the fields that nobody sets; one without a default is taken as the empty text. -/
def defaults (fields : List Json.Field) : Json :=
  Json.ofMembers (fields.map fun f => (f.key, f.fallback.getD (.text "")))

/-- A form with the given fields and no others, under the name that messages give its type. -/
def ofFields (component typeName : String) (fields : List Json.Field) : Form :=
  ⟨component, .record typeName true fields, defaults fields⟩

/-- Settings in their normal form, or why they are refused. -/
def read (f : Form) (value : Json) : Except Failure Json :=
  if value.isNull then .ok f.unset
  else
    (f.shape.conform value).mapError fun m =>
      .settings s!"invalid settings for '{f.component}': {m}"

end Form

end EvalProxy
