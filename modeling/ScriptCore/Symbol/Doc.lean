import ScriptCore.Tag
import ScriptCore.Text.Quoted

/-!
# Documentation of functions

A parameter has a name and a type and may be optional; the documentation of a function or
method lists its parameters and shows as a signature.
-/

namespace ScriptCore

/-- A parameter of a function. -/
structure Parameter where
  name : String
  tag : Tag
  description : String
  optional : Bool
  interpolate : Bool
  deriving DecidableEq, Repr

namespace Parameter

/-- A required parameter without a description. -/
def required (name : String) (tag : Tag) : Parameter := ⟨name, tag, "", false, false⟩

/-- The parameter as it stands in a signature. -/
def text (p : Parameter) : String :=
  let mark := if p.optional then "?" else ""
  s!"{p.name}{mark}: {p.tag}"

/-- The structure of a parameter. -/
def outline (p : Parameter) : String :=
  "ParameterInfo \x7b name: " ++ quoted p.name ++ ", ty: " ++ p.tag.label ++
    ", description: " ++ quoted p.description ++
    s!", optional: {p.optional}, interpolate: {p.interpolate}" ++ " \x7d"

end Parameter

/-- The documentation of a function. -/
structure Doc where
  name : String
  returns : Tag
  parameters : List Parameter
  description : String
  deriving DecidableEq, Repr

namespace Doc

/-- Documentation that gives nothing but the return type. -/
def plain (name : String) (returns : Tag) : Doc := ⟨name, returns, [], ""⟩

/-- The number of parameters that a caller has to give. -/
def requiredArity (d : Doc) : Nat := d.parameters.countP fun p => !p.optional

/-- The signature. -/
def text (d : Doc) : String :=
  d.name ++ "(" ++ ", ".intercalate (d.parameters.map Parameter.text) ++ "): " ++ d.returns.name

end Doc
end ScriptCore
