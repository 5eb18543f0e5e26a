import ScriptCore.Heap.Copy
import ScriptCore.Registry.Native
import ScriptCore.Symbol.Doc
import ScriptCore.Symbol.Kind

/-!
# Classes

A class declares properties and methods, in order, and keeps the cells of its static
properties.  A leading dollar sign does not distinguish property names.
-/

namespace ScriptCore

/-- A property name without its leading dollar sign. -/
def bareName (name : String) : String :=
  match name.toList with
  | '$' :: rest => String.ofList rest
  | _ => name

/-- A property name with a leading dollar sign. -/
def dollarName (name : String) : String := "$" ++ bareName name

/-- A property that a class declares. -/
structure Property where
  name : String
  tag : Tag
  default : Option CellId
  isPrivate : Bool
  isStatic : Bool
  deriving DecidableEq, Repr

/-- A new cell with the first value of a property: a copy of the default, or the zero of
its type. -/
def Property.initialCell (p : Property) : StateM Heap CellId :=
  match p.default with
  | some c => Heap.copy c
  | none => Heap.alloc (Value.zeroOf p.tag)

/-- A method that a class declares. -/
structure Method where
  name : String
  qualified : String
  returns : Tag
  parameters : List Parameter
  isPrivate : Bool
  native : Option Native
  doc : Doc
  deriving DecidableEq, Repr

namespace Method

/-- A method that belongs to no class yet. -/
def new (name : String) (returns : Tag) (parameters : List Parameter) (description : String)
    (isPrivate : Bool) (native : Option Native) : Method where
  name := name
  qualified := name
  returns := returns
  parameters := parameters
  isPrivate := isPrivate
  native := native
  doc := ⟨name, returns, parameters, description⟩

/-- The method as one of a class, with its name and documentation qualified. -/
def ownedBy (m : Method) (owner : String) : Method :=
  let qualified := qualify owner m.name
  { m with qualified, doc := { m.doc with name := qualified } }

def isNative (m : Method) : Bool := m.native.isSome

/-- The structure of a method. -/
def outline (m : Method) : String :=
  "MethodInfo \x7b qualified_name: " ++ quoted m.qualified ++ ", return_type: " ++
    m.returns.label ++ ", parameters: [" ++
    ", ".intercalate (m.parameters.map Parameter.outline) ++
    s!"], is_private: {m.isPrivate}, native: {m.isNative}, .. " ++ "\x7d"

end Method

/-- A class with its members.  The origin is the module that was being registered when the
class was. -/
structure Class where
  name : String
  parent : Option String
  origin : Option String
  properties : List Property
  methods : List Method
  statics : Dict CellId
  deriving DecidableEq, Repr

namespace Class

/-- A class without parent and members. -/
def new (name : String) (origin : Option String) : Class := ⟨name, none, origin, [], [], .empty⟩

/-- The property with a name, up to a leading dollar sign. -/
def property? (c : Class) (name : String) : Option Property :=
  c.properties.find? fun p => bareName p.name == bareName name

/-- The method with a name. -/
def method? (c : Class) (name : String) : Option Method :=
  c.methods.find? fun m => m.name == name

end Class
end ScriptCore
