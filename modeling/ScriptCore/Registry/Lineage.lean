import ScriptCore.Container

/-!
# Class hierarchies

A class may have a parent, and parents may be changed, so a hierarchy can run in a circle.
`lineage` follows the parents of a class up to the depth limit and stops before a class that
it has met; members are looked for along it, nearest class first.
-/

namespace ScriptCore
namespace Container

/-- Register a class, unless it is registered, under the module that is being registered. -/
def registerClass (k : Container) (name : String) : Container :=
  if k.classes.contains name then k
  else { k with classes := k.classes.insert name (Class.new name k.currentModule) }

/-- Give a class, which is registered if need be, a parent that is registered. -/
def registerSubclass (name parent : String) : Action Container Unit := fun k =>
  if k.classes.contains parent then
    let k := k.registerClass name
    (.ok (),
      { k with classes := k.classes.modify name fun c => { c with parent := some parent } })
  else (.error ((Error.of (.unknownClass parent)).withNote s!"parent of {name}"), k)

def hasClass (k : Container) (name : String) : Bool := k.classes.contains name

def class? (k : Container) (name : String) : Option Class := k.classes.find? name

def classNames (k : Container) : List String := k.classes.keys

/-- The class with a name. -/
def getClass (k : Container) (name : String) : Except Error Class :=
  match k.classes.find? name with
  | some c => .ok c
  | none => .error (Error.of (.unknownClass name))

/-- Change a class that is registered. -/
def updateClass (name : String) (f : Class → Class) : Action Container Unit := fun k =>
  match k.classes.find? name with
  | some c => (.ok (), { k with classes := k.classes.insert name (f c) })
  | none => (.error (Error.of (.unknownClass name)), k)

/-- The registered classes from a name upwards, at most so many, none of them met before. -/
def lineageFrom (classes : Dict Class) : Nat → List String → String → List Class
  | 0, _, _ => []
  | n + 1, met, name =>
      if name ∈ met then []
      else
        match classes.find? name with
        | none => []
        | some c =>
            match c.parent with
            | none => [c]
            | some parent => c :: lineageFrom classes n (name :: met) parent

/-- A class, its parent, the parent of that, and so on. -/
def lineage (k : Container) (name : String) : List Class :=
  lineageFrom k.classes (k.maxDepth + 1) [] name

/-- The nearest method with a name. -/
def method? (k : Container) (name method : String) : Option Method :=
  (k.lineage name).findSome? (·.method? method)

/-- The nearest property with a name, up to a leading dollar sign. -/
def property? (k : Container) (name property : String) : Option Property :=
  (k.lineage name).findSome? (·.property? property)

/-- The refusal for a method that no class of a lineage has. -/
def missingMethod (k : Container) (name method : String) : Error :=
  Error.of (if k.hasClass name then .unknownMethod name method else .unknownClass name)

/-- The refusal for a property that no class of a lineage has. -/
def missingProperty (k : Container) (name property : String) : Error :=
  Error.of (if k.hasClass name then .undefinedSymbol (qualify name property)
    else .unknownClass name)

/-- The nearest method with a name, or a refusal. -/
def getMethod (k : Container) (name method : String) : Except Error Method :=
  match k.method? name method with
  | some m => .ok m
  | none => .error (k.missingMethod name method)

/-- The nearest property with a name, or a refusal. -/
def getProperty (k : Container) (name property : String) : Except Error Property :=
  match k.property? name property with
  | some p => .ok p
  | none => .error (k.missingProperty name property)

/-- A class of the lineage declares the method. -/
def hasMethod (k : Container) (name method : String) : Bool := (k.method? name method).isSome

/-- A class of the lineage declares the property. -/
def hasProperty (k : Container) (name property : String) : Bool :=
  (k.property? name property).isSome

/-- The type of what the nearest method with a name returns. -/
def methodReturns (k : Container) (name method : String) : Except Error Tag :=
  (k.getMethod name method).map Method.returns

/-- The parameters of the nearest method with a name. -/
def methodParameters (k : Container) (name method : String) : Except Error (List Parameter) :=
  (k.getMethod name method).map Method.parameters

/-- The type of the nearest property with a name. -/
def propertyTag (k : Container) (name property : String) : Except Error Tag :=
  (k.getProperty name property).map Property.tag

/-- There is a method with the name, and the nearest one is private. -/
def isPrivateMethod (k : Container) (name method : String) : Bool :=
  (k.method? name method).any Method.isPrivate

/-- There is a property with the name, and the nearest one is private. -/
def isPrivateProperty (k : Container) (name property : String) : Bool :=
  (k.property? name property).any Property.isPrivate

/-- The names of the methods that a class declares itself, in the order of declaration. -/
def methodNames (k : Container) (name : String) : Except Error (List String) :=
  (k.getClass name).map fun c => c.methods.map Method.name

end Container
end ScriptCore
