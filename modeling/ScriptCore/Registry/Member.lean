import ScriptCore.Registry.Function
import ScriptCore.Registry.Lineage

/-!
# Declaring members

A class takes a property or a method unless it declares one of that name already; what its
ancestors declare does not matter.  Members keep the order of their declarations.
-/

namespace ScriptCore

namespace Class

/-- The class with one more property. -/
def declareProperty (c : Class) (p : Property) : Class :=
  { c with properties := c.properties ++ [p] }

/-- The class with one more method. -/
def declareMethod (c : Class) (m : Method) : Class :=
  { c with methods := c.methods ++ [m] }

/-- The class with a cell in the static property of a name. -/
def setStatic (c : Class) (property : String) (cell : CellId) : Class :=
  { c with statics := c.statics.insert (bareName property) cell }

end Class

namespace Container

/-- Put a class under its owner's name. -/
def putClass (k : Container) (name : String) (c : Class) : Container :=
  { k with classes := k.classes.insert name c }

/-- Declare a method and document it under its qualified name. -/
def addMethod (owner : String) (m : Method) : Action Container Unit := fun k =>
  match k.classes.find? owner with
  | none => (.error (Error.of (.unknownClass owner)), k)
  | some c =>
      if (c.method? m.name).isSome then
        (.error (Error.of (.duplicateMember owner m.name)), k)
      else
        let m := m.ownedBy owner
        (.ok (), (k.putClass owner (c.declareMethod m)).registerDoc m.qualified m.doc)

end Container

namespace Engine

/-- Declare a property.  A static property gets its first cell at once. -/
def addProperty (owner : String) (p : Property) : Action Engine Unit := fun e =>
  let k := e.container
  match k.classes.find? owner with
  | none => (.error (Error.of (.unknownClass owner)), e)
  | some c =>
      if (c.property? p.name).isSome then
        (.error (Error.of (.duplicateMember owner p.name)), e)
      else if p.isStatic then
        let (cell, heap) := p.initialCell e.store.heap
        let declared := (c.declareProperty p).setStatic p.name cell
        (.ok (),
          { store := { e.store with heap }, container := k.putClass owner declared })
      else (.ok (), { e with container := k.putClass owner (c.declareProperty p) })

end Engine
end ScriptCore
