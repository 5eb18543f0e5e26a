import ScriptCore.Registry.Member

/-!
# Static properties

The cells of static properties belong to classes.  Reading and writing go to the nearest
class of the lineage that has the property; writing a property that no class has makes it in
the class itself.  Dropping static properties concerns one class only.
-/

namespace ScriptCore
namespace Container

/-- The cell of the nearest static property with a name. -/
def static? (k : Container) (name property : String) : Option CellId :=
  (k.lineage name).findSome? fun c => c.statics.find? (bareName property)

/-- The cell of the nearest static property with a name, or a refusal. -/
def getStatic (k : Container) (name property : String) : Except Error CellId :=
  match k.static? name property with
  | some cell => .ok cell
  | none => .error (k.missingProperty name property)

/-- A class of the lineage has the static property. -/
def hasStatic (k : Container) (name property : String) : Bool :=
  (k.lineage name).any fun c => c.statics.contains (bareName property)

/-- The nearest class that has a static property, or the class itself if none has. -/
def staticOwner (k : Container) (name property : String) : String :=
  match (k.lineage name).find? fun c => c.statics.contains (bareName property) with
  | some c => c.name
  | none => name

/-- Put a cell into the nearest static property with a name, which is made if need be. -/
def setStatic (name property : String) (cell : CellId) : Action Container Unit := fun k =>
  updateClass (k.staticOwner name property) (·.setStatic property cell) k

/-- Drop a static property of a class. -/
def eraseStatic (name property : String) : Action Container Unit :=
  updateClass name fun c => { c with statics := c.statics.erase (bareName property) }

/-- Drop every static property of a class. -/
def clearStatics (name : String) : Action Container Unit :=
  updateClass name fun c => { c with statics := .empty }

end Container
end ScriptCore
