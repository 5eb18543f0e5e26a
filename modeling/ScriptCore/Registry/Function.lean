import ScriptCore.Container

/-!
# Functions and their documentation

Registering a function again replaces its body and the module it is attributed to; the
documentation that is already there stays.  Methods are documented in the same registry
under their qualified names.
-/

namespace ScriptCore
namespace Container

/-- Register a function under the module that is being registered. -/
def registerFunction (k : Container) (name : String) (native : Native) (returns : Tag) :
    Container :=
  let docs := if k.docs.contains name then k.docs else k.docs.insert name (Doc.plain name returns)
  { k with functions := k.functions.insert name ⟨native, k.currentModule⟩, docs }

/-- Document a function, in place of earlier documentation. -/
def registerDoc (k : Container) (key : String) (doc : Doc) : Container :=
  { k with docs := k.docs.insert key doc }

def hasFunction (k : Container) (name : String) : Bool := k.functions.contains name

def doc? (k : Container) (name : String) : Option Doc := k.docs.find? name

/-- The documented return type. -/
def returnTag (k : Container) (name : String) : Tag :=
  match k.doc? name with
  | some doc => doc.returns
  | none => .null

/-- The module that a function is attributed to. -/
def functionOrigin? (k : Container) (name : String) : Option String :=
  (k.functions.find? name).bind FunctionEntry.origin

def functionNames (k : Container) : List String := k.functions.keys

/-- The functions attributed to a module, in increasing order. -/
def functionNamesOf (k : Container) (origin : String) : List String :=
  (k.functions.filter fun _ f => f.origin == some origin).keys

end Container
end ScriptCore
