import ScriptCore.Heap.Sequence
import ScriptCore.Registry.Function
import ScriptCore.Registry.Lineage
import ScriptCore.Registry.Module

/-!
# Reports

Descriptions of modules, functions and classes as objects that scripts can read.  Everything
in a report is in new cells, except that the report on a class shows the cells of its static
properties themselves.  A report on something unknown is an empty object.
-/

namespace ScriptCore
namespace Report

/-- A new cell with a text. -/
def text (s : String) : StateM Heap CellId := Heap.alloc (.string s)

/-- A new cell with a boolean. -/
def flag (b : Bool) : StateM Heap CellId := Heap.alloc (.bool b)

/-- A new cell with a text, or with null if there is none. -/
def optionalText : Option String → StateM Heap CellId
  | some s => text s
  | none => Heap.alloc .null

/-- A list of reports. -/
def list {α : Type} (report : α → StateM Heap CellId) (items : List α) :
    StateM Heap CellId := do
  Heap.allocList (← items.mapM report)

/-- An empty object. -/
def nothing : StateM Heap CellId := Heap.alloc (.object .empty)

/-- Report on a parameter. -/
def ofParameter (p : Parameter) : StateM Heap CellId := do
  Heap.allocObject [
    ("name", ← text p.name),
    ("type", ← text p.tag.name),
    ("description", ← text p.description),
    ("optional", ← flag p.optional),
    ("interpolate", ← flag p.interpolate)]

/-- The entries that describe a function or a method. -/
def docEntries (d : Doc) : StateM Heap (List (String × CellId)) := do
  return [
    ("name", ← text d.name),
    ("return_type", ← text d.returns.name),
    ("description", ← text d.description),
    ("parameters", ← list ofParameter d.parameters)]

/-- Report on a property. -/
def ofProperty (p : Property) : StateM Heap CellId := do
  Heap.allocObject [
    ("name", ← text p.name),
    ("type", ← text p.tag.name),
    ("private", ← flag p.isPrivate),
    ("static", ← flag p.isStatic)]

/-- Report on a method. -/
def ofMethod (m : Method) : StateM Heap CellId := do
  let entries ← docEntries m.doc
  Heap.allocObject (entries ++ [
    ("private", ← flag m.isPrivate),
    ("native", ← flag m.isNative)])

/-- Report on a module. -/
def ofModule (k : Container) (name : String) : StateM Heap CellId := do
  match k.moduleDescription? name with
  | none => nothing
  | some description =>
      let classes := (k.classes.filter fun _ c => c.origin == some name).keys
      Heap.allocObject [
        ("name", ← text name),
        ("description", ← text description),
        ("classes", ← list text classes),
        ("functions", ← list text (k.functionNamesOf name)),
        ("variables", ← nothing)]

/-- Report on a function, or on a method under its qualified name. -/
def ofFunction (k : Container) (name : String) : StateM Heap CellId := do
  match k.doc? name with
  | none => nothing
  | some doc =>
      let entries ← docEntries doc
      Heap.allocObject (entries ++ [("module", ← optionalText (k.functionOrigin? name))])

/-- Report on a class. -/
def ofClass (k : Container) (name : String) : StateM Heap CellId := do
  match k.class? name with
  | none => nothing
  | some c =>
      Heap.allocObject [
        ("name", ← text c.name),
        ("parent", ← optionalText c.parent),
        ("module", ← optionalText c.origin),
        ("properties", ← list ofProperty c.properties),
        ("methods", ← list ofMethod c.methods),
        ("static_properties", ← Heap.alloc (.object c.statics))]

/-- Report on every module. -/
def modules (k : Container) : StateM Heap CellId := list (ofModule k) k.moduleNames

/-- The names of all functions. -/
def functions (k : Container) : StateM Heap CellId := list text k.functionNames

/-- The names of all classes. -/
def classes (k : Container) : StateM Heap CellId := list text k.classNames

end Report
end ScriptCore
