import ScriptCore.Heap.Basic

/-!
# Values as text

The text that a script sees when it prints a value.  A class value is shown by the name
under its class key.

**Held cells.**  While one cell is being changed it cannot be read.  Showing that cell, or a
class whose name is in that cell, gives a text that says so.
-/

namespace ScriptCore

/-- The key under which a class value names its class. -/
def classKey : String := "__class__"

/-- Floating-point numbers are shown with this many places. -/
def shownPlaces : Nat := 6

namespace Heap

/-- The text of a class value, by the entry under its class key. -/
def classText (h : Heap) (held : Option CellId) (m : Dict CellId) : String :=
  match m.find? classKey with
  | none => "[Class Object]"
  | some c =>
      if held = some c then "[Invalid Class Object]"
      else
        let v := h.read c
        match v.get .string with
        | .ok name => s!"[Class {name}]"
        | .error _ => if v.tag = .string then "[Invalid Class Object]" else "[Class Object]"

/-- The text of a value while a cell is held. -/
def valueText (h : Heap) (held : Option CellId) (v : Value) : String :=
  if v.isNull then "null"
  else
    match v.payload with
    | none => "null"
    | some (.int n) => toString n.toInt
    | some (.double x) => x.toFixed shownPlaces
    | some (.float x) => x.toFixed shownPlaces
    | some (.string s) => s
    | some (.bool b) => if b then "true" else "false"
    | some (.map m) => if v.tag = .klass then h.classText held m else "[Object]"

/-- The text of a cell while another one, or the same, is held. -/
def textHolding (h : Heap) (held c : CellId) : String :=
  if held = c then "<borrowed>" else h.valueText (some held) (h.read c)

/-- The text of a cell. -/
def text (h : Heap) (c : CellId) : String := h.valueText none (h.read c)

end Heap
end ScriptCore
