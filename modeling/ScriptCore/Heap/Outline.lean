import ScriptCore.Heap.Basic
import ScriptCore.Text.Quoted

/-!
# Structural listings

The complete structure of a value as one line of text: tag, payload and null mark of every
cell, entries nested under their keys.  Nesting is followed as deep as a heap of its size can
be nested; only a value that contains itself is deeper.
-/

namespace ScriptCore
namespace Heap

/-- The structure of a payload, given the structure of its cells. -/
def payloadOutline (cell : CellId → String) : Payload → String
  | .int n => s!"Int({n.toInt})"
  | .double x => s!"Double({x.toFixed 1})"
  | .float x => s!"Float({x.toFixed 1})"
  | .string s => s!"Str({quoted s})"
  | .bool b => s!"Bool({b})"
  | .map m =>
      let entries := m.entries.map fun p => quoted p.1 ++ ": " ++ cell p.2
      "Map(\x7b" ++ ", ".intercalate entries ++ "\x7d)"

/-- The structure of a value, given the structure of its cells. -/
def valueOutline (cell : CellId → String) (v : Value) : String :=
  let data :=
    match v.payload with
    | some p => s!"Some({payloadOutline cell p})"
    | none => "None"
  "Value \x7b ty: " ++ v.tag.label ++ ", data: " ++ data ++ s!", null: {v.nullMark}" ++ " \x7d"

/-- The structure of a cell down to a depth. -/
def outlineTo (h : Heap) : Nat → CellId → String
  | 0, _ => "..."
  | depth + 1, c =>
      "ValuePtr(RefCell \x7b value: " ++ valueOutline (h.outlineTo depth) (h.read c) ++ " \x7d)"

/-- The structure of a cell. -/
def outline (h : Heap) (c : CellId) : String := h.outlineTo (h.size + 1) c

end Heap
end ScriptCore
