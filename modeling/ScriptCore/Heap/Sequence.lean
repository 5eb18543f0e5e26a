import ScriptCore.Heap.Basic

/-!
# Lists as objects

A list is an object whose keys are the positions `0`, `1`, `2` and so on.  Reading goes by
the number that a key denotes: keys that denote no position are passed over, and keys that
denote the same position keep the order of the map.
-/

namespace ScriptCore

/-- The position that a key denotes: a natural numeral below `2 ^ 64`. -/
def position? (key : String) : Option Nat :=
  (Integer.readNat? key).filter (· < UInt64.size)

namespace Dict

/-- The entries of a list-shaped map, in the order of their positions. -/
def items {α : Type} (m : Dict α) : List α :=
  let positioned := m.entries.filterMap fun p => (position? p.1).map fun i => (i, p.2)
  (positioned.mergeSort fun p q => p.1 ≤ q.1).map Prod.snd

/-- The map of a list. -/
def ofItems {α : Type} (items : List α) : Dict α :=
  ofList (items.zipIdx.map fun p => (toString p.2, p.1))

end Dict

namespace Heap

/-- An object that lists the given cells. -/
def allocList (items : List CellId) : StateM Heap CellId :=
  alloc (.object (Dict.ofItems items))

/-- An object with the given entries; of several entries under one key the last stays. -/
def allocObject (pairs : List (String × CellId)) : StateM Heap CellId :=
  alloc (.object (Dict.ofList pairs))

/-- The cells that a list-shaped object or class lists. -/
def listItems (h : Heap) (c : CellId) : Except Error (List CellId) :=
  (h.read c).map.map Dict.items

end Heap
end ScriptCore
