import ScriptCore.Arena
import ScriptCore.Heap.Sequence

/-!
# Handles as values

A handle is written as an object with three integer entries and is kept in an instance
under the handle key.  Copying the instance copies the three numbers, so the copy names the
same item.
-/

namespace ScriptCore

/-- The key under which an instance keeps its handle. -/
def handleKey : String := "__handle__"

namespace Handle

/-- A word as a script integer. -/
def fieldValue (n : UInt32) : Value := .int (Int64.ofNat n.toNat)

/-- Write a handle as a new object. -/
def toCell (h : Handle) : StateM Heap CellId := do
  let arena ← Heap.alloc (fieldValue h.arena)
  let index ← Heap.alloc (fieldValue h.index)
  let generation ← Heap.alloc (fieldValue h.generation)
  Heap.allocObject [("arena", arena), ("index", index), ("generation", generation)]

/-- The word with a value, if the value fits. -/
def wordOf (n : Int64) : Except Error UInt32 :=
  if 0 ≤ n.toInt ∧ n.toInt < UInt32.size then .ok (UInt32.ofNat n.toInt.toNat)
  else .error (Error.of .staleHandle)

/-- Read one entry of a handle that was written as an object. -/
def readField (heap : Heap) (c : CellId) (key : String) : Except Error UInt32 :=
  match heap.lookup? c key with
  | some d => (heap.read d).get .int >>= wordOf
  | none => .error (Error.of .staleHandle)

/-- Read a handle that was written as an object. -/
def ofCell (heap : Heap) (c : CellId) : Except Error Handle := do
  let arena ← readField heap c "arena"
  let index ← readField heap c "index"
  let generation ← readField heap c "generation"
  return { arena, index, generation }

/-- Keep a handle in an instance. -/
def attach (h : Handle) (c : CellId) : StateM Heap Unit := fun heap =>
  let (d, heap) := h.toCell heap
  ((), heap.setEntry c handleKey d)

/-- The handle that an instance keeps. -/
def attached (heap : Heap) (c : CellId) : Except Error Handle :=
  match heap.lookup? c handleKey with
  | some d => ofCell heap d
  | none => .error (Error.of .staleHandle)

end Handle
end ScriptCore
