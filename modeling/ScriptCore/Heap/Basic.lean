import ScriptCore.Value.Basic

/-!
# Heaps of cells

A heap is a growing sequence of cells, each with its current value.  A cell is named by its
position and is never freed, so two names alias exactly when they are equal.  A name outside
the heap reads as null and cannot be written.

**Views.**  `read` is the contents of a heap.  The lemmas below say what `write` and `alloc`
do to it; `Heap.Closed` says that every cell referred to is in the heap.
-/

namespace ScriptCore

/-- The cells and their values. -/
structure Heap where
  cells : Array Value
  deriving DecidableEq, Repr, Inhabited

namespace Heap

/-- The heap without cells. -/
def empty : Heap := ⟨#[]⟩

/-- The number of cells. -/
def size (h : Heap) : Nat := h.cells.size

/-- The cell is in the heap. -/
def Has (h : Heap) (c : CellId) : Prop := c.index < h.size

instance (h : Heap) (c : CellId) : Decidable (h.Has c) :=
  inferInstanceAs (Decidable (c.index < h.size))

/-- The value in a cell. -/
def read (h : Heap) (c : CellId) : Value := h.cells.getD c.index Value.null

/-- Every cell that a cell refers to is in the heap. -/
def Closed (h : Heap) : Prop := ∀ c, ∀ d ∈ (h.read c).children, h.Has d

/-- Replace the value in a cell. -/
def write (h : Heap) (c : CellId) (v : Value) : Heap :=
  ⟨h.cells.setIfInBounds c.index v⟩

/-- The cell that the next allocation makes. -/
def next (h : Heap) : CellId := ⟨h.size⟩

/-- Make a new cell. -/
def alloc (v : Value) : StateM Heap CellId := fun h => (h.next, ⟨h.cells.push v⟩)

/-- Change the value in a cell. -/
def modify (h : Heap) (c : CellId) (f : Value → Value) : Heap :=
  h.write c (f (h.read c))

/-- Change the value in a cell by an operation that may be refused. -/
def update (c : CellId) (f : Value → Except Error Value) : Action Heap Unit := fun h =>
  match f (h.read c) with
  | .ok v => (.ok (), h.write c v)
  | .error e => (.error e, h)

/-- The entry of a cell's map under a key. -/
def lookup? (h : Heap) (c : CellId) (key : String) : Option CellId :=
  (h.read c).lookup? key

/-- Set an entry of a cell's map; a cell without a map becomes an object first. -/
def setEntry (h : Heap) (c : CellId) (key : String) (d : CellId) : Heap :=
  h.modify c (·.insert key d)

/-- Drop an entry of a cell's map. -/
def eraseEntry (h : Heap) (c : CellId) (key : String) : Heap :=
  h.modify c (·.erase key)

/-- The cells in the order of their positions. -/
def cellIds (h : Heap) : List CellId := (List.range h.size).map CellId.mk

@[simp] theorem mem_cellIds {h : Heap} {c : CellId} : c ∈ h.cellIds ↔ h.Has c := by
  cases c
  simp [cellIds, Has]

theorem read_of_not_has {h : Heap} {c : CellId} (hc : ¬ h.Has c) : h.read c = Value.null := by
  have hc' : ¬ c.index < h.cells.size := hc
  simp [read, hc']

/-- Outside the heap nothing is referred to. -/
theorem has_of_children_ne_nil {h : Heap} {c : CellId} (hc : (h.read c).children ≠ []) :
    h.Has c := by
  by_cases hh : h.Has c
  · exact hh
  · rw [read_of_not_has hh] at hc
    exact absurd rfl hc

@[simp] theorem size_write (h : Heap) (c : CellId) (v : Value) :
    (h.write c v).size = h.size := by
  simp [write, size]

theorem has_write {h : Heap} {c d : CellId} {v : Value} : (h.write c v).Has d ↔ h.Has d := by
  unfold Has
  rw [size_write]

/-- A write changes the cell written and no other. -/
theorem read_write (h : Heap) (c d : CellId) (v : Value) :
    (h.write c v).read d = if d = c ∧ h.Has c then v else h.read d := by
  cases c with
  | mk i =>
    cases d with
    | mk j =>
      simp only [read, write, Has, size, CellId.mk.injEq, Array.getD_eq_getD_getElem?,
        Array.getElem?_setIfInBounds]
      by_cases hij : j = i
      · subst hij
        by_cases hlt : j < h.cells.size <;> simp [hlt]
      · have hji : i ≠ j := fun e => hij e.symm
        simp [hij, hji]

/-- A new cell has its value, and the cells before it are as they were. -/
theorem read_alloc (h : Heap) (v : Value) (d : CellId) :
    ((alloc v).run h).2.read d = if d = h.next then v else h.read d := by
  cases d with
  | mk j =>
    simp only [alloc, StateT.run, read, next, size, CellId.mk.injEq,
      Array.getD_eq_getD_getElem?, Array.getElem?_push]
    by_cases hj : j = h.cells.size <;> simp [hj]

end Heap
end ScriptCore
