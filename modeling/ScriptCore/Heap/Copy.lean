import ScriptCore.Heap.Basic
import ScriptCore.Heap.Marking
import Std.Data.HashMap

/-!
# Copies

A copy goes through the cells depth first and remembers the copy of each cell that it has
met.  A cell that is met for the first time gets a new cell as its copy, which is null until
the entries of the original have been copied and is filled then.  A cell that is met again
has its copy already, filled or not.  So what is shared is copied once, and a cell that
contains itself is copied to one that contains itself.

**Stages.**  `Copying` is a copy that is being made.  `Copying.cell`, `Copying.value` and
`Copying.entries` carry it on by the copy of a cell, of a value and of the entries of a map.

**Termination.**  The originals are the cells that were there when the copy began, those with
an index below `bound`; each of them is met once.  An entry is copied from the state that the
entry before it leaves behind, so a stage also says that there are no more unmet originals
after it than before.  A name outside the heap is no original, even if a cell is made there
meanwhile: it is copied as the null that it was read as.

**Three copies.**  `copy` starts at a cell.  `copyMap` and `copyValue` start at the entries of
a map or of a value; a cell that contains itself is then met as an entry, and its copy stands
beside the value that is being copied.  `copyMapOf` and `copyContents` apply these two to what
is in a cell.
-/

namespace ScriptCore

/-- A copy that is being made: the heap, and where the copies are of the cells met so far. -/
structure Copying where
  heap : Heap
  copies : Std.HashMap CellId CellId

namespace Copying

/-- No cell has been met. -/
def start (h : Heap) : Copying := ⟨h, ∅⟩

/-- Meet a cell: its copy is the next cell of the heap, null for now. -/
def meet (c : CellId) (s : Copying) : Copying :=
  let made := Heap.alloc .null s.heap
  ⟨made.2, s.copies.insert c made.1⟩

/-- Fill a copy. -/
def fill (d : CellId) (v : Value) (s : Copying) : Copying :=
  { s with heap := s.heap.write d v }

/-- The number of originals that have not been met. -/
def unmet (bound : Nat) (s : Copying) : Nat :=
  unmarked ((List.range bound).map CellId.mk) s.copies.contains

theorem unmet_meet_le (bound : Nat) (c : CellId) (s : Copying) :
    (s.meet c).unmet bound ≤ s.unmet bound :=
  unmarked_le (fun k hk => by simp_all [meet]) _

theorem unmet_meet_lt {bound : Nat} {c : CellId} {s : Copying} (hc : c.index < bound)
    (hnew : c ∉ s.copies) : (s.meet c).unmet bound < s.unmet bound := by
  refine unmarked_lt (k := c) (fun k hk => by simp_all [meet]) ?_ (by simp [meet]) ?_
  · simpa using hnew
  · exact List.mem_map.2 ⟨c.index, List.mem_range.2 hc, rfl⟩

/-- What a stage leads to: a result, and a state with no more unmet originals. -/
abbrev Stage (bound : Nat) (α : Type) (s : Copying) : Type :=
  { r : α × Copying // r.2.unmet bound ≤ s.unmet bound }

mutual

/-- The copy of a cell. -/
def cell (bound : Nat) (c : CellId) (s : Copying) : Stage bound CellId s :=
  if hc : c ∈ s.copies then ⟨(s.copies[c], s), Nat.le_refl _⟩
  else
    let d := s.heap.next
    let met := s.meet c
    if hlt : c.index < bound then
      let ⟨(v, t), ht⟩ := value bound (met.heap.read c) met
      ⟨(d, t.fill d v), Nat.le_trans ht (unmet_meet_le bound c s)⟩
    -- Nothing is there to be copied, and the new cell is null already.
    else ⟨(d, met), unmet_meet_le bound c s⟩
  termination_by (s.unmet bound, 0)
  decreasing_by exact Prod.Lex.left _ _ (unmet_meet_lt hlt hc)

/-- A value that refers to the copies of what the value refers to. -/
def value (bound : Nat) (v : Value) (s : Copying) : Stage bound Value s :=
  match v with
  | ⟨tag, some (.map m), mark⟩ =>
      let ⟨(n, t), ht⟩ := entries bound m.entries s
      ⟨(⟨tag, some (.map n), mark⟩, t), ht⟩
  | v => ⟨(v, s), Nat.le_refl _⟩
  termination_by (s.unmet bound, v.children.length + 2)
  decreasing_by
    refine Prod.Lex.right _ ?_
    simp [Value.children, Payload.children, Dict.values]

/-- The entries in order, each replaced by its copy. -/
def entries (bound : Nat) (l : List (String × CellId)) (s : Copying) :
    Stage bound (Dict CellId) s :=
  match l with
  | [] => ⟨(.empty, s), Nat.le_refl _⟩
  | (key, c) :: rest =>
      let ⟨(d, t), ht⟩ := cell bound c s
      let ⟨(n, u), hu⟩ := entries bound rest t
      ⟨(n.insert key d, u), Nat.le_trans hu ht⟩
  termination_by (s.unmet bound, l.length + 1)
  decreasing_by
    · exact Prod.Lex.right _ (Nat.succ_pos _)
    · rcases Nat.lt_or_eq_of_le ht with hlt | heq
      · exact Prod.Lex.left _ _ hlt
      · exact heq ▸ Prod.Lex.right _ (Nat.lt_succ_self _)

end

/-- A stage as a copy of its own. -/
def alone {α : Type} (stage : (bound : Nat) → (s : Copying) → Stage bound α s) :
    StateM Heap α := fun h =>
  let made := (stage h.size (start h)).1
  (made.1, made.2.heap)

end Copying

namespace Heap

/-- A cell that shares nothing with the old one and has the same shape. -/
def copy (c : CellId) : StateM Heap CellId := Copying.alone fun bound => Copying.cell bound c

/-- A value that refers to copies of what the given value refers to. -/
def copyValue (v : Value) : StateM Heap Value := Copying.alone fun bound => Copying.value bound v

/-- A map whose entries are copies. -/
def copyMap (m : Dict CellId) : StateM Heap (Dict CellId) :=
  Copying.alone fun bound => Copying.entries bound m.entries

/-- A new cell with a copy of the value in a cell. -/
def copyContents (c : CellId) : StateM Heap CellId := fun h =>
  let (v, h) := copyValue (h.read c) h
  alloc v h

/-- A copy of the map of an object or a class. -/
def copyMapOf (c : CellId) : Action Heap (Dict CellId) := fun h =>
  match (h.read c).map with
  | .ok m =>
      let (n, h) := copyMap m h
      (.ok n, h)
  | .error e => (.error e, h)

/-- A copy of an object, made a class. -/
def copyAsClass (c : CellId) : Action Heap CellId := fun h =>
  let tag := (h.read c).tag
  if tag = .object then
    let (d, h) := copy c h
    (.ok d, h.modify d Value.asClass)
  else (.error (Error.of (.typeMismatch .object tag)), h)

end Heap
end ScriptCore
