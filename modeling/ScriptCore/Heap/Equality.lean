import ScriptCore.Heap.Basic
import ScriptCore.Heap.Marking
import Std.Data.HashSet

/-!
# Equality of values

Two cells are equal when they are the same cell, or when their values have the same tag,
agree on being null and, if they are not null, hold equal data; maps are equal when they
have the same keys and equal entries.  A pair of cells that is already under comparison
counts as equal, so values that contain themselves can be compared.

**Method.**  `matching` compares two values down to their entries and answers with the pairs
of entries still to be compared.  `settle` works through a list of such pairs and remembers
the ones it has opened.

**Termination.**  Only two maps leave pairs behind, and a cell with a map is in the heap; so
each pair that adds to the list is a pair of cells of the heap that was not opened before.
-/

namespace ScriptCore

namespace Payload

/-- The pairs of entries that have to be equal for two payloads to be equal, if the
payloads agree in all else. -/
def matching : Payload → Payload → Option (List (CellId × CellId))
  | int m, int n => if m = n then some [] else none
  | double x, double y => if x.equal y then some [] else none
  | float x, float y => if x.equal y then some [] else none
  | string s, string t => if s = t then some [] else none
  | bool b, bool c => if b = c then some [] else none
  | map m, map n => if m.keys = n.keys then some (m.values.zip n.values) else none
  | _, _ => none

theorem matching_of_children_eq_nil {p q : Payload} {pairs : List (CellId × CellId)}
    (h : matching p q = some pairs) (hp : p.children = [] ∨ q.children = []) : pairs = [] := by
  cases p <;> cases q <;> simp_all [matching, children]
  case map.map m n =>
    rcases hp with hp | hp <;> simp [← h.2, hp]

end Payload

namespace Value

/-- The pairs of entries that have to be equal for two values to be equal, if the values
agree in all else. -/
def matching (v w : Value) : Option (List (CellId × CellId)) :=
  if v.tag = w.tag ∧ v.isNull = w.isNull then
    if v.isNull then some []
    else
      match v.payload, w.payload with
      | some p, some q => p.matching q
      | none, none => some []
      | _, _ => none
  else none

theorem matching_of_children_eq_nil {v w : Value} {pairs : List (CellId × CellId)}
    (h : matching v w = some pairs) (hv : v.children = [] ∨ w.children = []) : pairs = [] := by
  unfold matching at h
  split at h
  · split at h
    · simpa using h.symm
    · split at h
      · rename_i p q hp hq
        simp only [children, hp, hq] at hv
        exact Payload.matching_of_children_eq_nil h hv
      · simpa using h.symm
      · simp at h
  · simp at h

end Value

namespace Heap

/-- The pairs of cells of a heap. -/
def cellPairs (h : Heap) : List (CellId × CellId) :=
  h.cellIds.flatMap fun c => h.cellIds.map fun d => (c, d)

theorem mem_cellPairs {h : Heap} {p : CellId × CellId} :
    p ∈ h.cellPairs ↔ h.Has p.1 ∧ h.Has p.2 := by
  cases p
  simp [cellPairs]

/-- Compare the pairs of a list, and all pairs that they lead to.  A pair that was opened
before is not opened again. -/
def settle (h : Heap) (opened : Std.HashSet (CellId × CellId)) :
    List (CellId × CellId) → Bool
  | [] => true
  | (c, d) :: work =>
      if c = d ∨ opened.contains (c, d) then settle h opened work
      else
        match _ : (h.read c).matching (h.read d) with
        | none => false
        | some pairs => settle h (opened.insert (c, d)) (pairs ++ work)
  termination_by work => (unmarked h.cellPairs opened.contains, work.length)
  decreasing_by
    · exact Prod.Lex.right _ (Nat.lt_succ_self _)
    · rename_i hseen hm
      have hnot : opened.contains (c, d) = false := by
        simpa using fun hcontra => hseen (Or.inr hcontra)
      have hmore : ∀ p, opened.contains p = true → (opened.insert (c, d)).contains p = true := by
        intro p hp
        rw [Std.HashSet.contains_insert, hp, Bool.or_true]
      by_cases hh : h.Has c ∧ h.Has d
      · exact Prod.Lex.left _ _
          (unmarked_lt hmore hnot Std.HashSet.contains_insert_self (mem_cellPairs.2 hh))
      · have hnil : pairs = [] := by
          refine Value.matching_of_children_eq_nil hm ?_
          rcases Classical.not_and_iff_not_or_not.1 hh with hc | hd
          · exact Or.inl (by rw [read_of_not_has hc]; rfl)
          · exact Or.inr (by rw [read_of_not_has hd]; rfl)
        rw [hnil, List.nil_append]
        rcases Nat.lt_or_eq_of_le (unmarked_le hmore h.cellPairs) with hlt | heq
        · exact Prod.Lex.left _ _ hlt
        · rw [heq]
          exact Prod.Lex.right _ (Nat.lt_succ_self _)

/-- The cells hold equal values. -/
def equal (h : Heap) (c d : CellId) : Bool := h.settle ∅ [(c, d)]

/-- Values that agree down to their entries have equal entries. -/
def settleMatching (h : Heap) : Option (List (CellId × CellId)) → Bool
  | some pairs => h.settle ∅ pairs
  | none => false

/-- The values are equal. -/
def equalValues (h : Heap) (v w : Value) : Bool := h.settleMatching (v.matching w)

/-- Both payloads are missing, or they are equal. -/
def equalPayloads (h : Heap) : Option Payload → Option Payload → Bool
  | some p, some q => h.settleMatching (p.matching q)
  | none, none => true
  | _, _ => false

end Heap
end ScriptCore
