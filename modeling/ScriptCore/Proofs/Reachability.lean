import Mathlib.Logic.Relation
import ScriptCore.Heap.Basic

/-!
# Reachable cells

A cell refers to the entries of its map, and it reaches whatever can be found by going from
entry to entry.  Which cells these are depends on the values of the cells on the way and on
nothing else.

**Results.**
* `Closed.has_of_reaches`, `Below.has`: from cells of a closed heap only cells of it are found.
* `sameBelow_of_read`, `Below.congr`: heaps with the same values below some cells have the same
  cells there.
* `reaches_iff_below_children`: a cell reaches itself and what is below its entries.
-/

namespace ScriptCore
namespace Heap

/-- The first cell has the second as an entry. -/
def Refers (h : Heap) (c d : CellId) : Prop := d ∈ (h.read c).children

/-- The second cell is the first, or is found from it by going from entry to entry. -/
def Reaches (h : Heap) : CellId → CellId → Prop := Relation.ReflTransGen h.Refers

/-- The cell is one of the roots, or is found from one of them. -/
def Below (h : Heap) (roots : List CellId) (x : CellId) : Prop := ∃ c ∈ roots, h.Reaches c x

instance (h : Heap) (c d : CellId) : Decidable (h.Refers c d) :=
  inferInstanceAs (Decidable (d ∈ (h.read c).children))

instance (h : Heap) : Decidable h.Closed :=
  decidable_of_iff (∀ c ∈ h.cellIds, ∀ d ∈ (h.read c).children, h.Has d) <| by
    constructor
    · intro hall c d hd
      exact hall c (mem_cellIds.2 (has_of_children_ne_nil (List.ne_nil_of_mem hd))) d hd
    · intro hclosed c _ d hd
      exact hclosed c d hd

variable {h g : Heap} {roots : List CellId} {c x y : CellId}

theorem Closed.has_of_reaches (hclosed : h.Closed) (hc : h.Has c) (hx : h.Reaches c x) :
    h.Has x := by
  induction hx with
  | refl => exact hc
  | tail _ hstep _ => exact hclosed _ _ hstep

/-- The root reaches the same cells in two heaps, and they have the same values. -/
structure SameBelow (root : CellId) (h now : Heap) : Prop where
  reaches : ∀ x, now.Reaches root x ↔ h.Reaches root x
  read : ∀ x, h.Reaches root x → now.read x = h.read x

/-- Cells with the same values refer to the same cells. -/
theorem sameBelow_of_read (hread : ∀ x, h.Reaches c x → g.read x = h.read x) :
    SameBelow c h g := by
  refine ⟨fun x => ⟨fun hx => ?_, fun hx => ?_⟩, hread⟩
  · induction hx with
    | refl => exact .refl
    | tail _ hstep ih =>
        unfold Refers at hstep
        rw [hread _ ih] at hstep
        exact ih.tail hstep
  · induction hx with
    | refl => exact .refl
    | tail hx hstep ih =>
        refine ih.tail ?_
        unfold Refers
        rw [hread _ hx]
        exact hstep

namespace Below

theorem has (hclosed : h.Closed) (hroots : ∀ c ∈ roots, h.Has c) (hx : h.Below roots x) :
    h.Has x := by
  obtain ⟨c, hc, hreach⟩ := hx
  exact hclosed.has_of_reaches (hroots c hc) hreach

theorem root (hc : c ∈ roots) : h.Below roots c := ⟨c, hc, .refl⟩

theorem reaches (hx : h.Below roots x) (hxy : h.Reaches x y) : h.Below roots y := by
  obtain ⟨c, hc, hcx⟩ := hx
  exact ⟨c, hc, hcx.trans hxy⟩

theorem refers (hx : h.Below roots x) (hxy : h.Refers x y) : h.Below roots y :=
  hx.reaches (.single hxy)

theorem singleton_iff : h.Below [c] x ↔ h.Reaches c x := by
  simp [Below]

/-- Heaps with the same values below the roots have the same cells there. -/
theorem congr (hread : ∀ x, h.Below roots x → g.read x = h.read x) :
    g.Below roots x ↔ h.Below roots x := by
  have hsame : ∀ r ∈ roots, SameBelow r h g := fun r hr =>
    sameBelow_of_read fun x hx => hread x ⟨r, hr, hx⟩
  constructor
  · rintro ⟨r, hr, hx⟩
    exact ⟨r, hr, ((hsame r hr).reaches x).1 hx⟩
  · rintro ⟨r, hr, hx⟩
    exact ⟨r, hr, ((hsame r hr).reaches x).2 hx⟩

end Below

/-- A cell reaches itself and what is below its entries. -/
theorem reaches_iff_below_children :
    h.Reaches c x ↔ x = c ∨ h.Below (h.read c).children x := by
  constructor
  · intro hx
    rcases Relation.ReflTransGen.cases_head hx with heq | ⟨d, hd, hdx⟩
    · exact Or.inl heq.symm
    · exact Or.inr ⟨d, hd, hdx⟩
  · rintro (rfl | ⟨d, hd, hdx⟩)
    · exact .refl
    · exact .head hd hdx

end Heap
end ScriptCore
