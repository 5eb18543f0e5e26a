import Mathlib.Data.Set.Function
import ScriptCore.Proofs.CopyStages

/-!
# Copies are isomorphic

When a copy is done nothing is pending any more.  Then every cell met has a copy with its value,
and the entries of a cell met have been met; so all that the roots reach has been met, and
sending a cell to its copy is a one-to-one renaming of the graph below the roots.

**Method.**  `CopiesBelow` collects what every copying operation provides, for any list of
roots; `copiesBelow_of_builds` derives it from what the stages of a copy do.  Whatever holds
of a copied graph is derived from `CopiesBelow` alone: sharing and cycles need no case of their
own, because nothing below looks at the shape of the graph.

**Results.**
* `copy_copiesBelow`, `copyValue_copiesBelow`, `copyMap_copiesBelow`: what the three copies
  provide.
* `CopiesBelow.reaches_iff`: the copy of a root reaches exactly the copies.
* `copy_isomorphic`: a copied cell is the root of an isomorphic graph of new cells, and the
  cells that were there before keep their values.
-/

namespace ScriptCore

namespace Value

/-- The second value is the first one with `f` applied to its entries: tag, null mark and
data that is not a map are the same, and a map has the same keys. -/
structure CopiedBy (f : CellId → CellId) (v w : Value) : Prop where
  tag : w.tag = v.tag
  nullMark : w.nullMark = v.nullMark
  bare : v.payload = none → w.payload = none
  scalar : ∀ p, v.payload = some p → p.kind ≠ .map → w.payload = some p
  entries : ∀ m, v.payload = some (.map m) →
    ∃ n, w.payload = some (.map n) ∧ ∀ key, n.find? key = (m.find? key).map f

theorem copiedBy_rename (f : CellId → CellId) (v : Value) : CopiedBy f v (v.rename f) where
  tag := rfl
  nullMark := rfl
  bare := by
    intro hv
    simp [rename, hv]
  scalar := by
    intro p hp hkind
    cases p with
    | map m => exact absurd rfl hkind
    | _ => simp [rename, hp, Payload.rename]
  entries := by
    intro m hm
    refine ⟨m.map f, ?_, fun key => Dict.find?_map f m key⟩
    simp [rename, hm, Payload.rename]

@[simp] theorem children_rename (f : CellId → CellId) (v : Value) :
    (v.rename f).children = v.children.map f := by
  unfold children rename
  cases hp : v.payload with
  | none => rfl
  | some p =>
      cases p with
      | map m => exact Dict.values_map f m
      | _ => rfl

end Value

namespace Heap

/-- One heap has copies of all that the roots reach in another one: `f` says where the copies
are, the copies are the new cells, they refer to copies under the old keys, and old cells are
as they were. -/
structure CopiesBelow (h h' : Heap) (roots : List CellId) (f : CellId → CellId) : Prop where
  kept : ∀ d, h.Has d → h'.Has d ∧ h'.read d = h.read d
  fresh : ∀ r ∈ roots, ∀ x, h.Reaches r x → ¬ h.Has (f x) ∧ h'.Has (f x)
  only : ∀ y, h'.Has y → ¬ h.Has y → ∃ r ∈ roots, ∃ x, h.Reaches r x ∧ f x = y
  inj : ∀ r ∈ roots, ∀ x, h.Reaches r x → ∀ s ∈ roots, ∀ y, h.Reaches s y → f x = f y → x = y
  read : ∀ r ∈ roots, ∀ x, h.Reaches r x → h'.read (f x) = (h.read x).rename f

/-- Nothing is pending at the end of a copy.  So all that is below the roots has been met and
filled. -/
theorem copiesBelow_of_builds {h : Heap} {roots : List CellId} {t : Copying} {result : Prop}
    (hbuilds : Copying.Builds h roots (.start h) t result) :
    CopiesBelow h t.heap roots t.copyOf ∧ result := by
  obtain ⟨ht, hcontinues, hresult⟩ := hbuilds _ (.start h)
  have hmet : ∀ r ∈ roots, ∀ x, h.Reaches r x → x ∈ t.copies := by
    intro r hr x hx
    induction hx with
    | refl => exact hcontinues.met r hr
    | tail _ hstep ih => exact (ht.filled _ ih id).1 _ hstep
  refine ⟨⟨ht.kept, fun r hr x hx => ht.fresh x (hmet r hr x hx), fun y hy hnew => ?_,
    fun r hr x hx s hs y hy => ht.inj x (hmet r hr x hx) y (hmet s hs y hy),
    fun r hr x hx => (ht.filled x (hmet r hr x hx) id).2⟩, hresult⟩
  obtain ⟨x, hx, rfl⟩ := ht.only y hy hnew
  rcases hcontinues.below x hx with hstart | ⟨r, hr, hrx⟩
  · simp [Copying.start] at hstart
  · exact ⟨r, hr, x, hrx, rfl⟩

theorem copy_copiesBelow (h : Heap) (c : CellId) :
    ∃ f, CopiesBelow h (copy c h).2 [c] f ∧ f c = (copy c h).1 :=
  ⟨_, copiesBelow_of_builds ((Copying.stages_build h).1 c _)⟩

theorem copy_kept (h : Heap) (c : CellId) {d : CellId} (hd : h.Has d) :
    (copy c h).2.Has d ∧ (copy c h).2.read d = h.read d := by
  obtain ⟨f, hcopy, -⟩ := copy_copiesBelow h c
  exact hcopy.kept d hd

theorem copy_fresh (h : Heap) (c : CellId) :
    ¬ h.Has (copy c h).1 ∧ (copy c h).2.Has (copy c h).1 := by
  obtain ⟨f, hcopy, hroot⟩ := copy_copiesBelow h c
  rw [← hroot]
  exact hcopy.fresh c (List.mem_singleton_self c) c .refl

theorem copyValue_copiesBelow (h : Heap) (v : Value) :
    ∃ f, CopiesBelow h (copyValue v h).2 v.children f ∧ (copyValue v h).1 = v.rename f :=
  ⟨_, copiesBelow_of_builds ((Copying.stages_build h).2.1 v _)⟩

theorem copyMap_copiesBelow (h : Heap) (m : Dict CellId) :
    ∃ f, CopiesBelow h (copyMap m h).2 m.values f ∧ (copyMap m h).1 = m.map f := by
  obtain ⟨hcopy, hfind⟩ := copiesBelow_of_builds ((Copying.stages_build h).2.2 m.entries _)
  refine ⟨_, hcopy, Dict.ext_find? fun key => ?_⟩
  rw [Dict.find?_map]
  exact hfind key

namespace CopiesBelow

variable {h h' : Heap} {roots : List CellId} {f : CellId → CellId} {r : CellId}

theorem refers_iff (hcopy : CopiesBelow h h' roots f) (hr : r ∈ roots) {x y : CellId}
    (hx : h.Reaches r x) : h'.Refers (f x) y ↔ ∃ z, h.Refers x z ∧ f z = y := by
  unfold Refers
  rw [hcopy.read r hr x hx, Value.children_rename, List.mem_map]

/-- The copy of a root reaches the copies of what the root reaches and nothing else. -/
theorem reaches_iff (hcopy : CopiesBelow h h' roots f) (hr : r ∈ roots) {y : CellId} :
    h'.Reaches (f r) y ↔ ∃ x, h.Reaches r x ∧ f x = y := by
  constructor
  · intro hy
    induction hy with
    | refl => exact ⟨r, Relation.ReflTransGen.refl, rfl⟩
    | tail _ hstep ih =>
        obtain ⟨x, hx, rfl⟩ := ih
        obtain ⟨z, hz, rfl⟩ := (hcopy.refers_iff hr hx).1 hstep
        exact ⟨z, hx.tail hz, rfl⟩
  · rintro ⟨x, hx, rfl⟩
    induction hx with
    | refl => exact Relation.ReflTransGen.refl
    | tail hx hstep ih => exact ih.tail ((hcopy.refers_iff hr hx).2 ⟨_, hstep, rfl⟩)

theorem bijOn (hcopy : CopiesBelow h h' roots f) (hr : r ∈ roots) :
    Set.BijOn f {x | h.Reaches r x} {y | h'.Reaches (f r) y} := by
  refine ⟨?_, ?_, ?_⟩
  · intro x hx
    exact (hcopy.reaches_iff hr).2 ⟨x, hx, rfl⟩
  · intro x hx y hy
    exact hcopy.inj r hr x hx r hr y hy
  · intro y hy
    exact (hcopy.reaches_iff hr).1 hy

end CopiesBelow

/-- A copied cell is the root of a graph of new cells that is isomorphic to the graph below
the original, whatever is shared and whatever cycles there are.  No other cell is made, and no
old cell changes. -/
theorem copy_isomorphic (h : Heap) (c : CellId) :
    ∃ f : CellId → CellId,
      f c = (copy c h).1 ∧
      Set.BijOn f {x | h.Reaches c x} {y | (copy c h).2.Reaches (copy c h).1 y} ∧
      (∀ x, h.Reaches c x →
        ¬ h.Has (f x) ∧ (copy c h).2.Has (f x) ∧
          Value.CopiedBy f (h.read x) ((copy c h).2.read (f x))) ∧
      (∀ y, (copy c h).2.Has y → h.Has y ∨ (copy c h).2.Reaches (copy c h).1 y) ∧
      ∀ d, h.Has d → (copy c h).2.Has d ∧ (copy c h).2.read d = h.read d := by
  obtain ⟨f, hcopy, hroot⟩ := copy_copiesBelow h c
  have hc : c ∈ [c] := List.mem_singleton_self c
  refine ⟨f, hroot, hroot ▸ hcopy.bijOn hc, ?_, ?_, hcopy.kept⟩
  · intro x hx
    obtain ⟨hnew, hhas⟩ := hcopy.fresh c hc x hx
    refine ⟨hnew, hhas, ?_⟩
    rw [hcopy.read c hc x hx]
    exact Value.copiedBy_rename _ _
  · intro y hy
    by_cases hold : h.Has y
    · exact Or.inl hold
    · obtain ⟨r, hr, x, hx, rfl⟩ := hcopy.only y hy hold
      obtain rfl : r = c := List.mem_singleton.1 hr
      exact Or.inr (hroot ▸ (hcopy.reaches_iff hc).2 ⟨x, hx, rfl⟩)

end Heap
end ScriptCore
