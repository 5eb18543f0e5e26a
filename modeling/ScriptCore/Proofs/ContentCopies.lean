import ScriptCore.Proofs.CopyEquality

/-!
# Copies of contents

The value in a cell can be copied instead of the cell, and put into a new cell.  The copy then
starts from the entries and does not know the cell itself.  If the cell is found from its own
entries it is copied as one of them, and the new cell stands beside that copy: the cycle is
unrolled by one turn.

**Contents.**  `CopiesContents` says what a copy of contents provides: a renaming of all that is
below the entries, and a new cell beside the renamed ones with the renamed value.  All below
follows from it.

**Unrolling.**  The new cell is never found from its own entries, since these are renamed cells
and refer to renamed cells only.  So the copy is isomorphic to the original exactly if the
original is not found from its own entries either; then the renaming is extended by the new cell.
The comparison does not see the difference, because it goes from entry to entry.

**Maps.**  Two copies of the entries of one map, made in different heaps, are renamings of each
other over the original.

**Results.**
* `copiesContents_copyContents`: what a copy of contents provides.
* `CopiesContents.deepCopied_iff`: when it is isomorphic to the original.
* `CopiesContents.equal`: it equals the original if there is no NaN.
* `contents_copied`: all of this, with the copies of maps.
-/

namespace ScriptCore

namespace Value

variable {f : CellId → CellId} {v : Value} {m : Dict CellId}

theorem map?_rename (f : CellId → CellId) (v : Value) :
    (v.rename f).map? = v.map?.map (Dict.map f) := by
  obtain ⟨tag, payload, mark⟩ := v
  cases payload with
  | none => rfl
  | some p =>
      cases p with
      | map m => cases mark <;> rfl
      | _ => rfl

theorem map?_of_map (h : v.map = .ok m) : v.map? = some m := by
  unfold map at h
  split at h
  · split at h
    · next n hn =>
        cases h
        exact hn
    · cases h
  · cases h

theorem map_rename (h : v.map = .ok m) : (v.rename f).map = .ok (m.map f) := by
  have hmap : (v.rename f).map? = some (m.map f) := by
    rw [map?_rename, map?_of_map h]
    rfl
  have hcompound : (v.rename f).tag.isCompound = true := by
    by_contra hnot
    have hrefused : v.map = .error (Error.of (.typeMismatch .object v.tag)) := if_neg hnot
    rw [hrefused] at h
    cases h
  unfold map
  rw [if_pos hcompound, hmap]

end Value

namespace Heap

variable {h h' g : Heap} {c d w x y : CellId} {f : CellId → CellId} {m : Dict CellId}

/-- The second heap has a renamed copy of all that is below the entries of a cell, and beside it a
new cell with the renamed value. -/
structure CopiesContents (h h' : Heap) (c w : CellId) (f : CellId → CellId) : Prop where
  kept : h.Extends h'
  added : ¬ h.Has w ∧ h'.Has w
  read : h'.read w = (h.read c).rename f
  renames : Renames f h h' (h.read c).children
  fresh : ∀ x, h.Below (h.read c).children x → ¬ h.Has (f x) ∧ h'.Has (f x)
  beside : ∀ x, h.Below (h.read c).children x → f x ≠ w

theorem copiesContents_copyContents (h : Heap) (c : CellId) :
    ∃ f, CopiesContents h (copyContents c h).2 c (copyContents c h).1 f := by
  obtain ⟨f, hcopy, hvalue⟩ := copyValue_copiesBelow h (h.read c)
  have halloc := Extends.alloc (copyValue (h.read c) h).1 (copyValue (h.read c) h).2
  have hfresh : ∀ x, h.Below (h.read c).children x →
      ¬ h.Has (f x) ∧ (copyValue (h.read c) h).2.Has (f x) :=
    fun x ⟨r, hr, hx⟩ => hcopy.fresh r hr x hx
  refine ⟨f, hcopy.keepsCells.trans halloc, ⟨?_, has_alloc_self _ _⟩,
    (read_alloc_self _ _).trans hvalue, ?_, ?_, ?_⟩
  · intro hold
    exact Nat.lt_irrefl _ (hcopy.keepsCells.has _ hold)
  · exact hcopy.renames.to_target fun x hx => halloc.read _ (hfresh x hx).2
  · exact fun x hx => ⟨(hfresh x hx).1, halloc.has _ (hfresh x hx).2⟩
  · -- The new cell is made after the copies.
    intro x hx heq
    have hhas := (hfresh x hx).2
    rw [heq] at hhas
    exact Nat.lt_irrefl _ hhas

namespace CopiesContents

variable (hcopy : CopiesContents h h' c w f)
include hcopy

/-- From the entries of the new cell only renamed cells are found. -/
theorem exists_of_refers_of_reaches (hd : h'.Refers w d) (hdy : h'.Reaches d y) :
    ∃ x, h.Below (h.read c).children x ∧ f x = y := by
  obtain ⟨e, he, rfl⟩ := (Renames.refers_iff hcopy.read).1 hd
  obtain ⟨x, hex, rfl⟩ := Renames.exists_of_reaches hcopy.renames.read (.root he) hdy
  exact ⟨x, ⟨e, he, hex⟩, rfl⟩

/-- The new cell is not found from its own entries. -/
theorem not_reaches_self (hd : h'.Refers w d) : ¬ h'.Reaches d w := by
  intro hdw
  obtain ⟨x, hx, heq⟩ := hcopy.exists_of_refers_of_reaches hd hdw
  exact hcopy.beside x hx heq

theorem added_of_reaches (hy : h'.Reaches w y) : ¬ h.Has y ∧ h'.Has y := by
  rcases Relation.ReflTransGen.cases_head hy with rfl | ⟨d, hd, hdy⟩
  · exact hcopy.added
  · obtain ⟨x, hx, rfl⟩ := hcopy.exists_of_refers_of_reaches hd hdy
    exact hcopy.fresh x hx

/-- If the cell is not found from its own entries, the renaming is extended to the cell. -/
theorem renames_update (hc : ¬ h.Below (h.read c).children c) :
    Renames (Function.update f c w) h h' [c] := by
  have hcells : {x | h.Below [c] x} = insert c {x | h.Below (h.read c).children x} :=
    Set.ext fun x => Below.singleton_iff.trans reaches_iff_below_children
  have hold : ∀ x, h.Below (h.read c).children x → Function.update f c w x = f x := by
    intro x hx
    refine Function.update_of_ne ?_ w f
    rintro rfl
    exact hc hx
  refine .of_injOn (fun x hx => ?_) ?_
  · rcases reaches_iff_below_children.1 (Below.singleton_iff.1 hx) with rfl | hx
    · rw [Function.update_self, hcopy.read]
      exact Value.rename_congr fun d hd => (hold d (.root hd)).symm
    · rw [hold x hx, hcopy.renames.read x hx]
      exact Value.rename_congr fun d hd => (hold d (hx.refers hd)).symm
  · rw [hcells]
    refine (Set.injOn_insert (s := {x | h.Below (h.read c).children x}) hc).2
      ⟨hcopy.renames.bijOn.injOn.congr fun x hx => (hold x hx).symm, ?_⟩
    rintro ⟨x, hx, heq⟩
    rw [hold x hx, Function.update_self] at heq
    exact hcopy.beside x hx heq

/-- The copy is isomorphic to the original exactly if there is no cycle through the original: an
isomorphism would carry the cycle to one through the new cell. -/
theorem deepCopied_iff : h.DeepCopied h' c w ↔ ¬ ∃ d, h.Refers c d ∧ h.Reaches d c := by
  rw [Heap.deepCopied_iff]
  constructor
  · rintro ⟨k, hk, hrenames⟩ ⟨d, hcd, hdc⟩
    have hroot : h.Below [c] c := .root (List.mem_singleton_self c)
    have hwd : h'.Refers w (k d) := by
      rw [← hk]
      exact (Renames.refers_iff (hrenames.read c hroot)).2 ⟨d, hcd, rfl⟩
    have hdw : h'.Reaches (k d) w := by
      rw [← hk]
      exact hrenames.reaches (hroot.refers hcd) hdc
    exact hcopy.not_reaches_self hwd hdw
  · intro hc
    exact ⟨Function.update f c w, Function.update_self c w f, hcopy.renames_update hc⟩

/-- Without NaN the new cell equals the original, whether there is a cycle or not. -/
theorem equal (hclosed : h.Closed) (hc : h.Has c)
    (hnan : ∀ x, h.Reaches c x → (h.read x).holdsNaN = false) : h'.equal w c = true := by
  have hread : ∀ x, h.Below (h.read c).children x → h'.read x = h.read x := fun x hx =>
    hcopy.kept.read x (hx.has hclosed (hclosed c))
  have hentries : ∀ d ∈ (h.read c).children, h'.equal (f d) d = true := by
    intro d hd
    refine equal_renamed (hcopy.renames.of_source hread) (fun x hx => ?_) (.root hd)
    have hx' := (Below.congr hread).1 hx
    rw [hread x hx']
    exact hnan x (reaches_iff_below_children.2 (Or.inr hx'))
  refine equal_of_alike ?_
  rw [hcopy.read, hcopy.kept.read c hc]
  exact Value.alike_rename (hnan c .refl) hentries

/-- A map that is copied in a later heap has the entries of the new cell, up to a renaming. -/
theorem exists_renames_copyMap (hclosed : h.Closed) (hm : (h.read c).children = m.values)
    (hg : h.Extends g) :
    ∃ k, (copyMap m g).1 = (m.map f).map k ∧ Renames k h' (copyMap m g).2 (m.map f).values := by
  have hread : ∀ x, h.Below m.values x → g.read x = h.read x := by
    intro x hx
    rw [← hm] at hx
    exact hg.read x (hx.has hclosed (hclosed c))
  obtain ⟨later, hcopied, hmap⟩ := copyMap_copiesBelow g m
  have hlater : Renames later h (copyMap m g).2 m.values :=
    hcopied.renames.of_source fun x hx => (hread x ((Below.congr hread).1 hx)).symm
  have hnow : Renames f h h' m.values := hm ▸ hcopy.renames
  obtain ⟨back, hback, hinverse⟩ := hnow.inverse
  refine ⟨later ∘ back, ?_, ?_⟩
  · refine Dict.ext_find? fun key => ?_
    rw [hmap, Dict.find?_map, Dict.find?_map, Dict.find?_map, Option.map_map]
    refine Option.map_congr fun d hd => ?_
    rw [Function.comp_apply, Function.comp_apply,
      hback d (.root (Dict.mem_values_iff.2 ⟨key, hd⟩))]
  · rw [Dict.values_map]
    refine hinverse.trans ?_
    have hroots : (m.values.map f).map back = m.values := by
      rw [List.map_map]
      exact (List.map_congr_left fun d hd => hback d (.root hd)).trans (List.map_id _)
    rw [hroots]
    exact hlater

end CopiesContents

/-- The copied entries are new. -/
theorem not_has_of_below_copyMap (hy : (copyMap m g).2.Below (copyMap m g).1.values y) :
    ¬ g.Has y := by
  obtain ⟨f, hcopy, hmap⟩ := copyMap_copiesBelow g m
  rw [hmap, Dict.values_map] at hy
  obtain ⟨x, ⟨r, hr, hx⟩, rfl⟩ := hcopy.renames.bijOn.surjOn hy
  exact (hcopy.fresh r hr x hx).1

theorem copyMapOf_of_map (hm : (g.read c).map = .ok m) :
    copyMapOf c g = (.ok (copyMap m g).1, (copyMap m g).2) := by
  unfold copyMapOf
  rw [hm]
  rfl

/-- The value in a cell of a closed heap is copied into a new cell.  What the new cell reaches is
new. The new cell equals the old one if no cell that the old one reaches stores a NaN, and it is
the root of an isomorphic graph exactly if the old one is not found from its own entries.  If the
value has a map, then copying the map, now or later, gives the entries of the new cell up to a
renaming of new cells. -/
theorem contents_copied (h : Heap) (hclosed : h.Closed) (c : CellId) (hc : h.Has c) :
    let w := (copyContents c h).1
    let h' := (copyContents c h).2
    h.Extends h' ∧
    (∀ y, h'.Reaches w y → ¬ h.Has y ∧ h'.Has y) ∧
    ((∀ x, h.Reaches c x → (h.read x).holdsNaN = false) → h'.equal w c = true) ∧
    (h.DeepCopied h' c w ↔ ¬ ∃ d, h.Refers c d ∧ h.Reaches d c) ∧
    ∀ m, (h.read c).map = .ok m → ∃ m', (h'.read w).map = .ok m' ∧
      ∀ g, h.Extends g →
        copyMapOf c g = (.ok (copyMap m g).1, (copyMap m g).2) ∧
        (∀ y, (copyMap m g).2.Below (copyMap m g).1.values y → ¬ g.Has y) ∧
        ∃ k, (copyMap m g).1 = m'.map k ∧ Renames k h' (copyMap m g).2 m'.values := by
  intro w h'
  obtain ⟨f, hcopy⟩ : ∃ f, CopiesContents h h' c w f := copiesContents_copyContents h c
  refine ⟨hcopy.kept, fun y => hcopy.added_of_reaches, hcopy.equal hclosed hc,
    hcopy.deepCopied_iff, fun m hm => ?_⟩
  refine ⟨m.map f, by rw [hcopy.read, Value.map_rename hm], fun g hg => ⟨?_, ?_, ?_⟩⟩
  · refine copyMapOf_of_map ?_
    rw [hg.read c hc, hm]
  · exact fun y => not_has_of_below_copyMap
  · exact hcopy.exists_renames_copyMap hclosed
      (Value.children_eq_of_map? (Value.map?_of_map hm)) hg

/-- A ring of two objects, and an object outside that refers to it. -/
def ringFromOutside : Heap :=
  ⟨#[.object (.ofList [("next", ⟨1⟩), ("self", ⟨0⟩)]), .object (.ofList [("back", ⟨0⟩)]),
    .object (.ofList [("ring", ⟨0⟩)])]⟩

theorem ring_unrolled_and_kept :
    let h := ringFromOutside
    let inside := copyContents ⟨0⟩ h
    let outside := copyContents ⟨2⟩ h
    (h.Closed ∧ h.Has ⟨0⟩ ∧ h.Has ⟨2⟩) ∧
    (inside.2.equal inside.1 ⟨0⟩ = true ∧ ¬ h.DeepCopied inside.2 ⟨0⟩ inside.1) ∧
    (outside.2.equal outside.1 ⟨2⟩ = true ∧ h.DeepCopied outside.2 ⟨2⟩ outside.1) ∧
    ∃ m n later k, (inside.2.read inside.1).map = .ok m ∧
      copyMapOf ⟨0⟩ inside.2 = (.ok n, later) ∧ n = m.map k ∧
      Renames k inside.2 later m.values := by
  intro h inside outside
  have hclosed : h.Closed := by decide
  have hin : h.Has ⟨0⟩ := by decide
  have hout : h.Has ⟨2⟩ := by decide
  have hnan : ∀ c, h.Has c → ∀ x, h.Reaches c x → (h.read x).holdsNaN = false := by
    intro c hc x hx
    have hcells : ∀ y ∈ h.cellIds, (h.read y).holdsNaN = false := by decide
    exact hcells x (mem_cellIds.2 (hclosed.has_of_reaches hc hx))
  obtain ⟨hkept, -, hequal, hiso, hmaps⟩ := contents_copied h hclosed ⟨0⟩ hin
  obtain ⟨-, -, hequal', hiso', -⟩ := contents_copied h hclosed ⟨2⟩ hout
  refine ⟨⟨hclosed, hin, hout⟩, ⟨hequal (hnan ⟨0⟩ hin), fun hcopied => ?_⟩,
    ⟨hequal' (hnan ⟨2⟩ hout), hiso'.2 ?_⟩, ?_⟩
  · exact hiso.1 hcopied ⟨⟨0⟩, by decide, .refl⟩
  · -- Nothing refers to the object outside.
    have hnone : ∀ x, ¬ h.Refers x ⟨2⟩ := by
      intro x hx
      have hcells : ∀ y ∈ h.cellIds, ¬ h.Refers y ⟨2⟩ := by decide
      exact hcells x (mem_cellIds.2 (has_of_children_ne_nil (List.ne_nil_of_mem hx))) hx
    rintro ⟨d, hd, hreach⟩
    rcases Relation.ReflTransGen.cases_tail hreach with heq | ⟨x, -, hx⟩
    · exact hnone ⟨2⟩ (heq ▸ hd)
    · exact hnone x hx
  · obtain ⟨m, hm, hlater⟩ := hmaps _ rfl
    obtain ⟨hcopied, -, k, hn, hk⟩ := hlater inside.2 hkept
    exact ⟨m, _, _, k, hm, hcopied, hn, hk⟩

end Heap
end ScriptCore
