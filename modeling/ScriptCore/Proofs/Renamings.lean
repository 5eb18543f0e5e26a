import ScriptCore.Proofs.CopyIsolation
import ScriptCore.Proofs.Reports

/-!
# Renamed graphs

Where the cells of a graph stand in a heap does not matter to a program that finds them from the
roots.  A renaming carries the graph below some roots to a graph below other ones, in the same heap
or in another: it is one to one on the cells below the roots, and a renamed cell has the renamed
value (`Heap.Renames`).

**Method.**  That the renamed cells are those below the renamed roots need not be shown each time:
renamed values refer to renamed cells, so it follows by induction on the way from a root
(`Renames.of_injOn`).

**Results.**
* `Renames.inverse`, `Renames.trans`: renamings can be undone and done one after the other.
* `CopiesBelow.renames`: copying renames.
* `deepCopied_iff`: isomorphic rooted graphs are those that a renaming carries to each other.
-/

namespace ScriptCore

namespace Value

variable {f f' : CellId → CellId}

theorem rename_id (v : Value) : v.rename id = v := by
  obtain ⟨tag, payload, mark⟩ := v
  cases payload with
  | none => rfl
  | some p =>
      cases p with
      | map m => simp only [rename, Option.map_some, Payload.rename, Dict.map_id]
      | _ => rfl

theorem rename_eq_self {v : Value} (h : ∀ d ∈ v.children, f d = d) : v.rename f = v :=
  (rename_congr h).trans (rename_id v)

theorem rename_rename (v : Value) : (v.rename f).rename f' = v.rename (f' ∘ f) := by
  obtain ⟨tag, payload, mark⟩ := v
  cases payload with
  | none => rfl
  | some p =>
      cases p with
      | map m =>
          have hmap : (m.map f).map f' = m.map (f' ∘ f) := by
            refine Dict.ext_find? fun name => ?_
            rw [Dict.find?_map, Dict.find?_map, Dict.find?_map, Option.map_map]
          simp only [rename, Option.map_some, Payload.rename, hmap]
      | _ => rfl

/-- A value has one copy by a renaming. -/
theorem CopiedBy.eq_rename {v w : Value} (h : CopiedBy f v w) : w = v.rename f := by
  have hpayload : w.payload = v.payload.map (·.rename f) := by
    cases hp : v.payload with
    | none => exact h.bare hp
    | some p =>
        cases p with
        | map m =>
            obtain ⟨n, hn, hfind⟩ := h.entries m hp
            have hmap : n = m.map f := Dict.ext_find? fun key => by rw [hfind, Dict.find?_map]
            rw [hn, hmap]
            rfl
        | _ =>
            rw [h.scalar _ hp nofun]
            rfl
  obtain ⟨tag, payload, mark⟩ := w
  obtain rfl := h.tag
  obtain rfl := h.nullMark
  obtain rfl := hpayload
  rfl

end Value

namespace Heap

variable {h h' h'' g : Heap} {f k : CellId → CellId} {roots : List CellId} {c d x y : CellId}

/-- The renaming carries what the roots reach in one heap onto what the renamed roots reach in the
other, one to one, and a renamed cell has the renamed value. -/
structure Renames (f : CellId → CellId) (h h' : Heap) (roots : List CellId) : Prop where
  bijOn : Set.BijOn f {x | h.Below roots x} {y | h'.Below (roots.map f) y}
  read : ∀ x, h.Below roots x → h'.read (f x) = (h.read x).rename f

namespace Renames

/-- A cell with a renamed value refers to the renamed cells. -/
theorem refers_iff (hread : h'.read d = (h.read x).rename f) :
    h'.Refers d y ↔ ∃ z, h.Refers x z ∧ f z = y := by
  unfold Refers
  rw [hread, Value.children_rename, List.mem_map]

section Reading

variable (hread : ∀ x, h.Below roots x → h'.read (f x) = (h.read x).rename f)
include hread

theorem reaches_of_read (hx : h.Below roots x) (hxy : h.Reaches x y) :
    h'.Reaches (f x) (f y) := by
  induction hxy with
  | refl => exact .refl
  | tail hxz hstep ih =>
      have hcell := hread _ (hx.reaches hxz)
      exact Relation.ReflTransGen.tail ih ((refers_iff hcell).2 ⟨_, hstep, rfl⟩)

theorem exists_of_reaches (hx : h.Below roots x) (hxy : h'.Reaches (f x) y) :
    ∃ z, h.Reaches x z ∧ f z = y := by
  induction hxy with
  | refl => exact ⟨x, .refl, rfl⟩
  | tail _ hstep ih =>
      obtain ⟨z, hxz, rfl⟩ := ih
      obtain ⟨w, hzw, rfl⟩ := (refers_iff (hread z (hx.reaches hxz))).1 hstep
      exact ⟨w, hxz.tail hzw, rfl⟩

/-- Renamed values refer to renamed cells, so the renamed cells are those below the renamed
roots. -/
theorem of_injOn (hinj : Set.InjOn f {x | h.Below roots x}) : Renames f h h' roots := by
  refine ⟨⟨?_, hinj, ?_⟩, hread⟩
  · rintro x ⟨r, hr, hrx⟩
    exact ⟨f r, List.mem_map_of_mem hr, reaches_of_read hread (.root hr) hrx⟩
  · rintro y ⟨s, hs, hsy⟩
    obtain ⟨r, hr, rfl⟩ := List.mem_map.1 hs
    obtain ⟨x, hrx, rfl⟩ := exists_of_reaches hread (.root hr) hsy
    exact ⟨x, ⟨r, hr, hrx⟩, rfl⟩

end Reading

theorem reaches (hf : Renames f h h' roots) (hx : h.Below roots x) (hxy : h.Reaches x y) :
    h'.Reaches (f x) (f y) :=
  reaches_of_read hf.read hx hxy

theorem inverse (hf : Renames f h h' roots) :
    ∃ k, (∀ x, h.Below roots x → k (f x) = x) ∧ Renames k h' h (roots.map f) := by
  let k := Function.invFunOn f {x | h.Below roots x}
  have hk : ∀ x, h.Below roots x → k (f x) = x := fun x hx =>
    hf.bijOn.injOn.leftInvOn_invFunOn hx
  refine ⟨k, hk, of_injOn ?_ ?_⟩
  · intro y hy
    obtain ⟨x, hx, rfl⟩ := hf.bijOn.surjOn hy
    rw [hk x hx, hf.read x hx, Value.rename_rename]
    exact (Value.rename_eq_self fun d hd => hk d (Below.refers hx hd)).symm
  · intro y hy y' hy' heq
    obtain ⟨x, hx, rfl⟩ := hf.bijOn.surjOn hy
    obtain ⟨x', hx', rfl⟩ := hf.bijOn.surjOn hy'
    rw [hk x hx, hk x' hx'] at heq
    rw [heq]

theorem trans (hf : Renames f h h' roots) (hk : Renames k h' h'' (roots.map f)) :
    Renames (k ∘ f) h h'' roots := by
  refine of_injOn ?_ (hk.bijOn.injOn.comp hf.bijOn.injOn hf.bijOn.mapsTo)
  intro x hx
  rw [Function.comp_apply, hk.read (f x) (hf.bijOn.mapsTo hx), hf.read x hx, Value.rename_rename]

/-- Only what is below the roots matters on the first side. -/
theorem of_source (hf : Renames f h h' roots)
    (hread : ∀ x, h.Below roots x → g.read x = h.read x) : Renames f g h' roots := by
  refine of_injOn (fun x hx => ?_) fun x hx y hy => ?_
  · have hbelow := (Below.congr hread).1 hx
    rw [hread x hbelow]
    exact hf.read x hbelow
  · exact hf.bijOn.injOn ((Below.congr hread).1 hx) ((Below.congr hread).1 hy)

/-- Only the renamed cells matter on the second side. -/
theorem to_target (hf : Renames f h h' roots)
    (hread : ∀ x, h.Below roots x → g.read (f x) = h'.read (f x)) : Renames f h g roots :=
  of_injOn (fun x hx => (hread x hx).trans (hf.read x hx)) hf.bijOn.injOn

/-- A renaming of what one cell reaches is an isomorphism of rooted graphs. -/
theorem isomorphic (hf : Renames f h h' [c]) :
    Set.BijOn f {x | h.Reaches c x} {y | h'.Reaches (f c) y} ∧
      ∀ x, h.Reaches c x → Value.CopiedBy f (h.read x) (h'.read (f x)) := by
  obtain ⟨hbij, hread⟩ := hf
  simp only [List.map_cons, List.map_nil, Below.singleton_iff] at hbij hread
  refine ⟨hbij, fun x hx => ?_⟩
  rw [hread x hx]
  exact Value.copiedBy_rename f _

end Renames

namespace CopiesBelow

theorem renames (hcopy : CopiesBelow h h' roots f) : Renames f h h' roots := by
  refine .of_injOn ?_ ?_
  · rintro x ⟨r, hr, hx⟩
    exact hcopy.read r hr x hx
  · rintro x ⟨r, hr, hx⟩ y ⟨s, hs, hy⟩
    exact hcopy.inj r hr x hx s hs y hy

theorem keepsCells (hcopy : CopiesBelow h h' roots f) : h.Extends h' :=
  ⟨fun d hd => (hcopy.kept d hd).1, fun d hd => (hcopy.kept d hd).2⟩

end CopiesBelow

/-- What the second cell reaches in the second heap is a copy of what the first reaches in the
first. -/
def DeepCopied (h h' : Heap) (c d : CellId) : Prop :=
  ∃ f : CellId → CellId, f c = d ∧
    Set.BijOn f {x | h.Reaches c x} {y | h'.Reaches d y} ∧
    ∀ x, h.Reaches c x → Value.CopiedBy f (h.read x) (h'.read (f x))

theorem deepCopied_iff : DeepCopied h h' c d ↔ ∃ f, f c = d ∧ Renames f h h' [c] := by
  constructor
  · rintro ⟨f, rfl, hbij, hread⟩
    refine ⟨f, rfl, .of_injOn (fun x hx => ?_) ?_⟩
    · exact (hread x (Below.singleton_iff.1 hx)).eq_rename
    · intro x hx y hy
      exact hbij.injOn (Below.singleton_iff.1 hx) (Below.singleton_iff.1 hy)
  · rintro ⟨f, rfl, hf⟩
    exact ⟨f, rfl, hf.isomorphic⟩

theorem deepCopied_copy (h : Heap) (c : CellId) :
    DeepCopied h (copy c h).2 c (copy c h).1 := by
  obtain ⟨f, hcopy, hroot⟩ := copy_copiesBelow h c
  exact deepCopied_iff.2 ⟨f, hroot, hcopy.renames⟩

/-- Cells that are added later do not change what the cells of a closed heap reach. -/
theorem Extends.sameBelow (hh : h.Extends h') (hclosed : h.Closed) (hc : h.Has c) :
    SameBelow c h h' :=
  sameBelow_of_read fun x hx => hh.read x (hclosed.has_of_reaches hc hx)

theorem DeepCopied.of_sameBelow (hcopy : DeepCopied h h' c d) (hc : SameBelow c g h) :
    DeepCopied g h' c d := by
  obtain ⟨f, hroot, hbij, hread⟩ := hcopy
  have hset : {x | g.Reaches c x} = {x | h.Reaches c x} := Set.ext fun x => (hc.reaches x).symm
  refine ⟨f, hroot, hset ▸ hbij, fun x hx => ?_⟩
  rw [← hc.read x hx]
  exact hread x ((hc.reaches x).2 hx)

theorem DeepCopied.to_sameBelow (hcopy : DeepCopied h h' c d) (hd : SameBelow d h' g) :
    DeepCopied h g c d := by
  obtain ⟨f, hroot, hbij, hread⟩ := hcopy
  have hset : {y | h'.Reaches d y} = {y | g.Reaches d y} := Set.ext fun y => (hd.reaches y).symm
  refine ⟨f, hroot, hset ▸ hbij, fun x hx => ?_⟩
  rw [hd.read (f x) (hbij.mapsTo hx)]
  exact hread x hx

end Heap
end ScriptCore
