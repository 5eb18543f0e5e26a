import ScriptCore.Proofs.EqualityLaws
import ScriptCore.Proofs.Renamings

/-!
# When a copy equals its original

A copy has the same shape and the same data as its original, but not the same cells.  Cells that are
not the same are compared by their data, and what is not a number differs from itself.  So one such
number makes the two different, wherever it is.

**Method.**  A renaming within one heap relates each renamed cell to the original one.  Without NaN
this relation is a bisimulation (`equal_renamed`).  Conversely, if a renamed root is equal to the
root, then equality goes down from entry to entry, along any way and around any cycle
(`equal_renamed_of_reaches`), and a NaN at the end of the way would be equal to itself.

**Null values.**  A comparison does not look into a value that is marked null.  In a well-formed
heap there is nothing to be found in it, and so nothing is missed.

**Results.**
* `Value.alike_rename`, `Value.holdsNaN_of_alike`, `Value.rel_of_alike_rename`: what agreement
  means for a value and a renamed one.
* `copies_equal_unless_nan`: a copy equals its original exactly if there is no NaN below it.
-/

namespace ScriptCore

theorem Floating.sameNumber_self_iff {f : Format} {x : Floating f} :
    SameNumber x x ↔ x.isNaN = false := by
  rw [not_isNaN_iff]
  constructor
  · intro h
    cases h with
    | infinite hx => exact Or.inr hx
    | finite hx => exact Or.inl hx
  · rintro (hx | hx)
    · exact .finite hx hx rfl
    · exact .infinite hx hx rfl

theorem Floating.SameNumber.not_isNaN {f : Format} {x y : Floating f} (h : SameNumber x y) :
    y.isNaN = false :=
  sameNumber_self_iff.1 (h.symm.trans h)

namespace Payload

variable {R : CellId → CellId → Prop} {f : CellId → CellId} {p q : Payload}

/-- A bit pattern of either format that is not a number. -/
def isNaN : Payload → Bool
  | double x => x.isNaN
  | float x => x.isNaN
  | _ => false

theorem alike_rename (hp : p.isNaN = false) (hR : ∀ d ∈ p.children, R (f d) d) :
    (p.rename f).Alike R p := by
  cases p with
  | int n => rfl
  | double x => exact Floating.sameNumber_self_iff.2 hp
  | float x => exact Floating.sameNumber_self_iff.2 hp
  | string s => rfl
  | bool b => rfl
  | map m =>
      refine ⟨fun key => ?_, fun key c d hc hd => ?_⟩
      · rw [Dict.find?_map, Option.isSome_map]
      · rw [Dict.find?_map, hd] at hc
        obtain rfl := Option.some.inj hc
        exact hR d (Dict.mem_values_iff.2 ⟨key, hd⟩)

theorem Alike.not_isNaN (h : p.Alike R q) : q.isNaN = false := by
  match p, q, h with
  | .int _, .int _, _ => rfl
  | .double _, .double _, h => exact Floating.SameNumber.not_isNaN h
  | .float _, .float _, h => exact Floating.SameNumber.not_isNaN h
  | .string _, .string _, _ => rfl
  | .bool _, .bool _, _ => rfl
  | .map _, .map _, _ => rfl

theorem rel_of_alike_rename (h : (p.rename f).Alike R p) : ∀ d ∈ p.children, R (f d) d := by
  intro d hd
  cases p with
  | map m =>
      obtain ⟨key, hkey⟩ := Dict.mem_values_iff.1 hd
      refine h.2 key (f d) d ?_ hkey
      rw [Dict.find?_map, hkey]
      rfl
  | _ => cases hd

end Payload

namespace Value

variable {R : CellId → CellId → Prop} {f : CellId → CellId} {v w : Value} {p : Payload}

/-- The value stores a NaN. -/
def holdsNaN (v : Value) : Bool := v.payload.any Payload.isNaN

theorem holdsNaN_of_payload (hp : v.payload = some p) : v.holdsNaN = p.isNaN := by
  simp [holdsNaN, hp]

theorem children_of_payload (hp : v.payload = some p) : v.children = p.children := by
  simp [children, hp]

theorem payload_rename (hp : v.payload = some p) : (v.rename f).payload = some (p.rename f) := by
  simp [rename, hp]

@[simp] theorem isNull_rename (f : CellId → CellId) (v : Value) :
    (v.rename f).isNull = v.isNull := by
  simp [isNull, rename]

theorem alike_rename (hv : v.holdsNaN = false) (hR : ∀ d ∈ v.children, R (f d) d) :
    (v.rename f).Alike R v := by
  refine ⟨rfl, isNull_rename f v, fun hnull => ?_⟩
  rw [isNull_rename] at hnull
  obtain ⟨p, hp⟩ := payload_ne_none hnull
  rw [holdsNaN_of_payload hp] at hv
  rw [children_of_payload hp] at hR
  exact ⟨p.rename f, p, payload_rename hp, hp, Payload.alike_rename hv hR⟩

/-- Data is not marked null. -/
theorem WellFormed.isNull_of_payload (hv : v.WellFormed) (hp : v.payload = some p) :
    v.isNull = false := by
  cases v, hv using WellFormed.shapeCases with
  | bare t => cases hp
  | carrying t q hq => rfl

theorem holdsNaN_of_alike (hw : w.WellFormed) (h : v.Alike R w) : w.holdsNaN = false := by
  cases hp : w.payload with
  | none => simp [holdsNaN, hp]
  | some p =>
      obtain ⟨q, p', -, hp', hqp⟩ := h.data (h.isNull.trans (hw.isNull_of_payload hp))
      rw [holdsNaN_of_payload hp']
      exact hqp.not_isNaN

theorem rel_of_alike_rename (hv : v.WellFormed) (h : (v.rename f).Alike R v) :
    ∀ d ∈ v.children, R (f d) d := by
  intro d hd
  cases hp : v.payload with
  | none => simp [children, hp] at hd
  | some p =>
      have hnull : (v.rename f).isNull = false := by
        rw [isNull_rename]
        exact hv.isNull_of_payload hp
      obtain ⟨q, p', hq, hp', hqp⟩ := h.data hnull
      obtain rfl : p = p' := Option.some.inj (hp.symm.trans hp')
      obtain rfl : p.rename f = q := Option.some.inj ((payload_rename hp).symm.trans hq)
      rw [children_of_payload hp] at hd
      exact Payload.rel_of_alike_rename hqp d hd

end Value

namespace Heap

section Renamed

variable {g : Heap} {f : CellId → CellId} {roots : List CellId} {x y : CellId}

/-- Without NaN a renamed cell equals the cell itself. -/
theorem equal_renamed (hf : Renames f g g roots)
    (hnan : ∀ x, g.Below roots x → (g.read x).holdsNaN = false) (hx : g.Below roots x) :
    g.equal (f x) x = true := by
  refine equal_of_bisimulation (R := fun a b => g.Below roots b ∧ a = f b) ?_ ⟨hx, rfl⟩
  rintro _ y ⟨hy, rfl⟩
  right
  rw [hf.read y hy]
  exact Value.alike_rename (hnan y hy) fun d hd => ⟨hy.refers hd, rfl⟩

variable (hf : Renames f g g roots) (hg : g.WellFormed) (hne : ∀ x, g.Below roots x → f x ≠ x)
include hf hne

theorem alike_of_equal_renamed (hx : g.Below roots x) (heq : g.equal (f x) x = true) :
    ((g.read x).rename f).Alike (fun a b => g.equal a b = true) (g.read x) := by
  rw [← hf.read x hx]
  exact (bisimulation_equal g (f x) x heq).resolve_left (hne x hx)

include hg

/-- If a renamed cell equals the cell itself, the same is true of all that the cell reaches. -/
theorem equal_renamed_of_reaches (hx : g.Below roots x) (heq : g.equal (f x) x = true)
    (hxy : g.Reaches x y) : g.equal (f y) y = true := by
  induction hxy with
  | refl => exact heq
  | tail hxz hzy ih =>
      have halike := alike_of_equal_renamed hf hne (hx.reaches hxz) ih
      exact Value.rel_of_alike_rename (hg _) halike _ hzy

theorem not_holdsNaN_of_equal_renamed (hx : g.Below roots x) (heq : g.equal (f x) x = true)
    (hxy : g.Reaches x y) : (g.read y).holdsNaN = false := by
  have hy := equal_renamed_of_reaches hf hg hne hx heq hxy
  exact Value.holdsNaN_of_alike (hg y) (alike_of_equal_renamed hf hne (hx.reaches hxy) hy)

end Renamed

/-- The heap is closed and well formed, as it is after every run of calls that use its own cells
(`Closed.run`, `wellFormed_run`).  A copy of a cell equals the cell exactly if no cell that it
reaches stores a NaN. -/
theorem copies_equal_unless_nan (h : Heap) (hclosed : h.Closed) (hwf : h.WellFormed) (c : CellId)
    (hc : h.Has c) :
    (copy c h).2.equal (copy c h).1 c = true ↔
      ∀ x, h.Reaches c x → (h.read x).holdsNaN = false := by
  obtain ⟨f, hcopy, hcopied⟩ := copy_copiesBelow h c
  have hroot : c ∈ [c] := List.mem_singleton_self c
  -- Below the cell the old heap and the new one are the same.
  have hsame := hcopy.keepsCells.sameBelow hclosed hc
  have hbelow : ∀ x, (copy c h).2.Below [c] x → h.Reaches c x :=
    fun x hx => (hsame.reaches x).1 (Below.singleton_iff.1 hx)
  have hf : Renames f (copy c h).2 (copy c h).2 [c] :=
    hcopy.renames.of_source fun x hx => hsame.read x (Below.singleton_iff.1 hx)
  rw [← hcopied]
  constructor
  · intro heq x hx
    rw [← hsame.read x hx]
    refine not_holdsNaN_of_equal_renamed hf (hwf.copy c) (fun y hy => ?_) (.root hroot) heq
      ((hsame.reaches x).2 hx)
    -- A copy is new and the original is not.
    intro hself
    refine (hcopy.fresh c hroot y (hbelow y hy)).1 ?_
    rw [hself]
    exact hclosed.has_of_reaches hc (hbelow y hy)
  · intro hnan
    refine equal_renamed hf (fun x hx => ?_) (.root hroot)
    rw [hsame.read x (hbelow x hx)]
    exact hnan x (hbelow x hx)

/-- A ring of two objects, and behind it a number. -/
def numberBehindRing (x : Double) : List CellCall :=
  [.make (.data .double x), .make (.data .map (.ofList [("x", ⟨0⟩)])),
    .make (.data .map (.ofList [("next", ⟨1⟩)])), .change ⟨1⟩ (.setEntry "back" ⟨2⟩)]

theorem copies_of_ring_compared :
    let nan := empty.run (numberBehindRing (.ofBits 0x7ff8000000000000))
    let zero := empty.run (numberBehindRing (.zero true))
    (nan.Closed ∧ nan.WellFormed ∧ nan.Has ⟨2⟩ ∧
      (copy ⟨2⟩ nan).2.equal (copy ⟨2⟩ nan).1 ⟨2⟩ = false) ∧
    (zero.Closed ∧ zero.WellFormed ∧ zero.Has ⟨2⟩ ∧
      (copy ⟨2⟩ zero).2.equal (copy ⟨2⟩ zero).1 ⟨2⟩ = true) := by
  intro nan zero
  have hnan : nan.Closed ∧ nan.Has ⟨2⟩ := by decide
  have hzero : zero.Closed ∧ zero.Has ⟨2⟩ := by decide
  have hnanwf : nan.WellFormed := wellFormed_run wellFormed_empty _
  have hzerowf : zero.WellFormed := wellFormed_run wellFormed_empty _
  refine ⟨⟨hnan.1, hnanwf, hnan.2, ?_⟩, ⟨hzero.1, hzerowf, hzero.2, ?_⟩⟩
  · rw [Bool.eq_false_iff]
    intro heq
    have hreach : nan.Reaches ⟨2⟩ ⟨0⟩ :=
      .tail (.single (by decide : nan.Refers ⟨2⟩ ⟨1⟩)) (by decide : nan.Refers ⟨1⟩ ⟨0⟩)
    have hnone := (copies_equal_unless_nan nan hnan.1 hnanwf ⟨2⟩ hnan.2).1 heq ⟨0⟩ hreach
    exact absurd hnone (by decide)
  · refine (copies_equal_unless_nan zero hzero.1 hzerowf ⟨2⟩ hzero.2).2 fun x hx => ?_
    have hcells : ∀ y ∈ zero.cellIds, (zero.read y).holdsNaN = false := by decide
    exact hcells x (mem_cellIds.2 (hzero.1.has_of_reaches hzero.2 hx))

end Heap
end ScriptCore
