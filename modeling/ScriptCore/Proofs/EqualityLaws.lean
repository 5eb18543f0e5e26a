import ScriptCore.Proofs.Bisimulation

/-!
# The laws of equality

Equality of cells is an equivalence relation, although equality of numbers is not one: what is
not a number differs from itself.  A cell is compared with itself by its identity, so that it is
equal to itself whatever it holds, and two cells that hold such a number are different.

**Method.**  Equality is a bisimulation (`bisimulation_equal`) and contains all others
(`equal_of_bisimulation`).  To show that cells are equal, a bisimulation is given that relates
them.  For transitivity it is equality twice in a row: if one of the two steps is an identity the
other one is left, and if both are agreements the values are compared through the middle one.

**Results.**
* `Value.Alike.symm`, `Value.Alike.trans`: agreement of values, with the relations of their entries.
* `equal_iff_alike`: equality of cells through equality of their entries.
* `equality_equivalence`: both laws, in every heap.
-/

namespace ScriptCore

namespace Floating

variable {f : Format} {x y z : Floating f}

theorem not_isFinite_of_isInfinite (h : x.isInfinite = true) : ¬ x.isFinite = true := by
  simp only [isInfinite, isFinite, decide_eq_true_eq] at h ⊢
  exact fun hne => hne h.1

theorem SameNumber.symm (h : SameNumber x y) : SameNumber y x := by
  cases h with
  | infinite hx hy hsign => exact .infinite hy hx hsign.symm
  | finite hx hy hnumber => exact .finite hy hx hnumber.symm

theorem SameNumber.trans (hxy : SameNumber x y) (hyz : SameNumber y z) : SameNumber x z := by
  cases hxy with
  | infinite hx hy hsign =>
      cases hyz with
      | infinite _ hz hsign' => exact .infinite hx hz (hsign.trans hsign')
      | finite hy' => exact absurd hy' (not_isFinite_of_isInfinite hy)
  | finite hx hy hnumber =>
      cases hyz with
      | infinite hy' => exact absurd hy (not_isFinite_of_isInfinite hy')
      | finite _ hz hnumber' => exact .finite hx hz (hnumber.trans hnumber')

end Floating

namespace Payload

variable {R S : CellId → CellId → Prop} {p q r : Payload}

theorem Alike.mono (hRS : ∀ c d, R c d → S c d) (h : p.Alike R q) : p.Alike S q := by
  match p, q, h with
  | .int _, .int _, h => exact h
  | .double _, .double _, h => exact h
  | .float _, .float _, h => exact h
  | .string _, .string _, h => exact h
  | .bool _, .bool _, h => exact h
  | .map _, .map _, h => exact ⟨h.1, fun key c d hc hd => hRS c d (h.2 key c d hc hd)⟩

theorem Alike.symm (h : p.Alike R q) : q.Alike (Function.swap R) p := by
  match p, q, h with
  | .int _, .int _, h => exact Eq.symm h
  | .double _, .double _, h => exact Floating.SameNumber.symm h
  | .float _, .float _, h => exact Floating.SameNumber.symm h
  | .string _, .string _, h => exact Eq.symm h
  | .bool _, .bool _, h => exact Eq.symm h
  | .map _, .map _, h =>
      exact ⟨fun key => (h.1 key).symm, fun key c d hc hd => h.2 key d c hd hc⟩

theorem Alike.trans (hpq : p.Alike R q) (hqr : q.Alike S r) : p.Alike (Relation.Comp R S) r := by
  match p, q, r, hpq, hqr with
  | .int _, .int _, .int _, hpq, hqr => exact Eq.trans hpq hqr
  | .double _, .double _, .double _, hpq, hqr => exact Floating.SameNumber.trans hpq hqr
  | .float _, .float _, .float _, hpq, hqr => exact Floating.SameNumber.trans hpq hqr
  | .string _, .string _, .string _, hpq, hqr => exact Eq.trans hpq hqr
  | .bool _, .bool _, .bool _, hpq, hqr => exact Eq.trans hpq hqr
  | .map m, .map n, .map k, hpq, hqr =>
      refine ⟨fun key => (hpq.1 key).trans (hqr.1 key), fun key c e hc he => ?_⟩
      -- The key is in the map between the two as well.
      have hkey : (n.find? key).isSome := by
        rw [← hpq.1 key, hc]
        rfl
      obtain ⟨d, hd⟩ := Option.isSome_iff_exists.1 hkey
      exact ⟨d, hpq.2 key c d hc hd, hqr.2 key d e hd he⟩

end Payload

namespace Value

variable {R S : CellId → CellId → Prop} {u v w : Value}

theorem Alike.mono (hRS : ∀ c d, R c d → S c d) (h : v.Alike R w) : v.Alike S w := by
  refine ⟨h.tag, h.isNull, fun hnull => ?_⟩
  obtain ⟨p, q, hp, hq, hpq⟩ := h.data hnull
  exact ⟨p, q, hp, hq, hpq.mono hRS⟩

theorem Alike.symm (h : v.Alike R w) : w.Alike (Function.swap R) v := by
  refine ⟨h.tag.symm, h.isNull.symm, fun hnull => ?_⟩
  obtain ⟨p, q, hp, hq, hpq⟩ := h.data (h.isNull.trans hnull)
  exact ⟨q, p, hq, hp, hpq.symm⟩

theorem Alike.trans (huv : u.Alike R v) (hvw : v.Alike S w) :
    u.Alike (Relation.Comp R S) w := by
  refine ⟨huv.tag.trans hvw.tag, huv.isNull.trans hvw.isNull, fun hnull => ?_⟩
  obtain ⟨p, q, hp, hq, hpq⟩ := huv.data hnull
  obtain ⟨q', r, hq', hr, hqr⟩ := hvw.data (huv.isNull.symm.trans hnull)
  obtain rfl : q = q' := Option.some.inj (hq.symm.trans hq')
  exact ⟨p, r, hp, hr, hpq.trans hqr⟩

end Value

namespace Heap

variable {h : Heap} {R : CellId → CellId → Prop} {a b c : CellId}

/-- Cells are equal if some bisimulation relates them. -/
theorem equal_of_bisimulation (hR : h.Bisimulation R) (hab : R a b) : h.equal a b = true := by
  refine settle_of_bisimulation hR fun p hp => ?_
  obtain rfl := List.mem_singleton.1 hp
  exact hab

/-- Equal cells are the same cell, or agree and have equal entries. -/
theorem bisimulation_equal (h : Heap) : h.Bisimulation fun x y => h.equal x y = true := by
  intro x y hxy
  obtain ⟨S, -, hwork, hclosed⟩ := exists_closed_of_settle hxy
  have halike : ∀ p ∈ S, (h.read p.1).Alike (fun c d => c = d ∨ (c, d) ∈ S) (h.read p.2) :=
    fun p hp => Value.alike_iff_matching.2 (hclosed p hp (by simp))
  have hS : h.Bisimulation fun c d => c = d ∨ (c, d) ∈ S :=
    fun c d hcd => hcd.imp_right (halike (c, d))
  refine (hS x y (hwork (x, y) List.mem_cons_self)).imp_right fun hvalues => ?_
  exact hvalues.mono fun c d hcd => equal_of_bisimulation hS hcd

theorem equal_refl (h : Heap) (a : CellId) : h.equal a a = true :=
  equal_of_bisimulation (R := Eq) (fun _ _ hxy => Or.inl hxy) rfl

theorem equal_symm (hab : h.equal a b = true) : h.equal b a = true := by
  refine equal_of_bisimulation (R := Function.swap fun x y => h.equal x y = true) ?_ hab
  intro x y hxy
  rcases bisimulation_equal h y x hxy with heq | halike
  · exact Or.inl heq.symm
  · exact Or.inr halike.symm

theorem equal_trans (hab : h.equal a b = true) (hbc : h.equal b c = true) :
    h.equal a c = true := by
  refine equal_of_bisimulation
    (R := Relation.Comp (fun x y => h.equal x y = true) fun x y => h.equal x y = true) ?_
    ⟨b, hab, hbc⟩
  rintro x z ⟨y, hxy, hyz⟩
  rcases bisimulation_equal h x y hxy with rfl | hxy
  · -- The first step is an identity, and the second is taken with an identity before it.
    exact (bisimulation_equal h x z hyz).imp_right (Value.Alike.mono fun c d hcd =>
      ⟨c, equal_refl h c, hcd⟩)
  · rcases bisimulation_equal h y z hyz with rfl | hyz
    · exact Or.inr (hxy.mono fun c d hcd => ⟨d, hcd, equal_refl h d⟩)
    · exact Or.inr (hxy.trans hyz)

/-- Cells with agreeing values and equal entries are equal. -/
theorem equal_of_alike (hab : (h.read a).Alike (fun x y => h.equal x y = true) (h.read b)) :
    h.equal a b = true := by
  refine equal_of_bisimulation (R := fun x y => h.equal x y = true ∨ (x = a ∧ y = b)) ?_
    (Or.inr ⟨rfl, rfl⟩)
  rintro x y (hxy | ⟨rfl, rfl⟩)
  · exact (bisimulation_equal h x y hxy).imp_right (Value.Alike.mono fun _ _ => Or.inl)
  · exact Or.inr (hab.mono fun _ _ => Or.inl)

theorem equal_iff_alike :
    h.equal a b = true ↔
      a = b ∨ (h.read a).Alike (fun x y => h.equal x y = true) (h.read b) := by
  constructor
  · exact bisimulation_equal h a b
  · rintro (rfl | halike)
    · exact equal_refl h a
    · exact equal_of_alike halike

/-- In every heap equality of cells is an equivalence relation.  It relates two cells exactly when
they are the same cell, or their values agree and have equal entries. -/
theorem equality_equivalence (h : Heap) :
    (Equivalence fun a b => h.equal a b = true) ∧
      ∀ a b, h.equal a b = true ↔
        a = b ∨ (h.read a).Alike (fun x y => h.equal x y = true) (h.read b) := by
  refine ⟨⟨equal_refl h, ?_, ?_⟩, fun a b => equal_iff_alike⟩
  · exact fun hab => equal_symm hab
  · exact fun hab hbc => equal_trans hab hbc

end Heap
end ScriptCore
