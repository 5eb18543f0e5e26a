import Mathlib.Data.Set.Basic
import ScriptCore.Heap.Equality
import ScriptCore.Proofs.Dictionaries
import ScriptCore.Proofs.NumericEquality

/-!
# Equality is bisimilarity

Two cells count as equal when no finite amount of looking into them tells them apart.  This
is said with relations: a bisimulation relates cells that are identical or that agree in all
but their entries and have related entries under every key.  Equal cells are those that some
bisimulation relates.

**Method.**  A comparison never forgets a pair that it has opened and never opens one twice,
and a single mismatch ends it.  So when it succeeds, the opened pairs together are a
bisimulation (`exists_closed_of_settle`), although at the time a pair was passed over nothing
was known about it.  In the other direction a pair of a bisimulation never shows a mismatch
(`settle_of_bisimulation`).

**Results.**
* `Value.alike_iff_matching`: agreement of values, through the pairs of entries left to compare.
* `equal_iff_bisimilar`: a comparison succeeds exactly on bisimilar cells.
-/

namespace ScriptCore

namespace Payload

/-- Equal data, with the entries of maps related by `R`. -/
def Alike (R : CellId → CellId → Prop) : Payload → Payload → Prop
  | int m, int n => m = n
  | double x, double y => x.SameNumber y
  | float x, float y => x.SameNumber y
  | string s, string t => s = t
  | bool b, bool c => b = c
  | map m, map n =>
      (∀ key, (m.find? key).isSome = (n.find? key).isSome) ∧
        ∀ key c d, m.find? key = some c → n.find? key = some d → R c d
  | _, _ => False

variable {R : CellId → CellId → Prop}

theorem alike_map_iff {m n : Dict CellId} :
    (map m).Alike R (map n) ↔
      m.keys = n.keys ∧ ∀ q ∈ m.values.zip n.values, R q.1 q.2 := by
  simp only [Alike]
  rw [← Dict.keys_eq_iff]
  constructor
  · rintro ⟨hkeys, hentries⟩
    refine ⟨hkeys, ?_⟩
    rintro ⟨c, d⟩ hq
    obtain ⟨key, hc, hd⟩ := (Dict.mem_zip_values_iff hkeys).1 hq
    exact hentries key c d hc hd
  · rintro ⟨hkeys, hpairs⟩
    refine ⟨hkeys, ?_⟩
    intro key c d hc hd
    exact hpairs (c, d) ((Dict.mem_zip_values_iff hkeys).2 ⟨key, hc, hd⟩)

theorem alike_iff_matching {p q : Payload} :
    p.Alike R q ↔ ∃ pairs, p.matching q = some pairs ∧ ∀ r ∈ pairs, R r.1 r.2 := by
  have hdouble : 0 < Format.double.exponentBits := by decide
  have hsingle : 0 < Format.single.exponentBits := by decide
  cases p with
  | int m => cases q <;> simp [Alike, matching]
  | double x => cases q <;> simp [Alike, matching, ← Floating.equal_iff_sameNumber hdouble]
  | float x => cases q <;> simp [Alike, matching, ← Floating.equal_iff_sameNumber hsingle]
  | string s => cases q <;> simp [Alike, matching]
  | bool b => cases q <;> simp [Alike, matching]
  | map m =>
      cases q with
      | map n =>
          rw [alike_map_iff]
          by_cases hkeys : m.keys = n.keys
          · simp [matching, hkeys]
          · simp [matching, hkeys]
      | _ => simp [Alike, matching]

end Payload

namespace Value

/-- The values have the same tag and agree on being null, and unless they are null they hold
equal data, with the entries of maps related by `R`. -/
structure Alike (R : CellId → CellId → Prop) (v w : Value) : Prop where
  tag : v.tag = w.tag
  isNull : v.isNull = w.isNull
  data : v.isNull = false →
    ∃ p q, v.payload = some p ∧ w.payload = some q ∧ p.Alike R q

variable {R : CellId → CellId → Prop}

theorem payload_ne_none {v : Value} (hv : v.isNull = false) : ∃ p, v.payload = some p := by
  unfold isNull at hv
  cases hp : v.payload with
  | none => simp [hp] at hv
  | some p => exact ⟨p, rfl⟩

theorem alike_iff_matching {v w : Value} :
    v.Alike R w ↔ ∃ pairs, v.matching w = some pairs ∧ ∀ r ∈ pairs, R r.1 r.2 := by
  by_cases hsame : v.tag = w.tag ∧ v.isNull = w.isNull
  · cases hnull : v.isNull with
    | true =>
        have hm : v.matching w = some [] := by
          unfold matching
          rw [if_pos hsame, if_pos hnull]
        simp only [hm, Option.some.injEq, exists_eq_left', List.not_mem_nil, false_implies,
          implies_true, iff_true]
        exact ⟨hsame.1, hsame.2, fun h => absurd (hnull.symm.trans h) (by decide)⟩
    | false =>
        obtain ⟨p, hp⟩ := payload_ne_none hnull
        obtain ⟨q, hq⟩ := payload_ne_none (hsame.2 ▸ hnull)
        have hm : v.matching w = p.matching q := by
          unfold matching
          rw [if_pos hsame, if_neg (by simp [hnull]), hp, hq]
        rw [hm, ← Payload.alike_iff_matching]
        constructor
        · intro halike
          obtain ⟨p', q', hp', hq', hpq⟩ := halike.data hnull
          obtain rfl : p = p' := Option.some.inj (hp.symm.trans hp')
          obtain rfl : q = q' := Option.some.inj (hq.symm.trans hq')
          exact hpq
        · intro hpq
          exact ⟨hsame.1, hsame.2, fun _ => ⟨p, q, hp, hq, hpq⟩⟩
  · have hm : v.matching w = none := by simp [matching, hsame]
    constructor
    · intro halike
      exact absurd ⟨halike.tag, halike.isNull⟩ hsame
    · rintro ⟨pairs, hpairs, -⟩
      rw [hm] at hpairs
      cases hpairs

end Value

namespace Heap

/-- Related cells are the same cell, or agree and have related entries. -/
def Bisimulation (h : Heap) (R : CellId → CellId → Prop) : Prop :=
  ∀ x y, R x y → x = y ∨ (h.read x).Alike R (h.read y)

section Settle

variable {h : Heap} {opened : Std.HashSet (CellId × CellId)} {work : List (CellId × CellId)}

/-- A comparison that succeeds has opened a set of pairs in which every pair it was given, or
came upon, can be found.  `S` is the set at the end; a pair that is opened when the comparison
starts is on trust. -/
theorem exists_closed_of_settle (hsettle : h.settle opened work = true) :
    ∃ S : Set (CellId × CellId),
      (∀ p, opened.contains p = true → p ∈ S) ∧
      (∀ p ∈ work, p.1 = p.2 ∨ p ∈ S) ∧
      ∀ p ∈ S, opened.contains p = false →
        ∃ pairs, (h.read p.1).matching (h.read p.2) = some pairs ∧
          ∀ q ∈ pairs, q.1 = q.2 ∨ q ∈ S := by
  fun_induction settle h opened work with
  | case1 opened =>
      refine ⟨{p | opened.contains p = true}, fun p hp => hp, by simp, ?_⟩
      intro p hp hnot
      exact absurd (hnot.symm.trans hp) (by decide)
  | case2 opened c d work hseen ih =>
      obtain ⟨S, hopened, hwork, hclosed⟩ := ih hsettle
      refine ⟨S, hopened, ?_, hclosed⟩
      intro p hp
      rcases List.mem_cons.1 hp with rfl | hp
      · exact hseen.imp_right (hopened (c, d))
      · exact hwork p hp
  | case3 opened c d work hseen hmatch => cases hsettle
  | case4 opened c d work hseen pairs hmatch ih =>
      obtain ⟨S, hopened, hwork, hclosed⟩ := ih hsettle
      have hcd : (c, d) ∈ S := hopened (c, d) (by simp)
      refine ⟨S, ?_, ?_, ?_⟩
      · intro p hp
        exact hopened p (by rw [Std.HashSet.contains_insert, hp, Bool.or_true])
      · intro p hp
        rcases List.mem_cons.1 hp with rfl | hp
        · exact Or.inr hcd
        · exact hwork p (List.mem_append_right _ hp)
      · intro p hp hnot
        by_cases hpc : p = (c, d)
        · subst hpc
          exact ⟨pairs, hmatch, fun q hq => hwork q (List.mem_append_left _ hq)⟩
        · refine hclosed p hp ?_
          rw [Std.HashSet.contains_insert, hnot, Bool.or_false]
          simpa using fun e : (c, d) = p => hpc e.symm

/-- Pairs of a bisimulation lead to pairs of the bisimulation, so no mismatch is found. -/
theorem settle_of_bisimulation {R : CellId → CellId → Prop} (hR : h.Bisimulation R)
    (hwork : ∀ p ∈ work, R p.1 p.2) : h.settle opened work = true := by
  fun_induction settle h opened work with
  | case1 => rfl
  | case2 opened c d work hseen ih =>
      exact ih fun p hp => hwork p (List.mem_cons_of_mem _ hp)
  | case3 opened c d work hseen hmatch =>
      have hcd : R c d := hwork (c, d) List.mem_cons_self
      rcases hR c d hcd with heq | halike
      · exact absurd (Or.inl heq) hseen
      · obtain ⟨pairs, hpairs, -⟩ := Value.alike_iff_matching.1 halike
        rw [hmatch] at hpairs
        cases hpairs
  | case4 opened c d work hseen pairs hmatch ih =>
      have hcd : R c d := hwork (c, d) List.mem_cons_self
      rcases hR c d hcd with heq | halike
      · exact absurd (Or.inl heq) hseen
      · obtain ⟨pairs', hpairs', hrel⟩ := Value.alike_iff_matching.1 halike
        obtain rfl : pairs = pairs' := Option.some.inj (hmatch.symm.trans hpairs')
        refine ih fun p hp => ?_
        rcases List.mem_append.1 hp with hp | hp
        · exact hrel p hp
        · exact hwork p (List.mem_cons_of_mem _ hp)

end Settle

/-- The comparison of two cells succeeds exactly when a bisimulation relates them. -/
theorem equal_iff_bisimilar (h : Heap) (a b : CellId) :
    h.equal a b = true ↔ ∃ R : CellId → CellId → Prop, R a b ∧ h.Bisimulation R := by
  constructor
  · intro hequal
    obtain ⟨S, -, hwork, hclosed⟩ := exists_closed_of_settle hequal
    refine ⟨fun x y => x = y ∨ (x, y) ∈ S, hwork (a, b) List.mem_cons_self, ?_⟩
    rintro x y (rfl | hxy)
    · exact Or.inl rfl
    · exact Or.inr (Value.alike_iff_matching.2 (hclosed (x, y) hxy (by simp)))
  · rintro ⟨R, hab, hR⟩
    exact settle_of_bisimulation hR (by simpa using hab)

end Heap
end ScriptCore
