import Mathlib.Algebra.Order.Field.Rat
import Mathlib.Algebra.Order.Ring.Abs
import Mathlib.Tactic.NormNum
import Mathlib.Tactic.Ring
import ScriptCore.Numeric.Floating

/-!
# Numeric equality of floating-point numbers

`Floating.equal` looks at bit patterns.  This module proves that it decides equality of the
numbers that the patterns stand for: finite numbers are equal when they are the same
rational, infinities when they have the same sign, and what is not a number is equal to
nothing, itself included.

**Method.**  A finite number is a magnitude times a power of two that depends on the format
alone.  The magnitudes of different exponent fields do not overlap (`magnitude_inj`), so equal
rationals have equal fields, up to the sign of zero.

**Results.**
* `equal_iff_sameNumber`: the test on bit patterns is numeric equality.
-/

namespace ScriptCore
namespace Floating

variable {f : Format}

def isFinite (x : Floating f) : Bool := x.exponentField ≠ f.topExponent

/-- The rational that a finite number stands for. -/
def number (x : Floating f) : ℚ :=
  (if x.isNegative then -1 else 1) * x.significand * 2 ^ x.scale

/-- Equality of numbers: of infinities by sign, of finite numbers by value. -/
inductive SameNumber (x y : Floating f) : Prop
  | infinite : x.isInfinite → y.isInfinite → x.isNegative = y.isNegative → SameNumber x y
  | finite : x.isFinite → y.isFinite → x.number = y.number → SameNumber x y

section Powers

/-! The fields are cut out by shifts.  In terms of powers of two they are remainders and
quotients. -/

theorem topExponent_eq (f : Format) : f.topExponent = 2 ^ f.exponentBits - 1 := by
  rw [Format.topExponent, Nat.one_shiftLeft]

theorem fractionField_eq (x : Floating f) : x.fractionField = x.toBits % 2 ^ f.fractionBits := by
  rw [fractionField, Nat.one_shiftLeft]

theorem exponentField_eq (x : Floating f) :
    x.exponentField = x.toBits / 2 ^ f.fractionBits % 2 ^ f.exponentBits := by
  rw [exponentField, Nat.one_shiftLeft, Nat.shiftRight_eq_div_pow]

theorem isNegative_iff (x : Floating f) :
    x.isNegative = true ↔ 2 ^ (f.fractionBits + f.exponentBits) ≤ x.toBits := by
  rw [isNegative, Nat.one_shiftLeft, decide_eq_true_iff]

theorem significand_eq (x : Floating f) :
    x.significand =
      if x.exponentField = 0 then x.fractionField else 2 ^ f.fractionBits + x.fractionField := by
  rw [significand, Nat.one_shiftLeft]

end Powers

theorem fractionField_lt (x : Floating f) : x.fractionField < 2 ^ f.fractionBits := by
  rw [fractionField_eq]
  exact Nat.mod_lt _ (Nat.two_pow_pos _)

/-- The bits above the fraction field are the exponent field and the sign. -/
theorem toBits_div (x : Floating f) :
    x.toBits / 2 ^ f.fractionBits =
      (if x.isNegative then 2 ^ f.exponentBits else 0) + x.exponentField := by
  have hwidth : x.toBits < 2 ^ (f.exponentBits + 1) * 2 ^ f.fractionBits := by
    have hlt : x.toBits < 2 ^ f.width := x.bits.isLt
    have hpow : 2 ^ f.width = 2 ^ (f.exponentBits + 1) * 2 ^ f.fractionBits := by
      rw [← Nat.pow_add]
      congr 1
      unfold Format.width
      omega
    omega
  have htop : x.toBits / 2 ^ f.fractionBits < 2 ^ (f.exponentBits + 1) :=
    (Nat.div_lt_iff_lt_mul (Nat.two_pow_pos _)).2 hwidth
  have hsign : x.isNegative = true ↔ 2 ^ f.exponentBits ≤ x.toBits / 2 ^ f.fractionBits := by
    rw [Nat.le_div_iff_mul_le (Nat.two_pow_pos _), ← Nat.pow_add, Nat.add_comm, isNegative_iff]
  have hmod := Nat.div_add_mod (x.toBits / 2 ^ f.fractionBits) (2 ^ f.exponentBits)
  have hlt := Nat.mod_lt (x.toBits / 2 ^ f.fractionBits) (Nat.two_pow_pos f.exponentBits)
  have hdouble : 2 ^ (f.exponentBits + 1) = 2 * 2 ^ f.exponentBits := Nat.pow_succ'
  rw [exponentField_eq]
  by_cases hneg : x.isNegative = true
  · rw [if_pos hneg]
    have hone : x.toBits / 2 ^ f.fractionBits / 2 ^ f.exponentBits = 1 := by
      refine Nat.div_eq_of_lt_le ?_ ?_
      · rw [Nat.one_mul]
        exact hsign.1 hneg
      · omega
    rw [hone] at hmod
    omega
  · rw [if_neg hneg, Nat.zero_add, Nat.mod_eq_of_lt]
    exact Nat.lt_of_not_le fun hle => hneg (hsign.2 hle)

theorem eq_of_fields {x y : Floating f} (hsign : x.isNegative = y.isNegative)
    (hexponent : x.exponentField = y.exponentField)
    (hfraction : x.fractionField = y.fractionField) : x = y := by
  have hbits : x.toBits = y.toBits := by
    have hx := Nat.div_add_mod x.toBits (2 ^ f.fractionBits)
    have hy := Nat.div_add_mod y.toBits (2 ^ f.fractionBits)
    have hdiv : x.toBits / 2 ^ f.fractionBits = y.toBits / 2 ^ f.fractionBits := by
      rw [toBits_div, toBits_div, hsign, hexponent]
    have hmod : x.toBits % 2 ^ f.fractionBits = y.toBits % 2 ^ f.fractionBits := by
      rw [← fractionField_eq, ← fractionField_eq, hfraction]
    rw [← hx, ← hy, hdiv, hmod]
  cases x
  cases y
  simpa [toBits, BitVec.toNat_inj] using hbits

/-- The absolute value of a finite number, in units of the smallest positive one. -/
def magnitude (x : Floating f) : Nat := x.significand * 2 ^ (x.exponentField - 1)

theorem magnitude_eq_zero_iff (x : Floating f) : x.magnitude = 0 ↔ x.isZero = true := by
  have hpos : 0 < 2 ^ f.fractionBits := Nat.two_pow_pos _
  rw [magnitude, significand_eq, isZero]
  by_cases hexp : x.exponentField = 0
  · simp [hexp]
  · simp [hexp]

/-- A number with a higher exponent field has a larger magnitude. -/
theorem magnitude_lt {x y : Floating f} (h : x.exponentField < y.exponentField) :
    x.magnitude < y.magnitude := by
  have hx := fractionField_lt x
  have hy : y.exponentField ≠ 0 := by omega
  rw [magnitude, magnitude, significand_eq, significand_eq, if_neg hy]
  by_cases hexp : x.exponentField = 0
  · rw [if_pos hexp, hexp]
    have hone : 1 ≤ 2 ^ (y.exponentField - 1) := Nat.one_le_two_pow
    calc x.fractionField * 2 ^ (0 - 1) = x.fractionField := by simp
      _ < 2 ^ f.fractionBits + y.fractionField := by omega
      _ ≤ (2 ^ f.fractionBits + y.fractionField) * 2 ^ (y.exponentField - 1) :=
          Nat.le_mul_of_pos_right _ hone
  · rw [if_neg hexp]
    have hstep : 2 ^ (x.exponentField - 1 + 1) ≤ 2 ^ (y.exponentField - 1) :=
      Nat.pow_le_pow_right (by decide) (by omega)
    calc (2 ^ f.fractionBits + x.fractionField) * 2 ^ (x.exponentField - 1)
        < (2 ^ f.fractionBits * 2) * 2 ^ (x.exponentField - 1) :=
          Nat.mul_lt_mul_of_pos_right (by omega) (Nat.two_pow_pos _)
      _ = 2 ^ f.fractionBits * 2 ^ (x.exponentField - 1 + 1) := by ring
      _ ≤ (2 ^ f.fractionBits + y.fractionField) * 2 ^ (y.exponentField - 1) :=
          Nat.mul_le_mul (by omega) hstep

theorem magnitude_inj {x y : Floating f} (h : x.magnitude = y.magnitude) :
    x.exponentField = y.exponentField ∧ x.fractionField = y.fractionField := by
  have hexp : x.exponentField = y.exponentField := by
    rcases Nat.lt_trichotomy x.exponentField y.exponentField with hlt | heq | hlt
    · exact absurd h (Nat.ne_of_lt (magnitude_lt hlt))
    · exact heq
    · exact absurd h.symm (Nat.ne_of_lt (magnitude_lt hlt))
  refine ⟨hexp, ?_⟩
  unfold magnitude at h
  rw [hexp] at h
  have hsig := Nat.eq_of_mul_eq_mul_right (Nat.two_pow_pos _) h
  unfold significand at hsig
  rw [hexp] at hsig
  split at hsig
  · exact hsig
  · omega

theorem number_eq (x : Floating f) :
    x.number = (if x.isNegative then -1 else 1) * (x.magnitude : ℚ) * 2 ^ f.minScale := by
  unfold number magnitude scale
  rw [zpow_add₀ (by norm_num : (2 : ℚ) ≠ 0), zpow_natCast]
  push_cast
  ring

theorem number_eq_iff {x y : Floating f} :
    x.number = y.number ↔ x = y ∨ (x.isZero = true ∧ y.isZero = true) := by
  have hscale : (2 : ℚ) ^ f.minScale ≠ 0 := zpow_ne_zero _ (by norm_num)
  rw [number_eq, number_eq, mul_left_inj' hscale]
  constructor
  · intro h
    have hmag : x.magnitude = y.magnitude := by
      have habs := congrArg abs h
      rw [abs_mul, abs_mul, Nat.abs_cast, Nat.abs_cast] at habs
      have hone : ∀ b : Bool, |(if b then -1 else 1 : ℚ)| = 1 := by
        intro b
        cases b <;> simp
      rw [hone, hone, one_mul, one_mul] at habs
      exact_mod_cast habs
    obtain ⟨hexp, hfrac⟩ := magnitude_inj hmag
    by_cases hzero : x.magnitude = 0
    · exact Or.inr ⟨(magnitude_eq_zero_iff x).1 hzero,
        (magnitude_eq_zero_iff y).1 (hmag ▸ hzero)⟩
    · refine Or.inl (eq_of_fields ?_ hexp hfrac)
      have hne : y.magnitude ≠ 0 := hmag ▸ hzero
      rw [hmag] at h
      cases hx : x.isNegative <;> cases hy : y.isNegative <;> simp_all
  · rintro (rfl | ⟨hx, hy⟩)
    · rfl
    · rw [(magnitude_eq_zero_iff x).2 hx, (magnitude_eq_zero_iff y).2 hy]
      simp

theorem not_isNaN_iff (x : Floating f) :
    x.isNaN = false ↔ x.isFinite = true ∨ x.isInfinite = true := by
  unfold isNaN isFinite isInfinite
  by_cases htop : x.exponentField = f.topExponent
  · simp [htop]
  · simp [htop]

theorem isFinite_of_isZero (hf : 0 < f.exponentBits) {x : Floating f} (hx : x.isZero = true) :
    x.isFinite = true := by
  have htop : f.topExponent ≠ 0 := by
    have hpow : 2 ^ 1 ≤ 2 ^ f.exponentBits := Nat.pow_le_pow_right (by decide) hf
    rw [topExponent_eq]
    omega
  have hexp : x.exponentField = 0 := by
    simp only [isZero, decide_eq_true_eq] at hx
    exact hx.1
  simpa [isFinite, hexp] using htop.symm

theorem eq_of_isInfinite {x y : Floating f} (hx : x.isInfinite = true)
    (hy : y.isInfinite = true) (hsign : x.isNegative = y.isNegative) : x = y := by
  simp only [isInfinite, decide_eq_true_eq] at hx hy
  exact eq_of_fields hsign (hx.1.trans hy.1.symm) (hx.2.trans hy.2.symm)

/-- The test on bit patterns decides equality of the numbers they stand for. -/
theorem equal_iff_sameNumber (hf : 0 < f.exponentBits) {x y : Floating f} :
    x.equal y = true ↔ SameNumber x y := by
  have hequal : x.equal y = true ↔
      x.isNaN = false ∧ y.isNaN = false ∧ (x = y ∨ (x.isZero = true ∧ y.isZero = true)) := by
    simp [equal, and_assoc]
  rw [hequal]
  constructor
  · rintro ⟨hx, -, rfl | ⟨hzx, hzy⟩⟩
    · rcases (not_isNaN_iff x).1 hx with hfin | hinf
      · exact .finite hfin hfin rfl
      · exact .infinite hinf hinf rfl
    · exact .finite (isFinite_of_isZero hf hzx) (isFinite_of_isZero hf hzy)
        (number_eq_iff.2 (Or.inr ⟨hzx, hzy⟩))
  · intro hsame
    cases hsame with
    | infinite hx hy hsign =>
        exact ⟨(not_isNaN_iff x).2 (Or.inr hx), (not_isNaN_iff y).2 (Or.inr hy),
          Or.inl (eq_of_isInfinite hx hy hsign)⟩
    | finite hx hy hnumber =>
        exact ⟨(not_isNaN_iff x).2 (Or.inl hx), (not_isNaN_iff y).2 (Or.inl hy),
          number_eq_iff.1 hnumber⟩

end Floating
end ScriptCore
