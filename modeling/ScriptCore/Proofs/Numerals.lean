import Mathlib.Computability.RegularExpressions
import Mathlib.Data.List.TakeWhile
import Mathlib.Data.Nat.Digits.Defs
import Mathlib.Tactic.IntervalCases
import ScriptCore.Value.Reading

/-!
# Numerals

The forms of numerals as regular expressions, and the readers against them.

**Grammar.**  `Numeral.integer` is an optional sign and digits.  `Numeral.decimal` has a point
among the digits or at either end, and an exponent behind them.  `Numeral.special` has the words for
infinity and for what is not a number.  Digits denote a number by their places
(`Numeral.placeValue`).

**Method.**  A reader takes the longest sign, run of digits, fraction and exponent from the front.
Each of these steps has two lemmas: what it takes matches its part of the grammar, and if a text is
cut into a part and a rest that cannot extend the part, it takes the part.

**Results.**
* `Integer.read?_eq_some_iff`, `Integer.readNat?_eq_some_iff`: integer numerals and their numbers.
* `Decimal.isSome_read?_iff`: decimal numerals.
* `Floating.isSome_read?_iff`: a number is read from the decimal numerals and the words.
* `isSome_readFloating?_iff`: the test of the characters leaves the decimal numerals.
-/

namespace ScriptCore
namespace Numeral

open RegularExpression (char)

/-- One of several characters. -/
def oneOf (cs : List Char) : RegularExpression Char :=
  cs.foldr (fun c r => char c + r) 0

/-- Nothing, or what matches. -/
def optional (r : RegularExpression Char) : RegularExpression Char := 1 + r

/-- A word, each letter in either case. -/
def anyCase (word : List Char) : RegularExpression Char :=
  word.foldr (fun c r => oneOf [c, c.toUpper] * r) 1

def digit : RegularExpression Char := oneOf ['0', '1', '2', '3', '4', '5', '6', '7', '8', '9']

def digits : RegularExpression Char := digit * digit.star

def sign : RegularExpression Char := optional (oneOf ['+', '-'])

/-- An integer numeral: `[+-]?[0-9]+`. -/
def integer : RegularExpression Char := sign * digits

/-- The end of a decimal numeral: `([eE][+-]?[0-9]+)?`. -/
def exponent : RegularExpression Char := optional (oneOf ['e', 'E'] * (sign * digits))

/-- A decimal numeral: `[+-]?([0-9]+(.[0-9]*)?|.[0-9]+)([eE][+-]?[0-9]+)?`. -/
def decimal : RegularExpression Char :=
  sign * ((digits * optional (char '.' * digit.star) + char '.' * digits) * exponent)

/-- An infinity or what is not a number: `[+-]?(inf|infinity|nan)`, in any case. -/
def special : RegularExpression Char :=
  sign * (anyCase ['i', 'n', 'f'] + anyCase ['i', 'n', 'f', 'i', 'n', 'i', 't', 'y'] +
    anyCase ['n', 'a', 'n'])

/-- The number that digits denote by their places. -/
def placeValue (ds : List Char) : Nat :=
  Nat.ofDigits 10 (ds.reverse.map fun c => c.toNat - '0'.toNat)

/-- The text is an integer numeral of the number. -/
def Denotes (text : String) (n : Int) : Prop :=
  ∃ s ds, text.toList = s ++ ds ∧ s ∈ sign.matches' ∧ ds ∈ digits.matches' ∧
    n = if s = ['-'] then -(placeValue ds : Int) else placeValue ds

/-- The text is a natural numeral of the number, `[+]?[0-9]+`. -/
def DenotesNat (text : String) (n : Nat) : Prop :=
  ∃ s ds, text.toList = s ++ ds ∧ s ∈ (optional (char '+')).matches' ∧ ds ∈ digits.matches' ∧
    n = placeValue ds

section Matching

variable {cs ds l s : List Char} {r q : RegularExpression Char}

theorem mem_oneOf : cs ∈ (oneOf l).matches' ↔ ∃ c ∈ l, cs = [c] := by
  induction l with
  | nil => exact ⟨fun h => h.elim, fun ⟨_, h, _⟩ => absurd h List.not_mem_nil⟩
  | cons a l ih =>
      show cs ∈ (char a).matches' + (oneOf l).matches' ↔ _
      rw [Language.mem_add, ih, List.exists_mem_cons_iff]
      rfl

theorem mem_optional : cs ∈ (optional r).matches' ↔ cs = [] ∨ cs ∈ r.matches' := Iff.rfl

theorem mem_mul : cs ∈ (r * q).matches' ↔ ∃ a ∈ r.matches', ∃ b ∈ q.matches', a ++ b = cs := Iff.rfl

theorem mem_add : cs ∈ (r + q).matches' ↔ cs ∈ r.matches' ∨ cs ∈ q.matches' := Iff.rfl

theorem mem_star_oneOf : cs ∈ (oneOf l).star.matches' ↔ ∀ c ∈ cs, c ∈ l := by
  rw [RegularExpression.matches'_star, Language.mem_kstar]
  constructor
  · rintro ⟨words, rfl, hwords⟩ c hc
    obtain ⟨word, hword, hc⟩ := List.mem_flatten.1 hc
    obtain ⟨d, hd, rfl⟩ := mem_oneOf.1 (hwords word hword)
    rwa [List.mem_singleton.1 hc]
  · intro hcs
    refine ⟨cs.map fun c => [c], (List.flatMap_singleton' cs).symm, ?_⟩
    intro word hword
    obtain ⟨c, hc, rfl⟩ := List.mem_map.1 hword
    exact mem_oneOf.2 ⟨c, hcs c hc, rfl⟩

theorem mem_digit_iff {c : Char} :
    c ∈ ['0', '1', '2', '3', '4', '5', '6', '7', '8', '9'] ↔ c.isDigit = true := by
  constructor
  · intro hc
    simp only [List.mem_cons, List.not_mem_nil, or_false] at hc
    rcases hc with rfl | rfl | rfl | rfl | rfl | rfl | rfl | rfl | rfl | rfl <;> rfl
  · intro hc
    obtain ⟨hlow, hhigh⟩ : 48 ≤ c.toNat ∧ c.toNat ≤ 57 := by
      simpa [Char.isDigit, UInt32.le_iff_toNat_le] using hc
    rw [← Char.ofNat_toNat c]
    interval_cases c.toNat <;> decide

/-- A run of digits, possibly empty. -/
theorem mem_star_digit : cs ∈ digit.star.matches' ↔ ∀ c ∈ cs, c.isDigit = true := by
  simp only [digit, mem_star_oneOf, mem_digit_iff]

theorem mem_digits : cs ∈ digits.matches' ↔ cs ≠ [] ∧ ∀ c ∈ cs, c.isDigit = true := by
  rw [digits, mem_mul]
  constructor
  · rintro ⟨_, hfirst, ds, hds, rfl⟩
    obtain ⟨c, hc, rfl⟩ := mem_oneOf.1 hfirst
    exact ⟨List.cons_ne_nil c ds,
      List.forall_mem_cons.2 ⟨mem_digit_iff.1 hc, mem_star_digit.1 hds⟩⟩
  · rintro ⟨hne, hcs⟩
    obtain ⟨c, ds, rfl⟩ := List.exists_cons_of_ne_nil hne
    obtain ⟨hc, hds⟩ := List.forall_mem_cons.1 hcs
    exact ⟨[c], mem_oneOf.2 ⟨c, mem_digit_iff.2 hc, rfl⟩, ds, mem_star_digit.2 hds, rfl⟩

theorem mem_sign : s ∈ sign.matches' ↔ s = [] ∨ s = ['+'] ∨ s = ['-'] := by
  simp [sign, mem_optional, mem_oneOf]

theorem mem_exponent :
    cs ∈ exponent.matches' ↔ cs = [] ∨ ∃ mark s ds, (mark = 'e' ∨ mark = 'E') ∧
      s ∈ sign.matches' ∧ ds ∈ digits.matches' ∧ cs = mark :: (s ++ ds) := by
  rw [exponent, mem_optional, mem_mul]
  refine or_congr Iff.rfl ⟨?_, ?_⟩
  · rintro ⟨_, hfirst, _, hrest, rfl⟩
    obtain ⟨mark, hmark, rfl⟩ := mem_oneOf.1 hfirst
    obtain ⟨s, hs, ds, hds, rfl⟩ := mem_mul.1 hrest
    exact ⟨mark, s, ds, by simpa using hmark, hs, hds, rfl⟩
  · rintro ⟨mark, s, ds, hmark, hs, hds, rfl⟩
    exact ⟨[mark], mem_oneOf.2 ⟨mark, by simpa using hmark, rfl⟩, s ++ ds,
      mem_mul.2 ⟨s, hs, ds, hds, rfl⟩, rfl⟩

end Matching

/-- The part of a numeral after the whole digits, and the digits in it: nothing, or a point and
digits. -/
def Fraction (part ds : List Char) : Prop :=
  (part = [] ∧ ds = []) ∨ (part = '.' :: ds ∧ ∀ c ∈ ds, c.isDigit = true)

/-- A decimal numeral by its parts. -/
theorem mem_decimal {cs : List Char} :
    cs ∈ decimal.matches' ↔ ∃ s whole part ds e, s ∈ sign.matches' ∧
      (∀ c ∈ whole, c.isDigit = true) ∧ Fraction part ds ∧ ¬ (whole = [] ∧ ds = []) ∧
      e ∈ exponent.matches' ∧ cs = s ++ (whole ++ (part ++ e)) := by
  rw [decimal, mem_mul]
  constructor
  · rintro ⟨s, hs, _, ⟨mantissa, hmantissa, e, he, rfl⟩, rfl⟩
    rcases hmantissa with ⟨whole, hwhole, part, hpart, rfl⟩ | ⟨_, rfl, ds, hds, rfl⟩
    · obtain ⟨hne, hwhole⟩ := mem_digits.1 hwhole
      rcases mem_optional.1 hpart with rfl | ⟨_, rfl, ds, hds, rfl⟩
      · exact ⟨s, whole, [], [], e, hs, hwhole, Or.inl ⟨rfl, rfl⟩, fun h => hne h.1, he, by simp⟩
      · exact ⟨s, whole, '.' :: ds, ds, e, hs, hwhole, Or.inr ⟨rfl, mem_star_digit.1 hds⟩,
          fun h => hne h.1, he, by simp⟩
    · obtain ⟨hne, hds⟩ := mem_digits.1 hds
      exact ⟨s, [], '.' :: ds, ds, e, hs, by simp, Or.inr ⟨rfl, hds⟩, fun h => hne h.2, he, rfl⟩
  · rintro ⟨s, whole, part, ds, e, hs, hwhole, hpart, hne, he, rfl⟩
    refine ⟨s, hs, whole ++ (part ++ e), ⟨whole ++ part, ?_, e, he, by simp⟩, rfl⟩
    rcases hpart with ⟨rfl, rfl⟩ | ⟨rfl, hds⟩
    · have hwhole' : whole ∈ digits.matches' := mem_digits.2 ⟨fun h => hne ⟨h, rfl⟩, hwhole⟩
      exact Or.inl ⟨whole, hwhole', [], mem_optional.2 (Or.inl rfl), rfl⟩
    · by_cases hempty : whole = []
      · subst hempty
        have hds' : ds ∈ digits.matches' := mem_digits.2 ⟨fun h => hne ⟨rfl, h⟩, hds⟩
        exact Or.inr ⟨['.'], rfl, ds, hds', rfl⟩
      · exact Or.inl ⟨whole, mem_digits.2 ⟨hempty, hwhole⟩, '.' :: ds,
          mem_optional.2 (Or.inr ⟨['.'], rfl, ds, mem_star_digit.2 hds, rfl⟩), rfl⟩

/-- The rest of a text does not go on with a character of a class. -/
def Stops (p : Char → Bool) (rest : List Char) : Prop := ∀ c ∈ rest.head?, p c = false

def isSign (c : Char) : Bool := c == '+' || c == '-'

theorem Stops.append {p : Char → Bool} {cs : List Char} (h : Stops p cs) (hne : cs ≠ [])
    (rest : List Char) : Stops p (cs ++ rest) := by
  obtain ⟨c, cs, rfl⟩ := List.exists_cons_of_ne_nil hne
  exact h

theorem stops_isSign_of_digits {ds : List Char} (hds : ∀ c ∈ ds, c.isDigit = true) :
    Stops isSign ds := by
  intro c hc
  have hdigit := hds c (List.mem_of_mem_head? hc)
  have hplus : c ≠ '+' := fun h => absurd (h ▸ hdigit) (by decide)
  have hminus : c ≠ '-' := fun h => absurd (h ▸ hdigit) (by decide)
  simp [isSign, hplus, hminus]

theorem stops_exponent {p : Char → Bool} {e : List Char} (h : e ∈ exponent.matches')
    (hlower : p 'e' = false) (hupper : p 'E' = false) : Stops p e := by
  intro c hc
  rcases mem_exponent.1 h with rfl | ⟨mark, s, ds, hmark, -, -, rfl⟩
  · cases hc
  · obtain rfl : mark = c := Option.some.inj hc
    rcases hmark with rfl | rfl
    · exact hlower
    · exact hupper

/-- Behind the whole digits there is a point or a mark. -/
theorem stops_fraction {p : Char → Bool} {part ds rest : List Char} (h : Fraction part ds)
    (hpoint : p '.' = false) (hrest : Stops p rest) : Stops p (part ++ rest) := by
  rcases h with ⟨rfl, -⟩ | ⟨rfl, -⟩
  · exact hrest
  · intro c hc
    obtain rfl : '.' = c := Option.some.inj hc
    exact hpoint

end Numeral

open Numeral

namespace Decimal

variable {cs ds s rest part e : List Char}

theorem takeSign_append (hs : s ∈ sign.matches') (hrest : Stops isSign rest) :
    takeSign (s ++ rest) = (decide (s = ['-']), rest) := by
  rcases mem_sign.1 hs with rfl | rfl | rfl
  · cases rest with
    | nil => rfl
    | cons c rest =>
        have hc := hrest c rfl
        unfold takeSign
        split <;> simp_all [isSign]
  · rfl
  · rfl

theorem exists_sign (cs : List Char) :
    ∃ s ∈ sign.matches', cs = s ++ (takeSign cs).2 ∧ (takeSign cs).1 = decide (s = ['-']) := by
  unfold takeSign
  split
  · exact ⟨['-'], mem_sign.2 (by simp), rfl, rfl⟩
  · exact ⟨['+'], mem_sign.2 (by simp), rfl, rfl⟩
  · exact ⟨[], mem_sign.2 (by simp), rfl, rfl⟩

theorem takeDigits_append (hds : ∀ c ∈ ds, c.isDigit = true) (hrest : Stops Char.isDigit rest) :
    takeDigits (ds ++ rest) = (ds, rest) := by
  unfold takeDigits
  rw [List.takeWhile_append_of_pos hds, List.dropWhile_append_of_pos hds]
  cases rest with
  | nil => simp
  | cons c rest =>
      have hc := hrest c rfl
      simp [hc]

theorem takeDigits_self (hds : ∀ c ∈ ds, c.isDigit = true) : takeDigits ds = (ds, []) := by
  have hnil : Stops Char.isDigit [] := by simp [Stops]
  have h := takeDigits_append hds hnil
  rwa [List.append_nil] at h

theorem append_takeDigits (cs : List Char) : (takeDigits cs).1 ++ (takeDigits cs).2 = cs :=
  List.takeWhile_append_dropWhile

theorem isDigit_of_mem_takeDigits {c : Char} (h : c ∈ (takeDigits cs).1) : c.isDigit = true :=
  List.mem_takeWhile_imp h

theorem takeFraction_append (hpart : Fraction part ds) (hdigit : Stops Char.isDigit rest)
    (hpoint : Stops (· == '.') rest) : takeFraction (part ++ rest) = (ds, rest) := by
  rcases hpart with ⟨rfl, rfl⟩ | ⟨rfl, hds⟩
  · unfold takeFraction
    split
    · next tail htail =>
        have hhead := hpoint '.' (by rw [← List.nil_append rest, htail]; rfl)
        cases hhead
    · rfl
  · exact takeDigits_append hds hdigit

theorem exists_fraction (cs : List Char) :
    ∃ part, Fraction part (takeFraction cs).1 ∧ cs = part ++ (takeFraction cs).2 := by
  unfold takeFraction
  split
  · next tail =>
      refine ⟨'.' :: (takeDigits tail).1, Or.inr ⟨rfl, fun c => isDigit_of_mem_takeDigits⟩, ?_⟩
      rw [List.cons_append, append_takeDigits]
  · exact ⟨[], Or.inl ⟨rfl, rfl⟩, rfl⟩

theorem isSome_readExponent?_cons {mark : Char} :
    (readExponent? (mark :: rest)).isSome = true ↔
      (mark = 'e' ∨ mark = 'E') ∧ (takeDigits (takeSign rest).2).1 ≠ [] ∧
        (takeDigits (takeSign rest).2).2 = [] := by
  rw [readExponent?]
  by_cases hmark : mark = 'e' ∨ mark = 'E'
  · by_cases hempty : (takeDigits (takeSign rest).2).1 = [] <;> simp [hmark, hempty]
  · simp [hmark]

theorem isSome_readExponent?_iff :
    (readExponent? cs).isSome = true ↔ cs ∈ Numeral.exponent.matches' := by
  rw [mem_exponent]
  constructor
  · intro h
    cases cs with
    | nil => exact Or.inl rfl
    | cons mark rest =>
        obtain ⟨hmark, hne, hend⟩ := isSome_readExponent?_cons.1 h
        obtain ⟨s, hs, heq, -⟩ := exists_sign rest
        have hds : (takeSign rest).2 = (takeDigits (takeSign rest).2).1 := by
          have happend := append_takeDigits (takeSign rest).2
          rw [hend, List.append_nil] at happend
          exact happend.symm
        rw [hds] at heq
        exact Or.inr ⟨mark, s, _, hmark, hs,
          mem_digits.2 ⟨hne, fun c => isDigit_of_mem_takeDigits⟩, by rw [← heq]⟩
  · rintro (rfl | ⟨mark, s, ds, hmark, hs, hds, rfl⟩)
    · rfl
    · obtain ⟨hne, hall⟩ := mem_digits.1 hds
      rw [isSome_readExponent?_cons, takeSign_append hs (stops_isSign_of_digits hall),
        takeDigits_self hall]
      exact ⟨hmark, hne, rfl⟩

theorem isSome_read?_parts {text : String} :
    (read? text).isSome = true ↔
      ¬ ((takeDigits (takeSign text.toList).2).1 = [] ∧
        (takeFraction (takeDigits (takeSign text.toList).2).2).1 = []) ∧
      (readExponent? (takeFraction (takeDigits (takeSign text.toList).2).2).2).isSome = true := by
  rw [read?]
  by_cases hempty : (takeDigits (takeSign text.toList).2).1 = [] ∧
      (takeFraction (takeDigits (takeSign text.toList).2).2).1 = []
  · simp [hempty]
  · simp [hempty, List.isEmpty_iff]

/-- The decimal numerals are what the reader accepts. -/
theorem isSome_read?_iff {text : String} :
    (read? text).isSome = true ↔ text.toList ∈ Numeral.decimal.matches' := by
  rw [isSome_read?_parts, mem_decimal]
  constructor
  · rintro ⟨hne, hexponent⟩
    obtain ⟨s, hs, htext, -⟩ := exists_sign text.toList
    obtain ⟨part, hpart, hrest⟩ := exists_fraction (takeDigits (takeSign text.toList).2).2
    refine ⟨s, _, part, _, _, hs, fun c => isDigit_of_mem_takeDigits, hpart, hne,
      isSome_readExponent?_iff.1 hexponent, ?_⟩
    rw [← hrest, append_takeDigits]
    exact htext
  · rintro ⟨s, whole, part, ds, e, hs, hwhole, hpart, hne, he, htext⟩
    have hsign : Stops isSign (whole ++ (part ++ e)) := by
      by_cases hempty : whole = []
      · rw [hempty]
        show Stops isSign (part ++ e)
        exact stops_fraction hpart rfl (stops_exponent he rfl rfl)
      · exact (stops_isSign_of_digits hwhole).append hempty _
    have hdigit : Stops Char.isDigit e := stops_exponent he rfl rfl
    rw [htext, takeSign_append hs hsign, takeDigits_append hwhole (stops_fraction hpart rfl hdigit),
      takeFraction_append hpart hdigit (stops_exponent he rfl rfl)]
    exact ⟨hne, isSome_readExponent?_iff.2 he⟩

end Decimal

theorem digitsValue_eq_placeValue (ds : List Char) : digitsValue ds 0 = placeValue ds := by
  induction ds using List.reverseRecOn with
  | nil => rfl
  | append_singleton ds c ih =>
      have hlast : digitsValue (ds ++ [c]) 0 = 10 * digitsValue ds 0 + (c.toNat - '0'.toNat) := by
        simp [digitsValue, List.foldl_append]
      rw [hlast, ih, placeValue, placeValue, List.reverse_append, List.reverse_singleton,
        List.singleton_append, List.map_cons, Nat.ofDigits_cons, Nat.add_comm]

namespace Numeral

theorem placeValue_toDigits (n : Nat) : placeValue (Nat.toDigits 10 n) = n := by
  rw [← digitsValue_eq_placeValue, digitsValue, ← Nat.ofDigitChars_eq_foldl,
    Nat.ofDigitChars_ten_toDigits]

theorem toDigits_mem_digits (n : Nat) : Nat.toDigits 10 n ∈ digits.matches' :=
  mem_digits.2 ⟨Nat.toDigits_ne_nil,
    fun _ hc => Nat.isDigit_of_mem_toDigits (by decide) (by decide) hc⟩

/-- The text of a natural number is a numeral of it. -/
theorem denotesNat_toString (n : Nat) : DenotesNat (toString n) n := by
  refine ⟨[], Nat.toDigits 10 n, ?_, mem_optional.2 (Or.inl rfl), toDigits_mem_digits n,
    (placeValue_toDigits n).symm⟩
  rw [Nat.toString_eq_repr, Nat.toList_repr, List.nil_append]

end Numeral

namespace Integer

open Decimal (takeSign)

variable {text : String}

theorem readDigits?_eq_some_iff {cs : List Char} {n : Nat} :
    readDigits? cs = some n ↔ cs ∈ digits.matches' ∧ n = placeValue cs := by
  rw [mem_digits, ← digitsValue_eq_placeValue, readDigits?, Option.ite_none_right_eq_some,
    Option.some.injEq]
  exact and_congr (by simp) eq_comm

theorem read?_eq (text : String) :
    read? text = (readDigits? (takeSign text.toList).2).map fun n : Nat =>
      if (takeSign text.toList).1 = true then -(n : Int) else n := by
  unfold read?
  split
  · next cs hcs =>
      rw [hcs]
      rfl
  · next cs hcs =>
      rw [hcs]
      rfl
  · next hminus hplus =>
      have hplain : takeSign text.toList = (false, text.toList) := by
        unfold takeSign
        split
        · next rest hrest => exact (hminus rest hrest).elim
        · next rest hrest => exact (hplus rest hrest).elim
        · rfl
      rw [hplain]
      rfl

/-- An integer numeral is read as the number that it denotes, and nothing else is read. -/
theorem read?_eq_some_iff {n : Int} : read? text = some n ↔ Denotes text n := by
  rw [read?_eq, Option.map_eq_some_iff]
  constructor
  · rintro ⟨m, hm, rfl⟩
    obtain ⟨hdigits, rfl⟩ := readDigits?_eq_some_iff.1 hm
    obtain ⟨s, hs, htext, hnegative⟩ := Decimal.exists_sign text.toList
    exact ⟨s, _, htext, hs, hdigits, by simp [hnegative]⟩
  · rintro ⟨s, ds, htext, hs, hds, rfl⟩
    have hstop : Stops isSign ds := stops_isSign_of_digits (mem_digits.1 hds).2
    rw [htext, Decimal.takeSign_append hs hstop]
    exact ⟨placeValue ds, readDigits?_eq_some_iff.2 ⟨hds, rfl⟩, by simp⟩

theorem readNat?_eq_some_iff {n : Nat} : readNat? text = some n ↔ DenotesNat text n := by
  constructor
  · intro h
    unfold readNat? at h
    split at h
    · next cs hcs =>
        obtain ⟨hds, rfl⟩ := readDigits?_eq_some_iff.1 h
        exact ⟨['+'], cs, hcs, mem_optional.2 (Or.inr rfl), hds, rfl⟩
    · obtain ⟨hds, rfl⟩ := readDigits?_eq_some_iff.1 h
      exact ⟨[], _, rfl, mem_optional.2 (Or.inl rfl), hds, rfl⟩
  · rintro ⟨s, ds, htext, hs, hds, rfl⟩
    unfold readNat?
    rcases mem_optional.1 hs with rfl | rfl
    · split
      · next cs hcs =>
          -- A digit is no sign.
          have hplus := stops_isSign_of_digits (mem_digits.1 hds).2 '+'
          rw [← List.nil_append ds, ← htext, hcs] at hplus
          cases hplus rfl
      · rw [htext]
        exact readDigits?_eq_some_iff.2 ⟨hds, rfl⟩
    · rw [htext]
      exact readDigits?_eq_some_iff.2 ⟨hds, rfl⟩

end Integer

section Words

variable {text : String} {cs s : List Char}

theorem toNat_toLower (c : Char) :
    c.toLower.toNat = if 65 ≤ c.toNat ∧ c.toNat ≤ 90 then c.toNat + 32 else c.toNat := by
  unfold Char.toLower
  split
  · next h =>
      have hupper : 65 ≤ c.toNat ∧ c.toNat ≤ 90 := h
      rw [if_pos hupper]
      show (c.toNat + 32) % 2 ^ 32 = _
      omega
  · next h => exact (if_neg h).symm

theorem toNat_toUpper (c : Char) :
    c.toUpper.toNat = if 97 ≤ c.toNat ∧ c.toNat ≤ 122 then c.toNat - 32 else c.toNat := by
  unfold Char.toUpper
  split
  · next h =>
      have hlower : 97 ≤ c.toNat ∧ c.toNat ≤ 122 := h
      have hshift : ('A'.val - 'a'.val).toNat = 2 ^ 32 - 32 := by decide
      rw [if_pos hlower]
      show (c.val + ('A'.val - 'a'.val)).toNat = _
      rw [UInt32.toNat_add, hshift]
      show (c.toNat + _) % 2 ^ 32 = _
      omega
  · next h => exact (if_neg h).symm

theorem toLower_eq_iff {c d : Char} (hc : 97 ≤ c.toNat ∧ c.toNat ≤ 122) :
    d.toLower = c ↔ d = c ∨ d = c.toUpper := by
  simp only [← Char.toNat_inj, toNat_toLower, toNat_toUpper, if_pos hc]
  split <;> omega

theorem mem_anyCase {word : List Char} (hword : ∀ c ∈ word, 97 ≤ c.toNat ∧ c.toNat ≤ 122) :
    cs ∈ (anyCase word).matches' ↔ cs.map Char.toLower = word := by
  induction word generalizing cs with
  | nil => exact List.map_eq_nil_iff.symm
  | cons c word ih =>
      obtain ⟨hc, hword⟩ := List.forall_mem_cons.1 hword
      show cs ∈ (oneOf [c, c.toUpper] * anyCase word).matches' ↔ _
      rw [mem_mul, List.map_eq_cons_iff]
      constructor
      · rintro ⟨_, hfirst, rest, hrest, rfl⟩
        obtain ⟨d, hd, rfl⟩ := mem_oneOf.1 hfirst
        exact ⟨d, rest, rfl, (toLower_eq_iff hc).2 (by simpa using hd), (ih hword).1 hrest⟩
      · rintro ⟨d, rest, rfl, hd, hrest⟩
        exact ⟨[d], mem_oneOf.2 ⟨d, by simpa using (toLower_eq_iff hc).1 hd, rfl⟩, rest,
          (ih hword).2 hrest, rfl⟩

/-- One of the words, in lower case. -/
def IsWord (word : List Char) : Prop :=
  word = ['i', 'n', 'f'] ∨ word = ['i', 'n', 'f', 'i', 'n', 'i', 't', 'y'] ∨ word = ['n', 'a', 'n']

theorem stops_isSign_of_word (h : IsWord (cs.map Char.toLower)) : Stops isSign cs := by
  intro c hc
  rw [← Bool.not_eq_true]
  intro hsign
  obtain ⟨rest, rfl⟩ := List.head?_eq_some_iff.1 hc
  have hlower : c.toLower = c := by
    rcases (by simpa [isSign] using hsign : c = '+' ∨ c = '-') with rfl | rfl <;> rfl
  rw [List.map_cons, hlower] at h
  have hletter : c = 'i' ∨ c = 'n' := by
    rcases h with h | h | h
    · exact Or.inl (List.cons.inj h).1
    · exact Or.inl (List.cons.inj h).1
    · exact Or.inr (List.cons.inj h).1
  rcases hletter with rfl | rfl <;> cases hsign

theorem mem_special :
    cs ∈ special.matches' ↔ IsWord ((Decimal.takeSign cs).2.map Char.toLower) := by
  have hword : ∀ w, w ∈ (anyCase ['i', 'n', 'f'] +
      anyCase ['i', 'n', 'f', 'i', 'n', 'i', 't', 'y'] + anyCase ['n', 'a', 'n']).matches' ↔
        IsWord (w.map Char.toLower) := by
    intro w
    rw [mem_add, mem_add, mem_anyCase (by simp), mem_anyCase (by simp),
      mem_anyCase (by simp), or_assoc]
    rfl
  rw [special, mem_mul]
  constructor
  · rintro ⟨s, hs, w, hw, rfl⟩
    have hlower := (hword w).1 hw
    rwa [Decimal.takeSign_append hs (stops_isSign_of_word hlower)]
  · intro h
    obtain ⟨s, hs, hcs, -⟩ := Decimal.exists_sign cs
    exact ⟨s, hs, _, (hword _).2 h, hcs.symm⟩

/-- Every word has a letter that no numeral has. -/
theorem exists_not_isNumeralChar (h : IsWord (cs.map Char.toLower)) :
    ∃ c ∈ cs, isNumeralChar c = false := by
  have hn : 'n' ∈ cs.map Char.toLower := by
    rcases h with h | h | h <;> simp [h]
  obtain ⟨c, hc, hlower⟩ := List.mem_map.1 hn
  refine ⟨c, hc, ?_⟩
  rcases (toLower_eq_iff (by decide)).1 hlower with rfl | rfl <;> decide

theorem Floating.isSome_ofWord?_iff {f : Format} {negative : Bool} :
    (ofWord? negative cs : Option (Floating f)).isSome = true ↔ IsWord (cs.map Char.toLower) := by
  unfold ofWord? IsWord
  dsimp only
  split
  · next h => simpa using h.imp_right Or.inl
  · next h =>
      rw [not_or] at h
      split
      · next hnan => simpa using Or.inr (Or.inr hnan)
      · next hnan => simpa using ⟨h.1, h.2, hnan⟩

/-- A number is read from the decimal numerals and the words, and from nothing else. -/
theorem Floating.isSome_read?_iff {f : Format} :
    (Floating.read? f text).isSome = true ↔
      text.toList ∈ decimal.matches' ∨ text.toList ∈ special.matches' := by
  unfold Floating.read?
  cases hdecimal : Decimal.read? text with
  | some d =>
      have hmem : text.toList ∈ decimal.matches' := by
        rw [← Decimal.isSome_read?_iff, hdecimal]
        rfl
      exact iff_of_true rfl (Or.inl hmem)
  | none =>
      have hnot : text.toList ∉ decimal.matches' := by
        rw [← Decimal.isSome_read?_iff, hdecimal]
        exact Bool.false_ne_true
      rw [or_iff_right hnot, mem_special]
      exact Floating.isSome_ofWord?_iff

theorem looksNumeric_iff :
    looksNumeric text = true ↔ (∃ c ∈ text.toList, c.isDigit = true) ∧
      ∀ c ∈ text.toList, isNumeralChar c = true := by
  simp [looksNumeric]

theorem looksNumeric_of_mem_special (h : text.toList ∈ special.matches') :
    looksNumeric text = false := by
  rw [← Bool.not_eq_true, looksNumeric_iff]
  rintro ⟨-, hall⟩
  obtain ⟨c, hc, hnot⟩ := exists_not_isNumeralChar (mem_special.1 h)
  obtain ⟨s, -, htext, -⟩ := Decimal.exists_sign text.toList
  have hmem : c ∈ text.toList := by
    rw [htext]
    exact List.mem_append_right s hc
  rw [hall c hmem] at hnot
  cases hnot

end Words

section Characters

variable {cs ds s : List Char} {c : Char}

theorem isNumeralChar_of_isDigit (h : c.isDigit = true) : isNumeralChar c = true := by
  simp [isNumeralChar, h]

theorem isNumeralChar_of_mem_sign (hs : s ∈ sign.matches') (hc : c ∈ s) :
    isNumeralChar c = true := by
  rcases mem_sign.1 hs with rfl | rfl | rfl
  · cases hc
  · rw [List.mem_singleton.1 hc]
    rfl
  · rw [List.mem_singleton.1 hc]
    rfl

theorem isNumeralChar_of_mem_fraction {part : List Char} (hpart : Fraction part ds)
    (hc : c ∈ part) : isNumeralChar c = true := by
  rcases hpart with ⟨rfl, -⟩ | ⟨rfl, hds⟩
  · cases hc
  · rcases List.mem_cons.1 hc with rfl | hc
    · rfl
    · exact isNumeralChar_of_isDigit (hds c hc)

theorem isNumeralChar_of_mem_exponent (he : cs ∈ Numeral.exponent.matches') (hc : c ∈ cs) :
    isNumeralChar c = true := by
  rcases mem_exponent.1 he with rfl | ⟨mark, s, ds, hmark, hs, hds, rfl⟩
  · cases hc
  · rcases List.mem_cons.1 hc with rfl | hc
    · rcases hmark with rfl | rfl <;> rfl
    · rcases List.mem_append.1 hc with hc | hc
      · exact isNumeralChar_of_mem_sign hs hc
      · exact isNumeralChar_of_isDigit ((mem_digits.1 hds).2 c hc)

/-- A decimal numeral passes the test of its characters. -/
theorem looksNumeric_of_mem_decimal {text : String} (h : text.toList ∈ decimal.matches') :
    looksNumeric text = true := by
  obtain ⟨s, whole, part, ds, e, hs, hwhole, hpart, hne, he, htext⟩ := mem_decimal.1 h
  rw [looksNumeric_iff, htext]
  constructor
  · by_cases hempty : whole = []
    · rcases hpart with ⟨-, rfl⟩ | ⟨rfl, hds⟩
      · exact absurd ⟨hempty, rfl⟩ hne
      · obtain ⟨c, hc⟩ := List.exists_mem_of_ne_nil ds fun h => hne ⟨hempty, h⟩
        exact ⟨c, by simp [hc], hds c hc⟩
    · obtain ⟨c, hc⟩ := List.exists_mem_of_ne_nil whole hempty
      exact ⟨c, by simp [hc], hwhole c hc⟩
  · intro c hc
    simp only [List.mem_append] at hc
    rcases hc with hc | hc | hc | hc
    · exact isNumeralChar_of_mem_sign hs hc
    · exact isNumeralChar_of_isDigit (hwhole c hc)
    · exact isNumeralChar_of_mem_fraction hpart hc
    · exact isNumeralChar_of_mem_exponent he hc

/-- The test of the characters keeps the decimal numerals and drops the words. -/
theorem isSome_readFloating?_iff {f : Format} {text : String} :
    (readFloating? f text).isSome = true ↔ text.toList ∈ decimal.matches' := by
  unfold readFloating?
  constructor
  · intro h
    split at h
    · next hlooks =>
        refine (Floating.isSome_read?_iff.1 h).resolve_right fun hspecial => ?_
        rw [looksNumeric_of_mem_special hspecial] at hlooks
        cases hlooks
    · cases h
  · intro h
    rw [if_pos (looksNumeric_of_mem_decimal h)]
    exact Floating.isSome_read?_iff.2 (Or.inl h)

end Characters
end ScriptCore
