import ScriptCore.Proofs.Numerals

/-!
# Values read from texts

A text is read as the first of these that it is: a word for null or a boolean, an integer numeral of
a number that fits a word, a decimal numeral, a plain text.  The readers for one type cut white
space off first, and refuse what does not denote a number.

**Cases.**  `Value.ofText_cases` lists what can be read, with the condition on the text.  The words
are no numerals and the integer numerals are decimal numerals, so the conditions exclude each other
and each case can be read backwards.

**Results.**
* `Value.ofText_follows_grammar`: what is read from a text, by its form.
* `Value.conversions_follow_inference`: the readers for one type against `Value.ofText`.
-/

namespace ScriptCore

open Numeral

namespace Numeral

variable {text : String}

theorem mem_integer_iff : text.toList ∈ integer.matches' ↔ ∃ k, Denotes text k := by
  rw [integer, mem_mul]
  constructor
  · rintro ⟨s, hs, ds, hds, htext⟩
    exact ⟨_, s, ds, htext.symm, hs, hds, rfl⟩
  · rintro ⟨k, s, ds, htext, hs, hds, -⟩
    exact ⟨s, hs, ds, hds, htext.symm⟩

/-- An integer numeral is a decimal numeral without a point and an exponent. -/
theorem Denotes.mem_decimal {k : Int} (h : Denotes text k) : text.toList ∈ decimal.matches' := by
  obtain ⟨s, ds, htext, hs, hds, -⟩ := h
  obtain ⟨hne, hall⟩ := mem_digits.1 hds
  exact Numeral.mem_decimal.2 ⟨s, ds, [], [], [], hs, hall, Or.inl ⟨rfl, rfl⟩, fun h => hne h.1,
    mem_exponent.2 (Or.inl rfl), by simp [htext]⟩

/-- The text of an integer is a numeral of it. -/
theorem denotes_toString (k : Int) : Denotes (toString k) k := by
  rw [Int.toString_eq_repr]
  cases k with
  | ofNat m =>
      refine ⟨[], Nat.toDigits 10 m, Nat.toList_repr, mem_sign.2 (Or.inl rfl),
        toDigits_mem_digits m, ?_⟩
      rw [placeValue_toDigits]
      rfl
  | negSucc m =>
      refine ⟨['-'], Nat.toDigits 10 (m + 1), ?_, mem_sign.2 (Or.inr (Or.inr rfl)),
        toDigits_mem_digits (m + 1), ?_⟩
      · show ("-" ++ (m + 1).repr).toList = _
        rw [String.toList_append, Nat.toList_repr]
        rfl
      · rw [placeValue_toDigits]
        rfl

end Numeral

namespace Integer

theorem toWord?_eq_some_iff {k : Int} {n : Int64} : toWord? k = some n ↔ k = n.toInt := by
  unfold toWord?
  rw [Int64.toInt_minValue, Int64.toInt_maxValue]
  constructor
  · intro h
    split at h
    · next hrange =>
        obtain rfl := Option.some.inj h
        exact (Int64.toInt_ofInt_of_le hrange.1 (by omega)).symm
    · cases h
  · rintro rfl
    have hlow := n.le_toInt
    have hhigh := n.toInt_lt
    rw [if_pos ⟨hlow, by omega⟩, Int64.ofInt_toInt]

/-- The numerals that are read as a word. -/
theorem readWord?_eq_some_iff {text : String} {n : Int64} :
    readWord? text = some n ↔ Denotes text n.toInt := by
  unfold readWord?
  rw [Option.bind_eq_some_iff]
  constructor
  · rintro ⟨k, hk, hn⟩
    rw [← toWord?_eq_some_iff.1 hn]
    exact read?_eq_some_iff.1 hk
  · intro h
    exact ⟨n.toInt, read?_eq_some_iff.2 h, toWord?_eq_some_iff.2 rfl⟩

end Integer

namespace Value

variable {t : String}

/-- The text is one of the words for null and the booleans. -/
def IsKeyword (t : String) : Prop := t = "null" ∨ t = "true" ∨ t = "false"

theorem IsKeyword.not_mem_decimal (h : IsKeyword t) : t.toList ∉ decimal.matches' := by
  intro hmem
  have hlooks := looksNumeric_of_mem_decimal hmem
  rcases h with rfl | rfl | rfl <;> exact absurd hlooks (by decide)

theorem IsKeyword.not_mem_special (h : IsKeyword t) : t.toList ∉ special.matches' := by
  rw [mem_special, IsWord]
  rcases h with rfl | rfl | rfl <;> decide

theorem ofText_of_not_isKeyword (h : ¬ IsKeyword t) :
    ofText t =
      match Integer.readWord? t with
      | some n => int n
      | none =>
          match readFloating? .double t with
          | some x => double x
          | none => string t := by
  simp only [IsKeyword, not_or] at h
  rw [ofText, if_neg h.1, if_neg h.2.1]
  exact if_neg h.2.2

theorem ofText_of_denotes {n : Int64} (h : Denotes t n.toInt) : ofText t = int n := by
  rw [ofText_of_not_isKeyword fun hkey => hkey.not_mem_decimal h.mem_decimal,
    Integer.readWord?_eq_some_iff.2 h]

theorem readWord?_eq_none (h : ∀ n : Int64, ¬ Denotes t n.toInt) : Integer.readWord? t = none := by
  rw [Option.eq_none_iff_forall_ne_some]
  intro n hn
  exact h n (Integer.readWord?_eq_some_iff.1 hn)

theorem ofText_of_readFloating? {x : Double} (h : ∀ n : Int64, ¬ Denotes t n.toInt)
    (hx : readFloating? .double t = some x) : ofText t = double x := by
  have hmem : t.toList ∈ decimal.matches' := by
    rw [← isSome_readFloating?_iff (f := .double), hx]
    rfl
  rw [ofText_of_not_isKeyword fun hkey => hkey.not_mem_decimal hmem, readWord?_eq_none h, hx]

theorem ofText_of_not_mem_decimal (hkey : ¬ IsKeyword t) (h : t.toList ∉ decimal.matches') :
    ofText t = string t := by
  have hfloat : readFloating? .double t = none := by
    rw [← Option.not_isSome_iff_eq_none, isSome_readFloating?_iff]
    exact h
  rw [ofText_of_not_isKeyword hkey, readWord?_eq_none fun n hn => h hn.mem_decimal, hfloat]

/-- What is read from a text, and from which texts. -/
theorem ofText_cases (t : String) :
    (t = "null" ∧ ofText t = null) ∨ (t = "true" ∧ ofText t = bool true) ∨
      (t = "false" ∧ ofText t = bool false) ∨
      (∃ n : Int64, Denotes t n.toInt ∧ ofText t = int n) ∨
      (∃ x, t.toList ∈ decimal.matches' ∧ (∀ n : Int64, ¬ Denotes t n.toInt) ∧
        readFloating? .double t = some x ∧ ofText t = double x) ∨
      (¬ IsKeyword t ∧ t.toList ∉ decimal.matches' ∧ ofText t = string t) := by
  by_cases hkey : IsKeyword t
  · rcases hkey with rfl | rfl | rfl
    · exact Or.inl ⟨rfl, rfl⟩
    · exact Or.inr (Or.inl ⟨rfl, rfl⟩)
    · exact Or.inr (Or.inr (Or.inl ⟨rfl, rfl⟩))
  · right; right; right
    by_cases hint : ∃ n : Int64, Denotes t n.toInt
    · obtain ⟨n, hn⟩ := hint
      exact Or.inl ⟨n, hn, ofText_of_denotes hn⟩
    · right
      have hnone : ∀ n : Int64, ¬ Denotes t n.toInt := fun n hn => hint ⟨n, hn⟩
      by_cases hmem : t.toList ∈ decimal.matches'
      · obtain ⟨x, hx⟩ := Option.isSome_iff_exists.1 (isSome_readFloating?_iff.2 hmem)
        exact Or.inl ⟨x, hmem, hnone, hx, ofText_of_readFloating? hnone hx⟩
      · exact Or.inr ⟨hkey, hmem, ofText_of_not_mem_decimal hkey hmem⟩

theorem ofText_eq_null_iff : ofText t = null ↔ t = "null" := by
  constructor
  · intro h
    rcases ofText_cases t with ⟨ht, -⟩ | ⟨-, hread⟩ | ⟨-, hread⟩ | ⟨n, -, hread⟩ |
      ⟨x, -, -, -, hread⟩ | ⟨-, -, hread⟩
    · exact ht
    all_goals
      rw [hread] at h
      cases h
  · rintro rfl
    rfl

theorem ofText_eq_bool_iff {b : Bool} :
    ofText t = bool b ↔ t = "true" ∧ b = true ∨ t = "false" ∧ b = false := by
  constructor
  · intro h
    rcases ofText_cases t with ⟨-, hread⟩ | ⟨ht, hread⟩ | ⟨ht, hread⟩ | ⟨n, -, hread⟩ |
      ⟨x, -, -, -, hread⟩ | ⟨-, -, hread⟩
    all_goals
      rw [hread] at h
      cases h
    · exact Or.inl ⟨ht, rfl⟩
    · exact Or.inr ⟨ht, rfl⟩
  · rintro (⟨rfl, rfl⟩ | ⟨rfl, rfl⟩)
    · rfl
    · rfl

theorem ofText_eq_int_iff {n : Int64} : ofText t = int n ↔ Denotes t n.toInt := by
  constructor
  · intro h
    rcases ofText_cases t with ⟨-, hread⟩ | ⟨-, hread⟩ | ⟨-, hread⟩ | ⟨m, hm, hread⟩ |
      ⟨x, -, -, -, hread⟩ | ⟨-, -, hread⟩
    all_goals
      rw [hread] at h
      cases h
    exact hm
  · exact ofText_of_denotes

theorem ofText_eq_double_iff {x : Double} :
    ofText t = double x ↔
      (∀ n : Int64, ¬ Denotes t n.toInt) ∧ readFloating? .double t = some x := by
  constructor
  · intro h
    rcases ofText_cases t with ⟨-, hread⟩ | ⟨-, hread⟩ | ⟨-, hread⟩ | ⟨n, -, hread⟩ |
      ⟨y, -, hnone, hy, hread⟩ | ⟨-, -, hread⟩
    all_goals
      rw [hread] at h
      cases h
    exact ⟨hnone, hy⟩
  · rintro ⟨hnone, hx⟩
    exact ofText_of_readFloating? hnone hx

theorem ofText_eq_string_iff {s : String} :
    ofText t = string s ↔ s = t ∧ ¬ IsKeyword t ∧ t.toList ∉ decimal.matches' := by
  constructor
  · intro h
    rcases ofText_cases t with ⟨-, hread⟩ | ⟨-, hread⟩ | ⟨-, hread⟩ | ⟨n, -, hread⟩ |
      ⟨x, -, -, -, hread⟩ | ⟨hkey, hmem, hread⟩
    all_goals
      rw [hread] at h
      cases h
    exact ⟨rfl, hkey, hmem⟩
  · rintro ⟨rfl, hkey, hmem⟩
    exact ofText_of_not_mem_decimal hkey hmem

theorem exists_ofText_eq_double_iff :
    (∃ x, ofText t = double x) ↔
      t.toList ∈ decimal.matches' ∧ ∀ n : Int64, ¬ Denotes t n.toInt := by
  rw [← isSome_readFloating?_iff (f := .double), Option.isSome_iff_exists]
  constructor
  · rintro ⟨x, hx⟩
    obtain ⟨hnone, hread⟩ := ofText_eq_double_iff.1 hx
    exact ⟨⟨x, hread⟩, hnone⟩
  · rintro ⟨⟨x, hread⟩, hnone⟩
    exact ⟨x, ofText_eq_double_iff.2 ⟨hnone, hread⟩⟩

/-- The numbers that fit a word. -/
theorem exists_word_iff {k : Int} : (∃ n : Int64, k = n.toInt) ↔ -2 ^ 63 ≤ k ∧ k < 2 ^ 63 := by
  constructor
  · rintro ⟨n, rfl⟩
    exact ⟨n.le_toInt, n.toInt_lt⟩
  · rintro ⟨hlow, hhigh⟩
    exact ⟨.ofInt k, (Int64.toInt_ofInt_of_le hlow hhigh).symm⟩

theorem not_denotes_word_iff :
    (∀ n : Int64, ¬ Denotes t n.toInt) ↔ ∀ k, Denotes t k → ¬ (-2 ^ 63 ≤ k ∧ k < 2 ^ 63) := by
  constructor
  · intro h k hk hrange
    obtain ⟨n, rfl⟩ := exists_word_iff.2 hrange
    exact h n hk
  · intro h n hn
    exact h n.toInt hn (exists_word_iff.1 ⟨n, rfl⟩)

theorem not_mem_decimal_of_mem_special (h : t.toList ∈ special.matches') :
    t.toList ∉ decimal.matches' := by
  intro hmem
  have hlooks := looksNumeric_of_mem_decimal hmem
  rw [looksNumeric_of_mem_special h] at hlooks
  cases hlooks

/-- What is read from a text: null and the booleans from their words, an integer from the integer
numerals of numbers that fit a word, an eight-byte number from the other decimal numerals, and the
text itself from all else.  The words for infinity and for what is not a number are texts, and the
text of an integer is read as that integer. -/
theorem ofText_follows_grammar (t : String) :
    (ofText t = null ↔ t = "null") ∧
    (ofText t = bool true ↔ t = "true") ∧
    (ofText t = bool false ↔ t = "false") ∧
    (∀ n : Int64, ofText t = int n ↔ t.toList ∈ integer.matches' ∧ Denotes t n.toInt) ∧
    ((∃ n : Int64, ofText t = int n) ↔
      t.toList ∈ integer.matches' ∧ ∃ k, Denotes t k ∧ -2 ^ 63 ≤ k ∧ k < 2 ^ 63) ∧
    ((∃ x, ofText t = double x) ↔
      ¬ (t = "null" ∨ t = "true" ∨ t = "false") ∧
      (∀ k, Denotes t k → ¬ (-2 ^ 63 ≤ k ∧ k < 2 ^ 63)) ∧ t.toList ∈ decimal.matches') ∧
    (∀ x, ofText t = double x → Floating.read? .double t = some x) ∧
    (∀ s, ofText t = string s ↔
      s = t ∧ ¬ (t = "null" ∨ t = "true" ∨ t = "false") ∧ t.toList ∉ integer.matches' ∧
        t.toList ∉ decimal.matches') ∧
    (t.toList ∈ special.matches' → ofText t = string t) ∧
    ∀ n : Int64, ofText (toString n) = int n := by
  have hinteger : ∀ k, Denotes t k → t.toList ∈ integer.matches' :=
    fun k hk => mem_integer_iff.2 ⟨k, hk⟩
  refine ⟨ofText_eq_null_iff, ?_, ?_, ?_, ?_, ?_, ?_, ?_, ?_, ?_⟩
  · simp [ofText_eq_bool_iff]
  · simp [ofText_eq_bool_iff]
  · intro n
    rw [ofText_eq_int_iff]
    exact ⟨fun h => ⟨hinteger _ h, h⟩, And.right⟩
  · constructor
    · rintro ⟨n, hn⟩
      have hdenotes := ofText_eq_int_iff.1 hn
      exact ⟨hinteger _ hdenotes, n.toInt, hdenotes, exists_word_iff.1 ⟨n, rfl⟩⟩
    · rintro ⟨-, k, hk, hrange⟩
      obtain ⟨n, rfl⟩ := exists_word_iff.2 hrange
      exact ⟨n, ofText_eq_int_iff.2 hk⟩
  · rw [exists_ofText_eq_double_iff, not_denotes_word_iff]
    constructor
    · rintro ⟨hmem, hnone⟩
      exact ⟨fun hkey => IsKeyword.not_mem_decimal hkey hmem, hnone, hmem⟩
    · rintro ⟨-, hnone, hmem⟩
      exact ⟨hmem, hnone⟩
  · intro x hx
    have hread := (ofText_eq_double_iff.1 hx).2
    unfold readFloating? at hread
    split at hread
    · exact hread
    · cases hread
  · intro s
    rw [ofText_eq_string_iff]
    constructor
    · rintro ⟨hs, hkey, hmem⟩
      refine ⟨hs, hkey, fun hint => ?_, hmem⟩
      obtain ⟨k, hk⟩ := mem_integer_iff.1 hint
      exact hmem hk.mem_decimal
    · rintro ⟨hs, hkey, -, hmem⟩
      exact ⟨hs, hkey, hmem⟩
  · intro hspecial
    exact ofText_eq_string_iff.2 ⟨rfl, fun hkey => IsKeyword.not_mem_special hkey hspecial,
      not_mem_decimal_of_mem_special hspecial⟩
  · intro n
    exact ofText_of_denotes (denotes_toString n.toInt)

/-- The numerals are the texts from which a number is read. -/
theorem mem_decimal_iff_ofText :
    t.toList ∈ decimal.matches' ↔ (∃ n : Int64, ofText t = int n) ∨ ∃ x, ofText t = double x := by
  constructor
  · intro hmem
    by_cases hint : ∃ n : Int64, Denotes t n.toInt
    · obtain ⟨n, hn⟩ := hint
      exact Or.inl ⟨n, ofText_of_denotes hn⟩
    · exact Or.inr (exists_ofText_eq_double_iff.2 ⟨hmem, fun n hn => hint ⟨n, hn⟩⟩)
  · rintro (⟨n, hn⟩ | hdouble)
    · exact (ofText_eq_int_iff.1 hn).mem_decimal
    · exact (exists_ofText_eq_double_iff.1 hdouble).1

end Value

/-- The second text is what is left of the first one when the white space at its ends is cut off. -/
def Strips (t u : String) : Prop :=
  ∃ front back, t.toList = front ++ (u.toList ++ back) ∧ (∀ c ∈ front, isBlank c = true) ∧
    (∀ c ∈ back, isBlank c = true) ∧ Stops isBlank u.toList ∧ Stops isBlank u.toList.reverse

theorem stops_dropWhile (p : Char → Bool) (cs : List Char) : Stops p (cs.dropWhile p) := by
  intro c hc
  have hhead := List.head?_dropWhile_not p cs
  rw [Option.mem_def.1 hc] at hhead
  exact hhead

theorem strips_stripBlanks (t : String) : Strips t (stripBlanks t) := by
  have hstripped : (stripBlanks t).toList =
      ((t.toList.dropWhile isBlank).reverse.dropWhile isBlank).reverse := by
    rw [stripBlanks, String.toList_ofList]
  obtain ⟨back, hblank, hback⟩ : ∃ back, (∀ c ∈ back, isBlank c = true) ∧
      t.toList.dropWhile isBlank = (stripBlanks t).toList ++ back := by
    refine ⟨((t.toList.dropWhile isBlank).reverse.takeWhile isBlank).reverse, fun c hc => ?_, ?_⟩
    · exact List.mem_takeWhile_imp (List.mem_reverse.1 hc)
    · rw [hstripped, ← List.reverse_append, List.takeWhile_append_dropWhile, List.reverse_reverse]
  refine ⟨t.toList.takeWhile isBlank, back, ?_, fun c => List.mem_takeWhile_imp, hblank, ?_, ?_⟩
  · rw [← hback, List.takeWhile_append_dropWhile]
  · -- What is left starts where the cut at the front ended.
    intro c hc
    refine stops_dropWhile isBlank t.toList c ?_
    rw [hback]
    exact List.mem_head?_append_of_mem_head? hc
  · rw [hstripped, List.reverse_reverse]
    exact stops_dropWhile isBlank _

namespace Value

variable {t : String} {α : Type} {target : Tag} {make : α → Value} {o : Option α}

theorem orInvalid_eq_ok_iff {v : Value} :
    orInvalid t target make o = .ok v ↔ ∃ a, o = some a ∧ make a = v := by
  cases o with
  | none => simp [orInvalid]
  | some a => simp [orInvalid]

theorem orInvalid_eq_error {e : Error} (h : orInvalid t target make o = .error e) :
    e = Error.of (.invalidConversion t target) := by
  cases o with
  | none => exact (Except.error.inj h).symm
  | some a => cases h

theorem exists_orInvalid_eq_ok_iff {f : Format} {make : Floating f → Value} {u : String} :
    (∃ v, orInvalid t target make (readFloating? f u) = .ok v) ↔
      (∃ n : Int64, ofText u = int n) ∨ ∃ x, ofText u = double x := by
  rw [← mem_decimal_iff_ofText, ← isSome_readFloating?_iff (f := f), Option.isSome_iff_exists]
  simp only [orInvalid_eq_ok_iff]
  constructor
  · rintro ⟨v, x, hx, -⟩
    exact ⟨x, hx⟩
  · rintro ⟨x, hx⟩
    exact ⟨make x, x, hx, rfl⟩

/-- The readers for one type against what is read from the text without the white space at its ends.
An integer is read where an integer is read from that text, and it is the same one.  An eight-byte
or four-byte number is read where a number is read from it; if that is an eight-byte number, the
reader for these gives the same bits.  Every refusal names the whole text and the type. -/
theorem conversions_follow_inference (t : String) :
    Strips t (stripBlanks t) ∧
    (∀ v, readInt t = .ok v ↔ (∃ n : Int64, v = int n) ∧ ofText (stripBlanks t) = v) ∧
    ((∃ v, readDouble t = .ok v) ↔ (∃ n : Int64, ofText (stripBlanks t) = int n) ∨
      ∃ x, ofText (stripBlanks t) = double x) ∧
    (∀ v, readDouble t = .ok v → ∃ x, v = double x) ∧
    (∀ x, ofText (stripBlanks t) = double x → readDouble t = .ok (double x)) ∧
    ((∃ v, readFloat t = .ok v) ↔ (∃ n : Int64, ofText (stripBlanks t) = int n) ∨
      ∃ x, ofText (stripBlanks t) = double x) ∧
    (∀ v, readFloat t = .ok v → ∃ x, v = float x) ∧
    (∀ e, readInt t = .error e → e = Error.of (.invalidConversion t .int)) ∧
    (∀ e, readDouble t = .error e → e = Error.of (.invalidConversion t .double)) ∧
    ∀ e, readFloat t = .error e → e = Error.of (.invalidConversion t .float) := by
  refine ⟨strips_stripBlanks t, fun v => ?_, exists_orInvalid_eq_ok_iff, fun v hv => ?_,
    fun x hx => ?_, exists_orInvalid_eq_ok_iff, fun v hv => ?_, fun e => orInvalid_eq_error,
    fun e => orInvalid_eq_error, fun e => orInvalid_eq_error⟩
  · rw [readInt, orInvalid_eq_ok_iff]
    constructor
    · rintro ⟨n, hn, rfl⟩
      exact ⟨⟨n, rfl⟩, ofText_of_denotes (Integer.readWord?_eq_some_iff.1 hn)⟩
    · rintro ⟨⟨n, rfl⟩, hread⟩
      exact ⟨n, Integer.readWord?_eq_some_iff.2 (ofText_eq_int_iff.1 hread), rfl⟩
  · obtain ⟨x, -, rfl⟩ := orInvalid_eq_ok_iff.1 hv
    exact ⟨x, rfl⟩
  · exact orInvalid_eq_ok_iff.2 ⟨x, (ofText_eq_double_iff.1 hx).2, rfl⟩
  · obtain ⟨x, -, rfl⟩ := orInvalid_eq_ok_iff.1 hv
    exact ⟨x, rfl⟩

end Value
end ScriptCore
