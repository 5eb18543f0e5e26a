import Mathlib.Data.List.Induction
import Mathlib.Data.List.Nodup
import ScriptCore.Proofs.Dictionaries
import ScriptCore.Symbol.Basic

/-!
# Ordinals of enumerators

The enumerators of an enum are numbered in the order of their definitions, while a counter runs
along and a dictionary keeps the names that were met.  The dictionary is ordered by names, so
nothing of the order of the definitions is left in it.

**Ordinals.**  `CountsTo`: the ordinal at a position is counted from the last definition up to that
position that gives an ordinal itself, or from the start if none does.  The sum is one of integers
and is brought into the range of 64 bits once; the counter is brought there at every step.

**Refusals.**  `FirstRepeat`: the first name that repeats an earlier one.  A list has such a name or
its names are distinct (`nodup_or_firstRepeat`).

**Results.**
* `countsTo_zero`, `countsTo_succ`: one step of the count.
* `numbers_of_nodup`: distinct names are numbered, on top of those numbered before.
* `number_of_firstRepeat`: the first repeated name is refused.
* `enums_numbered`: which enums can be made, and their ordinals.
-/

namespace ScriptCore
namespace Enumerators

/-- The listed names, in order. -/
def names (defs : Enumerators) : List String := defs.map Prod.fst

/-- The ordinal that the definition at a position gives itself. -/
def explicitAt? (defs : Enumerators) (i : Nat) : Option Int64 := defs[i]?.bind Prod.snd

/-- No definition up to a position gives itself an ordinal. -/
def Unbroken (defs : Enumerators) (i : Nat) : Prop := ∀ k ≤ i, explicitAt? defs k = none

/-- The last definition up to position `i` that gives itself an ordinal stands at `j` and gives
`e`. -/
structure LastExplicit (defs : Enumerators) (i j : Nat) (e : Int64) : Prop where
  le : j ≤ i
  explicit : explicitAt? defs j = some e
  none_after : ∀ k, j < k → k ≤ i → explicitAt? defs k = none

/-- The ordinal at a position, if the count starts with the given number. -/
inductive CountsTo (first : Int) (defs : Enumerators) (i : Nat) : Int64 → Prop
  | explicit {j : Nat} {e : Int64} (h : LastExplicit defs i j e) :
      CountsTo first defs i (Int64.ofInt (e.toInt + (i - j)))
  | unbroken (h : Unbroken defs i) : CountsTo first defs i (Int64.ofInt (first + i))

/-- A name that repeats an earlier one, where the names before it are distinct. -/
def FirstRepeat (defs : Enumerators) (name : String) : Prop :=
  ∃ before explicit after, defs = before ++ (name, explicit) :: after ∧
    (names before).Nodup ∧ name ∈ names before

section Counting

variable {defs : Enumerators} {d : String × Option Int64} {i j : Nat} {e n : Int64}

theorem explicitAt?_cons_zero (d : String × Option Int64) (defs : Enumerators) :
    explicitAt? (d :: defs) 0 = d.2 := by
  rw [explicitAt?, List.getElem?_cons_zero, Option.bind_some]

theorem explicitAt?_cons_succ (d : String × Option Int64) (defs : Enumerators) (i : Nat) :
    explicitAt? (d :: defs) (i + 1) = explicitAt? defs i := by
  rw [explicitAt?, List.getElem?_cons_succ, explicitAt?]

theorem unbroken_cons_succ : Unbroken (d :: defs) (i + 1) ↔ d.2 = none ∧ Unbroken defs i := by
  constructor
  · intro h
    have hzero := h 0 (Nat.zero_le _)
    rw [explicitAt?_cons_zero] at hzero
    refine ⟨hzero, fun k hk => ?_⟩
    have hsucc := h (k + 1) (Nat.succ_le_succ hk)
    rwa [explicitAt?_cons_succ] at hsucc
  · rintro ⟨hzero, hrest⟩ k hk
    cases k with
    | zero => rw [explicitAt?_cons_zero, hzero]
    | succ k => rw [explicitAt?_cons_succ, hrest k (Nat.le_of_succ_le_succ hk)]

theorem lastExplicit_cons_zero :
    LastExplicit (d :: defs) (i + 1) 0 e ↔ d.2 = some e ∧ Unbroken defs i := by
  constructor
  · intro h
    have hzero := h.explicit
    rw [explicitAt?_cons_zero] at hzero
    refine ⟨hzero, fun k hk => ?_⟩
    have hsucc := h.none_after (k + 1) (Nat.succ_pos k) (Nat.succ_le_succ hk)
    rwa [explicitAt?_cons_succ] at hsucc
  · rintro ⟨hzero, hrest⟩
    refine ⟨Nat.zero_le _, ?_, ?_⟩
    · rw [explicitAt?_cons_zero, hzero]
    · intro k hpos hk
      obtain ⟨k, rfl⟩ := Nat.exists_eq_add_one.2 hpos
      rw [explicitAt?_cons_succ, hrest k (Nat.le_of_succ_le_succ hk)]

theorem lastExplicit_cons_succ :
    LastExplicit (d :: defs) (i + 1) (j + 1) e ↔ LastExplicit defs i j e := by
  constructor
  · intro h
    have hgiven := h.explicit
    rw [explicitAt?_cons_succ] at hgiven
    refine ⟨Nat.le_of_succ_le_succ h.le, hgiven, fun k hj hk => ?_⟩
    have hsucc := h.none_after (k + 1) (Nat.succ_lt_succ hj) (Nat.succ_le_succ hk)
    rwa [explicitAt?_cons_succ] at hsucc
  · intro h
    refine ⟨Nat.succ_le_succ h.le, ?_, ?_⟩
    · rw [explicitAt?_cons_succ, h.explicit]
    · intro k hj hk
      obtain ⟨k, rfl⟩ := Nat.exists_eq_add_one.2 (Nat.zero_lt_of_lt hj)
      rw [explicitAt?_cons_succ]
      exact h.none_after k (Nat.lt_of_succ_lt_succ hj) (Nat.le_of_succ_le_succ hk)

/-- Counting on in the 64-bit range is counting on in the integers. -/
theorem ofInt_toInt_add_one (e : Int64) (i : Nat) :
    Int64.ofInt ((e + 1).toInt + i) = Int64.ofInt (e.toInt + ((i + 1 : Nat) : Int)) := by
  have hone : Int64.ofInt 1 = 1 := rfl
  rw [Int64.ofInt_add, Int64.ofInt_toInt, Int64.ofInt_add, Int64.ofInt_toInt, Int.natCast_add,
    Int.natCast_one, Int.add_comm (i : Int) 1, Int64.ofInt_add, hone, Int64.add_assoc]

/-- The first definition has its own ordinal or the one that the count starts with. -/
theorem countsTo_zero {next : Int64} :
    CountsTo next.toInt (d :: defs) 0 n ↔ n = d.2.getD next := by
  constructor
  · intro h
    cases h with
    | @explicit j e h =>
        obtain rfl : j = 0 := Nat.le_zero.1 h.le
        have hgiven := h.explicit
        rw [explicitAt?_cons_zero] at hgiven
        simp [hgiven]
    | unbroken h =>
        have hnone := h 0 (Nat.le_refl 0)
        rw [explicitAt?_cons_zero] at hnone
        simp [hnone]
  · rintro rfl
    cases hd : d.2 with
    | some e =>
        have hlast : LastExplicit (d :: defs) 0 0 e := by
          refine ⟨Nat.le_refl 0, ?_, fun k hpos hk => ?_⟩
          · rw [explicitAt?_cons_zero, hd]
          · omega
        have hcount : CountsTo next.toInt (d :: defs) 0 _ := .explicit hlast
        simpa using hcount
    | none =>
        have hnone : Unbroken (d :: defs) 0 := by
          intro k hk
          obtain rfl := Nat.le_zero.1 hk
          rw [explicitAt?_cons_zero, hd]
        have hcount : CountsTo next.toInt (d :: defs) 0 _ := .unbroken hnone
        simpa using hcount

/-- Behind a definition the count goes on from the successor of its ordinal. -/
theorem countsTo_succ {next : Int64} :
    CountsTo next.toInt (d :: defs) (i + 1) n ↔
      CountsTo (d.2.getD next + 1).toInt defs i n := by
  have hdiff : ∀ j : Nat, ((i + 1 : Nat) : Int) - (j + 1 : Nat) = i - j := by
    intro j
    omega
  constructor
  · intro h
    cases h with
    | @explicit j e h =>
        cases j with
        | zero =>
            obtain ⟨hd, hrest⟩ := lastExplicit_cons_zero.1 h
            have hcount : CountsTo (e + 1).toInt defs i _ := .unbroken hrest
            rw [ofInt_toInt_add_one] at hcount
            simpa [hd] using hcount
        | succ j =>
            rw [hdiff]
            exact .explicit (lastExplicit_cons_succ.1 h)
    | unbroken h =>
        obtain ⟨hd, hrest⟩ := unbroken_cons_succ.1 h
        have hcount : CountsTo (next + 1).toInt defs i _ := .unbroken hrest
        rw [ofInt_toInt_add_one] at hcount
        simpa [hd] using hcount
  · intro h
    cases h with
    | @explicit j e h =>
        rw [← hdiff]
        exact .explicit (lastExplicit_cons_succ.2 h)
    | unbroken h =>
        rw [ofInt_toInt_add_one]
        cases hd : d.2 with
        | some e =>
            have hcount : CountsTo next.toInt (d :: defs) (i + 1) _ :=
              .explicit (lastExplicit_cons_zero.2 ⟨hd, h⟩)
            simpa using hcount
        | none => exact .unbroken (unbroken_cons_succ.2 ⟨hd, h⟩)

theorem exists_countsTo (next : Int64) (hi : i < defs.length) :
    ∃ n, CountsTo next.toInt defs i n := by
  induction defs generalizing next i with
  | nil => exact absurd hi (Nat.not_lt_zero i)
  | cons d defs ih =>
      cases i with
      | zero => exact ⟨_, countsTo_zero.2 rfl⟩
      | succ i =>
          obtain ⟨n, hn⟩ := ih (d.2.getD next + 1) (Nat.lt_of_succ_lt_succ hi)
          exact ⟨n, countsTo_succ.2 hn⟩

end Counting

/-- A dictionary has the names numbered before, as they were, and the listed names with their
ordinals. -/
def Numbers (known : Dict Int64) (first : Int) (defs : Enumerators) (result : Dict Int64) : Prop :=
  ∀ name n, result.find? name = some n ↔
    known.find? name = some n ∨ ∃ i, (names defs)[i]? = some name ∧ CountsTo first defs i n

section Numbering

variable {defs : Enumerators} {known result : Dict Int64} {next : Int64}

/-- Numbering one name and then the rest is numbering all. -/
theorem Numbers.cons {d : String × Option Int64} (hnew : known.find? d.1 = none)
    (h : Numbers (known.insert d.1 (d.2.getD next)) (d.2.getD next + 1).toInt defs result) :
    Numbers known next.toInt (d :: defs) result := by
  intro name n
  have hsplit : (∃ i, (names (d :: defs))[i]? = some name ∧
      CountsTo next.toInt (d :: defs) i n) ↔
        (d.1 = name ∧ n = d.2.getD next) ∨ ∃ i, (names defs)[i]? = some name ∧
          CountsTo (d.2.getD next + 1).toInt defs i n := by
    rw [← Nat.or_exists_add_one]
    simp only [names, List.map_cons, List.getElem?_cons_zero, List.getElem?_cons_succ,
      Option.some.injEq, countsTo_zero, countsTo_succ]
  rw [h name n, hsplit, Dict.find?_insert]
  by_cases hname : name = d.1
  · subst hname
    simp [hnew, eq_comm]
  · simp [hname, Ne.symm hname]

/-- Names that are distinct and new are numbered. -/
theorem numbers_of_nodup (owner : String) (next : Int64) (hnodup : (names defs).Nodup)
    (hnew : ∀ name ∈ names defs, known.find? name = none) :
    ∃ result, number owner defs next known = .ok result ∧
      Numbers known next.toInt defs result := by
  induction defs generalizing known next with
  | nil => exact ⟨known, rfl, fun name n => by simp [names]⟩
  | cons d defs ih =>
      obtain ⟨hd, hrest⟩ := List.nodup_cons.1 hnodup
      have hnone : known.find? d.1 = none := hnew d.1 List.mem_cons_self
      have hnew' : ∀ name ∈ names defs,
          (known.insert d.1 (d.2.getD next)).find? name = none := by
        intro name hname
        have hne : name ≠ d.1 := fun heq => hd (heq ▸ hname)
        rw [Dict.find?_insert, if_neg hne, hnew name (List.mem_cons_of_mem _ hname)]
      obtain ⟨result, hrun, hnumbers⟩ := ih (d.2.getD next + 1) hrest hnew'
      refine ⟨result, ?_, hnumbers.cons hnone⟩
      have hcontains : ¬ known.contains d.1 = true := by simp [Dict.contains, hnone]
      rw [number, if_neg hcontains]
      exact hrun

/-- What is listed behind names that were numbered is numbered on top of these. -/
theorem number_append {owner : String} {front : Enumerators}
    (h : number owner front next known = .ok result) :
    ∃ next', ∀ back,
      number owner (front ++ back) next known = number owner back next' result := by
  induction front generalizing known next with
  | nil =>
      cases h
      exact ⟨next, fun back => rfl⟩
  | cons d front ih =>
      rw [number] at h
      split at h
      · cases h
      · next hcontains =>
          obtain ⟨next', hrest⟩ := ih h
          refine ⟨next', fun back => ?_⟩
          rw [List.cons_append, number, if_neg hcontains]
          exact hrest back

theorem Numbers.contains_iff (h : Numbers .empty next.toInt defs result) (name : String) :
    result.contains name = true ↔ name ∈ names defs := by
  rw [Dict.contains, Option.isSome_iff_exists, List.mem_iff_getElem?]
  constructor
  · rintro ⟨n, hn⟩
    obtain hempty | ⟨i, hi, -⟩ := (h name n).1 hn
    · cases hempty
    · exact ⟨i, hi⟩
  · rintro ⟨i, hi⟩
    have hlt : i < defs.length := by
      obtain ⟨hlt, -⟩ := List.getElem?_eq_some_iff.1 hi
      rwa [names, List.length_map] at hlt
    obtain ⟨n, hn⟩ := exists_countsTo next hlt
    exact ⟨n, (h name n).2 (.inr ⟨i, hi, hn⟩)⟩

/-- A position of distinct names has the ordinal that is counted there and no other. -/
theorem Numbers.find?_iff (h : Numbers .empty next.toInt defs result)
    (hnodup : (names defs).Nodup) {i : Nat} {name : String} (hi : (names defs)[i]? = some name)
    (n : Int64) : result.find? name = some n ↔ CountsTo next.toInt defs i n := by
  rw [h name n]
  constructor
  · rintro (hempty | ⟨j, hj, hn⟩)
    · cases hempty
    · have hlt : i < (names defs).length := (List.getElem?_eq_some_iff.1 hi).1
      obtain rfl := (List.getElem?_inj hlt hnodup).1 (hi.trans hj.symm)
      exact hn
  · intro hn
    exact .inr ⟨i, hi, hn⟩

/-- The first name that repeats an earlier one is refused. -/
theorem number_of_firstRepeat (owner : String) {name : String} (h : FirstRepeat defs name) :
    number owner defs next .empty = .error (Error.of (.duplicateMember owner name)) := by
  obtain ⟨before, explicit, after, rfl, hnodup, hname⟩ := h
  obtain ⟨known, hrun, hnumbers⟩ :=
    numbers_of_nodup owner next hnodup fun name _ => Dict.find?_empty name
  obtain ⟨next', hrest⟩ := number_append hrun
  rw [hrest, number, if_pos ((hnumbers.contains_iff name).2 hname)]

end Numbering

/-- The names are distinct, or one is the first to repeat an earlier one. -/
theorem nodup_or_firstRepeat (defs : Enumerators) :
    (names defs).Nodup ∨ ∃ name, FirstRepeat defs name := by
  -- From the front to the back, since a repeat looks back at the names before it.
  induction defs using List.reverseRecOn with
  | nil => exact .inl List.nodup_nil
  | append_singleton defs d ih =>
      obtain hnodup | ⟨name, before, explicit, after, rfl, hrepeat⟩ := ih
      · by_cases hd : d.1 ∈ names defs
        · exact .inr ⟨d.1, defs, d.2, [], rfl, hnodup, hd⟩
        · left
          rw [names, List.map_append, List.map_singleton, ← List.concat_eq_append]
          exact hnodup.concat hd
      · exact .inr ⟨name, before, explicit, after ++ [d], by simp, hrepeat⟩

end Enumerators

namespace Symbol

open Enumerators

theorem enum_of_nodup (name context : String) {defs : Enumerators} (h : (names defs).Nodup) :
    ∃ ordinals, Symbol.enum name context defs = .ok ⟨name, context, .enum ordinals⟩ ∧
      Numbers .empty (0 : Int64).toInt defs ordinals := by
  obtain ⟨ordinals, hrun, hnumbers⟩ :=
    numbers_of_nodup name 0 h fun name _ => Dict.find?_empty name
  refine ⟨ordinals, ?_, hnumbers⟩
  rw [Symbol.enum, hrun]
  rfl

theorem enum_of_firstRepeat (name context : String) {defs : Enumerators} {member : String}
    (h : FirstRepeat defs member) :
    Symbol.enum name context defs = .error (Error.of (.duplicateMember name member)) := by
  rw [Symbol.enum, number_of_firstRepeat name h]
  rfl

/-- An enum can be made exactly if the names of its enumerators are distinct.  Otherwise it is
refused for the first name that repeats an earlier one.  Its enumerators are the listed names, and
each has the ordinal that is counted at its position. -/
theorem enums_numbered (name context : String) (defs : Enumerators) :
    ((∃ symbol, Symbol.enum name context defs = .ok symbol) ↔ (names defs).Nodup) ∧
    (∀ err, Symbol.enum name context defs = .error err ↔
      ∃ member, FirstRepeat defs member ∧ err = Error.of (.duplicateMember name member)) ∧
    ∀ symbol, Symbol.enum name context defs = .ok symbol →
      ∃ ordinals, symbol = ⟨name, context, .enum ordinals⟩ ∧
        (∀ member, ordinals.contains member = true ↔ member ∈ names defs) ∧
        ∀ i member, (names defs)[i]? = some member →
          ∀ n, ordinals.find? member = some n ↔ CountsTo 0 defs i n := by
  have hnodup : ∀ symbol, Symbol.enum name context defs = .ok symbol → (names defs).Nodup := by
    intro symbol hsymbol
    obtain hnodup | ⟨member, hrepeat⟩ := nodup_or_firstRepeat defs
    · exact hnodup
    · rw [enum_of_firstRepeat name context hrepeat] at hsymbol
      cases hsymbol
  refine ⟨⟨?_, ?_⟩, ?_, ?_⟩
  · rintro ⟨symbol, hsymbol⟩
    exact hnodup symbol hsymbol
  · intro h
    obtain ⟨ordinals, henum, -⟩ := enum_of_nodup name context h
    exact ⟨_, henum⟩
  · intro err
    constructor
    · intro herr
      obtain h | ⟨member, hrepeat⟩ := nodup_or_firstRepeat defs
      · obtain ⟨ordinals, henum, -⟩ := enum_of_nodup name context h
        rw [henum] at herr
        cases herr
      · rw [enum_of_firstRepeat name context hrepeat] at herr
        cases herr
        exact ⟨member, hrepeat, rfl⟩
    · rintro ⟨member, hrepeat, rfl⟩
      exact enum_of_firstRepeat name context hrepeat
  · intro symbol hsymbol
    have h := hnodup symbol hsymbol
    obtain ⟨ordinals, henum, hnumbers⟩ := enum_of_nodup name context h
    rw [henum] at hsymbol
    cases hsymbol
    exact ⟨ordinals, rfl, hnumbers.contains_iff, fun i member hi => hnumbers.find?_iff h hi⟩

/-- At the end of the integer range the count goes on at its other end. -/
example :
    let defs := [("c", none), ("b", some 9223372036854775807), ("a", none)]
    (number "Level" defs 0 .empty).toOption.map Dict.entries =
      some [("a", -9223372036854775808), ("b", 9223372036854775807), ("c", 0)] := by
  decide

end Symbol
end ScriptCore
