/-!
# Marks

A search through a graph marks what it has met and opens nothing twice.  It ends because it
can mark only finitely many things: `unmarked` counts those that are left, and marking one of
them leaves fewer.
-/

namespace ScriptCore

universe u

variable {κ : Type u}

/-- The number of members of a list that are not marked. -/
def unmarked (all : List κ) (marked : κ → Bool) : Nat := all.countP fun k => !marked k

section

variable {marked marked' : κ → Bool} (hmore : ∀ k, marked k = true → marked' k = true)
include hmore

theorem unmarked_le (all : List κ) : unmarked all marked' ≤ unmarked all marked := by
  refine List.countP_mono_left fun k _ hk => ?_
  cases hmarked : marked k with
  | false => rfl
  | true =>
      rw [hmore k hmarked] at hk
      cases hk

/-- Marking a member that was not marked leaves fewer unmarked members. -/
theorem unmarked_lt {k : κ} (hk : marked k = false) (hk' : marked' k = true) :
    ∀ {all : List κ}, k ∈ all → unmarked all marked' < unmarked all marked
  | x :: all, hmem => by
      unfold unmarked
      rw [List.countP_cons, List.countP_cons]
      rcases List.mem_cons.1 hmem with rfl | hmem
      · have hle := unmarked_le hmore all
        unfold unmarked at hle
        rw [hk, hk']
        exact Nat.lt_succ_of_le hle
      · have ih := unmarked_lt hk hk' hmem
        unfold unmarked at ih
        cases hx : marked x with
        | true =>
            rw [hmore x hx]
            exact ih
        | false => cases marked' x <;> simp <;> omega

end

end ScriptCore
