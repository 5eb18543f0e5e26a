import Mathlib.Algebra.Group.Nat.Defs
import Mathlib.Data.List.Nodup
import Mathlib.Data.List.Perm.Subperm
import ScriptCore.Arena

/-!
# Slots of an arena

What the operations of an arena do to its slots, and which handles a slot answers to.  A slot
has given out the handles of all generations up to its own, its own included while it holds an
item; all but the last of them are stale.

**Views.**  `slot?` reads an arena by slot numbers.  `issuedAt` counts the handles that a slot
has given out and `vacatedAt` how often it was vacated; an item is there exactly when the first
count is ahead of the second (`item?_isSome_iff`).

**Invariant.**  `Tidy` says that the list of free slots has no repetitions and lists the vacant
slots and no others.  Every operation keeps it, also when a generation wraps around.
-/

namespace ScriptCore
namespace Arena

variable {α : Type}

/-- The slot with a number. -/
def slot? (a : Arena α) (k : UInt32) : Option (Slot α) := a.slots[k.toNat]?

/-- The number of handles that a slot has given out. -/
def issuedAt (a : Arena α) (k : UInt32) : Nat :=
  match a.slot? k with
  | some s => s.generation.toNat + if s.item.isSome then 1 else 0
  | none => 0

/-- The number of times that a slot was vacated. -/
def vacatedAt (a : Arena α) (k : UInt32) : Nat :=
  match a.slot? k with
  | some s => s.generation.toNat
  | none => 0

theorem item?_eq_some_iff {a : Arena α} {h : Handle} {x : α} :
    a.item? h = some x ↔
      h.arena = a.id ∧ a.slot? h.index = some ⟨h.generation, some x⟩ := by
  unfold item? slot?
  by_cases harena : h.arena = a.id
  · simp only [harena, if_true, true_and]
    cases hs : a.slots[h.index.toNat]? with
    | none => simp
    | some s =>
        cases s with
        | mk g item =>
            by_cases hg : g = h.generation
            · simp [hg]
            · simp [hg]
  · simp [harena]

/-- Only the handle given out last can name an item, and it does until the slot is vacated. -/
theorem item?_isSome_iff {a : Arena α} {h : Handle} :
    (a.item? h).isSome ↔
      h.arena = a.id ∧ a.vacatedAt h.index ≤ h.generation.toNat ∧
        h.generation.toNat < a.issuedAt h.index := by
  rw [Option.isSome_iff_exists]
  simp only [item?_eq_some_iff]
  unfold vacatedAt issuedAt
  cases hs : a.slot? h.index with
  | none => simp
  | some s =>
      obtain ⟨g, item⟩ := s
      have hg : g = h.generation ↔ g.toNat = h.generation.toNat := UInt32.toNat_inj.symm
      cases item with
      | none => simp
      | some x =>
          simp [hg]
          omega

/-- The free slots are the vacant ones, each listed once. -/
structure Tidy (a : Arena α) : Prop where
  slots_le : a.slots.size ≤ 2 ^ 32
  free_nodup : a.free.Nodup
  mem_free_iff : ∀ k, k ∈ a.free ↔ ∃ g, a.slot? k = some ⟨g, none⟩

theorem tidy_new (id : UInt32) : (new id : Arena α).Tidy where
  slots_le := Nat.zero_le _
  free_nodup := List.nodup_nil
  mem_free_iff := by simp [new, slot?]

theorem lt_size_of_slot? {a : Arena α} {k : UInt32} {s : Slot α} (hs : a.slot? k = some s) :
    k.toNat < a.slots.size :=
  (Array.getElem?_eq_some_iff.1 hs).1

/-- The number of items is a difference that cannot go below zero. -/
theorem Tidy.free_length_le {a : Arena α} (ha : a.Tidy) : a.free.length ≤ a.slots.size := by
  have hnodup : (a.free.map UInt32.toNat).Nodup := by
    refine ha.free_nodup.map ?_
    intro j k hjk
    exact UInt32.toNat_inj.1 hjk
  have hsub : a.free.map UInt32.toNat ⊆ List.range a.slots.size := by
    intro n hn
    obtain ⟨k, hk, rfl⟩ := List.mem_map.1 hn
    obtain ⟨g, hg⟩ := (ha.mem_free_iff k).1 hk
    exact List.mem_range.2 (lt_size_of_slot? hg)
  simpa using (List.subperm_of_subset hnodup hsub).length_le

theorem slot?_setSlot {a : Arena α} {k : UInt32} {s : Slot α} (hs : a.slot? k = some s)
    (t : Slot α) (j : UInt32) :
    (a.setSlot k t).slot? j = if j = k then some t else a.slot? j := by
  have hlt := lt_size_of_slot? hs
  unfold slot? setSlot
  rw [Array.getElem?_setIfInBounds]
  by_cases hjk : j = k
  · simp [hjk, hlt]
  · have hne : k.toNat ≠ j.toNat := fun e => hjk (UInt32.toNat_inj.1 e.symm)
    simp [hjk, hne]

/-- The number of a new slot is the number of slots so far. -/
theorem toNat_size_toUInt32 {a : Arena α} (hfull : a.slots.size < 2 ^ 32) :
    a.slots.size.toUInt32.toNat = a.slots.size := by
  simpa using Nat.mod_eq_of_lt hfull

theorem slot?_push {a : Arena α} (hfull : a.slots.size < 2 ^ 32) (t : Slot α) (j : UInt32) :
    ({ a with slots := a.slots.push t } : Arena α).slot? j =
      if j = a.slots.size.toUInt32 then some t else a.slot? j := by
  have hsize := toNat_size_toUInt32 hfull
  unfold slot?
  rw [Array.getElem?_push]
  by_cases hj : j = a.slots.size.toUInt32
  · rw [if_pos hj, if_pos (by rw [hj, hsize])]
  · rw [if_neg hj, if_neg]
    intro e
    exact hj (UInt32.toNat_inj.1 (e.trans hsize.symm))

/-- The second arena is the first one with another slot at one number. -/
structure Puts (a b : Arena α) (k : UInt32) (t : Slot α) : Prop where
  id_eq : b.id = a.id
  slot?_eq : ∀ j, b.slot? j = if j = k then some t else a.slot? j

namespace Puts

variable {a b : Arena α} {k : UInt32} {t : Slot α}

theorem issuedAt_eq (hput : Puts a b k t) (j : UInt32) :
    b.issuedAt j =
      if j = k then t.generation.toNat + (if t.item.isSome then 1 else 0) else a.issuedAt j := by
  unfold issuedAt
  rw [hput.slot?_eq]
  by_cases hj : j = k
  · simp [hj]
  · simp [hj]

theorem vacatedAt_eq (hput : Puts a b k t) (j : UInt32) :
    b.vacatedAt j = if j = k then t.generation.toNat else a.vacatedAt j := by
  unfold vacatedAt
  rw [hput.slot?_eq]
  by_cases hj : j = k
  · simp [hj]
  · simp [hj]

theorem item?_self {h : Handle} {x : α} (hput : Puts a b h.index ⟨h.generation, some x⟩)
    (harena : h.arena = a.id) : b.item? h = some x := by
  rw [item?_eq_some_iff, hput.id_eq, hput.slot?_eq, if_pos rfl]
  exact ⟨harena, rfl⟩

/-- A slot that holds items for one handle only, before and after, leaves all others alone. -/
theorem item?_of_ne {h g : Handle} (hput : Puts a b h.index t) (harena : h.arena = a.id)
    (hbefore : ∀ s, a.slot? h.index = some s → s.item.isSome → s.generation = h.generation)
    (hafter : t.item.isSome → t.generation = h.generation) (hne : g ≠ h) :
    b.item? g = a.item? g := by
  refine Option.ext fun x => ?_
  rw [item?_eq_some_iff, item?_eq_some_iff, hput.id_eq, hput.slot?_eq]
  by_cases hindex : g.index = h.index
  · have hgen : g.arena = a.id → g.generation ≠ h.generation := by
      intro hg e
      cases g
      cases h
      simp_all
    rw [if_pos hindex]
    constructor
    · rintro ⟨hg, ht⟩
      rw [Option.some.inj ht] at hafter
      exact absurd (hafter rfl) (hgen hg)
    · rintro ⟨hg, hs⟩
      exact absurd (hbefore _ (hindex ▸ hs) rfl) (hgen hg)
  · rw [if_neg hindex]

end Puts

/-- What an insertion does: the handle is the next one of a vacant or new slot. -/
structure Inserted (a b : Arena α) (x : α) (h : Handle) : Prop where
  puts : Puts a b h.index ⟨h.generation, some x⟩
  arena_eq : h.arena = a.id
  vacant : ∀ s, a.slot? h.index = some s → s.item = none
  issuedAt_eq : a.issuedAt h.index = h.generation.toNat
  vacatedAt_eq : a.vacatedAt h.index = h.generation.toNat
  tidy : b.Tidy
  balance : b.slots.size + a.free.length = a.slots.size + b.free.length + 1

/-- The slot of an insertion was vacant, so no other handle named an item in it. -/
theorem Inserted.item?_of_ne {a b : Arena α} {x : α} {h g : Handle} (hin : Inserted a b x h)
    (hne : g ≠ h) : b.item? g = a.item? g := by
  refine hin.puts.item?_of_ne hin.arena_eq ?_ (fun _ => rfl) hne
  intro s hs hsome
  rw [hin.vacant s hs] at hsome
  cases hsome

theorem tidy_of_puts {a b : Arena α} {k : UInt32} {t : Slot α} (ha : a.Tidy)
    (hput : Puts a b k t) (hsize : b.slots.size ≤ 2 ^ 32) (hnodup : b.free.Nodup)
    (hfree : ∀ j, j ∈ b.free ↔ if j = k then t.item = none else j ∈ a.free) : b.Tidy where
  slots_le := hsize
  free_nodup := hnodup
  mem_free_iff := by
    intro j
    rw [hfree, hput.slot?_eq]
    by_cases hj : j = k
    · obtain ⟨g, item⟩ := t
      simp [hj]
    · rw [if_neg hj, if_neg hj]
      exact ha.mem_free_iff j

/-- An insertion succeeds unless the arena is full. -/
theorem insert_spec {a : Arena α} (ha : a.Tidy) (x : α) :
    (∃ h b, insert x a = (.ok h, b) ∧ Inserted a b x h) ∨
      (2 ^ 32 ≤ a.slots.size ∧
        insert x a = (.error (Error.of (.custom "native handle arena is full")), a)) := by
  cases hfree : a.free with
  | nil =>
      have hinsert : insert x a = insertFresh x a := by simp only [insert, hfree]
      rw [hinsert]
      by_cases hfull : a.slots.size < 2 ^ 32
      · refine Or.inl ⟨⟨a.id, a.slots.size.toUInt32, 0⟩,
          { a with slots := a.slots.push ⟨0, some x⟩ }, ?_, ?_⟩
        · exact if_pos hfull
        · have hput : Puts a { a with slots := a.slots.push ⟨0, some x⟩ }
              a.slots.size.toUInt32 ⟨0, some x⟩ := ⟨rfl, slot?_push hfull _⟩
          have hnone : a.slot? a.slots.size.toUInt32 = none := by
            unfold slot?
            rw [toNat_size_toUInt32 hfull, Array.getElem?_eq_none (Nat.le_refl _)]
          refine ⟨hput, rfl, by simp [hnone], by simp [issuedAt, hnone],
            by simp [vacatedAt, hnone], ?_, by simp [hfree]⟩
          refine tidy_of_puts ha hput ?_ ha.free_nodup ?_
          · rw [Array.size_push]
            exact hfull
          · intro j
            simp [hfree]
      · exact Or.inr ⟨Nat.not_lt.1 hfull, if_neg hfull⟩
  | cons k free =>
      obtain ⟨g, hg⟩ := (ha.mem_free_iff k).1 (by simp [hfree])
      have hslot : a.slots[k.toNat]? = some ⟨g, none⟩ := hg
      have hnodup : (k :: free).Nodup := hfree ▸ ha.free_nodup
      obtain ⟨hk, hrest⟩ := List.nodup_cons.1 hnodup
      refine Or.inl ⟨⟨a.id, k, g⟩, { a.setSlot k ⟨g, some x⟩ with free }, ?_, ?_⟩
      · simp [insert, hfree, hslot, handleOf]
      · have hput : Puts a { a.setSlot k ⟨g, some x⟩ with free } k ⟨g, some x⟩ :=
          ⟨rfl, slot?_setSlot hg _⟩
        refine ⟨hput, rfl, by simp [hg], by simp [issuedAt, hg], by simp [vacatedAt, hg], ?_, ?_⟩
        · refine tidy_of_puts ha hput ?_ hrest ?_
          · simpa [setSlot] using ha.slots_le
          · intro j
            by_cases hj : j = k
            · simp [hj, hk]
            · simp [hfree, hj]
        · simp [setSlot, hfree, Nat.add_assoc]

theorem modify_of_none {a : Arena α} {h : Handle} (hnone : a.item? h = none) (f : α → α) :
    modify h f a = (.error (Error.of .staleHandle), a) := by
  simp [modify, hnone]

theorem remove_of_none {a : Arena α} {h : Handle} (hnone : a.item? h = none) :
    remove h a = (.error (Error.of .staleHandle), a) := by
  simp [remove, hnone]

/-- A change through a handle that names an item puts the changed item in its place. -/
theorem modify_spec {a : Arena α} (ha : a.Tidy) {h : Handle} {x : α} (hx : a.item? h = some x)
    (f : α → α) :
    ∃ b, modify h f a = (.ok (f x), b) ∧ Puts a b h.index ⟨h.generation, some (f x)⟩ ∧
      b.Tidy ∧ b.slots.size = a.slots.size ∧ b.free = a.free := by
  obtain ⟨-, hslot⟩ := item?_eq_some_iff.1 hx
  have hput : Puts a (a.setSlot h.index ⟨h.generation, some (f x)⟩) h.index
      ⟨h.generation, some (f x)⟩ := ⟨rfl, slot?_setSlot hslot _⟩
  have hsize : (a.setSlot h.index ⟨h.generation, some (f x)⟩).slots.size = a.slots.size := by
    simp [setSlot]
  refine ⟨_, by simp [modify, hx], hput, ?_, hsize, rfl⟩
  refine tidy_of_puts ha hput (hsize ▸ ha.slots_le) ha.free_nodup ?_
  intro j
  by_cases hj : j = h.index
  · have hnot : h.index ∉ a.free := by
      rw [ha.mem_free_iff, hslot]
      simp
    simpa [hj, setSlot] using hnot
  · simp [hj, setSlot]

/-- A removal through a handle that names an item vacates its slot. -/
theorem remove_spec {a : Arena α} (ha : a.Tidy) {h : Handle} {x : α} (hx : a.item? h = some x) :
    ∃ b, remove h a = (.ok x, b) ∧ Puts a b h.index ⟨h.generation + 1, none⟩ ∧
      b.Tidy ∧ b.slots.size = a.slots.size ∧ b.free.length = a.free.length + 1 := by
  obtain ⟨-, hslot⟩ := item?_eq_some_iff.1 hx
  have hput : Puts a { a.setSlot h.index ⟨h.generation + 1, none⟩ with free := h.index :: a.free }
      h.index ⟨h.generation + 1, none⟩ := ⟨rfl, slot?_setSlot hslot _⟩
  have hnot : h.index ∉ a.free := by
    rw [ha.mem_free_iff, hslot]
    simp
  refine ⟨_, by simp [remove, hx], hput, ?_, by simp [setSlot], by simp⟩
  refine tidy_of_puts ha hput (by simpa [setSlot] using ha.slots_le)
    (List.nodup_cons.2 ⟨hnot, ha.free_nodup⟩) ?_
  intro j
  by_cases hj : j = h.index
  · simp [hj]
  · simp [hj]

end Arena
end ScriptCore
