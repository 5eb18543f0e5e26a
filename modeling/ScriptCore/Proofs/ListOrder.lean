import ScriptCore.Proofs.Sequences

/-!
# The order of list entries

The entries of a list-shaped map come in the order of the numbers that their keys denote.  Several
keys may denote one number, such as `1`, `01` and `+1`; their entries keep the order of the map,
which is the order of the keys.

**Places.**  `Place` is an entry with its key and the number of the key.  Sorting the places and
forgetting the keys gives what sorting the entries gives (`Dict.items_eq_map_entry`), and with the
keys at hand the order can be said in full.

**Order.**  The places of a map are in the order of the keys before they are sorted, and sorting is
stable (`Dict.placesInOrder_pairwise`).  Numerals have small characters, for which the order of
texts is the order of their bytes (`bytes_lt_of_lt`).

**Results.**
* `Heap.lists_in_order`: a list is read back as it was, and the entries of any map are read in the
  order of their keys' numbers.
-/

namespace ScriptCore

open Numeral

/-- The bytes of a text. -/
def bytes (text : String) : List UInt8 := text.toUTF8.data.toList

theorem bytes_eq_flatMap (text : String) :
    bytes text = text.toList.flatMap String.utf8EncodeChar := by
  have hencode : text.toUTF8 = text.toList.utf8Encode := by
    conv_lhs => rw [← String.ofList_toList (s := text)]
    exact String.toByteArray_ofList
  rw [bytes, hencode, List.utf8Encode, List.data_toByteArray, List.toList_toArray]

theorem bytes_of_ascii {text : String} (h : ∀ c ∈ text.toList, c.toNat < 128) :
    bytes text = text.toList.map Char.toUInt8 := by
  rw [bytes_eq_flatMap, List.map_eq_flatMap]
  refine List.flatMap_congr fun c hc => String.utf8EncodeChar_eq_singleton ?_
  rw [Char.utf8Size_eq_one_iff, UInt32.le_iff_toNat_le]
  exact Nat.le_of_lt_succ (h c hc)

theorem map_toUInt8_lt {cs ds : List Char} (hcs : ∀ c ∈ cs, c.toNat < 128)
    (hds : ∀ c ∈ ds, c.toNat < 128) (h : cs < ds) :
    cs.map Char.toUInt8 < ds.map Char.toUInt8 := by
  induction cs generalizing ds with
  | nil =>
      cases ds with
      | nil => exact absurd h (List.lt_irrefl _)
      | cons d ds => exact List.nil_lt_cons _ _
  | cons c cs ih =>
      cases ds with
      | nil => exact absurd h (List.not_lt_nil _)
      | cons d ds =>
          rw [List.map_cons, List.map_cons, List.cons_lt_cons_iff]
          rcases List.cons_lt_cons_iff.1 h with hlt | ⟨rfl, hlt⟩
          · left
            have hc := hcs c List.mem_cons_self
            have hd := hds d List.mem_cons_self
            have hlt' : c.toNat < d.toNat := hlt
            rw [UInt8.lt_iff_toNat_lt]
            show c.toNat % 2 ^ 8 < d.toNat % 2 ^ 8
            omega
          · exact Or.inr ⟨rfl, ih (List.forall_mem_cons.1 hcs).2 (List.forall_mem_cons.1 hds).2 hlt⟩

theorem bytes_lt_of_lt {a b : String} (ha : ∀ c ∈ a.toList, c.toNat < 128)
    (hb : ∀ c ∈ b.toList, c.toNat < 128) (h : a < b) : bytes a < bytes b := by
  rw [bytes_of_ascii ha, bytes_of_ascii hb]
  exact map_toUInt8_lt ha hb h

/-- The characters of a natural numeral are small. -/
theorem ascii_of_denotesNat {text : String} {n : Nat} (h : DenotesNat text n) :
    ∀ c ∈ text.toList, c.toNat < 128 := by
  obtain ⟨s, ds, htext, hs, hds, -⟩ := h
  intro c hc
  rw [htext] at hc
  rcases List.mem_append.1 hc with hc | hc
  · rcases mem_optional.1 hs with rfl | rfl
    · cases hc
    · rw [List.mem_singleton.1 hc]
      decide
  · have hdigit := mem_digit_iff.2 ((mem_digits.1 hds).2 c hc)
    have hall : ∀ d ∈ ['0', '1', '2', '3', '4', '5', '6', '7', '8', '9'], d.toNat < 128 := by simp
    exact hall c hdigit

theorem position?_eq_some_iff {key : String} {n : Nat} :
    position? key = some n ↔ DenotesNat key n ∧ n < 2 ^ 64 := by
  have hsize : UInt64.size = 2 ^ 64 := rfl
  rw [position?, Option.filter_eq_some_iff, Integer.readNat?_eq_some_iff, decide_eq_true_eq, hsize]

/-- An entry of a list-shaped map, with its key and the number that the key denotes. -/
structure Place (α : Type) where
  position : Nat
  key : String
  entry : α

namespace Dict

variable {α : Type}

/-- The places of a map in the order of the keys. -/
def places (m : Dict α) : List (Place α) :=
  m.entries.filterMap fun p => (position? p.1).map fun i => ⟨i, p.1, p.2⟩

/-- The places of a map in the order of the numbers. -/
def placesInOrder (m : Dict α) : List (Place α) :=
  m.places.mergeSort fun p q => decide (p.position ≤ q.position)

theorem mem_places {m : Dict α} {p : Place α} :
    p ∈ m.places ↔
      m.find? p.key = some p.entry ∧ DenotesNat p.key p.position ∧ p.position < 2 ^ 64 := by
  rw [places, List.mem_filterMap, ← position?_eq_some_iff, find?_eq_some_iff]
  constructor
  · rintro ⟨⟨key, a⟩, hmem, hp⟩
    obtain ⟨i, hi, rfl⟩ := Option.map_eq_some_iff.1 hp
    exact ⟨hmem, hi⟩
  · rintro ⟨hmem, hposition⟩
    exact ⟨(p.key, p.entry), hmem, Option.map_eq_some_iff.2 ⟨p.position, hposition, rfl⟩⟩

theorem places_ascending (m : Dict α) : m.places.Pairwise fun p q => p.key < q.key := by
  refine List.Pairwise.filterMap _ (fun p q hpq x hx y hy => ?_) m.ascending
  obtain ⟨i, -, rfl⟩ := Option.map_eq_some_iff.1 hx
  obtain ⟨j, -, rfl⟩ := Option.map_eq_some_iff.1 hy
  exact hpq

theorem mem_placesInOrder {m : Dict α} {p : Place α} : p ∈ m.placesInOrder ↔ p ∈ m.places :=
  (List.mergeSort_perm _ _).mem_iff

theorem nodup_keys_placesInOrder (m : Dict α) : (m.placesInOrder.map Place.key).Nodup := by
  have hkeys : (m.places.map Place.key).Nodup := by
    refine List.pairwise_map.2 (m.places_ascending.imp ?_)
    intro p q hlt heq
    rw [heq] at hlt
    exact String.lt_irrefl _ hlt
  exact ((List.mergeSort_perm m.places _).map Place.key).nodup_iff.2 hkeys

/-- Listing the entries is sorting the places and forgetting the keys. -/
theorem items_eq_map_entry (m : Dict α) : m.items = m.placesInOrder.map Place.entry := by
  have hforget : (m.entries.filterMap fun p => (position? p.1).map fun i => (i, p.2)) =
      m.places.map fun p => (p.position, p.entry) := by
    rw [places, List.map_filterMap]
    refine List.filterMap_congr fun p _ => ?_
    rw [Option.map_map]
    rfl
  have hsort : (m.places.map fun p => (p.position, p.entry)).mergeSort
      (fun p q => decide (p.1 ≤ q.1)) = m.placesInOrder.map fun p => (p.position, p.entry) := by
    symm
    apply List.map_mergeSort
    intro p _ q _
    rfl
  unfold items
  rw [hforget]
  show List.map Prod.snd (List.mergeSort _ fun p q => decide (p.1 ≤ q.1)) = _
  rw [hsort, List.map_map]
  rfl

theorem placesInOrder_pairwise (m : Dict α) :
    m.placesInOrder.Pairwise fun p q =>
      p.position < q.position ∨ p.position = q.position ∧ bytes p.key < bytes q.key := by
  have hbytes : m.places.Pairwise fun p q => bytes p.key < bytes q.key := by
    refine m.places_ascending.imp_of_mem fun hp hq hlt => ?_
    exact bytes_lt_of_lt (ascii_of_denotesNat (mem_places.1 hp).2.1)
      (ascii_of_denotesNat (mem_places.1 hq).2.1) hlt
  exact pairwise_mergeSort_stable hbytes

example : (ofList [("10", 0), ("2", 1), ("01", 2), ("+1", 3), ("-0", 4)]).items = [3, 2, 1, 0] := by
  cbv

end Dict

namespace Heap

/-- A new list is read back as it was, as far as its positions are words of eight bytes.  From any
map, the entry of each key that is a natural numeral below `2 ^ 64` is listed once and no other
entry, in the order of the numbers, and where these are the same in the order of the bytes of the
keys. -/
theorem lists_in_order (h : Heap) (cells : List CellId) (m : Dict CellId) :
    (allocList cells h).2.listItems (allocList cells h).1 = .ok (cells.take (2 ^ 64)) ∧
    (cells.length ≤ 2 ^ 64 →
      (allocList cells h).2.listItems (allocList cells h).1 = .ok cells) ∧
    ∃ places : List (Place CellId), m.items = places.map Place.entry ∧
      (places.map Place.key).Nodup ∧
      (∀ p, p ∈ places ↔ m.find? p.key = some p.entry ∧ DenotesNat p.key p.position ∧
        p.position < 2 ^ 64) ∧
      places.Pairwise fun p q =>
        p.position < q.position ∨ p.position = q.position ∧ bytes p.key < bytes q.key := by
  have hread := read_alloc h (.object (.ofItems cells)) h.next
  rw [if_pos rfl] at hread
  have hlist : (allocList cells h).2.listItems (allocList cells h).1 =
      .ok (cells.take (2 ^ 64)) := by
    rw [listItems, ← Dict.items_ofItems_take]
    show (((alloc (.object (.ofItems cells))).run h).2.read h.next).map.map Dict.items = _
    rw [hread]
    rfl
  refine ⟨hlist, fun hlength => ?_, m.placesInOrder, m.items_eq_map_entry,
    m.nodup_keys_placesInOrder, fun p => Dict.mem_placesInOrder.trans Dict.mem_places,
    m.placesInOrder_pairwise⟩
  rw [hlist, List.take_of_length_le hlength]

end Heap
end ScriptCore
