import Mathlib.Data.List.Induction
import Mathlib.Data.List.Nodup
import ScriptCore.Heap.Sequence
import ScriptCore.Proofs.Dictionaries
import ScriptCore.Proofs.Numerals

/-!
# Lists read back from objects

An object that lists cells has the positions as its keys, and a dictionary keeps its keys in the
order of texts, where `10` stands before `2`.  Reading sorts by the number that a key denotes.

**Method.**  A dictionary made of pairs with different keys has those pairs as its entries, in some
order (`Dict.entries_ofList`).  The keys of a list denote different positions, so sorting brings the
entries back into the order of the list.

**Order.**  Sorting is stable: entries are ordered by the number first, and among those with one
number as before (`pairwise_mergeSort_stable`).

**Results.**
* `position?_toString`: a numeral denotes the number that it was written for.
* `Dict.find?_ofItems`, `Dict.items_ofItems_take`: a list read by position, and as a whole.
-/

namespace ScriptCore

theorem Integer.readNat?_toString (n : Nat) : Integer.readNat? (toString n) = some n :=
  Integer.readNat?_eq_some_iff.2 (Numeral.denotesNat_toString n)

theorem toString_inj {m n : Nat} (h : toString m = toString n) : m = n := by
  have hread := Integer.readNat?_toString m
  rw [h, Integer.readNat?_toString] at hread
  exact (Option.some.inj hread).symm

theorem position?_toString {n : Nat} (h : n < 2 ^ 64) : position? (toString n) = some n := by
  unfold position?
  rw [Integer.readNat?_toString]
  exact Option.filter_some_pos (by simpa using h)

theorem position?_toString_of_le {n : Nat} (h : 2 ^ 64 ≤ n) : position? (toString n) = none := by
  unfold position?
  rw [Integer.readNat?_toString]
  exact Option.filter_some_neg (by simpa using h)

/-- A stable sort by a number: where the number is the same, the order is as before. -/
theorem pairwise_mergeSort_stable {β : Type} {position : β → Nat} {R : β → β → Prop} {l : List β}
    (h : l.Pairwise R) :
    (l.mergeSort fun p q => decide (position p ≤ position q)).Pairwise fun p q =>
      position p < position q ∨ position p = position q ∧ R p q := by
  have htrans : ∀ p q r : β, decide (position p ≤ position q) = true →
      decide (position q ≤ position r) = true → decide (position p ≤ position r) = true := by
    intro p q r hpq hqr
    simp only [decide_eq_true_eq] at *
    omega
  have htotal : ∀ p q : β,
      (decide (position p ≤ position q) || decide (position q ≤ position p)) = true := by
    intro p q
    simp only [Bool.or_eq_true, decide_eq_true_eq]
    omega
  induction l with
  | nil => simp
  | cons p l ih =>
      obtain ⟨hp, hl⟩ := List.pairwise_cons.1 h
      -- The first element goes behind those with smaller numbers and before all others.
      obtain ⟨l₁, l₂, hcons, hsorted, hbefore⟩ := List.mergeSort_cons htrans htotal p l
      have hafter := List.pairwise_mergeSort htrans htotal (p :: l)
      have hrest := ih hl
      rw [hsorted] at hrest
      rw [hcons] at hafter ⊢
      have hmem : ∀ q ∈ l₂, q ∈ l := by
        intro q hq
        refine (List.mergeSort_perm l fun p q => decide (position p ≤ position q)).subset ?_
        rw [hsorted]
        exact List.mem_append_right l₁ hq
      obtain ⟨hfront, hback, hcross⟩ := List.pairwise_append.1 hrest
      refine List.pairwise_append.2 ⟨hfront, List.pairwise_cons.2 ⟨fun q hq => ?_, hback⟩, ?_⟩
      · have hle : decide (position p ≤ position q) = true :=
          (List.pairwise_cons.1 (List.pairwise_append.1 hafter).2.1).1 q hq
        have hR := hp q (hmem q hq)
        simp only [decide_eq_true_eq] at hle
        rcases Nat.lt_or_eq_of_le hle with hlt | heq
        · exact Or.inl hlt
        · exact Or.inr ⟨heq, hR⟩
      · intro b hb q hq
        rcases List.mem_cons.1 hq with rfl | hq
        · have hnot := hbefore b hb
          simp only [Bool.not_eq_true', decide_eq_false_iff_not, Nat.not_le] at hnot
          exact Or.inl hnot
        · exact hcross b hb q hq

/-- Sorting by numbers brings entries into the order in which their numbers increase. -/
theorem mergeSort_eq_of_perm {α : Type} {l sorted : List (Nat × α)} (hperm : l.Perm sorted)
    (hsorted : (sorted.map Prod.fst).Pairwise (· < ·)) :
    (l.mergeSort fun p q => decide (p.1 ≤ q.1)) = sorted := by
  have hmerge : (l.mergeSort fun p q => decide (p.1 ≤ q.1)).Pairwise
      fun p q => decide (p.1 ≤ q.1) = true := by
    have hany : l.Pairwise fun _ _ => True := List.pairwise_of_forall fun _ _ => trivial
    exact (pairwise_mergeSort_stable hany).imp fun hpq => decide_eq_true (by omega)
  have hle : sorted.Pairwise fun p q => decide (p.1 ≤ q.1) = true :=
    (List.pairwise_map.1 hsorted).imp fun hlt => decide_eq_true (Nat.le_of_lt hlt)
  have hmem := (List.mergeSort_perm l fun p q => decide (p.1 ≤ q.1)).trans hperm
  refine List.Perm.eq_of_pairwise ?_ hmerge hle hmem
  intro p q hp hq hpq hqp
  have hnodup : (sorted.map Prod.fst).Nodup := hsorted.imp Nat.ne_of_lt
  simp only [decide_eq_true_eq] at hpq hqp
  exact List.inj_on_of_nodup_map hnodup (hmem.subset hp) hq (Nat.le_antisymm hpq hqp)

namespace Dict

variable {α : Type}

theorem insertEntry_perm {name : String} (a : α) {l : List (String × α)}
    (h : ∀ p ∈ l, p.1 ≠ name) : (insertEntry name a l).Perm ((name, a) :: l) := by
  induction l with
  | nil => exact .refl _
  | cons p l ih =>
      obtain ⟨n, b⟩ := p
      have hne : name ≠ n := fun e => h (n, b) List.mem_cons_self e.symm
      have hrest := ih fun q hq => h q (List.mem_cons_of_mem _ hq)
      unfold insertEntry
      rw [if_neg hne]
      split
      · exact .refl _
      · exact (hrest.cons (n, b)).trans (.swap _ _ _)

/-- Pairs with different names are the entries of their dictionary. -/
theorem entries_ofList {pairs : List (String × α)} (h : (pairs.map Prod.fst).Nodup) :
    (ofList pairs).entries.Perm pairs := by
  induction pairs using List.reverseRecOn with
  | nil => exact .refl _
  | append_singleton pairs p ih =>
      rw [List.map_append, List.nodup_append'] at h
      obtain ⟨hpairs, -, hdisjoint⟩ := h
      have hentries := ih hpairs
      have hnew : ∀ q ∈ (ofList pairs).entries, q.1 ≠ p.1 := by
        intro q hq he
        exact hdisjoint (List.mem_map_of_mem (hentries.subset hq)) (by simp [he])
      have hlast : ofList (pairs ++ [p]) = (ofList pairs).insert p.1 p.2 := by
        simp [ofList, List.foldl_append]
      rw [hlast]
      have hfront : ((ofList pairs).insert p.1 p.2).entries.Perm (p :: (ofList pairs).entries) :=
        insertEntry_perm p.2 hnew
      exact (hfront.trans (hentries.cons p)).trans (List.perm_append_singleton p pairs).symm

theorem find?_ofList_eq_some_iff {pairs : List (String × α)} (h : (pairs.map Prod.fst).Nodup)
    {name : String} {a : α} : (ofList pairs).find? name = some a ↔ (name, a) ∈ pairs := by
  rw [find?_eq_some_iff, (entries_ofList h).mem_iff]

section Items

variable (items : List α)

theorem ofItems_eq_ofList :
    ofItems items = ofList (((List.range items.length).map toString).zip items) := by
  unfold ofItems
  congr 1
  apply List.ext_getElem
  · simp
  · intro i hi hi'
    simp

theorem nodup_positions :
    ((items.zipIdx.map fun p => (toString p.2, p.1)).map Prod.fst).Nodup := by
  have hkeys : (items.zipIdx.map fun p => (toString p.2, p.1)).map Prod.fst =
      (items.zipIdx.map Prod.snd).map toString := by
    rw [List.map_map, List.map_map]
    rfl
  rw [hkeys, List.zipIdx_map_snd]
  exact List.Nodup.map (fun _ _ h => toString_inj h) List.nodup_range'

theorem find?_ofItems (i : Nat) : (ofItems items).find? (toString i) = items[i]? := by
  apply Option.ext
  intro a
  rw [ofItems, find?_ofList_eq_some_iff (nodup_positions items)]
  constructor
  · intro hmem
    obtain ⟨p, hp, heq⟩ := List.mem_map.1 hmem
    obtain ⟨hkey, rfl⟩ := Prod.mk.inj heq
    obtain rfl := toString_inj hkey
    exact List.mem_zipIdx_iff_getElem?.1 hp
  · intro hget
    exact List.mem_map.2 ⟨(a, i), List.mem_zipIdx_iff_getElem?.2 hget, rfl⟩

/-- Positions behind the last word are not read. -/
theorem positioned_ofItems :
    ((ofItems items).entries.filterMap fun p => (position? p.1).map fun i => (i, p.2)).Perm
      ((items.take (2 ^ 64)).zipIdx.map Prod.swap) := by
  have hsplit : items.zipIdx = (items.take (2 ^ 64)).zipIdx ++
      (items.drop (2 ^ 64)).zipIdx (0 + (items.take (2 ^ 64)).length) := by
    rw [← List.zipIdx_append, List.take_append_drop]
  refine ((entries_ofList (nodup_positions items)).filterMap _).trans (.of_eq ?_)
  rw [List.filterMap_map, hsplit, List.filterMap_append, ← List.filterMap_eq_map]
  have hback : (List.filterMap ((fun p : String × α => (position? p.1).map fun i => (i, p.2)) ∘
      fun p : α × Nat => (toString p.2, p.1))
      ((items.drop (2 ^ 64)).zipIdx (0 + (items.take (2 ^ 64)).length))) = [] := by
    refine List.filterMap_eq_nil_iff.2 fun p hp => ?_
    obtain ⟨hle, hlt, -⟩ := List.mem_zipIdx hp
    rw [List.length_take] at hle hlt
    rw [List.length_drop] at hlt
    show (position? (toString p.2)).map _ = none
    rw [position?_toString_of_le (by omega)]
    rfl
  rw [hback, List.append_nil]
  refine List.filterMap_congr fun p hp => ?_
  obtain ⟨hlt, -⟩ := List.getElem?_eq_some_iff.1 (List.mem_zipIdx_iff_getElem?.1 hp)
  rw [List.length_take] at hlt
  show (position? (toString p.2)).map _ = some p.swap
  rw [position?_toString (by omega)]
  rfl

/-- A list is read back as far as positions are words. -/
theorem items_ofItems_take : (ofItems items).items = items.take (2 ^ 64) := by
  have hpositions : ((items.take (2 ^ 64)).zipIdx.map Prod.swap).map Prod.fst =
      List.range' 0 (items.take (2 ^ 64)).length := by
    rw [List.map_map, ← List.zipIdx_map_snd]
    rfl
  have hascending :
      (((items.take (2 ^ 64)).zipIdx.map Prod.swap).map Prod.fst).Pairwise (· < ·) := by
    rw [hpositions]
    exact List.pairwise_lt_range' 1
  unfold Dict.items
  simp only [mergeSort_eq_of_perm (positioned_ofItems items) hascending, List.map_map]
  exact List.zipIdx_map_fst 0 _

/-- A list of at most `2 ^ 64` entries is read back as it was. -/
theorem items_ofItems (h : items.length ≤ 2 ^ 64) : (ofItems items).items = items := by
  rw [items_ofItems_take, List.take_of_length_le h]

end Items

end Dict

theorem nodup_numerals (n : Nat) : ((List.range n).map toString).Nodup :=
  List.Nodup.map (fun _ _ h => toString_inj h) List.nodup_range

namespace Heap

/-- The cell lists the given cells: it has them under their positions, and as long as positions
are words it is read back as the list. -/
def Lists (h : Heap) (c : CellId) (cells : List CellId) : Prop :=
  (∀ i : Nat, h.lookup? c (toString i) = cells[i]?) ∧
    (cells.length ≤ 2 ^ 64 → h.listItems c = .ok cells)

/-- The cell lists cells with the given texts. -/
def ListsTexts (h : Heap) (c : CellId) (texts : List String) : Prop :=
  ∃ cells, h.Lists c cells ∧ cells.map h.read = texts.map Value.string

theorem lists_of_read {h : Heap} {c : CellId} {cells : List CellId}
    (hread : h.read c = .object (Dict.ofItems cells)) : h.Lists c cells := by
  constructor
  · intro i
    unfold lookup?
    rw [hread]
    exact Dict.find?_ofItems cells i
  · intro hlength
    unfold listItems
    rw [hread]
    exact congrArg Except.ok (Dict.items_ofItems cells hlength)

end Heap
end ScriptCore
