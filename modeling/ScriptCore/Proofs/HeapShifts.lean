import ScriptCore.Proofs.NewCells
import ScriptCore.Proofs.Renamings

/-!
# The same work in a larger heap

Work that adds cells to a heap can also be done in a larger heap, one that has the old cells with
their values and others beside them.  The new cells are then at other positions, and that is all
that is different: cells are made in order, so each position is moved by the same distance.

**Shifting.**  `Heap.shift h g` leaves the cells of `h` where they are and moves those behind `h`
behind `g`.  `Shifted h g h₁ g₁`: the heap `h₁` has grown out of `h` as `g₁` has out of `g`, and a
moved cell has the moved value.

**Method.**  Allocations keep the relation (`Shifted.alloc`), and so does filling a new cell
(`Shifted.write`).  A copy is made of these two: copies of a cell and of the moved cell meet the
same cells in the same order, stage by stage (`Copying.Parallel`).  Everything that is made of
allocations and copies follows.

**Results.**
* `Shifted.refl`: where all begins, for a closed heap.
* `Shifted.copy`, `shifted_write`, `shifted_instantiate`: copies, reports and instances.
* `Shifted.isomorphic`: the graphs below a cell and the moved cell are isomorphic.
-/

namespace ScriptCore

namespace Heap

/-- Cells of the first heap stay, and cells behind it move behind the second. -/
def shift (h g : Heap) (c : CellId) : CellId :=
  if h.Has c then c else ⟨c.index - h.size + g.size⟩

@[simp] theorem size_alloc (v : Value) (h : Heap) : (alloc v h).2.size = h.size + 1 := by
  simp [alloc, size]

theorem Closed.alloc {h : Heap} (hh : h.Closed) {v : Value} (hv : ∀ d ∈ v.children, h.Has d) :
    (alloc v h).2.Closed := by
  have hstep := (ChangesWithin.refl h.Has h).alloc fun d hd => .inl (hv d hd)
  intro x y hxy
  rcases hstep.refers x y hxy with hold | hy | hnew
  · exact hstep.has y (hh x y hold)
  · exact hstep.has y hy
  · exact hnew.2

theorem Extends.size_le {h g : Heap} (hg : h.Extends g) : h.size ≤ g.size := by
  by_contra hlt
  have hlast : h.Has ⟨g.size⟩ := Nat.lt_of_not_le hlt
  exact Nat.lt_irrefl _ (hg.has _ hlast)

section Shifting

variable {h g : Heap} {c d : CellId}

theorem shift_of_has (hc : h.Has c) : shift h g c = c := if_pos hc

theorem shift_of_not_has (hc : ¬ h.Has c) : shift h g c = ⟨c.index - h.size + g.size⟩ := if_neg hc

theorem not_has_shift (hc : ¬ h.Has c) : ¬ g.Has (shift h g c) := by
  rw [shift_of_not_has hc]
  exact Nat.not_lt.2 (Nat.le_add_left _ _)

theorem shift_injective (hle : h.size ≤ g.size) : Function.Injective (shift h g) := by
  rintro ⟨i⟩ ⟨j⟩ heq
  by_cases hi : i < h.size <;> by_cases hj : j < h.size <;>
    simp only [shift, Has, hi, hj, if_true, if_false, CellId.mk.injEq] at heq ⊢ <;> omega

end Shifting

/-- Two heaps have grown in the same way out of a heap and a larger one. -/
structure Shifted (h g h₁ g₁ : Heap) : Prop where
  le : h.size ≤ g.size
  kept : h.Extends h₁
  size : h₁.size + g.size = g₁.size + h.size
  closed : h₁.Closed
  read : ∀ x, h₁.Has x → g₁.read (shift h g x) = (h₁.read x).rename (shift h g)

namespace Shifted

variable {h g h₁ g₁ : Heap} {c : CellId}

/-- Nothing has been added yet. -/
theorem refl (hclosed : h.Closed) (hg : h.Extends g) : Shifted h g h g where
  le := hg.size_le
  kept := .refl h
  size := Nat.add_comm _ _
  closed := hclosed
  read x hx := by
    rw [shift_of_has hx, hg.read x hx]
    exact (Value.rename_eq_self fun d hd => shift_of_has (hclosed x d hd)).symm

theorem shift_next (hs : Shifted h g h₁ g₁) : shift h g h₁.next = g₁.next := by
  have hle := hs.kept.size_le
  have hsize := hs.size
  have hnot : ¬ h.Has h₁.next := Nat.not_lt.2 hle
  rw [shift_of_not_has hnot]
  refine congrArg CellId.mk ?_
  show h₁.size - h.size + g.size = g₁.size
  omega

/-- The same cells come before the ends of the two heaps. -/
theorem shift_lt_size_iff (hs : Shifted h g h₁ g₁) (x : CellId) :
    (shift h g x).index < g₁.size ↔ x.index < h₁.size := by
  have hle := hs.le
  have hle₁ := hs.kept.size_le
  have hsize := hs.size
  by_cases hx : h.Has x
  · have hlt : x.index < h.size := hx
    rw [shift_of_has hx]
    omega
  · have hnot : ¬ x.index < h.size := hx
    rw [shift_of_not_has hx]
    show x.index - h.size + g.size < g₁.size ↔ _
    omega

theorem has_shift (hs : Shifted h g h₁ g₁) (hc : h₁.Has c) : g₁.Has (shift h g c) :=
  (hs.shift_lt_size_iff c).2 hc

theorem alloc (hs : Shifted h g h₁ g₁) {v : Value} (hv : ∀ d ∈ v.children, h₁.Has d) :
    Shifted h g (Heap.alloc v h₁).2 (Heap.alloc (v.rename (shift h g)) g₁).2 where
  le := hs.le
  kept := hs.kept.trans (.alloc v h₁)
  size := by
    have hsize := hs.size
    rw [size_alloc, size_alloc]
    omega
  closed := hs.closed.alloc hv
  read := by
    intro x hx
    have hread : ∀ (w : Value) (k : Heap) (y : CellId),
        (Heap.alloc w k).2.read y = if y = k.next then w else k.read y := fun w k => read_alloc k w
    rw [hread, hread, ← hs.shift_next]
    by_cases hnext : x = h₁.next
    · rw [if_pos (congrArg _ hnext), if_pos hnext]
    · rw [if_neg fun heq => hnext (shift_injective hs.le heq), if_neg hnext]
      refine hs.read x (Nat.lt_of_le_of_ne (Nat.le_of_lt_succ ?_) fun heq => hnext ?_)
      · have hlt : x.index < (Heap.alloc v h₁).2.size := hx
        rwa [size_alloc] at hlt
      · exact congrArg CellId.mk heq

/-- A new cell is given a value, and the moved cell the moved value. -/
theorem write (hs : Shifted h g h₁ g₁) {d : CellId} {v : Value} (hd : ¬ h.Has d)
    (hv : ∀ e ∈ v.children, h₁.Has e) :
    Shifted h g (h₁.write d v) (g₁.write (shift h g d) (v.rename (shift h g))) := by
  refine ⟨hs.le, ⟨fun x hx => has_write.2 (hs.kept.has x hx), fun x hx => ?_⟩, ?_, ?_, ?_⟩
  · rw [read_write, if_neg, hs.kept.read x hx]
    rintro ⟨rfl, -⟩
    exact hd hx
  · rw [size_write, size_write]
    exact hs.size
  · intro x y hxy
    rw [read_write] at hxy
    refine has_write.2 ?_
    split at hxy
    · exact hv y hxy
    · exact hs.closed x y hxy
  · intro x hx
    have hx' := has_write.1 hx
    rw [read_write, read_write]
    by_cases hxd : x = d
    · subst hxd
      rw [if_pos ⟨rfl, hs.has_shift hx'⟩, if_pos ⟨rfl, hx'⟩]
    · rw [if_neg fun heq => hxd (shift_injective hs.le heq.1), if_neg fun heq => hxd heq.1]
      exact hs.read x hx'

end Shifted

end Heap

open Heap (Shifted shift)

namespace Copying

/-- Two copies that are being made in the same way, in a heap and in a larger one. -/
structure Parallel (h g : Heap) (s t : Copying) : Prop where
  heap : Shifted h g s.heap t.heap
  met : ∀ x, shift h g x ∈ t.copies ↔ x ∈ s.copies
  copyOf : ∀ x ∈ s.copies, t.copyOf (shift h g x) = shift h g (s.copyOf x)
  has : ∀ x ∈ s.copies, s.heap.Has (s.copyOf x)

namespace Parallel

variable {h g : Heap} {s t : Copying} {c : CellId}

theorem meet (hst : Parallel h g s t) (hc : c ∉ s.copies) :
    Parallel h g (s.meet c) (t.meet (shift h g c)) where
  heap := hst.heap.alloc (v := .null) nofun
  met x := by
    rw [mem_meet, mem_meet, (Heap.shift_injective hst.heap.le).eq_iff, hst.met]
  copyOf := by
    intro x hx
    rcases mem_meet.1 hx with rfl | hold
    · rw [copyOf_meet_self, copyOf_meet_self, hst.heap.shift_next]
    · have hmem := (hst.met x).2 hold
      rw [copyOf_meet_of_mem hc hold, copyOf_meet_of_mem (fun h => hc ((hst.met c).1 h)) hmem,
        hst.copyOf x hold]
  has := by
    intro x hx
    rcases mem_meet.1 hx with rfl | hold
    · rw [copyOf_meet_self]
      exact has_meet.2 (.inr rfl)
    · rw [copyOf_meet_of_mem hc hold]
      exact has_meet.2 (.inl (hst.has x hold))

theorem fill (hst : Parallel h g s t) {d : CellId} {v : Value} (hd : ¬ h.Has d)
    (hv : ∀ e ∈ v.children, s.heap.Has e) :
    Parallel h g (s.fill d v) (t.fill (shift h g d) (v.rename (shift h g))) :=
  ⟨hst.heap.write hd hv, hst.met, hst.copyOf, fun x hx => has_fill.2 (hst.has x hx)⟩

end Parallel

/-- After a stage the copies are still parallel, the cells that its result refers to are in the
heap, and no cell has gone. -/
structure Carried (h g : Heap) (s s' t' : Copying) (made : List CellId) : Prop where
  parallel : Parallel h g s' t'
  has : ∀ d ∈ made, s'.heap.Has d
  grows : ∀ x, s.heap.Has x → s'.heap.Has x

/-- In every parallel copy the moved cell is copied in the same way. -/
def CarriesCell (h g : Heap) (bound : Nat) (c : CellId) (s : Copying) (r : CellId × Copying) :
    Prop :=
  ∀ t, Parallel h g s t → s.heap.Has c →
    Carried h g s r.2 (cell bound (shift h g c) t).1.2 [r.1] ∧
      (cell bound (shift h g c) t).1.1 = shift h g r.1

/-- In every parallel copy the moved value is copied in the same way. -/
def CarriesValue (h g : Heap) (bound : Nat) (v : Value) (s : Copying) (r : Value × Copying) :
    Prop :=
  ∀ t, Parallel h g s t → (∀ d ∈ v.children, s.heap.Has d) →
    Carried h g s r.2 (value bound (v.rename (shift h g)) t).1.2 r.1.children ∧
      (value bound (v.rename (shift h g)) t).1.1 = r.1.rename (shift h g)

/-- In every parallel copy the moved entries are copied in the same way. -/
def CarriesEntries (h g : Heap) (bound : Nat) (l : List (String × CellId)) (s : Copying)
    (r : Dict CellId × Copying) : Prop :=
  ∀ t, Parallel h g s t → (∀ p ∈ l, s.heap.Has p.2) →
    Carried h g s r.2 (entries bound (l.map fun p => (p.1, shift h g p.2)) t).1.2 r.1.values ∧
      (entries bound (l.map fun p => (p.1, shift h g p.2)) t).1.1 = r.1.map (shift h g)

section Stages

variable {h g : Heap} {bound : Nat} {s s' s'' : Copying} {c d : CellId}

theorem carriesCell_of_mem (hc : c ∈ s.copies) :
    CarriesCell h g bound c s (s.copyOf c, s) := by
  intro t hst _
  rw [cell_of_mem ((hst.met c).2 hc)]
  refine ⟨⟨hst, fun d hd => ?_, fun _ => id⟩, hst.copyOf c hc⟩
  rw [List.mem_singleton.1 hd]
  exact hst.has c hc

theorem carriesCell_of_not_mem {v : Value} (hc : c ∉ s.copies) (hlt : (shift h g c).index < bound)
    (hvalue : CarriesValue h g bound ((s.meet c).heap.read c) (s.meet c) (v, s')) :
    CarriesCell h g bound c s (s.heap.next, s'.fill s.heap.next v) := by
  intro t hst hhas
  have hmet := hst.meet hc
  have hnext : ¬ h.Has s.heap.next := fun hold => Nat.lt_irrefl _ (hst.heap.kept.has _ hold)
  obtain ⟨hcarried, heq⟩ := hvalue _ hmet (hmet.heap.closed c)
  rw [← hmet.heap.read c (has_meet.2 (.inl hhas))] at hcarried heq
  rw [cell_of_not_mem (fun hmem => hc ((hst.met c).1 hmem)) hlt, heq, ← hst.heap.shift_next]
  refine ⟨⟨hcarried.parallel.fill hnext hcarried.has, fun d hd => has_fill.2 ?_,
    fun x hx => has_fill.2 (hcarried.grows x (has_meet.2 (.inl hx)))⟩, rfl⟩
  rw [List.mem_singleton.1 hd]
  exact hcarried.grows _ (has_meet.2 (.inr rfl))

theorem carriesCell_of_outside (hc : c ∉ s.copies) (hlt : ¬ (shift h g c).index < bound) :
    CarriesCell h g bound c s (s.heap.next, s.meet c) := by
  intro t hst hhas
  rw [cell_of_outside (fun hmem => hc ((hst.met c).1 hmem)) hlt, ← hst.heap.shift_next]
  refine ⟨⟨hst.meet hc, fun d hd => ?_, fun x hx => has_meet.2 (.inl hx)⟩, rfl⟩
  rw [List.mem_singleton.1 hd]
  exact has_meet.2 (.inr rfl)

theorem carriesValue_map {m n : Dict CellId} (tag : Tag) (mark : Bool)
    (hentries : CarriesEntries h g bound m.entries s (n, s')) :
    CarriesValue h g bound ⟨tag, some (.map m), mark⟩ s (⟨tag, some (.map n), mark⟩, s') := by
  intro t hst hhas
  obtain ⟨hcarried, heq⟩ := hentries t hst fun p hp => hhas p.2 (List.mem_map_of_mem hp)
  have hvalue := value_map bound tag (m.map (shift h g)) mark t
  have hrename : (Value.mk tag (some (.map m)) mark).rename (shift h g) =
      ⟨tag, some (.map (m.map (shift h g))), mark⟩ := rfl
  rw [hrename, hvalue]
  exact ⟨hcarried, heq ▸ rfl⟩

theorem carriesValue_of_data {v : Value} (hv : ∀ tag m mark, v ≠ ⟨tag, some (.map m), mark⟩) :
    CarriesValue h g bound v s (v, s) := by
  intro t hst hhas
  obtain ⟨hrename, -⟩ := Value.rename_of_data hv (shift h g)
  rw [hrename, value_of_data hv]
  exact ⟨⟨hst, hhas, fun _ => id⟩, rfl⟩

theorem carriesEntries_nil : CarriesEntries h g bound [] s (.empty, s) := by
  intro t hst _
  rw [List.map_nil, entries_nil]
  exact ⟨⟨hst, nofun, fun _ => id⟩, rfl⟩

theorem carriesEntries_cons {key : String} {rest : List (String × CellId)} {n : Dict CellId}
    (hcell : CarriesCell h g bound c s (d, s'))
    (hrest : CarriesEntries h g bound rest s' (n, s'')) :
    CarriesEntries h g bound ((key, c) :: rest) s (n.insert key d, s'') := by
  intro t hst hhas
  obtain ⟨hfirst, hd⟩ := hcell t hst (hhas (key, c) List.mem_cons_self)
  obtain ⟨hothers, hn⟩ := hrest _ hfirst.parallel fun p hp =>
    hfirst.grows _ (hhas p (List.mem_cons_of_mem _ hp))
  rw [List.map_cons, entries_cons, hd, hn, ← Dict.map_insert]
  refine ⟨⟨hothers.parallel, fun x hx => ?_,
    fun x hx => hothers.grows x (hfirst.grows x hx)⟩, rfl⟩
  rcases Dict.mem_values_insert hx with hx | rfl
  · exact hothers.has x hx
  · exact hothers.grows x (hfirst.has x (List.mem_singleton_self x))

end Stages

end Copying

namespace Heap.Shifted

variable {h g h₁ g₁ : Heap} {c : CellId}

/-- A moved cell is copied to the moved copy. -/
theorem copy (hs : Shifted h g h₁ g₁) (hc : h₁.Has c) :
    Shifted h g (Heap.copy c h₁).2 (Heap.copy (shift h g c) g₁).2 ∧
      (Heap.copy (shift h g c) g₁).1 = shift h g (Heap.copy c h₁).1 := by
  have hstages := Copying.stages_induction h₁.size
    (P := Copying.CarriesCell h g g₁.size) (Q := Copying.CarriesValue h g g₁.size)
    (R := Copying.CarriesEntries h g g₁.size)
    (fun c s hc => Copying.carriesCell_of_mem hc)
    (fun c s v s' hc hlt hvalue =>
      Copying.carriesCell_of_not_mem hc ((hs.shift_lt_size_iff c).2 hlt) hvalue)
    (fun c s hc hlt =>
      Copying.carriesCell_of_outside hc fun hlt' => hlt ((hs.shift_lt_size_iff c).1 hlt'))
    (fun tag m mark s n s' hentries => Copying.carriesValue_map tag mark hentries)
    (fun v s hv => Copying.carriesValue_of_data hv)
    (fun s => Copying.carriesEntries_nil)
    (fun key c rest s d s' n s'' hcell hrest => Copying.carriesEntries_cons hcell hrest)
  have hstart : Copying.Parallel h g (.start h₁) (.start g₁) :=
    ⟨hs, by simp [Copying.start], by simp [Copying.start], by simp [Copying.start]⟩
  obtain ⟨hcarried, heq⟩ := hstages.1 c (.start h₁) (.start g₁) hstart hc
  exact ⟨hcarried.parallel.heap, heq⟩

/-- A cell and the moved cell are the roots of isomorphic graphs. -/
theorem isomorphic (hs : Shifted h g h₁ g₁) (hc : h₁.Has c) :
    Set.BijOn (shift h g) {x | h₁.Reaches c x} {y | g₁.Reaches (shift h g c) y} ∧
      ∀ x, h₁.Reaches c x →
        Value.CopiedBy (shift h g) (h₁.read x) (g₁.read (shift h g x)) := by
  have hrenames : Renames (shift h g) h₁ g₁ [c] := by
    refine .of_injOn (fun x hx => ?_) (shift_injective hs.le).injOn
    exact hs.read x (hs.closed.has_of_reaches hc (Below.singleton_iff.1 hx))
  exact hrenames.isomorphic

end Heap.Shifted

section Work

variable {h g h₁ g₁ : Heap}

/-- A value that refers to old cells only is written as it is. -/
theorem Heap.Shifted.alloc_fixed (hs : Shifted h g h₁ g₁) {v : Value}
    (hv : ∀ d ∈ v.children, h.Has d) :
    Shifted h g (Heap.alloc v h₁).2 (Heap.alloc v g₁).2 := by
  have hshifted := hs.alloc fun d hd => hs.kept.has d (hv d hd)
  rwa [Value.rename_eq_self fun d hd => Heap.shift_of_has (hv d hd)] at hshifted

namespace Account

theorem rename_zip (f : CellId → CellId) (keys : List String) (items : List CellId) :
    (Value.object (Dict.ofList (keys.zip items))).rename f =
      .object (Dict.ofList (keys.zip (items.map f))) := by
  show Value.object ((Dict.ofList (keys.zip items)).map f) = _
  rw [Dict.map_ofList, List.zip_map_right]
  rfl

mutual

/-- A report is written in the same way. -/
theorem shifted_write {h₁ g₁ : Heap} (hs : Shifted h g h₁ g₁) (a : Account)
    (ha : ∀ c ∈ a.cells, h.Has c) :
    Shifted h g (a.write h₁).2 (a.write g₁).2 ∧ (a.write g₁).1 = shift h g (a.write h₁).1 := by
  cases a with
  | leaf l =>
      refine ⟨hs.alloc_fixed fun d hd => ha d ?_, hs.shift_next.symm⟩
      rwa [children_leaf] at hd
  | node keys hkeys items =>
      obtain ⟨hitems, hcells⟩ := shifted_writeAll hs items ha
      obtain ⟨-, hadded⟩ := writeAll_grows h₁ items
      have hnode := hitems.alloc fun d hd => (hadded d (mem_of_mem_children_zip hkeys hd)).2
      rw [rename_zip, ← hcells] at hnode
      exact ⟨hnode, hitems.shift_next.symm⟩

theorem shifted_writeAll {h₁ g₁ : Heap} (hs : Shifted h g h₁ g₁) (items : List Account)
    (ha : ∀ c ∈ cellsOfAll items, h.Has c) :
    Shifted h g (writeAll items h₁).2 (writeAll items g₁).2 ∧
      (writeAll items g₁).1 = (writeAll items h₁).1.map (shift h g) := by
  cases items with
  | nil => exact ⟨hs, rfl⟩
  | cons a rest =>
      obtain ⟨hfirst, hcell⟩ := shifted_write hs a fun c hc => ha c (List.mem_append_left _ hc)
      obtain ⟨hrest, hcells⟩ :=
        shifted_writeAll hfirst rest fun c hc => ha c (List.mem_append_right _ hc)
      refine ⟨hrest, ?_⟩
      show (a.write g₁).1 :: (writeAll rest (a.write g₁).2).1 = _
      rw [hcell, hcells]
      rfl

end

end Account

namespace Container

theorem shifted_initialCell (hs : Shifted h g h₁ g₁) {p : Property}
    (hp : ∀ c ∈ p.default, h.Has c) :
    Shifted h g (p.initialCell h₁).2 (p.initialCell g₁).2 ∧
      (p.initialCell g₁).1 = shift h g (p.initialCell h₁).1 := by
  unfold Property.initialCell
  cases hdefault : p.default with
  | some c =>
      have hc : h.Has c := hp c hdefault
      have hcopy := hs.copy (hs.kept.has c hc)
      rwa [Heap.shift_of_has hc] at hcopy
  | none =>
      refine ⟨hs.alloc_fixed fun d hd => ?_, hs.shift_next.symm⟩
      rw [Value.children_zeroOf] at hd
      cases hd

theorem shifted_fill {ps : List Property} (hps : ∀ p ∈ ps, ∀ c ∈ p.default, h.Has c)
    (hs : Shifted h g h₁ g₁) (m : Dict CellId) :
    Shifted h g (fill ps m h₁).2 (fill ps (m.map (shift h g)) g₁).2 ∧
      (fill ps (m.map (shift h g)) g₁).1 = (fill ps m h₁).1.map (shift h g) := by
  induction ps generalizing m h₁ g₁ with
  | nil => exact ⟨hs, rfl⟩
  | cons p rest ih =>
      have hrest : ∀ q ∈ rest, ∀ c ∈ q.default, h.Has c :=
        fun q hq => hps q (List.mem_cons_of_mem p hq)
      have hkey : (m.map (shift h g)).contains (dollarName p.name) =
          m.contains (dollarName p.name) := by
        rw [Dict.contains, Dict.contains, Dict.find?_map, Option.isSome_map]
      by_cases hp : m.contains (dollarName p.name) = true
      · rw [fill_cons_of_contains hp, fill_cons_of_contains (hkey.trans hp)]
        exact ih hrest hs m
      · rw [fill_cons_of_not_contains hp, fill_cons_of_not_contains (hkey ▸ hp)]
        obtain ⟨hfirst, hcell⟩ := shifted_initialCell hs (hps p List.mem_cons_self)
        rw [hcell, ← Dict.map_insert]
        exact ih hrest hfirst _

theorem instanceClass?_of_read {m : Dict CellId} (k : Container)
    (hread : ∀ c ∈ m.values, g.read c = h.read c) :
    k.instanceClass? g m = k.instanceClass? h m := by
  unfold instanceClass?
  cases hc : m.find? classKey with
  | none => rfl
  | some c =>
      have hname : classNameIn g c = classNameIn h c := by
        unfold classNameIn
        rw [hread c (Dict.mem_values_iff.2 ⟨_, hc⟩)]
      simp only [hname]

/-- Entries are refused in both heaps, or the same instance is made of them. -/
theorem shifted_instantiate {k : Container} (hclosed : h.Closed) (hg : h.Extends g)
    (hdefaults : ∀ name, ∀ p ∈ k.instanceProperties name, ∀ c ∈ p.default, h.Has c)
    {m : Dict CellId} (hm : ∀ c ∈ m.values, h.Has c) :
    (∃ err, k.instantiate m h = (.error err, h) ∧ k.instantiate m g = (.error err, g)) ∨
      ∃ c h₂ g₂, k.instantiate m h = (.ok c, h₂) ∧ k.instantiate m g = (.ok (shift h g c), g₂) ∧
        Shifted h g h₂ g₂ ∧ h₂.Has c := by
  have hs : Shifted h g h g := .refl hclosed hg
  have hsame := instanceClass?_of_read k fun c hc => hg.read c (hm c hc)
  cases hclass : k.instanceClass? h m with
  | error err =>
      exact .inl ⟨err, instantiate_of_error hclass, instantiate_of_error (hsame.trans hclass)⟩
  | ok named =>
      right
      cases named with
      | none =>
          refine ⟨_, _, _, instantiate_of_none hclass, ?_,
            hs.alloc_fixed (v := .klass m) hm, Heap.has_alloc_self _ h⟩
          rw [instantiate_of_none (hsame.trans hclass), hs.shift_next]
      | some name =>
          have hfixed : m.map (shift h g) = m :=
            (Dict.map_congr fun c hc => Heap.shift_of_has (hm c hc)).trans (Dict.map_id m)
          obtain ⟨hfill, hfilled⟩ := shifted_fill (hdefaults name) hs m
          rw [hfixed] at hfill hfilled
          obtain ⟨hgrows, hentries⟩ := fill_grows (k.instanceProperties name) m h
          have hhas : ∀ d ∈ (Value.klass (fill (k.instanceProperties name) m h).1).children,
              (fill (k.instanceProperties name) m h).2.Has d := by
            intro d hd
            obtain ⟨key, hkey⟩ := Dict.mem_values_iff.1 hd
            rcases hentries key d hkey with hold | hadded
            · exact hgrows.kept.has d (hm d (Dict.mem_values_iff.2 ⟨key, hold⟩))
            · exact hadded.2
          refine ⟨_, _, _, instantiate_of_some hclass, ?_, hfill.alloc hhas,
            Heap.has_alloc_self _ _⟩
          rw [instantiate_of_some (hsame.trans hclass), hfill.shift_next, hfilled]
          rfl

end Container

end Work
end ScriptCore
