import ScriptCore.Proofs.CopyIsolation
import ScriptCore.Proofs.Reports
import ScriptCore.Registry.Instance

/-!
# What is written into new cells

Instances and reports are made by adding cells to the heap: copies of defaults, zeros of types,
texts, and objects over these.  Nothing that was there is changed.  What a new cell refers to is
new as well, or one of the cells that were handed in: the entries that an instance is made of, and
the static properties that the report on a class shows.

**Growth.**  `Heap.Grows own`: cells were added, and they refer to new cells and to cells with a
property.  One allocation and one copy grow a heap (`Grows.alloc`, `Grows.copy`), and growths are
put together (`Grows.trans`).

**Results.**
* `fill_grows`, `instantiate_grows`: instances.
* `write_grows`: reports, by the cells that an account shows (`Account.cells`).
* `Grows.not_has_of_reaches`: what is made of new cells alone reaches new cells only.
-/

namespace ScriptCore

namespace Value

theorem wellFormed_zeroOf (t : Tag) : (zeroOf t).WellFormed := by
  cases t with
  | int => exact wellFormed_of .int 0
  | double => exact wellFormed_of .double (.zero false)
  | float => exact wellFormed_of .float (.zero false)
  | bool => exact wellFormed_of .bool false
  | _ => exact wellFormed_nullOf _

theorem children_zeroOf (t : Tag) : (zeroOf t).children = [] := by
  cases t <;> rfl

end Value

namespace Heap

/-- Cells were added.  What is referred to was referred to before from the same place, or has the
property, or is new. -/
structure Grows (own : CellId → Prop) (h h' : Heap) : Prop where
  kept : h.Extends h'
  wellFormed : h.WellFormed → h'.WellFormed
  refers : ∀ x y, h'.Refers x y → h.Refers x y ∨ own y ∨ (¬ h.Has y ∧ h'.Has y)

/-- The cell was added. -/
def Added (h h' : Heap) (x : CellId) : Prop := ¬ h.Has x ∧ h'.Has x

namespace Grows

variable {own other : CellId → Prop} {h g k : Heap} {x y : CellId}

theorem refl (own : CellId → Prop) (h : Heap) : Grows own h h :=
  ⟨.refl h, fun hh => hh, fun _ _ hxy => .inl hxy⟩

/-- The second growth may refer to what the first one added. -/
theorem trans (hg : Grows own h g) (hk : Grows other g k)
    (hother : ∀ y, other y → own y ∨ Added h g y) : Grows own h k where
  kept := hg.kept.trans hk.kept
  wellFormed hh := hk.wellFormed (hg.wellFormed hh)
  refers := by
    have hlater : ∀ y, own y ∨ Added h g y → own y ∨ Added h k y :=
      fun y => Or.imp_right fun hy => ⟨hy.1, hk.kept.has y hy.2⟩
    intro x y hxy
    rcases hk.refers x y hxy with hbefore | hown | hnew
    · exact (hg.refers x y hbefore).imp_right (hlater y)
    · exact .inr (hlater y (hother y hown))
    · exact .inr (.inr ⟨fun hy => hnew.1 (hg.kept.has y hy), hnew.2⟩)

theorem mono (hg : Grows own h g) (hother : ∀ y, own y → other y) : Grows other h g :=
  ⟨hg.kept, hg.wellFormed, fun x y hxy => (hg.refers x y hxy).imp_right (Or.imp_left (hother y))⟩

theorem alloc {v : Value} (hwf : v.WellFormed) (hv : ∀ d ∈ v.children, own d) :
    Grows own h (Heap.alloc v h).2 where
  kept := .alloc v h
  wellFormed hh := hh.alloc hwf
  refers := ((ChangesWithin.refl own h).alloc fun d hd => .inl (hv d hd)).refers

theorem copy (own : CellId → Prop) (h : Heap) (c : CellId) : Grows own h (Heap.copy c h).2 where
  kept := ⟨fun _ hd => (copy_kept h c hd).1, fun _ hd => (copy_kept h c hd).2⟩
  wellFormed hh := hh.copy c
  refers := (ChangesWithin.copy own h c).refers

/-- A closed heap stays closed if its own cells are referred to. -/
theorem closed (hg : Grows own h g) (hown : ∀ y, own y → h.Has y) (hh : h.Closed) : g.Closed := by
  intro x y hxy
  rcases hg.refers x y hxy with hold | hy | hnew
  · exact hg.kept.has y (hh x y hold)
  · exact hg.kept.has y (hown y hy)
  · exact hnew.2

/-- From new cells that refer to new cells, only new cells are found. -/
theorem not_has_of_reaches (hg : Grows (fun _ => False) h g) (hx : ¬ h.Has x)
    (hxy : g.Reaches x y) : ¬ h.Has y := by
  induction hxy with
  | refl => exact hx
  | tail _ hstep ih =>
      rcases hg.refers _ _ hstep with hold | hnone | hnew
      · exact absurd (has_of_children_ne_nil (List.ne_nil_of_mem hold)) ih
      · exact hnone.elim
      · exact hnew.1

end Grows

theorem added_alloc (v : Value) (h : Heap) : Added h (alloc v h).2 (alloc v h).1 :=
  ⟨fun hnext => Nat.lt_irrefl _ hnext, has_alloc_self v h⟩

theorem Added.of_extends {h g k : Heap} {x : CellId} (hx : Added g k x) (hh : h.Extends g) :
    Added h k x :=
  ⟨fun hold => hx.1 (hh.has x hold), hx.2⟩

end Heap

open Heap (Added)

namespace Container

theorem initialCell_grows (p : Property) (h : Heap) :
    Heap.Grows (fun _ => False) h (p.initialCell h).2 ∧
      Added h (p.initialCell h).2 (p.initialCell h).1 := by
  unfold Property.initialCell
  cases p.default with
  | some c =>
      exact ⟨.copy _ h c, Heap.copy_fresh h c⟩
  | none =>
      refine ⟨.alloc (Value.wellFormed_zeroOf p.tag) fun d hd => ?_, Heap.added_alloc _ h⟩
      rw [Value.children_zeroOf] at hd
      cases hd

theorem fill_cons_of_contains {p : Property} {rest : List Property} {m : Dict CellId} {h : Heap}
    (hp : m.contains (dollarName p.name) = true) : fill (p :: rest) m h = fill rest m h := by
  rw [fill, if_pos hp]

theorem fill_cons_of_not_contains {p : Property} {rest : List Property} {m : Dict CellId} {h : Heap}
    (hp : ¬ m.contains (dollarName p.name) = true) :
    fill (p :: rest) m h =
      fill rest (m.insert (dollarName p.name) (p.initialCell h).1) (p.initialCell h).2 := by
  rw [fill, if_neg hp]
  rfl

/-- Filling adds cells that refer to each other only, and entries for such cells. -/
theorem fill_grows (ps : List Property) (m : Dict CellId) (h : Heap) :
    Heap.Grows (fun _ => False) h (fill ps m h).2 ∧
      ∀ key c, (fill ps m h).1.find? key = some c →
        m.find? key = some c ∨ Added h (fill ps m h).2 c := by
  induction ps generalizing m h with
  | nil => exact ⟨.refl _ h, fun key c hc => .inl hc⟩
  | cons p rest ih =>
      by_cases hp : m.contains (dollarName p.name) = true
      · rw [fill_cons_of_contains hp]
        exact ih m h
      · rw [fill_cons_of_not_contains hp]
        obtain ⟨hfirst, hcell⟩ := initialCell_grows p h
        obtain ⟨hrest, hentries⟩ := ih (m.insert (dollarName p.name) (p.initialCell h).1)
          (p.initialCell h).2
        refine ⟨hfirst.trans hrest fun _ => False.elim, fun key c hc => ?_⟩
        rcases hentries key c hc with hentry | hadded
        · rw [Dict.find?_insert] at hentry
          split at hentry
          · obtain rfl := Option.some.inj hentry
            exact .inr ⟨hcell.1, hrest.kept.has _ hcell.2⟩
          · exact .inl hentry
        · exact .inr (hadded.of_extends hfirst.kept)

section Instantiating

variable {k : Container} {m : Dict CellId} {h : Heap}

theorem instantiate_of_error {err : Error} (hclass : k.instanceClass? h m = .error err) :
    k.instantiate m h = (.error err, h) := by
  simp only [instantiate, hclass]

theorem instantiate_of_none (hclass : k.instanceClass? h m = .ok none) :
    k.instantiate m h = (.ok h.next, (Heap.alloc (.klass m) h).2) := by
  simp only [instantiate, hclass]
  rfl

theorem instantiate_of_some {name : String} (hclass : k.instanceClass? h m = .ok (some name)) :
    k.instantiate m h =
      (.ok (fill (k.instanceProperties name) m h).2.next,
        (Heap.alloc (.klass (fill (k.instanceProperties name) m h).1)
          (fill (k.instanceProperties name) m h).2).2) := by
  simp only [instantiate, hclass]
  rfl

end Instantiating

theorem instantiate_grows (k : Container) (m : Dict CellId) (h : Heap) :
    Heap.Grows (· ∈ m.values) h (k.instantiate m h).2 ∧
      ∀ c, (k.instantiate m h).1 = .ok c → Added h (k.instantiate m h).2 c := by
  cases hclass : k.instanceClass? h m with
  | error err =>
      rw [instantiate_of_error hclass]
      exact ⟨.refl _ h, fun c hc => by cases hc⟩
  | ok named =>
      cases named with
      | none =>
          rw [instantiate_of_none hclass]
          refine ⟨.alloc (Value.wellFormed_klass m) fun d hd => hd, fun c hc => ?_⟩
          cases hc
          exact Heap.added_alloc _ h
      | some name =>
          rw [instantiate_of_some hclass]
          obtain ⟨hfill, hentries⟩ := fill_grows (k.instanceProperties name) m h
          refine ⟨(hfill.mono fun _ => False.elim).trans
            (.alloc (Value.wellFormed_klass _) fun d hd => hd) fun d hd => ?_, fun c hc => ?_⟩
          · obtain ⟨key, hkey⟩ := Dict.mem_values_iff.1 hd
            exact (hentries key d hkey).imp_left fun hold => Dict.mem_values_iff.2 ⟨key, hold⟩
          · cases hc
            exact (Heap.added_alloc _ _).of_extends hfill.kept

end Container

namespace Account

def leafCells : Leaf → List CellId
  | .cells m => m.values
  | _ => []

mutual

/-- The cells that an account shows as they are. -/
def cells : Account → List CellId
  | leaf l => leafCells l
  | node _ _ items => cellsOfAll items

def cellsOfAll : List Account → List CellId
  | [] => []
  | a :: rest => a.cells ++ cellsOfAll rest

end

theorem wellFormed_leaf (l : Leaf) : l.value.WellFormed := by
  cases l with
  | text s => exact Value.wellFormed_of .string s
  | flag b => exact Value.wellFormed_of .bool b
  | absent => exact Value.wellFormed_bare .null
  | cells m => exact Value.wellFormed_of .map m

theorem children_leaf (l : Leaf) : l.value.children = leafCells l := by
  cases l <;> rfl

theorem cellsOfAll_append (items more : List Account) :
    cellsOfAll (items ++ more) = cellsOfAll items ++ cellsOfAll more := by
  induction items with
  | nil => rfl
  | cons a items ih => rw [List.cons_append, cellsOfAll, cellsOfAll, ih, List.append_assoc]

theorem cellsOfAll_map_eq_nil {α : Type} {account : α → Account} (h : ∀ x, (account x).cells = [])
    (items : List α) : cellsOfAll (items.map account) = [] := by
  induction items with
  | nil => rfl
  | cons x items ih => rw [List.map_cons, cellsOfAll, h, ih, List.append_nil]

/-- An object that is made of a list of keys and a list of cells refers to these cells. -/
theorem mem_of_mem_children_zip {keys : List String} (hkeys : keys.Nodup) {items : List CellId}
    {d : CellId} (hd : d ∈ (Value.object (Dict.ofList (keys.zip items))).children) : d ∈ items := by
  obtain ⟨key, hkey⟩ := Dict.mem_values_iff.1 hd
  obtain ⟨i, -, hi⟩ := (find?_zip_eq_some_iff hkeys).1 hkey
  exact List.mem_of_getElem? hi

mutual

/-- A report adds cells that refer to each other and to the cells that its account shows. -/
theorem write_grows (h : Heap) :
    ∀ a : Account, Heap.Grows (· ∈ a.cells) h (a.write h).2 ∧ Added h (a.write h).2 (a.write h).1
  | .leaf l => by
      refine ⟨.alloc (wellFormed_leaf l) fun d hd => ?_, Heap.added_alloc _ h⟩
      rwa [children_leaf] at hd
  | .node keys hkeys items => by
      obtain ⟨hgrows, hcells⟩ := writeAll_grows h items
      refine ⟨hgrows.trans (.alloc (Value.wellFormed_of .map _) fun d hd => hd) fun d hd => ?_,
        (Heap.added_alloc _ _).of_extends hgrows.kept⟩
      exact .inr (hcells d (mem_of_mem_children_zip hkeys hd))

theorem writeAll_grows (h : Heap) :
    ∀ items : List Account, Heap.Grows (· ∈ cellsOfAll items) h (writeAll items h).2 ∧
      ∀ c ∈ (writeAll items h).1, Added h (writeAll items h).2 c
  | [] => ⟨.refl _ h, fun c hc => absurd hc List.not_mem_nil⟩
  | a :: rest => by
      obtain ⟨hfirst, hcell⟩ := write_grows h a
      obtain ⟨hrest, hcells⟩ := writeAll_grows (a.write h).2 rest
      refine ⟨(hfirst.mono fun y hy => List.mem_append_left _ hy).trans hrest
        fun y hy => .inl (List.mem_append_right _ hy), fun c hc => ?_⟩
      rcases List.mem_cons.1 hc with rfl | hc
      · exact ⟨hcell.1, hrest.kept.has _ hcell.2⟩
      · exact (hcells c hc).of_extends hfirst.kept

end

section Shown

theorem cells_optionalText (s : Option String) : (optionalText s).cells = [] := by
  cases s <;> rfl

theorem cells_list_map {α : Type} {account : α → Account} (h : ∀ x, (account x).cells = [])
    (items : List α) : (list (items.map account)).cells = [] :=
  cellsOfAll_map_eq_nil h items

theorem cellsOfAll_docItems (d : Doc) : cellsOfAll (docItems d) = [] := by
  have hparameters : (list (d.parameters.map ofParameter)).cells = [] :=
    cells_list_map (fun _ => rfl) _
  simp only [docItems, cellsOfAll, hparameters, text, cells, leafCells, List.append_nil]

theorem cells_ofMethod (m : Method) : (ofMethod m).cells = [] := by
  rw [ofMethod, cells, cellsOfAll_append, cellsOfAll_docItems]
  rfl

theorem cells_ofModule (k : Container) (name : String) : (ofModule k name).cells = [] := by
  have htexts : ∀ names : List String, (list (names.map text)).cells = [] :=
    cells_list_map fun _ => rfl
  unfold ofModule
  cases k.moduleDescription? name with
  | none => rfl
  | some description =>
      simp only [cells, cellsOfAll, htexts]
      rfl

theorem cells_ofFunction (k : Container) (name : String) : (ofFunction k name).cells = [] := by
  unfold ofFunction
  cases k.doc? name with
  | none => rfl
  | some d =>
      simp only [cells, cellsOfAll_append, cellsOfAll_docItems, cellsOfAll, cells_optionalText,
        List.append_nil]

/-- The report on a class shows the cells of its static properties. -/
theorem cells_ofClass (k : Container) (name : String) :
    (ofClass k name).cells = ((k.class? name).map fun c => c.statics.values).getD [] := by
  unfold ofClass
  cases k.class? name with
  | none => rfl
  | some c =>
      have hproperties : (list (c.properties.map ofProperty)).cells = [] :=
        cells_list_map (fun _ => rfl) _
      have hmethods : (list (c.methods.map ofMethod)).cells = [] := cells_list_map cells_ofMethod _
      simp only [cells, cellsOfAll, hproperties, hmethods, cells_optionalText, List.nil_append,
        List.append_nil]
      rfl

end Shown

end Account
end ScriptCore
