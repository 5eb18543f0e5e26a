import ScriptCore.Proofs.Bisimulation
import ScriptCore.Proofs.Sequences
import ScriptCore.Registry.Report

/-!
# What reports say

A report is written into new cells, an entry at a time, so that two reports on the same thing are in
different cells.

**Accounts.**  An `Account` is what a report says, apart from the cells: texts, flags and objects
made of accounts.  Writing an account (`Account.write`) is what every report does (the equations
`ofModule_eq_write`, `ofFunction_eq_write`, `ofClass_eq_write` and those for their parts).

**Showing.**  `Account.Shows` relates a cell to the account that it is the root of.  What was written
is shown, and still is after later allocations (`write_shows`, `Shows.extends`).

**Results.**
* `Shows.entry`, `Shows.list`, `Shows.texts`: what is read off a cell that shows an account.
* `equal_of_shows`: cells that show the same account are equal, by bisimulation.
-/

namespace ScriptCore

namespace Heap

/-- The cells of the first heap are in the second, with the values that they had. -/
structure Extends (h h' : Heap) : Prop where
  has : ∀ c, h.Has c → h'.Has c
  read : ∀ c, h.Has c → h'.read c = h.read c

namespace Extends

variable {h h' h'' : Heap}

theorem refl (h : Heap) : Extends h h := ⟨fun _ hc => hc, fun _ _ => rfl⟩

theorem trans (h₁ : Extends h h') (h₂ : Extends h' h'') : Extends h h'' where
  has c hc := h₂.has c (h₁.has c hc)
  read c hc := (h₂.read c (h₁.has c hc)).trans (h₁.read c hc)

theorem alloc (v : Value) (h : Heap) : Extends h (Heap.alloc v h).2 where
  has c hc := by
    have hsize : (Heap.alloc v h).2.size = h.size + 1 := by simp [Heap.alloc, size]
    unfold Has at hc ⊢
    omega
  read c hc := by
    have hne : c ≠ h.next := by
      rintro rfl
      exact Nat.lt_irrefl _ hc
    exact (read_alloc h v c).trans (if_neg hne)

end Extends

theorem read_alloc_self (v : Value) (h : Heap) : (alloc v h).2.read (alloc v h).1 = v :=
  (read_alloc h v h.next).trans (if_pos rfl)

theorem has_alloc_self (v : Value) (h : Heap) : (alloc v h).2.Has (alloc v h).1 := by
  simp [alloc, Has, next, size]

end Heap

/-- The classes attributed to a module, in increasing order. -/
def Container.classNamesOf (k : Container) (origin : String) : List String :=
  (k.classes.filter fun _ c => c.origin == some origin).keys

/-- A value that is shown in a cell of its own. -/
inductive Leaf
  | text (s : String)
  | flag (b : Bool)
  | absent
  /-- An object whose entries are cells that exist. -/
  | cells (m : Dict CellId)

def Leaf.value : Leaf → Value
  | text s => .string s
  | flag b => .bool b
  | absent => .null
  | cells m => .object m

/-- What a report says, apart from the cells that it is written in. -/
inductive Account
  | leaf (l : Leaf)
  | node (keys : List String) (hkeys : keys.Nodup) (items : List Account)

namespace Account

mutual

/-- Write an account into new cells, the entries before the whole. -/
def write : Account → StateM Heap CellId
  | leaf l => Heap.alloc l.value
  | node keys _ items => do
      let cells ← writeAll items
      Heap.allocObject (keys.zip cells)

def writeAll : List Account → StateM Heap (List CellId)
  | [] => pure []
  | a :: rest => do
      let c ← a.write
      let cells ← writeAll rest
      return c :: cells

end

/-- The cell shows the account. -/
inductive Shows (h : Heap) : CellId → Account → Prop
  | leaf {c : CellId} {l : Leaf} (hc : h.Has c) (hread : h.read c = l.value) : Shows h c (.leaf l)
  | node {c : CellId} {keys : List String} {hkeys : keys.Nodup} {items : List Account}
      (cells : List CellId) (hc : h.Has c)
      (hread : h.read c = .object (Dict.ofList (keys.zip cells)))
      (hlength : cells.length = items.length)
      (hitems : ∀ (i : Nat) d a, cells[i]? = some d → items[i]? = some a → Shows h d a) :
      Shows h c (.node keys hkeys items)

section Writing

variable {h h' : Heap} {c : CellId} {a : Account}

/-- Later allocations do not change what a cell shows. -/
theorem Shows.extends (hs : Shows h c a) (hh : h.Extends h') : Shows h' c a := by
  induction hs with
  | leaf hc hread => exact .leaf (hh.has _ hc) ((hh.read _ hc).trans hread)
  | node cells hc hread hlength _ ih =>
      exact .node cells (hh.has _ hc) ((hh.read _ hc).trans hread) hlength ih

end Writing

mutual

/-- What is written shows the account, and nothing that was there changes. -/
theorem write_shows (h : Heap) :
    ∀ a : Account, h.Extends (a.write h).2 ∧ Shows (a.write h).2 (a.write h).1 a
  | .leaf l => ⟨.alloc _ h, .leaf (Heap.has_alloc_self _ h) (Heap.read_alloc_self _ h)⟩
  | .node keys _ items => by
      obtain ⟨hext, hlength, hitems⟩ := writeAll_shows h items
      have hlast := Heap.Extends.alloc
        (.object (Dict.ofList (keys.zip (writeAll items h).1))) (writeAll items h).2
      refine ⟨hext.trans hlast,
        .node _ (Heap.has_alloc_self _ _) (Heap.read_alloc_self _ _) hlength ?_⟩
      intro i d a hd ha
      exact (hitems i d a hd ha).extends hlast

theorem writeAll_shows (h : Heap) :
    ∀ items : List Account,
      h.Extends (writeAll items h).2 ∧ (writeAll items h).1.length = items.length ∧
        ∀ (i : Nat) d a, (writeAll items h).1[i]? = some d → items[i]? = some a →
          Shows (writeAll items h).2 d a
  | [] => ⟨.refl h, rfl, by simp⟩
  | a :: rest => by
      obtain ⟨hfirst, hshows⟩ := write_shows h a
      obtain ⟨hrest, hlength, hitems⟩ := writeAll_shows (a.write h).2 rest
      refine ⟨hfirst.trans hrest, congrArg Nat.succ hlength, ?_⟩
      intro i d b hd hb
      cases i with
      | zero =>
          obtain rfl : (a.write h).1 = d := Option.some.inj hd
          obtain rfl : a = b := Option.some.inj hb
          exact hshows.extends hrest
      | succ i => exact hitems i d b hd hb

end

section Accounts

def text (s : String) : Account := .leaf (.text s)

def flag (b : Bool) : Account := .leaf (.flag b)

def optionalText : Option String → Account
  | some s => text s
  | none => .leaf .absent

/-- An object without entries. -/
def nothing : Account := .leaf (.cells .empty)

/-- An account of a list, with the positions as its keys. -/
def list (items : List Account) : Account :=
  .node ((List.range items.length).map toString) (nodup_numerals _) items

def ofParameter (p : Parameter) : Account :=
  .node ["name", "type", "description", "optional", "interpolate"] (by decide)
    [text p.name, text p.tag.name, text p.description, flag p.optional, flag p.interpolate]

/-- The keys under which functions and methods are described. -/
def docKeys : List String := ["name", "return_type", "description", "parameters"]

def docItems (d : Doc) : List Account :=
  [text d.name, text d.returns.name, text d.description, list (d.parameters.map ofParameter)]

def ofProperty (p : Property) : Account :=
  .node ["name", "type", "private", "static"] (by decide)
    [text p.name, text p.tag.name, flag p.isPrivate, flag p.isStatic]

def ofMethod (m : Method) : Account :=
  .node (docKeys ++ ["private", "native"]) (by decide)
    (docItems m.doc ++ [flag m.isPrivate, flag m.isNative])

/-- An account of a module with its members. -/
def ofModule (k : Container) (name : String) : Account :=
  match k.moduleDescription? name with
  | none => nothing
  | some description =>
      .node ["name", "description", "classes", "functions", "variables"] (by decide)
        [text name, text description, list ((k.classNamesOf name).map text),
          list ((k.functionNamesOf name).map text), nothing]

def ofFunction (k : Container) (name : String) : Account :=
  match k.doc? name with
  | none => nothing
  | some d =>
      .node (docKeys ++ ["module"]) (by decide)
        (docItems d ++ [optionalText (k.functionOrigin? name)])

def ofClass (k : Container) (name : String) : Account :=
  match k.class? name with
  | none => nothing
  | some c =>
      .node ["name", "parent", "module", "properties", "methods", "static_properties"] (by decide)
        [text c.name, optionalText c.parent, optionalText c.origin,
          list (c.properties.map ofProperty), list (c.methods.map ofMethod),
          .leaf (.cells c.statics)]

end Accounts

section Equations

variable {α : Type} {report : α → StateM Heap CellId} {account : α → Account}

theorem mapM_eq_writeAll (hreport : ∀ x, report x = (account x).write) (items : List α) :
    items.mapM report = writeAll (items.map account) := by
  induction items with
  | nil => rfl
  | cons x items ih =>
      rw [List.mapM_cons, hreport, ih]
      rfl

theorem list_eq_write (hreport : ∀ x, report x = (account x).write) (items : List α) :
    Report.list report items = (list (items.map account)).write := by
  funext h
  have hlength := (writeAll_shows h (items.map account)).2.1
  show Heap.allocList (items.mapM report h).1 (items.mapM report h).2 = _
  rw [mapM_eq_writeAll hreport]
  unfold Heap.allocList
  rw [Dict.ofItems_eq_ofList, hlength]
  rfl

theorem text_eq_write (s : String) : Report.text s = (text s).write := rfl

theorem texts_eq_write (names : List String) :
    Report.list Report.text names = (list (names.map text)).write :=
  list_eq_write text_eq_write names

theorem optionalText_eq_write (s : Option String) :
    Report.optionalText s = (optionalText s).write := by
  cases s <;> rfl

theorem ofParameter_eq_write (p : Parameter) :
    Report.ofParameter p = (ofParameter p).write := rfl

theorem ofProperty_eq_write (p : Property) : Report.ofProperty p = (ofProperty p).write := rfl

theorem ofMethod_eq_write (m : Method) : Report.ofMethod m = (ofMethod m).write := by
  unfold Report.ofMethod Report.docEntries
  rw [list_eq_write ofParameter_eq_write]
  rfl

theorem ofModule_eq_write (k : Container) (name : String) :
    Report.ofModule k name = (ofModule k name).write := by
  unfold Report.ofModule ofModule
  cases k.moduleDescription? name with
  | none => rfl
  | some description =>
      simp only [texts_eq_write]
      rfl

theorem ofFunction_eq_write (k : Container) (name : String) :
    Report.ofFunction k name = (ofFunction k name).write := by
  unfold Report.ofFunction ofFunction Report.docEntries
  cases k.doc? name with
  | none => rfl
  | some d =>
      simp only [list_eq_write ofParameter_eq_write, optionalText_eq_write]
      rfl

theorem ofClass_eq_write (k : Container) (name : String) :
    Report.ofClass k name = (ofClass k name).write := by
  unfold Report.ofClass ofClass
  cases k.class? name with
  | none => rfl
  | some c =>
      simp only [list_eq_write ofProperty_eq_write, list_eq_write ofMethod_eq_write,
        optionalText_eq_write]
      rfl

end Equations

section Reading

variable {h : Heap} {c : CellId} {keys : List String} {hkeys : keys.Nodup}
  {items : List Account}

theorem map_fst_zip_sublist (keys : List String) (cells : List CellId) :
    ((keys.zip cells).map Prod.fst).Sublist keys := by
  induction keys generalizing cells with
  | nil => exact .slnil
  | cons key keys ih =>
      cases cells with
      | nil => exact List.nil_sublist _
      | cons c cells => exact (ih cells).cons_cons key

/-- A key and the cell under it stand at the same place of the two lists. -/
theorem find?_zip_eq_some_iff (hkeys : keys.Nodup) {cells : List CellId} {key : String} :
    (Dict.ofList (keys.zip cells)).find? key = some c ↔
      ∃ i : Nat, keys[i]? = some key ∧ cells[i]? = some c := by
  rw [Dict.find?_ofList_eq_some_iff (hkeys.sublist (map_fst_zip_sublist keys cells)),
    List.mem_iff_getElem?]
  simp only [List.getElem?_zip_eq_some]

theorem isSome_find?_zip_iff (hkeys : keys.Nodup) {cells : List CellId} {key : String} :
    ((Dict.ofList (keys.zip cells)).find? key).isSome ↔
      ∃ i : Nat, keys[i]? = some key ∧ i < cells.length := by
  rw [Option.isSome_iff_exists]
  simp only [find?_zip_eq_some_iff hkeys]
  constructor
  · rintro ⟨c, i, hkey, hc⟩
    exact ⟨i, hkey, (List.getElem?_eq_some_iff.1 hc).1⟩
  · rintro ⟨i, hkey, hi⟩
    exact ⟨cells[i], i, hkey, List.getElem?_eq_getElem hi⟩

theorem Shows.entry (hs : Shows h c (.node keys hkeys items)) {i : Nat} {key : String}
    {a : Account} (hkey : keys[i]? = some key) (ha : items[i]? = some a) :
    ∃ d, h.lookup? c key = some d ∧ Shows h d a := by
  cases hs with
  | node cells hc hread hlength hitems =>
      obtain ⟨hi, -⟩ := List.getElem?_eq_some_iff.1 ha
      have hd : cells[i]? = some cells[i] := List.getElem?_eq_getElem (hlength ▸ hi)
      refine ⟨cells[i], ?_, hitems i _ a hd ha⟩
      unfold Heap.lookup?
      rw [hread]
      exact (find?_zip_eq_some_iff hkeys).2 ⟨i, hkey, hd⟩

theorem Shows.list (hs : Shows h c (list items)) :
    ∃ cells, h.Lists c cells ∧ List.Forall₂ (Shows h) cells items := by
  cases hs with
  | node cells hc hread hlength hitems =>
      refine ⟨cells, Heap.lists_of_read ?_, ?_⟩
      · rw [hread, Dict.ofItems_eq_ofList, hlength]
      · refine List.forall₂_iff_get.2 ⟨hlength, fun i hi hi' => ?_⟩
        exact hitems i _ _ (List.getElem?_eq_getElem hi) (List.getElem?_eq_getElem hi')

theorem Shows.read_text {s : String} (hs : Shows h c (text s)) : h.read c = .string s := by
  cases hs with
  | leaf _ hread => exact hread

theorem Shows.texts {names : List String} (hs : Shows h c (.list (names.map text))) :
    h.ListsTexts c names := by
  obtain ⟨cells, hlists, hcells⟩ := hs.list
  refine ⟨cells, hlists, ?_⟩
  rw [List.forall₂_map_right_iff] at hcells
  rw [← List.forall₂_eq_eq_eq, List.forall₂_map_left_iff, List.forall₂_map_right_iff]
  exact hcells.imp fun _ _ => Shows.read_text

end Reading

section Equality

/-- Cells that show the same account, or are the same. -/
def Agree (h : Heap) (x y : CellId) : Prop := x = y ∨ ∃ a, Shows h x a ∧ Shows h y a

theorem alike_leaf {R : CellId → CellId → Prop} (hR : ∀ c, R c c) (l : Leaf) :
    l.value.Alike R l.value := by
  refine ⟨rfl, rfl, fun hnull => ?_⟩
  cases l with
  | absent => cases hnull
  | text s => exact ⟨_, _, rfl, rfl, rfl⟩
  | flag b => exact ⟨_, _, rfl, rfl, rfl⟩
  | cells m =>
      refine ⟨_, _, rfl, rfl, fun _ => rfl, fun key c d hc hd => ?_⟩
      obtain rfl : c = d := Option.some.inj (hc.symm.trans hd)
      exact hR c

theorem bisimulation_agree (h : Heap) : h.Bisimulation (Agree h) := by
  rintro x y (hxy | ⟨a, hx, hy⟩)
  · exact .inl hxy
  · refine .inr ?_
    cases hx with
    | leaf _ hread =>
        cases hy with
        | leaf _ hread' =>
            rw [hread, hread']
            exact alike_leaf (fun _ => .inl rfl) _
    | @node _ keys hkeys items cells _ hread hlength hitems =>
        cases hy with
        | node cells' _ hread' hlength' hitems' =>
            rw [hread, hread']
            refine ⟨rfl, rfl, fun _ => ⟨_, _, rfl, rfl, fun key => ?_, fun key c d hc hd => ?_⟩⟩
            · rw [Bool.eq_iff_iff, isSome_find?_zip_iff hkeys, isSome_find?_zip_iff hkeys, hlength,
                hlength']
            · obtain ⟨i, hi, hci⟩ := (find?_zip_eq_some_iff hkeys).1 hc
              obtain ⟨j, hj, hdj⟩ := (find?_zip_eq_some_iff hkeys).1 hd
              -- The keys differ, so the two cells stand at the same place.
              obtain rfl : i = j :=
                (List.getElem?_inj (List.getElem?_eq_some_iff.1 hi).1 hkeys).1 (hi.trans hj.symm)
              have hlt : i < items.length := hlength ▸ (List.getElem?_eq_some_iff.1 hci).1
              have ha : items[i]? = some items[i] := List.getElem?_eq_getElem hlt
              exact .inr ⟨items[i], hitems i c _ hci ha, hitems' i d _ hdj ha⟩

/-- Two cells that show the same account are equal. -/
theorem equal_of_shows {h : Heap} {x y : CellId} {a : Account} (hx : Shows h x a)
    (hy : Shows h y a) : h.equal x y = true :=
  Heap.settle_of_bisimulation (bisimulation_agree h) (by simpa using .inr ⟨a, hx, hy⟩)

end Equality

end Account
end ScriptCore
