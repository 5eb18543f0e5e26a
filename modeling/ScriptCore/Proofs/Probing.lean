import ScriptCore.Proofs.CallNoninterference
import ScriptCore.Proofs.HeapShifts
import ScriptCore.Proofs.InstanceFilling
import ScriptCore.Proofs.StaticSlots

/-!
# Probing is harmless

A report on modules, functions or classes is handed to a script, and the script may do to it
whatever it likes: change texts and flags, put in entries and drop them, move parts of the report
about.  None of this shows in anything that is asked later.

**Static properties.**  There is one exception.  The report on a class shows the cells of its static
properties themselves, so a script that changes such a cell, or one below it, changes the static
property (`static_changed_through_report`).  All else in a report is in cells of its own.

**Programs.**  A script finds cells from the cells that were in the report when it was made, and
from those made since (`Heap.Found`).  It changes cells that it finds, static properties and what
is below them excepted, and stores cells that it finds (`Heap.RunsMutating`).

**Invariant.**  `Heap.Sheltered`: the cells from before the report have their values, and cells that
came later refer to cells that came later or to the static cells shown.  So a cell that is changed
came later.

**Answers.**  An answer that was made of new cells is in other cells each time; `SameAnswer` says
that two answers are the same apart from that.

**Results.**
* `Sheltered.run`: a script leaves all cells as they were before the report.
* `sameAnswer_of_extends`: answers in a larger heap.
* `probing_harmless`: answers after any run and any such script.
-/

namespace ScriptCore

open Heap (Shifted shift Grows Added)

/-- A report that can be asked for. -/
inductive Probe
  | listModules
  | moduleDetails (name : String)
  | functionDetails (name : String)
  | classDetails (name : String)
  | listFunctions
  | listClasses
  deriving DecidableEq, Repr

namespace Probe

def report (k : Container) : Probe → StateM Heap CellId
  | listModules => Report.modules k
  | moduleDetails name => Report.ofModule k name
  | functionDetails name => Report.ofFunction k name
  | classDetails name => Report.ofClass k name
  | listFunctions => Report.functions k
  | listClasses => Report.classes k

/-- The cells that the report shows as they are: the static properties of a class. -/
def shown (k : Container) : Probe → List CellId
  | classDetails name => ((k.class? name).map fun c => c.statics.values).getD []
  | _ => []

/-- What the report says. -/
def account (k : Container) : Probe → Account
  | listModules => .list (k.moduleNames.map (Account.ofModule k))
  | moduleDetails name => .ofModule k name
  | functionDetails name => .ofFunction k name
  | classDetails name => .ofClass k name
  | listFunctions => .list (k.functionNames.map Account.text)
  | listClasses => .list (k.classNames.map Account.text)

theorem report_eq_write (k : Container) (p : Probe) : p.report k = (p.account k).write := by
  cases p with
  | listModules => exact Account.list_eq_write (Account.ofModule_eq_write k) _
  | moduleDetails name => exact Account.ofModule_eq_write k name
  | functionDetails name => exact Account.ofFunction_eq_write k name
  | classDetails name => exact Account.ofClass_eq_write k name
  | listFunctions => exact Account.texts_eq_write _
  | listClasses => exact Account.texts_eq_write _

theorem cells_account (k : Container) (p : Probe) : (p.account k).cells = p.shown k := by
  cases p with
  | listModules => exact Account.cells_list_map (Account.cells_ofModule k) _
  | moduleDetails name => exact Account.cells_ofModule k name
  | functionDetails name => exact Account.cells_ofFunction k name
  | classDetails name => exact Account.cells_ofClass k name
  | listFunctions => exact Account.cells_list_map (fun _ => rfl) _
  | listClasses => exact Account.cells_list_map (fun _ => rfl) _

end Probe

/-- The call changes a cell with one property and stores cells with another. -/
def CellCall.Mutates (changed stored : CellId → Prop) (now : Heap) : CellCall → Prop
  | .make o => ∀ d ∈ o.value.children, stored d
  | .change c x => changed c ∧ ∀ d ∈ x.stored c now, stored d
  | _ => True

namespace Heap

/-- The cell is found from a cell that the root reached at the start, or from one made since. -/
def Found (start : Heap) (root : CellId) (now : Heap) (x : CellId) : Prop :=
  ∃ r, (start.Reaches root r ∨ ¬ start.Has r) ∧ now.Reaches r x

/-- Every call of a run changes a cell that it finds and that is not among those excepted, and
stores cells that it finds. -/
def RunsMutating (excepted : CellId → Prop) (start : Heap) (root : CellId) :
    Heap → List CellCall → Prop
  | _, [] => True
  | now, call :: calls =>
      call.Mutates (fun x => start.Found root now x ∧ ¬ excepted x) (start.Found root now) now ∧
        RunsMutating excepted start root (call.perform now) calls

/-- The cells of a heap have the values that they had, and no other cell refers to one of them
except to those shown and what is below these. -/
structure Sheltered (h : Heap) (shown : List CellId) (now : Heap) : Prop where
  kept : h.Extends now
  refers : ∀ x y, ¬ h.Has x → now.Refers x y → ¬ h.Has y ∨ h.Below shown y

namespace Sheltered

variable {h start now : Heap} {shown : List CellId} {root x : CellId}

/-- A report shelters the cells that were there. -/
theorem of_grows (hg : Grows (· ∈ shown) h start) : Sheltered h shown start where
  kept := hg.kept
  refers := by
    intro x y hx hxy
    rcases hg.refers x y hxy with hold | hshown | hnew
    · exact absurd (has_of_children_ne_nil (List.ne_nil_of_mem hold)) hx
    · exact .inr ⟨y, hshown, .refl⟩
    · exact .inl hnew.1

/-- From a later cell, or from one that is shown, only such cells are found. -/
theorem of_reaches (hnow : Sheltered h shown now) (hclosed : h.Closed)
    (hshown : ∀ c ∈ shown, h.Has c) {r : CellId} (hr : ¬ h.Has r ∨ h.Below shown r)
    (hx : now.Reaches r x) : ¬ h.Has x ∨ h.Below shown x := by
  induction hx with
  | refl => exact hr
  | tail _ hstep ih =>
      rcases ih with hnew | ⟨c, hc, hreach⟩
      · exact hnow.refers _ _ hnew hstep
      · have hhas : h.Has _ := hclosed.has_of_reaches (hshown c hc) hreach
        unfold Refers at hstep
        rw [hnow.kept.read _ hhas] at hstep
        exact .inr ⟨c, hc, hreach.tail hstep⟩

theorem of_found (hnow : Sheltered h shown now) (hstart : Sheltered h shown start)
    (hclosed : h.Closed) (hshown : ∀ c ∈ shown, h.Has c) (hroot : ¬ h.Has root)
    (hx : start.Found root now x) : ¬ h.Has x ∨ h.Below shown x := by
  obtain ⟨r, hr, hreach⟩ := hx
  refine hnow.of_reaches hclosed hshown ?_ hreach
  rcases hr with hr | hr
  · exact hstart.of_reaches hclosed hshown (.inl hroot) hr
  · exact .inl fun hold => hr (hstart.kept.has r hold)

end Sheltered

end Heap

namespace CellCall

variable {changed stored : CellId → Prop} {now : Heap} {call : CellCall}

theorem Mutates.within (h : call.Mutates changed stored now) :
    call.Within (fun x => changed x ∨ stored x) now := by
  cases call with
  | make o => exact fun d hd => .inr (h d hd)
  | change c x => exact ⟨.inl h.1, fun d hd => .inr (h.2 d hd)⟩
  | copy c => exact trivial
  | copyAsClass c => exact trivial
  | copyValue c => exact trivial

/-- Cells that are not changed keep their values. -/
theorem Mutates.read_perform (h : call.Mutates changed stored now) {x : CellId} (hx : now.Has x)
    (hnot : ¬ changed x) : (call.perform now).read x = now.read x := by
  cases call with
  | make o => exact (Heap.Extends.alloc _ now).read x hx
  | copy c => exact (Heap.copy_kept now c hx).2
  | copyAsClass c => exact (Heap.ChangesWithin.copyAsClass (fun _ => False) now c).kept x hx id
  | copyValue c => exact (Heap.ChangesWithin.copyValue (fun _ => False) now c).kept x hx id
  | change c y =>
      obtain ⟨v, hwrite, -⟩ := y.perform_eq_write c now
      show (y.perform c now).read x = now.read x
      rw [hwrite, Heap.read_write, if_neg]
      rintro ⟨rfl, -⟩
      exact hnot h.1

end CellCall

namespace Heap.Sheltered

variable {h start now : Heap} {shown : List CellId} {root : CellId}

/-- What is changed came later, and what is stored came later or is below a cell shown. -/
theorem step (hnow : Sheltered h shown now) {changed stored : CellId → Prop} {call : CellCall}
    (hcall : call.Mutates changed stored now) (hchanged : ∀ x, changed x → ¬ h.Has x)
    (hstored : ∀ x, stored x → ¬ h.Has x ∨ h.Below shown x) :
    Sheltered h shown (call.perform now) := by
  have hstep := ChangesWithin.perform hcall.within
  refine ⟨⟨fun x hx => hstep.has x (hnow.kept.has x hx), fun x hx => ?_⟩, fun x y hx hxy => ?_⟩
  · rw [hcall.read_perform (hnow.kept.has x hx) fun hc => hchanged x hc hx]
    exact hnow.kept.read x hx
  · rcases hstep.refers x y hxy with hold | hown | hnew
    · exact hnow.refers x y hx hold
    · exact hown.elim (fun hy => .inl (hchanged y hy)) (hstored y)
    · exact .inl fun hy => hnew.1 (hnow.kept.has y hy)

/-- A script leaves the cells from before the report as they were. -/
theorem run (hstart : Sheltered h shown start) (hclosed : h.Closed)
    (hshown : ∀ c ∈ shown, h.Has c) (hroot : ¬ h.Has root) {calls : List CellCall} :
    ∀ {now : Heap}, Sheltered h shown now →
      RunsMutating (h.Below shown) start root now calls → Sheltered h shown (now.run calls) := by
  induction calls with
  | nil => exact fun hnow _ => hnow
  | cons call calls ih =>
      intro now hnow hcalls
      have hfound : ∀ x, start.Found root now x → ¬ h.Has x ∨ h.Below shown x :=
        fun x => hnow.of_found hstart hclosed hshown hroot
      exact ih (hnow.step hcalls.1 (fun x hx => (hfound x hx.1).resolve_right hx.2) hfound) hcalls.2

end Heap.Sheltered

/-- Two answers, one given in a heap and the other in a larger one, are the same refusal, or they
are isomorphic.  Cells that were there stand for themselves, and a cell that was made for one
answer stands for a cell that was made for the other. -/
def SameAnswer (h g : Heap) : Except Error CellId × Heap → Except Error CellId × Heap → Prop
  | (.error err, _), (.error err', _) => err' = err
  | (.ok c, h₁), (.ok d, g₁) =>
      ∃ f : CellId → CellId, f c = d ∧ (∀ x, h.Has x → f x = x) ∧ (∀ x, ¬ h.Has x → ¬ g.Has (f x)) ∧
        Set.BijOn f {x | h₁.Reaches c x} {y | g₁.Reaches d y} ∧
        ∀ x, h₁.Reaches c x → Value.CopiedBy f (h₁.read x) (g₁.read (f x))
  | _, _ => False

/-- The cell of the variable or constant that a look-up finds. -/
def Engine.valueCell (e : Engine) (query : Query) (name : String) : Except Error CellId :=
  match ((query.answer e name).bind e.store.symbol?).bind Symbol.cell? with
  | some c => .ok c
  | none => .error (Error.of (.undefinedSymbol name))

/-- What can be asked of an engine whose answer is a value. -/
inductive Question
  | report (p : Probe)
  /-- An instance made out of entries. -/
  | makeInstance (m : Dict CellId)
  | static (name property : String)
  /-- The value of what a look-up finds. -/
  | value (query : Query) (name : String)

namespace Question

/-- The cells that are handed in with a question. -/
def cells : Question → List CellId
  | makeInstance m => m.values
  | _ => []

def answer (e : Engine) : Question → Except Error CellId × Heap
  | report p => Action.always (p.report e.container) e.store.heap
  | makeInstance m => e.container.instantiate m e.store.heap
  | static name property => (e.container.getStatic name property, e.store.heap)
  | value query name => (e.valueCell query name, e.store.heap)

end Question

/-- The engine with other cells. -/
def Engine.withHeap (e : Engine) (heap : Heap) : Engine :=
  { e with store := { e.store with heap } }

theorem sameAnswer_of_shifted {h g h₁ g₁ : Heap} (hs : Shifted h g h₁ g₁) {c : CellId}
    (hc : h₁.Has c) : SameAnswer h g (.ok c, h₁) (.ok (shift h g c), g₁) := by
  obtain ⟨hbij, hread⟩ := hs.isomorphic hc
  exact ⟨shift h g, rfl, fun x => Heap.shift_of_has, fun x => Heap.not_has_shift, hbij, hread⟩

/-- A cell that was there is the same answer. -/
theorem sameAnswer_self {h g : Heap} (hclosed : h.Closed) (hg : h.Extends g) {c : CellId}
    (hc : h.Has c) : SameAnswer h g (.ok c, h) (.ok c, g) := by
  have hanswer := sameAnswer_of_shifted (.refl hclosed hg) hc
  rwa [Heap.shift_of_has hc] at hanswer

section Answers

variable {e : Engine} {g : Heap}

theorem has_of_mem_shown (hclasses : ClassesKeep e.store.heap.Has e.container.classes) (p : Probe) :
    ∀ c ∈ p.shown e.container, e.store.heap.Has c := by
  intro c hc
  cases p with
  | classDetails name =>
      have hcells : c ∈ (Account.ofClass e.container name).cells := by
        rw [Account.cells_ofClass]
        exact hc
      exact has_of_mem_cells_ofClass hclasses hcells
  | _ => cases hc

theorem has_of_getStatic (hconsistent : Consistent e.container.classes)
    (hclasses : ClassesKeep e.store.heap.Has e.container.classes) {name property : String}
    {c : CellId} (hc : e.container.getStatic name property = .ok c) : e.store.heap.Has c := by
  unfold Container.getStatic at hc
  split at hc
  · next cell hstatic =>
      cases hc
      obtain ⟨nearer, d, further, hlineage, hfind, -⟩ := Container.static?_eq_some_iff.1 hstatic
      have hd : d ∈ e.container.lineage name := by simp [hlineage]
      exact hclasses _ d (Container.find?_of_mem_lineage hconsistent hd) c
        (List.mem_append_right _ (Dict.mem_values_iff.2 ⟨_, hfind⟩))
  · cases hc

theorem has_of_valueCell (hs : e.store.Sound) {query : Query} {name : String} {c : CellId}
    (hc : e.valueCell query name = .ok c) : e.store.heap.Has c := by
  unfold Engine.valueCell at hc
  split at hc
  · next d hd =>
      cases hc
      obtain ⟨symbol, hfound, hcell⟩ := Option.bind_eq_some_iff.1 hd
      obtain ⟨id, -, hsymbol⟩ := Option.bind_eq_some_iff.1 hfound
      exact hs.symbols id symbol hsymbol c hcell
  · cases hc

/-- Look-ups do not read cells. -/
theorem valueCell_withHeap (query : Query) (name : String) :
    (e.withHeap g).valueCell query name = e.valueCell query name := by
  cases query <;> rfl

/-- A larger heap gives the same answers. -/
theorem sameAnswer_of_extends (hsound : e.Sound) (hconsistent : Consistent e.container.classes)
    (hg : e.store.heap.Extends g) {q : Question} (hq : ∀ c ∈ q.cells, e.store.heap.Has c) :
    SameAnswer e.store.heap g (q.answer e) (q.answer (e.withHeap g)) := by
  have hclosed := hsound.store.closed
  cases q with
  | report p =>
      have hshown := has_of_mem_shown hsound.classes p
      rw [← Probe.cells_account] at hshown
      obtain ⟨hs, hcell⟩ := Account.shifted_write (.refl hclosed hg) (p.account e.container) hshown
      obtain ⟨-, hadded⟩ := Account.write_grows e.store.heap (p.account e.container)
      have hanswer := sameAnswer_of_shifted hs hadded.2
      rw [← hcell] at hanswer
      show SameAnswer _ _ (Action.always (p.report e.container) e.store.heap)
        (Action.always (p.report e.container) g)
      rw [Probe.report_eq_write]
      exact hanswer
  | makeInstance m =>
      have hdefaults : ∀ name, ∀ p ∈ e.container.instanceProperties name, ∀ c ∈ p.default,
          e.store.heap.Has c :=
        fun name p hp => Container.has_of_mem_instanceProperties hconsistent hsound.classes hp
      show SameAnswer _ _ (e.container.instantiate m e.store.heap) (e.container.instantiate m g)
      obtain ⟨err, herr, herr'⟩ | ⟨c, h₂, g₂, hmade, hmade', hs, hc⟩ :=
        Container.shifted_instantiate hclosed hg hdefaults hq
      · rw [herr, herr']
        rfl
      · rw [hmade, hmade']
        exact sameAnswer_of_shifted hs hc
  | static name property =>
      show SameAnswer _ _ (e.container.getStatic name property, e.store.heap)
        (e.container.getStatic name property, g)
      cases hstatic : e.container.getStatic name property with
      | error err => rfl
      | ok c =>
          exact sameAnswer_self hclosed hg (has_of_getStatic hconsistent hsound.classes hstatic)
  | value query name =>
      show SameAnswer _ _ (e.valueCell query name, e.store.heap)
        ((e.withHeap g).valueCell query name, g)
      rw [valueCell_withHeap]
      cases hcell : e.valueCell query name with
      | error err => rfl
      | ok c => exact sameAnswer_self hclosed hg (has_of_valueCell hsound.store hcell)

end Answers

section Texts

variable {h g : Heap}

/-- A value whose children are cells of a heap has the same text in a larger one. -/
theorem Heap.Extends.valueText (hg : h.Extends g) (held : Option CellId) {v : Value}
    (hv : ∀ d ∈ v.children, h.Has d) : g.valueText held v = h.valueText held v := by
  unfold Heap.valueText
  split
  · rfl
  · split <;> try rfl
    next m hpayload =>
      split
      · unfold Heap.classText
        cases hclass : m.find? classKey with
        | none => rfl
        | some d =>
            have hd : d ∈ v.children := by
              rw [Value.children, hpayload]
              exact Dict.mem_values_iff.2 ⟨_, hclass⟩
            simp only [hg.read d (hv d hd)]
      · rfl

theorem Heap.Extends.cellLines (hg : h.Extends g) (hclosed : h.Closed) {c : CellId}
    (hc : h.Has c) : Symbol.cellLines g c = Symbol.cellLines h c := by
  unfold Symbol.cellLines Heap.text
  rw [hg.read c hc, hg.valueText none (hclosed c)]

theorem Heap.Extends.symbolText (hg : h.Extends g) (hclosed : h.Closed) {symbol : Symbol}
    (hsymbol : ∀ c ∈ symbol.cell?, h.Has c) : symbol.text g = symbol.text h := by
  have hlines : Symbol.meaningLines g symbol.meaning = Symbol.meaningLines h symbol.meaning := by
    cases hmeaning : symbol.meaning with
    | var declared c => exact hg.cellLines hclosed (hsymbol c (by rw [Symbol.cell?, hmeaning]; rfl))
    | constant c => exact hg.cellLines hclosed (hsymbol c (by rw [Symbol.cell?, hmeaning]; rfl))
    | _ => rfl
  rw [Symbol.text, Symbol.text, hlines]

/-- A larger heap gives the same text of all symbols. -/
theorem text_withHeap {e : Engine} (hs : e.store.Sound) (hg : e.store.heap.Extends g) :
    e.container.text (e.withHeap g).store = e.container.text e.store := by
  have htable : ∀ spaces : Spaces,
      Container.tableText (e.withHeap g).store spaces = Container.tableText e.store spaces := by
    intro spaces
    unfold Container.tableText
    refine congrArg String.join (List.map_congr_left fun space _ => ?_)
    refine congrArg (fun lines => s!" Namespace: '{space}'\n" ++ String.join lines)
      (List.map_congr_left fun symbol hsymbol => ?_)
    obtain ⟨p, -, hp⟩ := List.mem_filterMap.1 hsymbol
    exact congrArg (· ++ "\n") (hg.symbolText hs.closed (hs.symbols p.2 symbol hp))
  unfold Container.text
  refine congrArg String.join (List.map_congr_left fun p _ => ?_)
  exact congrArg (s!"Scope: '{p.1}'\n" ++ ·) (htable _)

end Texts

/-- What a script does to a report leaves the cells from before it as they were. -/
theorem extends_of_runsMutating {e : Engine} (hsound : e.Sound) {p : Probe}
    {mutations : List CellCall}
    (h : Heap.RunsMutating (e.store.heap.Below (p.shown e.container))
      (p.report e.container e.store.heap).2 (p.report e.container e.store.heap).1
      (p.report e.container e.store.heap).2 mutations) :
    e.store.heap.Extends ((p.report e.container e.store.heap).2.run mutations) := by
  obtain ⟨hgrows, hadded⟩ := Account.write_grows e.store.heap (p.account e.container)
  rw [p.cells_account, ← p.report_eq_write] at hgrows
  rw [← p.report_eq_write] at hadded
  have hstart := Heap.Sheltered.of_grows hgrows
  have hshown := has_of_mem_shown hsound.classes p
  exact (hstart.run hsound.store.closed hshown hadded.1 hstart h).kept

/-- After any run of a container that was built on a sound store, let a script ask for a report
and then run, changing cells that it finds in the report or has made since, except static
properties that the report shows and what is below these.  The cells from before the report are as
they were.  So every report, every instance made of entries from before, every static property,
every variable and constant, and the text of all symbols are as they would be without it. -/
theorem probing_harmless (rootName : String) (hname : rootName ≠ "") (maxDepth : Nat) (s : Store)
    (hs : s.Sound) :
    ∃ k s', Container.build rootName maxDepth s = (.ok k, s') ∧
      ∀ calls : List EngineCall, Engine.RunsSoundly ⟨s', k⟩ calls →
        let e := Engine.run ⟨s', k⟩ calls
        let h := e.store.heap
        ∀ p : Probe,
          let tree := p.report e.container h
          ∀ mutations : List CellCall,
            Heap.RunsMutating (h.Below (p.shown e.container)) tree.2 tree.1 tree.2 mutations →
            let g := tree.2.run mutations
            h.Extends g ∧
            (∀ q : Question, (∀ c ∈ q.cells, h.Has c) →
              SameAnswer h g (q.answer e) (q.answer (e.withHeap g))) ∧
            e.container.text (e.withHeap g).store = e.container.text e.store := by
  refine ⟨_, _, build_of_ne_empty hname maxDepth s, fun calls hcalls => ?_⟩
  intro e h p tree mutations hmutations g
  have hsound : e.Sound := (sound_build hs rootName maxDepth).run hcalls
  have hconsistent : Consistent e.container.classes :=
    consistent_run rootName maxDepth s calls
  have hg : h.Extends g := extends_of_runsMutating hsound hmutations
  exact ⟨hg, fun q hq => sameAnswer_of_extends hsound hconsistent hg hq,
    text_withHeap hsound.store hg⟩

theorem Question.answer_static {e : Engine} {name property : String} {c : CellId}
    (h : e.container.getStatic name property = .ok c) :
    (Question.static name property).answer e = (.ok c, e.store.heap) :=
  congrArg (Prod.mk · e.store.heap) h

/-- A class with a static property. -/
def staticProperty : List EngineCall :=
  [.registry (.registerClass "A"), .registry (.addProperty "A" ⟨"x", .int, none, false, true⟩)]

theorem runsSoundly_staticProperty :
    Engine.RunsSoundly ⟨(Store.addTable none Store.empty).2,
      Container.withRoot ⟨"main", Store.empty.tables.next⟩ defaultMaxDepth⟩ staticProperty := by
  have hnone : ∀ {has : CellId → Prop}, ∀ d ∈ ([] : List CellId), has d := by simp
  exact ⟨hnone, hnone, trivial⟩

/-- Take the static property out of the report on the class, and give the report another name. -/
def rewordReport : List CellCall :=
  [.change ⟨11⟩ (.eraseEntry "x"), .make (.data .string "B"), .change ⟨12⟩ (.setEntry "name" ⟨13⟩)]

theorem reworded_report_unseen :
    "main" ≠ "" ∧ Store.empty.Sound ∧
    ∃ k s', Container.build "main" defaultMaxDepth Store.empty = (.ok k, s') ∧
      Engine.RunsSoundly ⟨s', k⟩ staticProperty ∧
      let e := Engine.run ⟨s', k⟩ staticProperty
      let h := e.store.heap
      let p := Probe.classDetails "A"
      let tree := p.report e.container h
      p.shown e.container = [⟨0⟩] ∧
      Heap.RunsMutating (h.Below (p.shown e.container)) tree.2 tree.1 tree.2 rewordReport ∧
      let g := tree.2.run rewordReport
      (g.read ⟨11⟩ ≠ tree.2.read ⟨11⟩ ∧ g.read ⟨12⟩ ≠ tree.2.read ⟨12⟩) ∧
      let q := Question.report p
      SameAnswer h g (.ok ⟨0⟩, h) ((Question.static "A" "x").answer (e.withHeap g)) ∧
      SameAnswer h g (q.answer e) (q.answer (e.withHeap g)) := by
  have hname : "main" ≠ "" := by decide
  obtain ⟨k, s', hbuild, hrun⟩ :=
    probing_harmless "main" hname defaultMaxDepth Store.empty Store.sound_empty
  refine ⟨hname, Store.sound_empty, k, s', hbuild, ?_⟩
  cases hbuild
  refine ⟨runsSoundly_staticProperty, ?_⟩
  intro e h p tree
  have hsound : e.Sound :=
    (sound_build Store.sound_empty "main" defaultMaxDepth).run runsSoundly_staticProperty
  have hbelow : ∀ x, ¬ h.Has x → ¬ h.Below (p.shown e.container) x := fun x hx hx' =>
    hx (hx'.has hsound.store.closed (has_of_mem_shown hsound.classes p))
  have hroot : tree.1 = ⟨12⟩ := by decide +kernel
  have hmutations : Heap.RunsMutating (h.Below (p.shown e.container)) tree.2 tree.1 tree.2
      rewordReport := by
    rw [hroot]
    have hobject : tree.2.Refers ⟨12⟩ ⟨11⟩ := by
      show _ ∈ _
      decide +kernel
    refine ⟨⟨⟨⟨⟨12⟩, .inl .refl, .single hobject⟩, hbelow _ (by decide +kernel)⟩, nofun⟩, nofun,
      ⟨⟨⟨⟨12⟩, .inl .refl, .refl⟩, hbelow _ (by decide +kernel)⟩, fun d hd => ?_⟩, trivial⟩
    -- The new name is in a cell that was not there when the report was made.
    obtain rfl := List.mem_singleton.1 hd
    exact ⟨⟨13⟩, .inr (by decide +kernel), .refl⟩
  obtain ⟨-, hanswers, -⟩ :=
    hrun staticProperty runsSoundly_staticProperty p rewordReport hmutations
  refine ⟨by decide +kernel, hmutations, ?_⟩
  intro g
  have hstatic : e.container.getStatic "A" "x" = .ok ⟨0⟩ := by decide +kernel
  refine ⟨by decide +kernel, ?_, hanswers (.report p) nofun⟩
  rw [← Question.answer_static hstatic]
  exact hanswers (.static "A" "x") nofun

/-- A report on a class reaches its static properties, and a script that changes one through the
report changes what is answered later. -/
theorem static_changed_through_report :
    ∃ k s', Container.build "main" defaultMaxDepth Store.empty = (.ok k, s') ∧
      Engine.RunsSoundly ⟨s', k⟩ staticProperty ∧
      let e := Engine.run ⟨s', k⟩ staticProperty
      let h := e.store.heap
      let tree := (Probe.classDetails "A").report e.container h
      let mutations : List CellCall := [.change ⟨0⟩ (.set .int 2)]
      Heap.RunsMutating (fun _ => False) tree.2 tree.1 tree.2 mutations ∧
      let g := tree.2.run mutations
      let q := Question.static "A" "x"
      (q.answer e = (.ok ⟨0⟩, h) ∧ h.read ⟨0⟩ = .int 0) ∧
      (q.answer (e.withHeap g) = (.ok ⟨0⟩, g) ∧ g.read ⟨0⟩ = .int 2) ∧
      ¬ SameAnswer h g (q.answer e) (q.answer (e.withHeap g)) := by
  refine ⟨_, _, build_of_ne_empty (by decide) defaultMaxDepth Store.empty,
    runsSoundly_staticProperty, ?_⟩
  intro e h tree mutations
  have hroot : tree.1 = ⟨12⟩ := by decide +kernel
  have hobject : tree.2.Refers ⟨12⟩ ⟨11⟩ := by
    show _ ∈ _
    decide +kernel
  have hproperty : tree.2.Refers ⟨11⟩ ⟨0⟩ := by
    show _ ∈ _
    decide +kernel
  have hfound : tree.2.Found ⟨12⟩ tree.2 ⟨0⟩ :=
    ⟨⟨12⟩, .inl .refl, .tail (.single hobject) hproperty⟩
  have hmutations : Heap.RunsMutating (fun _ => False) tree.2 tree.1 tree.2 mutations := by
    rw [hroot]
    exact ⟨⟨⟨hfound, id⟩, nofun⟩, trivial⟩
  refine ⟨hmutations, ?_⟩
  intro g q
  have hstatic : e.container.getStatic "A" "x" = .ok ⟨0⟩ := by decide +kernel
  have hbefore : h.read ⟨0⟩ = .int 0 := by decide +kernel
  have hafter : g.read ⟨0⟩ = .int 2 := by decide +kernel
  have hanswer : q.answer e = (.ok ⟨0⟩, h) := Question.answer_static hstatic
  have hanswer' : q.answer (e.withHeap g) = (.ok ⟨0⟩, g) :=
    Question.answer_static (e := e.withHeap g) hstatic
  refine ⟨⟨hanswer, hbefore⟩, ⟨hanswer', hafter⟩, ?_⟩
  rw [hanswer, hanswer']
  rintro ⟨f, hf, -, -, -, hread⟩
  have hcopied := hread ⟨0⟩ .refl
  rw [hf, hbefore, hafter] at hcopied
  cases hcopied.scalar (.int 0) rfl (by decide)

end ScriptCore
