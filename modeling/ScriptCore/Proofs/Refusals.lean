import ScriptCore.Proofs.ArenaRuns
import ScriptCore.Proofs.ModuleTrees
import ScriptCore.Registry.Builtin

/-!
# Refused operations

An operation that is refused leaves everything as it was: the cells, symbols and tables of the
store, the scopes, registries and counters of the container, and the arenas.  The registration of
a module is the one exception.

**Steps.**  Most operations look first and then make all their changes.  Some make a change before
their last look, or make several changes one after the other: these are also given as a sequence of
steps and proved equal to it, so that the proof goes through the states between the steps.

**Rules.**  `Action.Reverts act s t`: if `act` is refused at `s`, it leaves `t`.  A sequence reverts
to `t` if its first step does and the others do from wherever the first one leads
(`Reverts.bind`), so a step after a change has to be shown to succeed or to lead back.

**Results.**
* `reverts_registerSubclass`, `reverts_addProperty`, `reverts_addMethod`, `reverts_removeModule`,
  `Arena.reverts_remove`: the operations that are taken in steps.
* `Operation.reverts_perform`: every operation on a host.
* `refusals_change_nothing`: the same in every state that can be reached, and what a refused
  registration leaves behind.
-/

namespace ScriptCore

namespace Action

variable {σ τ α β : Type}

/-- Look something up, which may be refused. -/
def ask (look : σ → Except Error α) : Action σ α := fun s => (look s, s)

/-- Go on only if the state passes a test. -/
def check (test : σ → Bool) (e : Error) : Action σ Unit := fun s =>
  (if test s then .ok () else .error e, s)

/-- Change the state. -/
def change (f : σ → σ) : Action σ Unit := fun s => (.ok (), f s)

/-- The action without its answer. -/
def silent (act : Action σ α) : Action σ Unit := fun s => ((act s).1.map fun _ => (), (act s).2)

/-- If the action is refused at `s`, it leaves `t`. -/
def Reverts (act : Action σ α) (s t : σ) : Prop := ∀ e, (act s).1 = .error e → (act s).2 = t

namespace Reverts

variable {act : Action σ α} {next : α → Action σ β} {s t : σ} {a : α}

theorem of_ok (h : (act s).1 = .ok a) : Reverts act s t := by
  intro e he
  rw [h] at he
  cases he

theorem of_state (h : (act s).2 = t) : Reverts act s t := fun _ _ => h

theorem bind (h : Reverts act s t)
    (hnext : ∀ a s', act s = (.ok a, s') → Reverts (next a) s' t) : Reverts (act >>= next) s t := by
  intro e he
  rw [bind_apply] at he ⊢
  rcases hact : act s with ⟨e' | a, s'⟩
  · have hstop := h e' (by rw [hact])
    rw [hact] at hstop
    exact hstop
  · rw [hact] at he
    exact hnext a s' hact e he

theorem ask_bind {look : σ → Except Error α}
    (hnext : ∀ a, look s = .ok a → Reverts (next a) s s) : Reverts (ask look >>= next) s s := by
  refine .bind (.of_state rfl) fun a s' hask => ?_
  obtain ⟨hlook, rfl⟩ := Prod.mk.inj hask
  exact hnext a hlook

theorem check_bind {test : σ → Bool} {e : Error} {next : Unit → Action σ β}
    (hstop : test s = false → s = t) (hnext : test s = true → Reverts (next ()) s t) :
    Reverts (check test e >>= next) s t := by
  cases hs : test s with
  | false => exact .of_state (by simpa [bind_apply, check, hs] using hstop hs)
  | true =>
      refine .bind (.of_ok (a := ()) (by simp [check, hs])) fun _ s' hcheck => ?_
      obtain ⟨-, rfl⟩ := Prod.mk.inj hcheck
      exact hnext hs

theorem change_bind {f : σ → σ} {next : Unit → Action σ β} (hnext : Reverts (next ()) (f s) t) :
    Reverts (change f >>= next) s t := by
  refine .bind (.of_ok rfl) fun _ s' hchange => ?_
  obtain ⟨-, rfl⟩ := Prod.mk.inj hchange
  exact hnext

theorem lift (r : Except Error α) (s : σ) : Reverts (liftM r : Action σ α) s s := by
  cases r with
  | ok a => exact .of_ok (a := a) rfl
  | error e => exact .of_state rfl

theorem lift_bind {r : Except Error α} (hnext : ∀ a, Reverts (next a) s s) :
    Reverts ((liftM r : Action σ α) >>= next) s s := by
  refine .bind (.lift r s) fun a s' hlift => ?_
  cases r with
  | ok a' =>
      obtain ⟨-, rfl⟩ := Prod.mk.inj hlift
      exact hnext a
  | error e => cases hlift

/-- An action on a part changes nothing else. -/
theorem onPart {get : σ → τ} {put : σ → τ → σ} {act : Action τ α} (hput : put s (get s) = s)
    (h : Reverts act (get s) (get s)) : Reverts (onPart get put act) s s := by
  intro e he
  show put s (act (get s)).2 = s
  rw [h e he, hput]

theorem silent (h : Reverts act s t) : Reverts (silent act) s t := by
  intro e he
  rcases hact : act s with ⟨e' | a, s'⟩
  · have hstop := h e' (by rw [hact])
    rw [hact] at hstop
    simpa [Action.silent, hact] using hstop
  · simp [Action.silent, hact, Except.map] at he

end Reverts
end Action

open ScriptCore.Action

section Cells

theorem reverts_update (c : CellId) (f : Value → Except Error Value) (h : Heap) :
    Reverts (Heap.update c f) h h := by
  cases hf : f (h.read c) with
  | ok v => exact .of_ok (a := ()) (by rw [Heap.update, hf])
  | error e => exact .of_state (by rw [Heap.update, hf])

theorem reverts_copyAsClass (c : CellId) (h : Heap) : Reverts (Heap.copyAsClass c) h h := by
  intro e he
  by_cases htag : (h.read c).tag = .object
  · simp only [Heap.copyAsClass, htag, if_true] at he
    cases he
  · simp only [Heap.copyAsClass, htag, if_false]

theorem reverts_instantiate (k : Container) (m : Dict CellId) (h : Heap) :
    Reverts (k.instantiate m) h h := by
  intro e he
  unfold Container.instantiate at he ⊢
  cases hclass : k.instanceClass? h m with
  | error e' => rfl
  | ok name =>
      rw [hclass] at he
      cases name <;> cases he

end Cells

namespace Arena

variable {α : Type}

/-- Change the slot at an index. -/
def changeSlot (index : UInt32) (f : Slot α → Slot α) (a : Arena α) : Arena α :=
  match a.slot? index with
  | some slot => a.setSlot index (f slot)
  | none => a

/-- Take the item out of a slot and leave the generation alone. -/
def takeItem (index : UInt32) : Action (Arena α) α := fun a =>
  match (a.slot? index).bind Slot.item with
  | some x => (.ok x, a.changeSlot index fun slot => { slot with item := none })
  | none => (.error (Error.of .staleHandle), a)

/-- Look at a handle, take the item out of its slot, raise the generation and put the slot on the
list of free ones. -/
def removeInSteps (h : Handle) : Action (Arena α) α := do
  check (·.contains h) (Error.of .staleHandle)
  let x ← takeItem h.index
  change (changeSlot h.index fun slot => { slot with generation := slot.generation + 1 })
  change fun a => { a with free := h.index :: a.free }
  return x

theorem setSlot_setSlot (a : Arena α) (index : UInt32) (s t : Slot α) :
    (a.setSlot index s).setSlot index t = a.setSlot index t := by
  simp [setSlot]

theorem changeSlot_setSlot {a : Arena α} {index : UInt32} {s : Slot α}
    (hs : a.slot? index = some s) (t : Slot α) (f : Slot α → Slot α) :
    (a.setSlot index t).changeSlot index f = a.setSlot index (f t) := by
  unfold changeSlot
  rw [slot?_setSlot hs, if_pos rfl]
  exact setSlot_setSlot a index t (f t)

theorem takeItem_of_item? {a : Arena α} {h : Handle} {x : α} (hx : a.item? h = some x) :
    takeItem h.index a = (.ok x, a.setSlot h.index ⟨h.generation, none⟩) := by
  obtain ⟨-, hslot⟩ := item?_eq_some_iff.1 hx
  simp only [takeItem, changeSlot, hslot, Option.bind_some]

theorem remove_eq_inSteps (h : Handle) : (remove h : Action (Arena α) α) = removeInSteps h := by
  funext a
  cases hx : a.item? h with
  | none => simp [removeInSteps, remove_of_none hx, bind_apply, check, contains, hx]
  | some x =>
      obtain ⟨-, hslot⟩ := item?_eq_some_iff.1 hx
      simp [removeInSteps, remove, bind_apply, check, contains, hx, takeItem_of_item? hx, change,
        changeSlot_setSlot hslot]
      rfl

/-- The item is taken out before the generation is raised, and it is there to be taken. -/
theorem reverts_remove (h : Handle) (a : Arena α) : Reverts (remove h) a a := by
  rw [remove_eq_inSteps]
  refine .check_bind (fun _ => rfl) fun hcontains => ?_
  obtain ⟨x, hx⟩ := Option.isSome_iff_exists.1 hcontains
  refine .bind (.of_ok (by rw [takeItem_of_item? hx])) fun _ _ _ => ?_
  exact .change_bind (.change_bind (.of_ok rfl))

theorem reverts_modify (h : Handle) (f : α → α) (a : Arena α) : Reverts (modify h f) a a := by
  cases hx : a.item? h with
  | none => exact .of_state (by rw [modify_of_none hx])
  | some x => exact .of_ok (a := f x) (by simp [modify, hx])

/-- An insertion takes a slot off the list of free ones before it looks at the slot. -/
theorem Tidy.reverts_insert {a : Arena α} (ha : a.Tidy) (x : α) : Reverts (insert x) a a := by
  rcases insert_spec ha x with ⟨h, b, heq, -⟩ | ⟨-, heq⟩
  · exact .of_ok (a := h) (by rw [heq])
  · exact .of_state (by rw [heq])

end Arena

namespace Container

/-- Look for the parent, register the class, and look the class up again to give it the parent. -/
def registerSubclassInSteps (name parent : String) : Action Container Unit := do
  check (·.hasClass parent) ((Error.of (.unknownClass parent)).withNote s!"parent of {name}")
  change (·.registerClass name)
  updateClass name fun c => { c with parent := some parent }

/-- Find the class, look for a method of the name, declare the method and document it. -/
def addMethodInSteps (owner : String) (m : Method) : Action Container Unit := do
  let c ← ask (·.getClass owner)
  check (fun _ => (c.method? m.name).isNone) (Error.of (.duplicateMember owner m.name))
  change (·.putClass owner (c.declareMethod (m.ownedBy owner)))
  change (·.registerDoc (m.ownedBy owner).qualified (m.ownedBy owner).doc)

/-- Take the module off the list, and see afterwards whether it was there. -/
def removeModuleInSteps (name : String) : Action Container Unit := do
  let known ← Action.always fun k =>
    (k.hasModule name, { k with modules := k.modules.erase name })
  check (fun _ => known) (Error.of (.unknownModule name))
  change fun k =>
    { k with currentModule := if k.currentModule = some name then none else k.currentModule }

theorem reverts_updateClass (name : String) (f : Class → Class) (k : Container) :
    Reverts (updateClass name f) k k := by
  cases hc : k.classes.find? name with
  | some c => exact .of_ok (a := ()) (by rw [updateClass_of_find? hc])
  | none => exact .of_state (by simp only [updateClass, hc])

theorem registerSubclass_eq_inSteps (name parent : String) :
    registerSubclass name parent = registerSubclassInSteps name parent := by
  funext k
  by_cases hparent : k.classes.contains parent = true
  · have hfound := find?_registerClass k name name
    rw [if_pos rfl] at hfound
    rw [registerSubclass_of_contains k name hparent, Dict.modify_of_find? hfound]
    simp [registerSubclassInSteps, bind_apply, check, hasClass, hparent, change,
      updateClass_of_find? hfound, putClass]
  · rw [registerSubclass_of_not_contains k name hparent]
    simp [registerSubclassInSteps, bind_apply, check, hasClass, hparent]

/-- The class is registered before it is looked up again, and it is found. -/
theorem reverts_registerSubclass (name parent : String) (k : Container) :
    Reverts (registerSubclass name parent) k k := by
  rw [registerSubclass_eq_inSteps]
  refine .check_bind (fun _ => rfl) fun _ => .change_bind ?_
  have hfound := find?_registerClass k name name
  rw [if_pos rfl] at hfound
  exact .of_ok (by rw [updateClass_of_find? hfound])

theorem addMethod_eq_inSteps (owner : String) (m : Method) :
    addMethod owner m = addMethodInSteps owner m := by
  funext k
  cases hc : k.classes.find? owner with
  | none => simp [addMethod, addMethodInSteps, bind_apply, ask, getClass, hc]
  | some c =>
      cases hm : c.method? m.name <;>
        simp [addMethod, addMethodInSteps, bind_apply, ask, getClass, hc, check, hm, change]

/-- The method is declared before it is documented, and documenting is not refused. -/
theorem reverts_addMethod (owner : String) (m : Method) (k : Container) :
    Reverts (addMethod owner m) k k := by
  rw [addMethod_eq_inSteps]
  exact .ask_bind fun c _ => .check_bind (fun _ => rfl) fun _ => .change_bind (.of_ok rfl)

theorem removeModule_eq_inSteps (name : String) :
    removeModule name = removeModuleInSteps name := by
  funext k
  cases hk : k.modules.contains name with
  | true =>
      simp [removeModule, removeModuleInSteps, bind_apply, Action.always, hasModule, hk, check,
        change]
  | false =>
      simp [removeModule, removeModuleInSteps, bind_apply, Action.always, hasModule, hk, check,
        Dict.erase_of_not_contains hk]

/-- The module is taken off the list before it is known whether it was there. -/
theorem reverts_removeModule (name : String) (k : Container) :
    Reverts (removeModule name) k k := by
  rw [removeModule_eq_inSteps]
  refine .bind (.of_ok rfl) fun known l herase => ?_
  obtain ⟨hknown, rfl⟩ := Prod.mk.inj herase
  cases hknown
  refine .check_bind (fun hk => ?_) fun _ => .of_ok rfl
  show { k with modules := k.modules.erase name } = k
  rw [Dict.erase_of_not_contains hk]

theorem reverts_describeModule (name description : String) (k : Container) :
    Reverts (describeModule name description) k k := by
  cases hentry : k.modules.find? name with
  | some entry => exact .of_ok (a := ()) (by simp only [describeModule, hentry])
  | none => exact .of_state (by simp only [describeModule, hentry])

theorem reverts_enter (name : String) (k : Container) : Reverts (enter name) k k := by
  cases htable : k.scopes.find? name with
  | some table => exact .of_ok (a := ()) (by simp only [enter, htable])
  | none => exact .of_state (by simp only [enter, htable])

theorem reverts_add (k : Container) (a : Admission) (id : SymbolId) (scope : Option String)
    (s : Store) : Reverts (k.add a id scope) s s := by
  intro e he
  unfold add at he ⊢
  cases hsymbol : s.symbol? id with
  | none => rfl
  | some symbol =>
      simp only [hsymbol] at he ⊢
      cases hspace : spaceFor a symbol with
      | error e' => rfl
      | ok space =>
          cases htable : k.targetTable scope with
          | error e' => rfl
          | ok table =>
              rw [hspace, htable] at he
              cases he

end Container

theorem reverts_bindSymbol (id : SymbolId) (c : CellId) (s : Store) :
    Reverts (Store.bindSymbol id c) s s := by
  intro e he
  unfold Store.bindSymbol at he ⊢
  cases hsymbol : s.symbol? id with
  | none => rfl
  | some symbol =>
      simp only [hsymbol] at he ⊢
      cases hbind : symbol.bind c with
      | error e' => rfl
      | ok bound =>
          rw [hbind] at he
          cases he

namespace Container

theorem reverts_assign (k : Container) (name : String) (c : CellId) (s : Store) :
    Reverts (k.assign name c) s s := by
  cases hid : k.lookup? s Space.vars name with
  | some id =>
      have hassign : k.assign name c s = Store.bindSymbol id c s := by simp only [assign, hid]
      intro e he
      rw [hassign] at he ⊢
      exact reverts_bindSymbol id c s e he
  | none =>
      refine .of_state ?_
      simp only [assign, hid]
      split <;> rfl

end Container

/-- A body of a built-in function reads its arguments, which may be refused, and then makes new
cells only. -/
theorem reverts_builtin {b : Builtin} (hb : b ∈ Builtin.all) {f : BuiltinFunction}
    (hf : f ∈ b.functions) (k : Container) (args : List CellId) (s : Store) :
    Reverts (f.primitive.run k args) s s := by
  have hbodies : ∀ b ∈ Builtin.all, ∀ f ∈ b.functions, f.primitive ∈
      [Primitive.listModules, .moduleExists, .moduleInfo, .functionInfo, .classInfo, .typeOf] := by
    decide
  have hbody := hbodies b hb f hf
  generalize f.primitive = p at hbody ⊢
  unfold Primitive.run
  refine .bind (.of_ok rfl) fun _ _ hget => ?_
  obtain ⟨hstate, rfl⟩ := Prod.mk.inj hget
  cases hstate
  simp only [List.mem_cons, List.not_mem_nil, or_false] at hbody
  rcases hbody with rfl | rfl | rfl | rfl | rfl | rfl
  all_goals exact .lift_bind fun _ => .of_ok rfl

namespace Engine

/-- The first cell of a static property, put into its class. -/
def openStatic (owner : String) (c : Class) (p : Property) : Action Engine Unit := do
  let cell ← onHeap (Action.always p.initialCell)
  onContainer (change (·.putClass owner (c.setStatic p.name cell)))

/-- Find the class, look for a property of the name, make the cell if the property is static, and
declare the property in the class as it is by then. -/
def addPropertyInSteps (owner : String) (p : Property) : Action Engine Unit := do
  let c ← ask (·.container.getClass owner)
  check (fun _ => (c.property? p.name).isNone) (Error.of (.duplicateMember owner p.name))
  if p.isStatic then openStatic owner c p else pure ()
  onContainer (change fun k =>
    { k with classes := k.classes.modify owner (·.declareProperty p) })

theorem openStatic_apply (owner : String) (c : Class) (p : Property) (e : Engine) :
    openStatic owner c p e =
      (.ok (), ⟨{ e.store with heap := (p.initialCell e.store.heap).2 },
        e.container.putClass owner (c.setStatic p.name (p.initialCell e.store.heap).1)⟩) := rfl

theorem addProperty_eq_inSteps (owner : String) (p : Property) :
    addProperty owner p = addPropertyInSteps owner p := by
  funext e
  cases hc : e.container.classes.find? owner with
  | none =>
      simp [addProperty, addPropertyInSteps, bind_apply, ask, Container.getClass, hc]
  | some c =>
      cases hp : c.property? p.name with
      | some q =>
          simp [addProperty, addPropertyInSteps, bind_apply, ask, Container.getClass, hc, check, hp]
      | none =>
          cases hstatic : p.isStatic with
          | true =>
              -- The class is put twice, the second time with the property declared.
              have htwice : ∀ d : Class, (e.container.classes.insert owner d).modify owner
                  (·.declareProperty p) =
                    e.container.classes.insert owner (d.declareProperty p) := by
                intro d
                rw [Dict.modify_of_find? (Dict.find?_insert_self _ _ _), Dict.insert_insert]
              rcases hcell : p.initialCell e.store.heap with ⟨cell, heap⟩
              simp [addProperty, addPropertyInSteps, bind_apply, ask, Container.getClass, hc,
                check, hp, hstatic, openStatic_apply, hcell, onContainer, onPart, change,
                Container.putClass, htwice]
              rfl
          | false =>
              simp [addProperty, addPropertyInSteps, bind_apply, ask, Container.getClass, hc,
                check, hp, hstatic, onContainer, onPart, change, Container.putClass,
                Dict.modify_of_find? hc]

/-- The cell of a static property is made before the property is declared, and declaring it is not
refused. -/
theorem reverts_addProperty (owner : String) (p : Property) (e : Engine) :
    Reverts (addProperty owner p) e e := by
  rw [addProperty_eq_inSteps]
  refine .ask_bind fun c _ => .check_bind (fun _ => rfl) fun _ => ?_
  cases p.isStatic with
  | true => exact .bind (.of_ok rfl) fun _ _ _ => .of_ok rfl
  | false => exact .of_ok rfl

end Engine

/-- An engine and the arenas of its host, each with items of its own type. -/
structure Host {ι : Type} (α : ι → Type) where
  engine : Engine
  arenas : (i : ι) → Arena (α i)

/-- An operation that may be refused, with its arguments. -/
inductive Operation {ι : Type} (α : ι → Type)
  /-- Change stored data in place. -/
  | putData (c : CellId) (k : Kind) (d : k.Data)
  | setTag (c : CellId) (t : Tag)
  | updateMap (c : CellId) (f : Dict CellId → Dict CellId)
  | copyAsClass (c : CellId)
  | insertItem (i : ι) (x : α i)
  | modifyItem (i : ι) (h : Handle) (f : α i → α i)
  | removeItem (i : ι) (h : Handle)
  | enter (name : String)
  | add (a : Admission) (id : SymbolId) (scope : Option String)
  | assign (name : String) (c : CellId)
  | bindSymbol (id : SymbolId) (c : CellId)
  | registerSubclass (name parent : String)
  | addProperty (owner : String) (p : Property)
  | addMethod (owner : String) (m : Method)
  | setStatic (name property : String) (c : CellId)
  | eraseStatic (name property : String)
  | clearStatics (name : String)
  | removeModule (name : String)
  | describeModule (name description : String)
  | instantiate (m : Dict CellId)
  /-- Run the body of a built-in function. -/
  | runBuiltin (b : Builtin) (hb : b ∈ Builtin.all) (f : BuiltinFunction) (hf : f ∈ b.functions)
      (args : List CellId)

section Hosts

variable {ι : Type} {α : ι → Type} {β : Type}

namespace Host

/-- An action on the engine, without its answer. -/
def onEngine (act : Action Engine β) : Action (Host α) Unit :=
  silent (onPart Host.engine (fun w engine => { w with engine }) act)

/-- An action on the store that reads the container. -/
def onStore (act : Container → Action Store β) : Action (Host α) Unit :=
  onEngine fun e => Engine.onStore (act e.container) e

/-- An action on the container, without its answer. -/
def onContainer (act : Action Container β) : Action (Host α) Unit :=
  onEngine (Engine.onContainer act)

/-- An action on one arena, without its answer. -/
def onArena [DecidableEq ι] (i : ι) (act : Action (Arena (α i)) β) : Action (Host α) Unit :=
  silent (onPart (fun w => w.arenas i)
    (fun w a => { w with arenas := Function.update w.arenas i a }) act)

variable {w : Host α}

theorem reverts_onEngine {act : Action Engine β} (h : Reverts act w.engine w.engine) :
    Reverts (onEngine act) w w :=
  .silent (.onPart rfl h)

theorem reverts_onStore {act : Container → Action Store β}
    (h : Reverts (act w.engine.container) w.engine.store w.engine.store) :
    Reverts (onStore act) w w :=
  reverts_onEngine (Reverts.onPart (s := w.engine) rfl h)

theorem reverts_onHeap {act : Container → Action Heap β}
    (h : Reverts (act w.engine.container) w.engine.store.heap w.engine.store.heap) :
    Reverts (onStore fun k => Store.onHeap (act k)) w w :=
  reverts_onStore (.onPart rfl h)

theorem reverts_onContainer {act : Action Container β}
    (h : Reverts act w.engine.container w.engine.container) : Reverts (onContainer act) w w :=
  reverts_onEngine (.onPart rfl h)

theorem reverts_onArena [DecidableEq ι] {i : ι} {act : Action (Arena (α i)) β}
    (h : Reverts act (w.arenas i) (w.arenas i)) : Reverts (onArena i act) w w :=
  .silent (.onPart (by rw [Function.update_eq_self]) h)

end Host

variable [DecidableEq ι]

/-- Perform an operation.  Answers are dropped. -/
def Operation.perform : Operation α → Action (Host α) Unit
  | .putData c k d => Host.onStore fun _ => Store.onHeap (Heap.update c (Value.put k d))
  | .setTag c t => Host.onStore fun _ => Store.onHeap (Heap.update c (Value.setTag t))
  | .updateMap c f => Host.onStore fun _ => Store.onHeap (Heap.update c (Value.updateMap f))
  | .copyAsClass c => Host.onStore fun _ => Store.onHeap (Heap.copyAsClass c)
  | .insertItem i x => Host.onArena i (Arena.insert x)
  | .modifyItem i h f => Host.onArena i (Arena.modify h f)
  | .removeItem i h => Host.onArena i (Arena.remove h)
  | .enter name => Host.onContainer (Container.enter name)
  | .add a id scope => Host.onStore fun k => k.add a id scope
  | .assign name c => Host.onStore fun k => k.assign name c
  | .bindSymbol id c => Host.onStore fun _ => Store.bindSymbol id c
  | .registerSubclass name parent => Host.onContainer (Container.registerSubclass name parent)
  | .addProperty owner p => Host.onEngine (Engine.addProperty owner p)
  | .addMethod owner m => Host.onContainer (Container.addMethod owner m)
  | .setStatic name property c => Host.onContainer (Container.setStatic name property c)
  | .eraseStatic name property => Host.onContainer (Container.eraseStatic name property)
  | .clearStatics name => Host.onContainer (Container.clearStatics name)
  | .removeModule name => Host.onContainer (Container.removeModule name)
  | .describeModule name description =>
      Host.onContainer (Container.describeModule name description)
  | .instantiate m => Host.onStore fun k => Store.onHeap (k.instantiate m)
  | .runBuiltin _ _ f _ args => Host.onStore fun k => f.primitive.run k args

/-- A refused operation leaves the host as it was.  Only insertions need the arenas to be tidy. -/
theorem Operation.reverts_perform {w : Host α} (hw : ∀ i, (w.arenas i).Tidy)
    (op : Operation α) : Reverts op.perform w w := by
  cases op with
  | putData c k d => exact Host.reverts_onHeap (reverts_update c _ _)
  | setTag c t => exact Host.reverts_onHeap (reverts_update c _ _)
  | updateMap c f => exact Host.reverts_onHeap (reverts_update c _ _)
  | copyAsClass c => exact Host.reverts_onHeap (reverts_copyAsClass c _)
  | insertItem i x => exact Host.reverts_onArena ((hw i).reverts_insert x)
  | modifyItem i h f => exact Host.reverts_onArena (Arena.reverts_modify h f _)
  | removeItem i h => exact Host.reverts_onArena (Arena.reverts_remove h _)
  | enter name => exact Host.reverts_onContainer (Container.reverts_enter name _)
  | add a id scope => exact Host.reverts_onStore (Container.reverts_add _ a id scope _)
  | assign name c => exact Host.reverts_onStore (Container.reverts_assign _ name c _)
  | bindSymbol id c => exact Host.reverts_onStore (reverts_bindSymbol id c _)
  | registerSubclass name parent =>
      exact Host.reverts_onContainer (Container.reverts_registerSubclass name parent _)
  | addProperty owner p => exact Host.reverts_onEngine (Engine.reverts_addProperty owner p _)
  | addMethod owner m => exact Host.reverts_onContainer (Container.reverts_addMethod owner m _)
  | setStatic name property c =>
      exact Host.reverts_onContainer (Container.reverts_updateClass _ _ _)
  | eraseStatic name property =>
      exact Host.reverts_onContainer (Container.reverts_updateClass _ _ _)
  | clearStatics name => exact Host.reverts_onContainer (Container.reverts_updateClass _ _ _)
  | removeModule name => exact Host.reverts_onContainer (Container.reverts_removeModule name _)
  | describeModule name description =>
      exact Host.reverts_onContainer (Container.reverts_describeModule name description _)
  | instantiate m => exact Host.reverts_onHeap (reverts_instantiate _ m _)
  | runBuiltin b hb f hf args => exact Host.reverts_onStore (reverts_builtin hb hf _ args _)

end Hosts

namespace Container

/-- A refused registration leaves what its body left, and the module that was current before. -/
theorem registerModule_of_refused {info : ModuleInfo} {body : Action Container Unit}
    {k : Container} {e : Error} (h : (registerModule info body k).1 = .error e) :
    (registerModule info body k).2 =
      { (body (k.openModule info.name)).2 with currentModule := k.currentModule } := by
  rcases hbody : body (k.openModule info.name) with ⟨result, l⟩
  rw [registerModule_of_body info hbody] at h ⊢
  cases result with
  | ok _ => cases h
  | error e' => rfl

/-- The body of a module that registers a function and then fails. -/
def failingBody (native : Native) (e : Error) : List Registration :=
  [.function "f" native .null, .fail e]

theorem registerModule_failingBody (info : ModuleInfo) (native : Native) (e : Error)
    (k : Container) :
    registerModule info (Registration.performAll (failingBody native e)) k =
      (.error (e.withNote (moduleNote info.name)),
        { (k.openModule info.name).registerFunction "f" native .null with
          currentModule := k.currentModule }) := by
  have hbody : Registration.performAll (failingBody native e) (k.openModule info.name) =
      (.error e, (k.openModule info.name).registerFunction "f" native .null) := rfl
  rw [registerModule_of_body info hbody]
  rfl

/-- Of two functions to register, one is not the function that is there. -/
theorem exists_failingBody_ne (info : ModuleInfo) (e : Error) (k : Container) :
    ∃ native, (registerModule info (Registration.performAll (failingBody native e)) k).2 ≠ k := by
  by_contra hnone
  have hfound : ∀ native, k.functions.find? "f" = some ⟨native, some info.name⟩ := by
    intro native
    have hk := not_not.1 (not_exists.1 hnone native)
    rw [registerModule_failingBody] at hk
    rw [← hk]
    exact Dict.find?_insert_self _ _ _
  have htwo := (hfound (.perform .count)).symm.trans (hfound (.perform .sum))
  exact absurd htwo (by simp)

end Container

/-- After any run of calls and requests, a refused operation leaves the host exactly as it was.
A refused registration of a module leaves what its body left, with the module that was current
before; and whatever the state, the module and the error, some body fails with that error and has
changed the container. -/
theorem refusals_change_nothing {ι : Type} [DecidableEq ι] {α : ι → Type} (rootName : String)
    (hname : rootName ≠ "") (maxDepth : Nat) (s : Store) (ids : ι → UInt32) :
    ∃ k s', Container.build rootName maxDepth s = (.ok k, s') ∧
      ∀ (calls : List EngineCall) (requests : List ((i : ι) × Arena.Request (α i))),
        let host : Host α :=
          ⟨Engine.run ⟨s', k⟩ calls, fun i => (Arena.run ids requests i).arena⟩
        let now := host.engine.container
        (∀ (op : Operation α) e, (op.perform host).1 = .error e → (op.perform host).2 = host) ∧
        (∀ info (body : Action Container Unit) e,
          (Container.registerModule info body now).1 = .error e →
          (Container.registerModule info body now).2 =
            { (body (now.openModule info.name)).2 with currentModule := now.currentModule }) ∧
        ∀ info (e : Error), ∃ body,
          (Container.registerModule info (Registration.performAll body) now).1 =
            .error (e.withNote (moduleNote info.name)) ∧
          (Container.registerModule info (Registration.performAll body) now).2 ≠ now := by
  have hbuild := build_of_ne_empty hname maxDepth s
  refine ⟨_, _, hbuild, fun calls requests => ⟨?_, ?_, ?_⟩⟩
  · intro op e
    exact Operation.reverts_perform (fun i => Arena.tidy_run ids requests i) op e
  · intro info body e
    exact Container.registerModule_of_refused
  · intro info e
    obtain ⟨native, hne⟩ := Container.exists_failingBody_ne info e _
    refine ⟨Container.failingBody native e, ?_, hne⟩
    rw [Container.registerModule_failingBody]

/-- A class and no other, and an arena whose only item was removed. -/
def oneClass : List EngineCall := [.registry (.registerClass "A")]

def oneRemoved : List ((_ : Unit) × Arena.Request String) :=
  [⟨(), .insert "a"⟩, ⟨(), .remove ⟨1, 0, 0⟩⟩]

theorem second_removal_changes_nothing :
    "main" ≠ "" ∧
    ∃ k s', Container.build "main" defaultMaxDepth Store.empty = (.ok k, s') ∧
      let host : Host fun _ : Unit => String :=
        ⟨Engine.run ⟨s', k⟩ oneClass, fun i => (Arena.run (fun _ => 1) oneRemoved i).arena⟩
      let remove : Operation fun _ : Unit => String := .removeItem () ⟨1, 0, 0⟩
      let inherit : Operation fun _ : Unit => String := .registerSubclass "B" "C"
      ((remove.perform host).1 = .error (Error.of .staleHandle) ∧ (remove.perform host).2 = host) ∧
      (inherit.perform host).1 = .error ⟨.unknownClass "C", ["parent of B"]⟩ ∧
        (inherit.perform host).2 = host := by
  obtain ⟨k, s', hbuild, hrun⟩ := refusals_change_nothing (α := fun _ : Unit => String) "main"
    (by decide) defaultMaxDepth Store.empty fun _ => 1
  cases hbuild
  obtain ⟨hops, -⟩ := hrun oneClass oneRemoved
  exact ⟨by decide, _, _, rfl, ⟨rfl, hops (.removeItem () ⟨1, 0, 0⟩) _ rfl⟩, rfl,
    hops (.registerSubclass "B" "C") _ rfl⟩

end ScriptCore
