import ScriptCore.Proofs.ScopeNames
import ScriptCore.Proofs.TableChains
import ScriptCore.Registry.Call
import ScriptCore.Registry.Member
import ScriptCore.Registry.Static

/-!
# Runs of an engine

Every call that changes an engine, and what all of them keep.  A call enters or leaves a scope,
changes a registry, adds or binds a symbol, runs a function, or works on the store as the host
may do that holds cells, symbols and tables itself.  Calls that only read are left out.

**Modules.**  Registering a module is not one call but two, with the calls of its body between
them, so that the states inside a registration are reached as well.  If the body does what a run
does, so does the whole registration (`Engine.exists_run_registerModule`).

**Invariant.**  `Grounded`: the tables on the stack and under the scope names are in the store,
and the root table has no parent.  Calls other than those that enter or leave scopes keep the
stack and the names, and no call gives a table another parent (`KeepsScopes`).

**Results.**
* `sameCore_registry`: what calls on classes, documentation and modules leave alone.
* `keepsScopes_registry`, `keepsScopes_store`, `keepsScopes_add`, `keepsScopes_assign`,
  `keepsScopes_call`: what the calls that are no scope calls leave alone.
* `grounded_run`, `root_run`: what every run keeps.
-/

namespace ScriptCore

/-- What is said about a module that an error came out of. -/
def moduleNote (name : String) : String := s!"while registering module {name}"

namespace Container

/-- The start of a registration. -/
def openModule (k : Container) (name : String) : Container := { k with currentModule := some name }

/-- The end of a registration, which lists the module if it succeeded. -/
def closeModule (k : Container) (previous : Option String) (listed : Option ModuleInfo) :
    Container :=
  { k with
    currentModule := previous
    modules :=
      match listed with
      | some info => k.modules.insert info.name ⟨info, info.description⟩
      | none => k.modules }

/-- A registration is its start, its body and its end. -/
theorem registerModule_of_body (info : ModuleInfo) {body : Action Container Unit}
    {k l : Container} {result : Except Error Unit}
    (hbody : body (k.openModule info.name) = (result, l)) :
    registerModule info body k =
      (result.mapError (Error.withNote · (moduleNote info.name)),
        l.closeModule k.currentModule (if result.isOk then some info else none)) := by
  rw [registerModule_apply, ← openModule, hbody]
  cases result <;> rfl

end Container

/-- A call that changes a registry. -/
inductive RegistryCall
  | registerFunction (name : String) (native : Native) (returns : Tag)
  | registerDoc (key : String) (doc : Doc)
  | registerClass (name : String)
  | registerSubclass (name parent : String)
  | addProperty (owner : String) (p : Property)
  | addMethod (owner : String) (m : Method)
  | setStatic (name property : String) (c : CellId)
  | eraseStatic (name property : String)
  | clearStatics (name : String)
  | openModule (name : String)
  | closeModule (previous : Option String) (listed : Option ModuleInfo)
  | removeModule (name : String)
  | describeModule (name description : String)

/-- The engine after a call, whether the call is refused or not. -/
def RegistryCall.perform : RegistryCall → Engine → Engine
  | .registerFunction name native returns, e =>
      { e with container := e.container.registerFunction name native returns }
  | .registerDoc key doc, e => { e with container := e.container.registerDoc key doc }
  | .registerClass name, e => { e with container := e.container.registerClass name }
  | .registerSubclass name parent, e =>
      (Engine.onContainer (Container.registerSubclass name parent) e).2
  | .addProperty owner p, e => (Engine.addProperty owner p e).2
  | .addMethod owner m, e => (Engine.onContainer (Container.addMethod owner m) e).2
  | .setStatic name property c, e =>
      (Engine.onContainer (Container.setStatic name property c) e).2
  | .eraseStatic name property, e =>
      (Engine.onContainer (Container.eraseStatic name property) e).2
  | .clearStatics name, e => (Engine.onContainer (Container.clearStatics name) e).2
  | .openModule name, e => { e with container := e.container.openModule name }
  | .closeModule previous listed, e =>
      { e with container := e.container.closeModule previous listed }
  | .removeModule name, e => (Engine.onContainer (Container.removeModule name) e).2
  | .describeModule name description, e =>
      (Engine.onContainer (Container.describeModule name description) e).2

/-- What a host does that holds cells, symbols and tables. -/
inductive StoreCall
  /-- Any change of the cells. -/
  | changeCells (f : Heap → Heap)
  | makeSymbol (symbol : Symbol)
  | bindSymbol (id : SymbolId) (c : CellId)
  | makeTable (parent : Option TableId)
  /-- Define, remove or clear symbols of a table. -/
  | changeTable (t : TableId) (f : Spaces → Spaces)

def StoreCall.perform : StoreCall → Store → Store
  | .changeCells f, s => { s with heap := f s.heap }
  | .makeSymbol symbol, s => (Store.addSymbol symbol s).2
  | .bindSymbol id c, s => (Store.bindSymbol id c s).2
  | .makeTable parent, s => (Store.addTable parent s).2
  | .changeTable t f, s => { s with tables := s.tables.modify t f }

/-- A call that changes an engine. -/
inductive EngineCall
  | scope (c : ScopeCall)
  | registry (c : RegistryCall)
  | store (c : StoreCall)
  | add (a : Admission) (id : SymbolId) (target : Option String)
  | assign (name : String) (c : CellId)
  /-- Call a function or method. -/
  | call (callee : Callee) (args : List CellId)

def EngineCall.perform : EngineCall → Engine → Engine
  | .scope c, e => c.perform e
  | .registry c, e => c.perform e
  | .store c, e => { e with store := c.perform e.store }
  | .add a id target, e => (Engine.onStore (e.container.add a id target) e).2
  | .assign name c, e => (Engine.onStore (e.container.assign name c) e).2
  | .call callee args, e => (Engine.onStore (e.container.call callee args) e).2

/-- The engine after a run of calls. -/
def Engine.run (e : Engine) (calls : List EngineCall) : Engine :=
  calls.foldl (fun e c => c.perform e) e

/-- What every call keeps, every run keeps. -/
theorem Engine.run_induction {P : Engine → Prop} (hstep : ∀ c e, P e → P (EngineCall.perform c e))
    (calls : List EngineCall) {e : Engine} (h : P e) : P (e.run calls) := by
  induction calls generalizing e with
  | nil => exact h
  | cons c calls ih => exact ih (hstep c e h)

theorem Engine.run_append (e : Engine) (calls later : List EngineCall) :
    e.run (calls ++ later) = (e.run calls).run later :=
  List.foldl_append

theorem Engine.run_append_singleton (e : Engine) (calls : List EngineCall) (c : EngineCall) :
    e.run (calls ++ [c]) = c.perform (e.run calls) :=
  e.run_append calls [c]

/-- A registration is a run, if its body does what a run does. -/
theorem Engine.exists_run_registerModule {e : Engine} (info : ModuleInfo)
    {body : Action Container Unit} {calls : List EngineCall}
    (hbody : Engine.run { e with container := e.container.openModule info.name } calls =
      { e with container := (body (e.container.openModule info.name)).2 }) :
    ∃ calls, e.run calls =
      { e with container := (Container.registerModule info body e.container).2 } := by
  let listed := if (body (e.container.openModule info.name)).1.isOk then some info else none
  refine ⟨.registry (.openModule info.name) ::
    (calls ++ [.registry (.closeModule e.container.currentModule listed)]), ?_⟩
  have hmodule : Container.registerModule info body e.container = _ :=
    Container.registerModule_of_body info rfl
  show Engine.run { e with container := e.container.openModule info.name } (calls ++ _) = _
  rw [run_append_singleton, hbody, hmodule]
  rfl

namespace Container

/-- The stack, the scope names and the call counter are the same. -/
structure SameScopes (k l : Container) : Prop where
  stack : l.stack = k.stack
  scopes : l.scopes = k.scopes
  nextFrame : l.nextFrame = k.nextFrame

theorem SameScopes.refl (k : Container) : SameScopes k k := ⟨rfl, rfl, rfl⟩

/-- The scopes, the functions and the depth limit are the same; classes, documentation and modules
may differ. -/
structure SameCore (k l : Container) : Prop extends SameScopes k l where
  functions : l.functions = k.functions
  maxDepth : l.maxDepth = k.maxDepth

/-- Only classes and modules may differ. -/
structure SameRecords (k l : Container) : Prop extends SameCore k l where
  docs : l.docs = k.docs

theorem SameRecords.refl (k : Container) : SameRecords k k := ⟨⟨.refl k, rfl, rfl⟩, rfl⟩

variable (k : Container)

theorem sameRecords_update (classes : Dict Class) (modules : Dict ModuleEntry)
    (currentModule : Option String) :
    SameRecords k { k with classes, modules, currentModule } :=
  ⟨⟨⟨rfl, rfl, rfl⟩, rfl, rfl⟩, rfl⟩

theorem sameRecords_registerClass (name : String) : SameRecords k (k.registerClass name) := by
  unfold registerClass
  split
  · exact .refl k
  · exact k.sameRecords_update _ _ _

theorem sameRecords_registerSubclass (name parent : String) :
    SameRecords k (registerSubclass name parent k).2 := by
  unfold registerSubclass
  split
  · have h := k.sameRecords_registerClass name
    exact ⟨⟨⟨h.stack, h.scopes, h.nextFrame⟩, h.functions, h.maxDepth⟩, h.docs⟩
  · exact .refl k

theorem sameRecords_updateClass (name : String) (f : Class → Class) :
    SameRecords k (updateClass name f k).2 := by
  unfold updateClass
  split
  · exact k.sameRecords_update _ _ _
  · exact .refl k

theorem sameRecords_removeModule (name : String) : SameRecords k (removeModule name k).2 := by
  unfold removeModule
  split
  · exact k.sameRecords_update _ _ _
  · exact .refl k

theorem sameRecords_describeModule (name description : String) :
    SameRecords k (describeModule name description k).2 := by
  unfold describeModule
  split
  · exact k.sameRecords_update _ _ _
  · exact .refl k

/-- A method is documented when it is declared. -/
theorem sameCore_addMethod (owner : String) (m : Method) :
    SameCore k (addMethod owner m k).2 := by
  unfold addMethod
  split
  · exact (SameRecords.refl k).toSameCore
  · split
    · exact (SameRecords.refl k).toSameCore
    · exact ⟨⟨rfl, rfl, rfl⟩, rfl, rfl⟩

end Container

theorem sameRecords_addProperty (owner : String) (p : Property) (e : Engine) :
    e.container.SameRecords (Engine.addProperty owner p e).2.container := by
  unfold Engine.addProperty
  dsimp only
  split
  · exact .refl _
  · split
    · exact .refl _
    · split <;> exact e.container.sameRecords_update _ _ _

/-- A registry call registers a function or is about classes, documentation and modules. -/
theorem sameCore_registry (c : RegistryCall) (e : Engine) :
    (∃ name native returns, c = .registerFunction name native returns) ∨
      e.container.SameCore (c.perform e).container := by
  cases c with
  | registerFunction name native returns => exact .inl ⟨name, native, returns, rfl⟩
  | registerDoc key doc => exact .inr ⟨⟨rfl, rfl, rfl⟩, rfl, rfl⟩
  | registerClass name => exact .inr (e.container.sameRecords_registerClass name).toSameCore
  | registerSubclass name parent =>
      exact .inr (e.container.sameRecords_registerSubclass name parent).toSameCore
  | addProperty owner p => exact .inr (sameRecords_addProperty owner p e).toSameCore
  | addMethod owner m => exact .inr (e.container.sameCore_addMethod owner m)
  | setStatic name property c => exact .inr (e.container.sameRecords_updateClass _ _).toSameCore
  | eraseStatic name property => exact .inr (e.container.sameRecords_updateClass _ _).toSameCore
  | clearStatics name => exact .inr (e.container.sameRecords_updateClass _ _).toSameCore
  | openModule name => exact .inr (e.container.sameRecords_update _ _ _).toSameCore
  | closeModule previous listed => exact .inr (e.container.sameRecords_update _ _ _).toSameCore
  | removeModule name => exact .inr (e.container.sameRecords_removeModule name).toSameCore
  | describeModule name description =>
      exact .inr (e.container.sameRecords_describeModule name description).toSameCore

/-- A registry call leaves symbols and tables alone. -/
theorem store_registry (c : RegistryCall) (e : Engine) :
    ∃ heap, (c.perform e).store = { e.store with heap } := by
  cases c with
  | addProperty owner p =>
      simp only [RegistryCall.perform, Engine.addProperty]
      split
      · exact ⟨_, rfl⟩
      · split
        · exact ⟨_, rfl⟩
        · split <;> exact ⟨_, rfl⟩
  | _ => exact ⟨e.store.heap, rfl⟩

/-- The scopes, their names and the call counter are the same, and no table has another
parent. -/
structure KeepsScopes (e f : Engine) : Prop where
  container : e.container.SameScopes f.container
  tables : e.store.tables.KeepsParents f.store.tables

theorem keepsScopes_onStore {α : Type} {act : Action Store α} {e : Engine}
    (h : e.store.tables.KeepsParents (act e.store).2.tables) :
    KeepsScopes e (Engine.onStore act e).2 := ⟨.refl _, h⟩

theorem keepsScopes_registry (c : RegistryCall) (e : Engine) : KeepsScopes e (c.perform e) where
  container := by
    obtain ⟨name, native, returns, rfl⟩ | hcore := sameCore_registry c e
    · exact ⟨rfl, rfl, rfl⟩
    · exact hcore.toSameScopes
  tables := by
    obtain ⟨heap, hstore⟩ := store_registry c e
    rw [hstore]
    exact .refl _

/-- A bound symbol is a variable and stays one. -/
theorem Symbol.of_bind {symbol bound : Symbol} {c : CellId} (h : symbol.bind c = .ok bound) :
    symbol.kind = .var ∧ bound.kind = .var ∧ bound.cell? = some c := by
  obtain ⟨name, context, meaning⟩ := symbol
  cases meaning <;> cases h
  exact ⟨rfl, rfl, rfl⟩

theorem Store.symbol?_setIfInBounds (s : Store) (id other : SymbolId) (symbol : Symbol) :
    Store.symbol? { s with symbols := s.symbols.setIfInBounds id.index symbol } other =
      if other = id then (s.symbol? id).map fun _ => symbol else s.symbol? other := by
  obtain ⟨i⟩ := id
  obtain ⟨j⟩ := other
  simp only [Store.symbol?, Array.getElem?_setIfInBounds, SymbolId.mk.injEq]
  by_cases hij : j = i
  · subst hij
    by_cases hlt : j < s.symbols.size <;> simp [hlt]
  · simp [hij, Ne.symm hij]

theorem tables_bindSymbol (id : SymbolId) (c : CellId) (s : Store) :
    (Store.bindSymbol id c s).2.tables = s.tables := by
  unfold Store.bindSymbol
  cases s.symbol? id with
  | none => rfl
  | some symbol => cases hbound : symbol.bind c <;> simp [hbound]

theorem keepsScopes_store (c : StoreCall) (e : Engine) :
    KeepsScopes e { e with store := c.perform e.store } := by
  refine ⟨.refl _, ?_⟩
  cases c with
  | changeCells f => exact .refl _
  | makeSymbol symbol => exact .refl _
  | bindSymbol id c =>
      show e.store.tables.KeepsParents (Store.bindSymbol id c e.store).2.tables
      rw [tables_bindSymbol]
      exact .refl _
  | makeTable parent => exact .add _ parent
  | changeTable t f => exact .modify _ t f

/-- A symbol of an accepted kind goes into the target table, if there is one; all else is as it
was. -/
theorem store_add (k : Container) (a : Admission) (id : SymbolId) (scope : Option String)
    (s : Store) :
    (k.add a id scope s).2 = s ∨
      ∃ symbol t, s.symbol? id = some symbol ∧ symbol.kind ∈ a.kinds ∧
        k.targetTable scope = .ok t ∧
        (k.add a id scope s).2 = { s with
          tables := s.tables.modify t (·.define (a.space symbol.kind) symbol.name id) } := by
  cases hsymbol : s.symbol? id with
  | none =>
      left
      simp [Container.add, hsymbol]
  | some symbol =>
      by_cases hkind : symbol.kind ∈ a.kinds
      · have hspace : Container.spaceFor a symbol = .ok (a.space symbol.kind) := if_pos hkind
        cases htarget : k.targetTable scope with
        | error err =>
            left
            simp [Container.add, hsymbol, hspace, htarget]
        | ok t =>
            right
            refine ⟨symbol, t, rfl, hkind, rfl, ?_⟩
            simp [Container.add, hsymbol, hspace, htarget, Store.define]
      · left
        simp [Container.add, hsymbol, Container.spaceFor, hkind]

theorem tables_add (k : Container) (a : Admission) (id : SymbolId) (scope : Option String)
    (s : Store) :
    (k.add a id scope s).2.tables = s.tables ∨
      ∃ t f, k.targetTable scope = .ok t ∧ (k.add a id scope s).2.tables = s.tables.modify t f := by
  obtain heq | ⟨symbol, t, -, -, htarget, heq⟩ := store_add k a id scope s
  · exact .inl (congrArg Store.tables heq)
  · refine .inr ⟨t, (·.define (a.space symbol.kind) symbol.name id), htarget, ?_⟩
    rw [heq]

theorem keepsScopes_add (a : Admission) (id : SymbolId) (scope : Option String) (e : Engine) :
    KeepsScopes e (Engine.onStore (e.container.add a id scope) e).2 := by
  refine keepsScopes_onStore ?_
  obtain heq | ⟨t, f, -, heq⟩ := tables_add e.container a id scope e.store
  · rw [heq]
    exact .refl _
  · rw [heq]
    exact .modify _ t f

theorem tables_assign (k : Container) (name : String) (c : CellId) (s : Store) :
    (k.assign name c s).2.tables = s.tables := by
  unfold Container.assign
  cases k.lookup? s Space.vars name with
  | some id => exact tables_bindSymbol id c s
  | none => cases (k.seek? s .constant name).isSome <;> rfl

theorem keepsScopes_assign (name : String) (c : CellId) (e : Engine) :
    KeepsScopes e (Engine.onStore (e.container.assign name c) e).2 := by
  refine keepsScopes_onStore ?_
  rw [tables_assign]
  exact .refl _

/-- A relation between stores that does not mind what is in the cells. -/
structure IgnoresCells (R : Store → Store → Prop) : Prop where
  heap : ∀ s heap, R s { s with heap }
  trans : ∀ {s t u}, R s t → R t u → R s u

/-- An action that leads from each store to one that is related to it. -/
def Leads {α : Type} (R : Store → Store → Prop) (act : Action Store α) : Prop :=
  ∀ s, R s (act s).2

namespace Leads

variable {α β : Type} {R : Store → Store → Prop}

theorem bind (h : IgnoresCells R) {act : Action Store α} {next : α → Action Store β}
    (hact : Leads R act) (hnext : ∀ a, Leads R (next a)) : Leads R (act >>= next) := by
  intro s
  have hfirst := hact s
  rw [Action.bind_apply]
  rcases hrun : act s with ⟨_ | a, s'⟩
  · rw [hrun] at hfirst
    exact hfirst
  · rw [hrun] at hfirst
    exact h.trans hfirst (hnext a s')

section

variable (h : IgnoresCells R)
include h

theorem pure (a : α) : Leads R (Pure.pure a : Action Store α) := fun s => h.heap s s.heap

theorem refuse (e : Error) : Leads R (throw e : Action Store α) := fun s => h.heap s s.heap

theorem lift (r : Except Error α) : Leads R (liftM r : Action Store α) := by
  intro s
  cases r <;> exact h.heap s s.heap

theorem get : Leads R (getThe Store : Action Store Store) := fun s => h.heap s s.heap

theorem onHeap (act : Action Heap α) : Leads R (Store.onHeap act) := fun s => h.heap s _

theorem setEntry (target : CellId) (key : String) (entry : CellId) :
    Leads R (modifyThe Store fun s => { s with heap := s.heap.setEntry target key entry }) :=
  fun s => h.heap s _

/-- Native bodies work on cells and may assign. -/
theorem run {k : Container} (hassign : ∀ name c, Leads R (k.assign name c)) (p : Primitive)
    (args : List CellId) : Leads R (p.run k args) := by
  unfold Primitive.run
  refine bind h (get h) fun s => ?_
  cases p with
  | const c => exact pure h c
  | first name => exact lift h _
  | count => exact onHeap h _
  | sum => exact bind h (lift h _) fun _ => onHeap h _
  | list => exact onHeap h _
  | setEntry name =>
      refine bind h (lift h _) fun target => bind h (lift h _) fun keyCell => ?_
      refine bind h (lift h _) fun key => bind h (lift h _) fun entry => ?_
      exact bind h (setEntry h target key entry) fun _ => pure h target
  | fail e => exact refuse h e
  | readVariable name =>
      refine bind h (lift h _) fun id => ?_
      split
      · exact pure h _
      · exact refuse h _
  | assignVariable name =>
      exact bind h (lift h _) fun c => bind h (hassign name c) fun _ => onHeap h _
  | instantiate name => exact bind h (lift h _) fun c => bind h (lift h _) fun m => onHeap h _
  | scopeName => exact onHeap h _
  | listModules => exact bind h (lift h _) fun _ => onHeap h _
  | moduleExists => exact bind h (lift h _) fun _ => onHeap h _
  | moduleInfo => exact bind h (lift h _) fun _ => onHeap h _
  | functionInfo => exact bind h (lift h _) fun _ => onHeap h _
  | classInfo => exact bind h (lift h _) fun _ => onHeap h _
  | typeOf => exact bind h (lift h _) fun _ => onHeap h _

theorem call {k : Container} (hassign : ∀ name c, Leads R (k.assign name c)) (callee : Callee)
    (args : List CellId) : Leads R (k.call callee args) :=
  bind h (lift h _) fun p => run h hassign p args

end

end Leads

/-- A call defines no symbols. -/
theorem tables_call (k : Container) (callee : Callee) (args : List CellId) (s : Store) :
    (k.call callee args s).2.tables = s.tables :=
  Leads.call (R := fun s t => t.tables = s.tables)
    ⟨fun _ _ => rfl, fun hst htu => htu.trans hst⟩ (tables_assign k) callee args s

theorem keepsScopes_call (callee : Callee) (args : List CellId) (e : Engine) :
    KeepsScopes e (Engine.onStore (e.container.call callee args) e).2 := by
  refine keepsScopes_onStore ?_
  rw [tables_call]
  exact .refl _

namespace ScopeStack

theorem toList_push (s : ScopeStack) (scope : Scope) :
    (s.push scope).toList = s.toList ++ [scope] := by
  simp [toList, push]

theorem mem_toList_of_find? {s : ScopeStack} {name : String} {scope : Scope}
    (h : s.find? name = some scope) : scope ∈ s.toList := by
  obtain ⟨-, outer, inner, hsplit, -⟩ := find?_eq_some_iff.1 h
  rw [hsplit]
  exact List.mem_append_right outer List.mem_cons_self

theorem root_mem_toList (s : ScopeStack) : s.root ∈ s.toList := List.mem_cons_self

theorem top_mem_toList (s : ScopeStack) : s.top ∈ s.toList := by
  obtain ⟨root, inner⟩ := s
  cases inner with
  | nil => exact List.mem_cons_self
  | cons scope inner => simp [top, toList]

end ScopeStack

section Popping

variable {e : Engine} {scope : Scope} {rest : ScopeStack}

theorem perform_leave (hpop : e.container.stack.pop? = some (scope, rest)) :
    ScopeCall.leave.perform e = { e with container := { e.container with
      stack := rest
      scopes := Container.releaseName e.container.scopes rest scope } } := by
  simp [ScopeCall.perform, Engine.leave, Container.leave, hpop]

theorem perform_stepOut (hpop : e.container.stack.pop? = some (scope, rest)) :
    ScopeCall.stepOut.perform e = { e with container := { e.container with stack := rest } } := by
  simp [ScopeCall.perform, Container.stepOut, hpop]

end Popping

/-- A release concerns the name of the scope that was left, and only if the name stands for the
table of that scope: it goes to the innermost scope of that name on the stack. -/
theorem find?_releaseName (scopes : Dict TableId) (stack : ScopeStack) (left : Scope)
    (name : String) :
    (Container.releaseName scopes stack left).find? name =
      if name = left.name ∧ scopes.find? left.name = some left.table then
        (stack.find? name).map Scope.table
      else scopes.find? name := by
  unfold Container.releaseName
  by_cases hstands : scopes.find? left.name = some left.table
  · rw [if_pos hstands]
    by_cases hname : name = left.name
    · rw [if_pos ⟨hname, hstands⟩, hname]
      cases stack.find? left.name with
      | some outer => rw [Dict.find?_insert_self, Option.map_some]
      | none => rw [Dict.find?_erase, if_pos rfl, Option.map_none]
    · rw [if_neg fun h => hname h.1]
      cases stack.find? left.name with
      | some outer => rw [Dict.find?_insert, if_neg hname]
      | none => rw [Dict.find?_erase, if_neg hname]
  · rw [if_neg hstands, if_neg fun h => hstands h.2]

/-- The tables of the scopes and of the scope names are in the store, and the root table has no
parent. -/
structure Grounded (e : Engine) : Prop where
  stack : ∀ scope ∈ e.container.stack.toList, e.store.tables.Has scope.table
  scopes : ∀ name table, e.container.scopes.find? name = some table → e.store.tables.Has table
  root : e.store.tables.parent? e.container.stack.root.table = none

theorem grounded_build (rootName : String) (maxDepth : Nat) (s : Store) :
    Grounded ⟨(Store.addTable none s).2,
      Container.withRoot ⟨rootName, s.tables.next⟩ maxDepth⟩ where
  stack := by
    intro scope hscope
    obtain rfl := List.mem_singleton.1 hscope
    exact s.tables.has_next_add none
  scopes := by
    intro name table hfind
    change (Dict.empty.insert rootName s.tables.next).find? name = some table at hfind
    rw [Dict.find?_insert] at hfind
    split at hfind
    · obtain rfl := Option.some.inj hfind
      exact s.tables.has_next_add none
    · exact absurd hfind (by simp)
  root := s.tables.parent?_next_add none

namespace Grounded

variable {e f : Engine}

theorem has_root (h : Grounded e) : e.store.tables.Has e.container.stack.root.table :=
  h.stack _ e.container.stack.root_mem_toList

theorem has_currentTable (h : Grounded e) : e.store.tables.Has e.container.currentTable :=
  h.stack _ e.container.stack.top_mem_toList

/-- Scopes and names may be taken away, and those that are new have tables in the store. -/
theorem of_tables (h : Grounded e) (htables : e.store.tables.KeepsParents f.store.tables)
    (hroot : f.container.stack.root = e.container.stack.root)
    (hstack : ∀ scope ∈ f.container.stack.toList,
      scope ∈ e.container.stack.toList ∨ f.store.tables.Has scope.table)
    (hscopes : ∀ name table, f.container.scopes.find? name = some table →
      (∃ other, e.container.scopes.find? other = some table) ∨ f.store.tables.Has table) :
    Grounded f where
  stack := by
    intro scope hscope
    obtain hold | hnew := hstack scope hscope
    · exact htables.has (h.stack scope hold)
    · exact hnew
  scopes := by
    intro name table hfind
    obtain ⟨other, hold⟩ | hnew := hscopes name table hfind
    · exact htables.has (h.scopes other table hold)
    · exact hnew
  root := by
    rw [hroot, htables.parent?_eq _ h.has_root, h.root]

theorem of_keepsScopes (h : Grounded e) (hkeeps : KeepsScopes e f) : Grounded f := by
  refine h.of_tables hkeeps.tables ?_ ?_ ?_
  · rw [hkeeps.container.stack]
  · intro scope hscope
    rw [hkeeps.container.stack] at hscope
    exact .inl hscope
  · intro name table hfind
    rw [hkeeps.container.scopes] at hfind
    exact .inl ⟨name, hfind⟩

theorem pushNew (h : Grounded e) (name : String) (parent : Option TableId) :
    Grounded (Engine.pushNew name parent e).2 := by
  have hnew : (e.store.tables.add parent).Has e.store.tables.next :=
    e.store.tables.has_next_add parent
  refine h.of_tables (.add _ parent) rfl ?_ ?_
  · intro scope hscope
    change scope ∈ (e.container.stack.push ⟨name, e.store.tables.next⟩).toList at hscope
    rw [ScopeStack.toList_push, List.mem_append, List.mem_singleton] at hscope
    obtain hold | rfl := hscope
    · exact .inl hold
    · exact .inr hnew
  · intro other table hfind
    change (e.container.scopes.insert name e.store.tables.next).find? other = some table at hfind
    rw [Dict.find?_insert] at hfind
    split at hfind
    · obtain rfl := Option.some.inj hfind
      exact .inr hnew
    · exact .inl ⟨other, hfind⟩

theorem enter (h : Grounded e) (name : String) : Grounded ((ScopeCall.enter name).perform e) := by
  cases htable : e.container.scopes.find? name with
  | none =>
      have heq : (ScopeCall.enter name).perform e = e := by
        simp [ScopeCall.perform, Engine.onContainer, Action.onPart, Container.enter, htable]
      rw [heq]
      exact h
  | some table =>
      have heq : (ScopeCall.enter name).perform e =
          { e with container :=
            { e.container with stack := e.container.stack.push ⟨name, table⟩ } } := by
        simp [ScopeCall.perform, Engine.onContainer, Action.onPart, Container.enter, htable]
      rw [heq]
      refine h.of_tables (.refl _) rfl ?_ fun other table hfind => .inl ⟨other, hfind⟩
      intro scope hscope
      rw [ScopeStack.toList_push, List.mem_append, List.mem_singleton] at hscope
      obtain hold | rfl := hscope
      · exact .inl hold
      · exact .inr (h.scopes name table htable)

/-- Scopes may be left, if the names then stand for tables that they stood for before or for
tables of scopes on the stack. -/
theorem pop (h : Grounded e) {left : Scope} {rest : ScopeStack} {scopes : Dict TableId}
    (hpop : e.container.stack.pop? = some (left, rest))
    (hscopes : ∀ name table, scopes.find? name = some table →
      e.container.scopes.find? name = some table ∨ ∃ scope ∈ rest.toList, scope.table = table) :
    Grounded { e with container := { e.container with stack := rest, scopes } } := by
  have hpush : e.container.stack = rest.push left := ScopeStack.eq_push_of_pop? hpop
  have hrest : ∀ scope ∈ rest.toList, scope ∈ e.container.stack.toList := by
    intro scope hscope
    rw [hpush, ScopeStack.toList_push]
    exact List.mem_append_left _ hscope
  refine h.of_tables (.refl _) ?_ ?_ ?_
  · rw [hpush]
    rfl
  · intro scope hscope
    exact .inl (hrest scope hscope)
  · intro name table hfind
    obtain hold | ⟨scope, hscope, rfl⟩ := hscopes name table hfind
    · exact .inl ⟨name, hold⟩
    · exact .inr (h.stack scope (hrest scope hscope))

theorem scopeCall (h : Grounded e) (c : ScopeCall) : Grounded (c.perform e) := by
  cases c with
  | create name => exact h.pushNew name _
  | enterBlock name => exact h.pushNew name _
  | enter name => exact h.enter name
  | enterCall base =>
      -- The call counter is moved on before the frame is pushed.
      have hcount : Grounded { e with container :=
          { e.container with nextFrame := e.container.nextFrame + 1 } } :=
        ⟨h.stack, h.scopes, h.root⟩
      exact hcount.pushNew _ _
  | leave =>
      cases hpop : e.container.stack.pop? with
      | none =>
          have heq : ScopeCall.leave.perform e = e := by
            simp [ScopeCall.perform, Engine.leave, Container.leave, hpop]
          rw [heq]
          exact h
      | some popped =>
          rw [perform_leave hpop]
          refine h.pop hpop fun name table hfind => ?_
          rw [find?_releaseName] at hfind
          split at hfind
          · obtain ⟨scope, hscope, rfl⟩ := Option.map_eq_some_iff.1 hfind
            exact .inr ⟨scope, ScopeStack.mem_toList_of_find? hscope, rfl⟩
          · exact .inl hfind
  | stepOut =>
      cases hpop : e.container.stack.pop? with
      | none =>
          have heq : ScopeCall.stepOut.perform e = e := by
            simp [ScopeCall.perform, Container.stepOut, hpop]
          rw [heq]
          exact h
      | some popped =>
          rw [perform_stepOut hpop]
          exact h.pop hpop fun name table => .inl

theorem perform (h : Grounded e) (c : EngineCall) : Grounded (c.perform e) := by
  cases c with
  | scope c => exact h.scopeCall c
  | registry c => exact h.of_keepsScopes (keepsScopes_registry c e)
  | store c => exact h.of_keepsScopes (keepsScopes_store c e)
  | add a id target => exact h.of_keepsScopes (keepsScopes_add a id target e)
  | assign name c => exact h.of_keepsScopes (keepsScopes_assign name c e)
  | call callee args => exact h.of_keepsScopes (keepsScopes_call callee args e)

end Grounded

theorem grounded_run {e : Engine} (h : Grounded e) (calls : List EngineCall) :
    Grounded (e.run calls) :=
  Engine.run_induction (fun c _ hf => hf.perform c) calls h

/-- The root scope stays where it is. -/
theorem root_perform_call (c : EngineCall) (e : Engine) :
    (c.perform e).container.stack.root = e.container.stack.root := by
  cases c with
  | scope c => exact root_perform c e
  | registry c => exact congrArg ScopeStack.root (keepsScopes_registry c e).container.stack
  | store c => rfl
  | add a id target => rfl
  | assign name c => rfl
  | call callee args => rfl

theorem root_run (e : Engine) (calls : List EngineCall) :
    (e.run calls).container.stack.root = e.container.stack.root := by
  refine Engine.run_induction
    (P := fun f => f.container.stack.root = e.container.stack.root) ?_ calls rfl
  intro c f hf
  rw [root_perform_call, hf]

end ScriptCore
