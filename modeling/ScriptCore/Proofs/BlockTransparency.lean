import ScriptCore.Proofs.EngineRuns

/-!
# Blocks leave no trace

A block is entered by `enterBlock`, `create` or `enterCall` and closed by `leave` or `stepOut`.
Its body adds symbols to the current scope, assigns, looks symbols up and has blocks of its own,
nested to any depth; names repeat freely and may be the name of the root.

**Confinement.**  `Confined` says that the stack is the same and that, of the tables that were
there, only the given ones were written.  A step of a body writes to the current table at most,
and the current table of a body is the one that was made when its block was entered.  So a
block writes to no table that was there before it, and the two ways to close it differ in the
scope names only.

**Results.**
* `confined_block`: what a block leaves as it was, given what its body does.
* `blocks_transparent`: after a block the scopes, their tables and every look-up are as before.
-/

namespace ScriptCore

/-- How a block is entered. -/
inductive Opening
  | block (name : String)
  | create (name : String)
  | call (base : String)
  deriving DecidableEq, Repr

def Opening.toCall : Opening → ScopeCall
  | .block name => .enterBlock name
  | .create name => .create name
  | .call base => .enterCall base

/-- How a block is closed. -/
inductive Closing
  | leave
  | stepOut
  deriving DecidableEq, Repr

def Closing.toCall : Closing → ScopeCall
  | .leave => .leave
  | .stepOut => .stepOut

/-- A step of a block's body.  Symbols and cells may be made on the way. -/
inductive BlockStep
  | add (a : Admission) (id : SymbolId)
  | assign (name : String) (c : CellId)
  | look (space name : String)
  | makeSymbol (symbol : Symbol)
  | changeCells (f : Heap → Heap)
  | block (opening : Opening) (body : List BlockStep) (closing : Closing)

mutual

/-- The engine after a step, whether the step is refused or not. -/
def BlockStep.perform : BlockStep → Engine → Engine
  | .add a id, e => (EngineCall.add a id none).perform e
  | .assign name c, e => (EngineCall.assign name c).perform e
  | .look _ _, e => e
  | .makeSymbol symbol, e => (EngineCall.store (.makeSymbol symbol)).perform e
  | .changeCells f, e => (EngineCall.store (.changeCells f)).perform e
  | .block opening body closing, e =>
      closing.toCall.perform (BlockStep.performAll body (opening.toCall.perform e))

/-- The engine after a body. -/
def BlockStep.performAll : List BlockStep → Engine → Engine
  | [], e => e
  | step :: rest, e => BlockStep.performAll rest (step.perform e)

end

/-- The stack is the same, and so are the tables that were there, the written ones apart. -/
structure Confined (written : TableId → Prop) (e f : Engine) : Prop where
  stack : f.container.stack = e.container.stack
  tables : e.store.tables.KeepsExcept written f.store.tables

namespace Confined

variable {written : TableId → Prop} {e f g : Engine}

theorem refl (written : TableId → Prop) (e : Engine) : Confined written e e := ⟨rfl, .refl _ _⟩

theorem trans (h₁ : Confined written e f) (h₂ : Confined written f g) : Confined written e g :=
  ⟨h₂.stack.trans h₁.stack, h₁.tables.trans h₂.tables⟩

theorem currentTable_eq (h : Confined written e f) :
    f.container.currentTable = e.container.currentTable := by
  unfold Container.currentTable
  rw [h.stack]

theorem of_tables_eq {α : Type} {act : Action Store α}
    (h : (act e.store).2.tables = e.store.tables) :
    Confined written e (Engine.onStore act e).2 := by
  refine ⟨rfl, ?_⟩
  show e.store.tables.KeepsExcept written (act e.store).2.tables
  rw [h]
  exact .refl _ _

theorem add (a : Admission) (id : SymbolId) (e : Engine) :
    Confined (· = e.container.currentTable) e ((EngineCall.add a id none).perform e) := by
  obtain heq | ⟨t, f, htarget, heq⟩ := tables_add e.container a id none e.store
  · exact of_tables_eq heq
  · obtain rfl : e.container.currentTable = t := Except.ok.inj htarget
    refine ⟨rfl, ?_⟩
    show e.store.tables.KeepsExcept _ (e.container.add a id none e.store).2.tables
    rw [heq]
    exact .modify _ _ f

end Confined

/-- Entering a block pushes a new table. -/
theorem perform_opening (opening : Opening) (e : Engine) :
    ∃ name parent,
      (opening.toCall.perform e).container.stack =
        e.container.stack.push ⟨name, e.store.tables.next⟩ ∧
      (opening.toCall.perform e).store.tables = e.store.tables.add parent := by
  cases opening with
  | block name => exact ⟨name, _, rfl, rfl⟩
  | create name => exact ⟨name, _, rfl, rfl⟩
  | call base => exact ⟨Engine.frameName base e.container.nextFrame, _, rfl, rfl⟩

/-- Closing a block pops a scope and leaves the tables alone, whichever way it is closed. -/
theorem perform_closing (closing : Closing) {e : Engine} {scope : Scope} {rest : ScopeStack}
    (h : e.container.stack = rest.push scope) :
    (closing.toCall.perform e).container.stack = rest ∧
      (closing.toCall.perform e).store = e.store := by
  have hpop : e.container.stack.pop? = some (scope, rest) := by
    rw [h]
    rfl
  cases closing with
  | leave =>
      rw [Closing.toCall, perform_leave hpop]
      exact ⟨rfl, rfl⟩
  | stepOut =>
      rw [Closing.toCall, perform_stepOut hpop]
      exact ⟨rfl, rfl⟩

theorem confined_block (opening : Opening) (closing : Closing) {body : List BlockStep}
    (hbody : ∀ e, Confined (· = e.container.currentTable) e (BlockStep.performAll body e))
    (e : Engine) :
    Confined (fun _ => False) e ((BlockStep.block opening body closing).perform e) := by
  rw [BlockStep.perform]
  obtain ⟨name, parent, hstack, htables⟩ := perform_opening opening e
  have hinside := hbody (opening.toCall.perform e)
  have hcurrent : (opening.toCall.perform e).container.currentTable = e.store.tables.next := by
    unfold Container.currentTable
    rw [hstack]
    rfl
  obtain ⟨hrest, hstore⟩ := perform_closing closing (hinside.stack.trans hstack)
  refine ⟨hrest, ?_⟩
  rw [hstore]
  -- The body writes to the new table only, and that one was not there before.
  have hwritten := hinside.tables
  rw [hcurrent, htables] at hwritten
  refine ((Tables.KeepsExcept.add _ _ parent).trans hwritten).weaken ?_
  rintro t ht rfl
  exact e.store.tables.not_has_next ht

mutual

theorem confined_perform :
    ∀ (step : BlockStep) (e : Engine),
      Confined (· = e.container.currentTable) e (step.perform e)
  | .add a id, e => by
      rw [BlockStep.perform]
      exact .add a id e
  | .assign name c, e => by
      rw [BlockStep.perform]
      exact .of_tables_eq (tables_assign e.container name c e.store)
  | .look _ _, e => by
      rw [BlockStep.perform]
      exact .refl _ e
  | .makeSymbol symbol, e => by
      rw [BlockStep.perform]
      exact ⟨rfl, .refl _ _⟩
  | .changeCells f, e => by
      rw [BlockStep.perform]
      exact ⟨rfl, .refl _ _⟩
  | .block opening body closing, e => by
      have hblock := confined_block opening closing (confined_performAll body) e
      exact ⟨hblock.stack, hblock.tables.weaken fun _ _ => False.elim⟩

theorem confined_performAll :
    ∀ (body : List BlockStep) (e : Engine),
      Confined (· = e.container.currentTable) e (BlockStep.performAll body e)
  | [], e => by
      rw [BlockStep.performAll]
      exact .refl _ e
  | step :: rest, e => by
      rw [BlockStep.performAll]
      have hstep := confined_perform step e
      have hrest := confined_performAll rest (step.perform e)
      rw [hstep.currentTable_eq] at hrest
      exact hstep.trans hrest

end

/-- What is found from the current scope depends on the stack and on the tables in the store. -/
theorem lookup?_of_confined {e f : Engine} (h : Confined (fun _ => False) e f)
    (hground : Grounded e) (space name : String) :
    f.container.lookup? f.store space name = e.container.lookup? e.store space name := by
  unfold Container.lookup?
  rw [h.currentTable_eq]
  exact Tables.lookup?_congr space name h.tables hground.has_currentTable

/-- A container is built under a name and then used in any way.  A block that is then entered
and closed, whatever is in it, leaves the stack with its names and tables, the contents of
these tables, and the symbol that is found under any namespace and name. -/
theorem blocks_transparent (rootName : String) (hname : rootName ≠ "") (maxDepth : Nat)
    (s : Store) :
    ∃ k s', Container.build rootName maxDepth s = (.ok k, s') ∧
      ∀ (calls : List EngineCall) (opening : Opening) (body : List BlockStep)
        (closing : Closing),
        let e := Engine.run ⟨s', k⟩ calls
        let f := (BlockStep.block opening body closing).perform e
        f.container.stack = e.container.stack ∧
        (∀ scope ∈ e.container.stack.toList,
          f.store.tables.get? scope.table = e.store.tables.get? scope.table) ∧
        ∀ space name,
          f.container.lookup? f.store space name = e.container.lookup? e.store space name := by
  refine ⟨_, _, build_of_ne_empty hname maxDepth s, ?_⟩
  intro calls opening body closing e f
  have hground : Grounded e := grounded_run (grounded_build rootName maxDepth s) calls
  have hblock : Confined (fun _ => False) e f :=
    confined_block opening closing (confined_performAll body) e
  refine ⟨hblock.stack, ?_, lookup?_of_confined hblock hground⟩
  intro scope hscope
  exact hblock.tables.get?_eq scope.table (hground.stack scope hscope) not_false

/-- A variable in the root scope, and a block inside it. -/
def variableInRoot : List EngineCall :=
  [.store (.makeSymbol ⟨"x", "main", .var .int ⟨0⟩⟩), .add .any ⟨0⟩ none,
    .scope (.enterBlock "a")]

/-- A body that hides the variable again and again, in scopes named like the root. -/
def hidingBody : List BlockStep :=
  [.makeSymbol ⟨"x", "a", .var .string ⟨0⟩⟩, .add .any ⟨1⟩,
    .block (.create "main") [.add .var ⟨1⟩, .assign "x" ⟨1⟩, .look Space.vars "x"] .stepOut,
    .block (.call "main") [.add .any ⟨1⟩, .block (.block "a") [.add .any ⟨1⟩] .leave] .leave]

theorem hiding_block_transparent :
    "main" ≠ "" ∧
    ∃ k s', Container.build "main" defaultMaxDepth Store.empty = (.ok k, s') ∧
      let e := Engine.run ⟨s', k⟩ variableInRoot
      let inside := BlockStep.performAll hidingBody ((ScopeCall.enterBlock "main").perform e)
      let f := (BlockStep.block (.block "main") hidingBody .stepOut).perform e
      inside.container.lookup? inside.store Space.vars "x" = some ⟨1⟩ ∧
      f.container.stack = e.container.stack ∧
      f.container.lookup? f.store Space.vars "x" = some ⟨0⟩ := by
  have hname : "main" ≠ "" := by decide
  obtain ⟨k, s', hbuild, hblocks⟩ :=
    blocks_transparent "main" hname defaultMaxDepth Store.empty
  obtain ⟨hstack, -, hlookup⟩ := hblocks variableInRoot (.block "main") hidingBody .stepOut
  refine ⟨hname, k, s', hbuild, ?_, hstack, ?_⟩
  · cases hbuild
    decide +kernel
  · rw [hlookup]
    cases hbuild
    decide +kernel

end ScriptCore
