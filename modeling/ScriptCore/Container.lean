import ScriptCore.Registry.Class
import ScriptCore.Scope.Stack
import ScriptCore.Symbol.Store

/-!
# Containers

A container keeps the active scopes and the names by which scopes are found again, and it is
the registry of functions, documentation, classes and modules.  Cells, symbols and tables
are not in the container but in the store it works on; an engine is the two together.
-/

namespace ScriptCore

/-- A native function and the module that was being registered when it was. -/
structure FunctionEntry where
  native : Native
  origin : Option String
  deriving DecidableEq, Repr

/-- What a module says about itself. -/
structure ModuleInfo where
  name : String
  description : String
  deriving DecidableEq, Repr

/-- A registered module and the description it is listed with. -/
structure ModuleEntry where
  info : ModuleInfo
  description : String
  deriving DecidableEq, Repr

/-- Scopes and registries. -/
structure Container where
  stack : ScopeStack
  /-- The table that a scope name stands for. -/
  scopes : Dict TableId
  functions : Dict FunctionEntry
  docs : Dict Doc
  classes : Dict Class
  modules : Dict ModuleEntry
  /-- The module that is being registered. -/
  currentModule : Option String
  /-- The number of the next call frame. -/
  nextFrame : UInt64
  /-- The largest number of steps from a class to an ancestor. -/
  maxDepth : Nat
  deriving DecidableEq, Inhabited

/-- The depth that class hierarchies are followed to unless another one is asked for. -/
def defaultMaxDepth : Nat := 10

namespace Container

/-- A container whose only scope is the root. -/
def withRoot (root : Scope) (maxDepth : Nat) : Container where
  stack := ⟨root, []⟩
  scopes := Dict.empty.insert root.name root.table
  functions := .empty
  docs := .empty
  classes := .empty
  modules := .empty
  currentModule := none
  nextFrame := 0
  maxDepth := maxDepth

/-- Make a container with a new root table. -/
def build (rootName : String) (maxDepth : Nat) : Action Store Container := fun s =>
  if rootName.isEmpty then
    (.error (Error.of (.custom "initial scope name must not be empty")), s)
  else
    let (table, s) := Store.addTable none s
    (.ok (withRoot ⟨rootName, table⟩ maxDepth), s)

/-- An optional quoted text. -/
def quotedOption : Option String → String
  | some name => s!"Some({quoted name})"
  | none => "None"

/-- The structure of a container, with the sizes of its registries. -/
def outline (k : Container) : String :=
  "SymbolContainer \x7b scope_stack: " ++ quotedList k.stack.names ++
    s!", scopes: {k.scopes.size}, functions: {k.functions.size}, classes: {k.classes.size}" ++
    s!", modules: {k.modules.size}, current_module: {quotedOption k.currentModule}, .. " ++
    "\x7d"

end Container

/-- A store and the container that works on it. -/
structure Engine where
  store : Store
  container : Container
  deriving DecidableEq, Inhabited

namespace Engine

/-- Run an action on the store. -/
def onStore {α : Type} (act : Action Store α) : Action Engine α :=
  Action.onPart Engine.store (fun e store => { e with store }) act

/-- Run an action on the container. -/
def onContainer {α : Type} (act : Action Container α) : Action Engine α :=
  Action.onPart Engine.container (fun e container => { e with container }) act

/-- Run an action on the cells. -/
def onHeap {α : Type} (act : Action Heap α) : Action Engine α :=
  onStore (Store.onHeap act)

end Engine
end ScriptCore
