import ScriptCore.Container

/-!
# Entering and leaving scopes

A new scope gets a new table and takes over its name: the name stands for the new table until
the scope is left.  A block's table has the current table as its parent; a table made by
`create`, and so the table of a call frame, has the root table as its parent, so that a call
sees the root and nothing of its caller.

**Names.**  Leaving a scope gives its name back to the innermost scope of that name that is
still active, or frees it.  Stepping out with `stepOut` leaves the names alone, so that the
scope can be entered again by its name.

**Call frames.**  One counter numbers all call frames of a container.  It has 64 bits and wraps
around.
-/

namespace ScriptCore
namespace Engine

/-- Push a scope with a new table and let the name stand for that table. -/
def pushNew (name : String) (parent : Option TableId) : StateM Engine Unit := fun e =>
  let (table, store) := Store.addTable parent e.store
  let k := e.container
  let container :=
    { k with stack := k.stack.push ⟨name, table⟩, scopes := k.scopes.insert name table }
  ((), { store, container })

/-- The parent of a table made by `create`: the root table, but for a scope that has the
name of the root. -/
def createParent (k : Container) (name : String) : Option TableId :=
  if name = k.stack.root.name then none else some k.stack.root.table

/-- Enter a new scope that sees the root only. -/
def create (name : String) : StateM Engine Unit := fun e =>
  pushNew name (createParent e.container name) e

/-- Enter a new scope that sees the current scope. -/
def enterBlock (name : String) : StateM Engine Unit := fun e =>
  pushNew name (some e.container.stack.top.table) e

/-- The name of a call frame. -/
def frameName (base : String) (number : UInt64) : String := base ++ callMark ++ toString number

/-- Enter a new call frame and answer with its name. -/
def enterCall (base : String) : StateM Engine String := fun e =>
  let k := e.container
  let name := frameName base k.nextFrame
  let (_, e) := create name { e with container := { k with nextFrame := k.nextFrame + 1 } }
  (name, e)

end Engine

namespace Container

/-- Push the table that a name stands for. -/
def enter (name : String) : Action Container Unit := fun k =>
  match k.scopes.find? name with
  | some table => (.ok (), { k with stack := k.stack.push ⟨name, table⟩ })
  | none => (.error (Error.of (.unknownScope name)), k)

/-- Take a name away from a scope that was left.  Nothing happens if the name stands for
another table. -/
def releaseName (scopes : Dict TableId) (stack : ScopeStack) (left : Scope) : Dict TableId :=
  if scopes.find? left.name = some left.table then
    match stack.find? left.name with
    | some outer => scopes.insert left.name outer.table
    | none => scopes.erase left.name
  else scopes

/-- Leave the innermost scope and release its name.  The root is not left. -/
def leave : StateM Container (Option String) := fun k =>
  match k.stack.pop? with
  | some (left, stack) =>
      (some left.name, { k with stack, scopes := releaseName k.scopes stack left })
  | none => (none, k)

/-- Leave the innermost scope and keep its name.  The root is not left. -/
def stepOut : StateM Container (Option String) := fun k =>
  match k.stack.pop? with
  | some (left, stack) => (some left.name, { k with stack })
  | none => (none, k)

/-- The table of the innermost scope. -/
def currentTable (k : Container) : TableId := k.stack.top.table

/-- The table that a scope name stands for. -/
def scopeTable? (k : Container) (name : String) : Option TableId := k.scopes.find? name

/-- The names that stand for a table, in increasing order. -/
def scopeNames (k : Container) : List String := k.scopes.keys

end Container

namespace Engine

/-- Leave the innermost scope and release its name. -/
def leave : StateM Engine (Option String) := fun e =>
  let (name, container) := Container.leave e.container
  (name, { e with container })

/-- Run a body inside a new block and leave the innermost scope afterwards. -/
def withBlock {m : Type → Type} [Monad m] [MonadStateOf Engine m] {α : Type} (name : String)
    (body : m α) : m α := do
  modifyGetThe Engine (enterBlock name)
  let result ← body
  let _ ← modifyGetThe Engine leave
  return result

/-- A block, for a body that changes the engine only. -/
theorem withBlock_apply {α : Type} (name : String) (body : StateM Engine α) (e : Engine) :
    withBlock name body e =
      let (result, inside) := body (enterBlock name e).2
      (result, (leave inside).2) := rfl

end Engine
end ScriptCore
