import ScriptCore.Registry.Instance
import ScriptCore.Registry.Report
import ScriptCore.Scope.Binding

/-!
# Calls

A call finds the body of a function or method and runs it on the arguments.  A body that
hands its arguments on is followed to the body that does the work; since the registries do
not change during a call, a chain of such bodies that is longer than there are functions and
methods goes round in a circle.

Bodies work on the store.  The container is only read.
-/

namespace ScriptCore

namespace Container

/-- The body of a function or method. -/
def body (k : Container) : Callee → Except Error Native
  | .function name =>
      match k.functions.find? name with
      | some f => .ok f.native
      | none => .error (Error.of (.unknownFunction name))
  | .method owner name =>
      if k.hasClass owner then
        match (k.method? owner name).bind Method.native with
        | some native => .ok native
        | none => .error (Error.of (.unknownMethod owner name))
      else .error (Error.of (.unknownClass owner))

/-- Follow bodies that hand their arguments on, at most so many. -/
def follow (k : Container) : Nat → Callee → Except Error Primitive
  | 0, _ => .error (Error.of (.custom "calls are handed on without end"))
  | n + 1, callee =>
      match k.body callee with
      | .ok (.perform p) => .ok p
      | .ok (.forward next) => k.follow n next
      | .error e => .error e

/-- The number of bodies that can be registered. -/
def bodyCount (k : Container) : Nat :=
  k.functions.size + (k.classes.values.flatMap Class.methods).length

/-- The body that does the work of a call. -/
def worker (k : Container) (callee : Callee) : Except Error Primitive :=
  k.follow (k.bodyCount + 1) callee

end Container

namespace Primitive

/-- The argument at a position. -/
def argument (name : String) (args : List CellId) (i : Nat) : Except Error CellId :=
  match args[i]? with
  | some c => .ok c
  | none => .error (Error.of (.arityMismatch name (i + 1) args.length))

/-- There are exactly so many arguments. -/
def expectArity (name : String) (args : List CellId) (n : Nat) : Except Error Unit :=
  if args.length = n then .ok () else .error (Error.of (.arityMismatch name n args.length))

/-- The text in an argument that has to be a string. -/
def textArgument (name : String) (heap : Heap) (c : CellId) : Except Error String :=
  let v := heap.read c
  if v.tag = .string then v.get .string
  else .error (Error.of (.argumentType name Tag.string.name v.tag))

/-- The single argument of a body that looks a name up. -/
def nameArgument (name : String) (heap : Heap) (args : List CellId) : Except Error String := do
  expectArity name args 1
  textArgument name heap (← argument name args 0)

/-- The sum of the integers in cells, which wraps around. -/
def sumCells (heap : Heap) : List CellId → Int64 → Except Error Int64
  | [], acc => .ok acc
  | c :: rest, acc => do
      let n ← (heap.read c).get .int
      sumCells heap rest (acc + n)

/-- The answer of `typeof`: the type of its argument, or whether the argument has the type
that the second argument names. -/
def typeOfValue (heap : Heap) : List CellId → Except Error Value
  | [c] => .ok (.string (heap.read c).tag.name)
  | [c, expected] => do
      let name ← textArgument "typeof" heap expected
      return .bool (decide ((heap.read c).tag = Tag.ofName name))
  | args =>
      .error ((Error.of (.arityMismatch "typeof" 1 args.length)).withNote
        "typeof accepts 1 or 2 arguments")

/-- A computation over the cells that cannot be refused. -/
def onCells (act : StateM Heap CellId) : Action Store CellId := Store.onHeap (Action.always act)

/-- Answer with a new cell. -/
def answer (v : Value) : Action Store CellId := onCells (Heap.alloc v)

/-- Run a body on arguments. -/
def run (k : Container) (p : Primitive) (args : List CellId) : Action Store CellId := do
  let s ← getThe Store
  match p with
  | const c => return c
  | first name => argument name args 0
  | count => answer (.int (Int64.ofNat args.length))
  | sum => answer (.int (← sumCells s.heap args 0))
  | list => onCells (Heap.allocList args)
  | setEntry name =>
      let target ← argument name args 0
      let key ← (s.heap.read (← argument name args 1)).get .string
      let entry ← argument name args 2
      modifyThe Store fun s => { s with heap := s.heap.setEntry target key entry }
      return target
  | fail e => throw e
  | readVariable name =>
      let id ← k.resolve s Space.vars name
      match (s.symbol? id).bind Symbol.cell? with
      | some c => return c
      | none => Action.refuse (.undefinedSymbol name)
  | assignVariable name =>
      let c ← argument name args 0
      k.assign name c
      answer .null
  | instantiate name =>
      let c ← argument name args 0
      let m ← (s.heap.read c).get .map
      Store.onHeap (k.instantiate m)
  | scopeName => answer (.string k.stack.top.name)
  | listModules =>
      expectArity "module_list" args 0
      onCells (Report.modules k)
  | moduleExists =>
      let name ← nameArgument "module_exists" s.heap args
      answer (.bool (k.hasModule name))
  | moduleInfo =>
      let name ← nameArgument "module_info" s.heap args
      onCells (Report.ofModule k name)
  | functionInfo =>
      let name ← nameArgument "function_info" s.heap args
      onCells (Report.ofFunction k name)
  | classInfo =>
      let name ← nameArgument "class_info" s.heap args
      onCells (Report.ofClass k name)
  | typeOf => answer (← typeOfValue s.heap args)

end Primitive

namespace Container

/-- Call a function or method. -/
def call (k : Container) (callee : Callee) (args : List CellId) : Action Store CellId := do
  let p ← k.worker callee
  p.run k args

end Container
end ScriptCore
