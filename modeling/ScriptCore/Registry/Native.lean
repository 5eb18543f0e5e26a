import ScriptCore.Value.Basic

/-!
# Native bodies

What a native function or method does, as data.  A body either hands its arguments to
another function or method, or does one of a fixed list of things itself.

Names in a body that is missing an argument are only used in the message.
-/

namespace ScriptCore

/-- What can be called: a function, or a method of a class. -/
inductive Callee
  | function (name : String)
  | method (owner name : String)
  deriving DecidableEq, Repr

/-- What a body does itself. -/
inductive Primitive
  /-- Answer with one and the same cell. -/
  | const (c : CellId)
  /-- Answer with the first argument. -/
  | first (name : String)
  /-- The number of arguments. -/
  | count
  /-- The sum of integer arguments, which wraps around. -/
  | sum
  /-- The list of the arguments. -/
  | list
  /-- Set an entry of the first argument, under the key in the second, to the third. -/
  | setEntry (name : String)
  /-- Refuse with an error. -/
  | fail (error : Error)
  /-- The cell that a visible symbol is bound to. -/
  | readVariable (name : String)
  /-- Bind a visible variable to the first argument. -/
  | assignVariable (name : String)
  /-- Make an instance out of the entries of the first argument. -/
  | instantiate (name : String)
  /-- The name of the current scope. -/
  | scopeName
  /-- Report on all modules. -/
  | listModules
  /-- Whether the named module is loaded. -/
  | moduleExists
  /-- Report on the named module. -/
  | moduleInfo
  /-- Report on the named function or method. -/
  | functionInfo
  /-- Report on the named class. -/
  | classInfo
  /-- The type of a value, or whether a value has the named type. -/
  | typeOf
  deriving DecidableEq, Repr

/-- The body of a native function or method. -/
inductive Native
  /-- Hand the arguments on. -/
  | forward (callee : Callee)
  /-- Do the work here. -/
  | perform (p : Primitive)
  deriving DecidableEq, Repr

end ScriptCore
