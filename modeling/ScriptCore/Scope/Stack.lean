import ScriptCore.Symbol.Table

/-!
# Scope stacks

The active scopes, from the root scope inwards.  The root scope is always there, so a stack
is never empty and the root cannot be left.
-/

namespace ScriptCore

/-- A scope: a name with a table. -/
structure Scope where
  name : String
  table : TableId
  deriving DecidableEq, Repr, Inhabited

/-- The root scope and the scopes inside it, the innermost first. -/
structure ScopeStack where
  root : Scope
  inner : List Scope
  deriving DecidableEq, Repr, Inhabited

namespace ScopeStack

/-- The scopes from the innermost to the root. -/
def inwardsOut (s : ScopeStack) : List Scope := s.inner ++ [s.root]

/-- The scopes from the root to the innermost. -/
def toList (s : ScopeStack) : List Scope := s.root :: s.inner.reverse

/-- The innermost scope. -/
def top (s : ScopeStack) : Scope := s.inner.headD s.root

/-- The number of scopes. -/
def depth (s : ScopeStack) : Nat := s.inner.length + 1

/-- The names from the root to the innermost scope. -/
def names (s : ScopeStack) : List String := s.toList.map Scope.name

/-- Enter a scope inside the innermost one. -/
def push (s : ScopeStack) (scope : Scope) : ScopeStack := { s with inner := scope :: s.inner }

/-- Leave the innermost scope, unless it is the root. -/
def pop? (s : ScopeStack) : Option (Scope × ScopeStack) :=
  match s.inner with
  | [] => none
  | scope :: inner => some (scope, { s with inner })

/-- The innermost scope with a name. -/
def find? (s : ScopeStack) (name : String) : Option Scope :=
  s.inwardsOut.find? fun scope => scope.name == name

end ScopeStack
end ScriptCore
