/-!
# Kinds of symbols

A symbol is a variable, a constant, a function, a method, a class or an enum.  Tables keep
symbols in namespaces, and each kind has the namespace it belongs to.
-/

namespace ScriptCore

/-- What a symbol is. -/
inductive SymbolKind
  | var
  | constant
  | function
  | method
  | klass
  | enum
  deriving DecidableEq, Repr

/-- What stands between the parts of a qualified name. -/
def scopeSeparator : String := "::"

/-- What stands between the base and the number of a call frame's name. -/
def callMark : String := "::call_"

/-- A name qualified by its owner. -/
def qualify (owner name : String) : String := owner ++ scopeSeparator ++ name

namespace Space

def vars : String := "::variables"

def constants : String := "::constants"

def functions : String := "::functions"

def methods : String := "::methods"

def others : String := "::others"

end Space

namespace SymbolKind

/-- Every kind, in the order in which listings show them. -/
def all : List SymbolKind := [var, constant, function, method, klass, enum]

def name : SymbolKind → String
  | var => "variable"
  | constant => "constant"
  | function => "function"
  | method => "method"
  | klass => "class"
  | enum => "enum"

/-- The namespace that symbols of a kind belong to. -/
def space : SymbolKind → String
  | var | klass | enum => Space.vars
  | constant => Space.constants
  | function => Space.functions
  | method => Space.methods

instance : ToString SymbolKind := ⟨name⟩

end SymbolKind
end ScriptCore
