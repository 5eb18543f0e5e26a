import ScriptCore.Heap.Display
import ScriptCore.Symbol.Doc
import ScriptCore.Symbol.Kind

/-!
# Symbols

A symbol has a name, the context it was made in, and what its kind needs beside that.
Variables and constants are bound to a cell; only a variable can be bound to another one.

**Enumerators.**  Ordinals count up from zero; an explicit ordinal starts the count anew,
and the count wraps around at the end of the integer range.
-/

namespace ScriptCore

/-- The identity of a symbol in a store. -/
structure SymbolId where
  index : Nat
  deriving DecidableEq, Repr, Inhabited

/-- What functions and methods have: parameters, a return type, and the text of a body
that is written as a script. -/
structure Routine where
  parameters : List Parameter
  returns : Tag
  script : Option String
  deriving DecidableEq, Repr

/-- What a symbol stands for. -/
inductive Meaning
  | var (declared : Tag) (cell : CellId)
  | constant (cell : CellId)
  | function (routine : Routine)
  | method (owner : String) (routine : Routine)
  | klass (parent : Option String) (isAbstract : Bool)
  | enum (ordinals : Dict Int64)
  deriving DecidableEq, Repr

/-- A named meaning. -/
structure Symbol where
  name : String
  context : String
  meaning : Meaning
  deriving DecidableEq, Repr

/-- Definitions of enumerators: names with optional ordinals. -/
abbrev Enumerators : Type := List (String × Option Int64)

/-- Number the enumerators from a next ordinal on, on top of those numbered before.  A name
that was numbered before is refused. -/
def Enumerators.number (owner : String) :
    Enumerators → Int64 → Dict Int64 → Except Error (Dict Int64)
  | [], _, known => .ok known
  | (name, explicit) :: rest, next, known =>
      if known.contains name then .error (Error.of (.duplicateMember owner name))
      else
        let ordinal := explicit.getD next
        number owner rest (ordinal + 1) (known.insert name ordinal)

namespace Symbol

/-- A variable.  Declared without a type, it takes the type of its first value. -/
def var (heap : Heap) (name context : String) (declared : Tag) (cell : CellId) : Symbol :=
  let declared := if declared = .undefined then (heap.read cell).tag else declared
  ⟨name, context, .var declared cell⟩

/-- An enum with its enumerators numbered. -/
def enum (name context : String) (definitions : Enumerators) : Except Error Symbol :=
  (definitions.number name 0 .empty).map fun ordinals => ⟨name, context, .enum ordinals⟩

def kind (s : Symbol) : SymbolKind :=
  match s.meaning with
  | .var .. => .var
  | .constant .. => .constant
  | .function .. => .function
  | .method .. => .method
  | .klass .. => .klass
  | .enum .. => .enum

/-- The cell that a variable or constant is bound to. -/
def cell? (s : Symbol) : Option CellId :=
  match s.meaning with
  | .var _ c => some c
  | .constant c => some c
  | _ => none

/-- The parameters and return type of a function or method. -/
def routine? (s : Symbol) : Option Routine :=
  match s.meaning with
  | .function r => some r
  | .method _ r => some r
  | _ => none

/-- The symbol bound to another cell. -/
def bind (s : Symbol) (c : CellId) : Except Error Symbol :=
  match s.meaning with
  | .var declared _ => .ok { s with meaning := .var declared c }
  | .constant _ => .error (Error.of (.immutableAssignment s.name))
  | _ =>
      .error (Error.of (.wrongSymbolKind s.name SymbolKind.var.name s.kind.name))

/-- Lines that show the value in a cell. -/
def cellLines (heap : Heap) (c : CellId) : String :=
  s!"\n    Type: {(heap.read c).tag}\n    Value: '{heap.text c}'"

/-- The lines below the context that depend on the kind. -/
def meaningLines (heap : Heap) : Meaning → String
  | .var _ c => cellLines heap c
  | .constant c => cellLines heap c
  | .function r => s!"\n    ReturnType: {r.returns}"
  | .method owner r => s!"\n    Class: {owner}\n    ReturnType: {r.returns}"
  | .klass parent isAbstract =>
      let parentLine :=
        match parent with
        | some p => s!"\n    Parent Class: {p}"
        | none => ""
      parentLine ++ if isAbstract then "\n    Abstract: true" else ""
  | .enum ordinals =>
      let lines := ordinals.entries.map fun p => s!"\n      {p.1}: {p.2.toInt}"
      "\n    Enumerators: \x7b" ++ String.join lines ++ "\n    \x7d"

/-- All about a symbol, in several lines. -/
def text (heap : Heap) (s : Symbol) : String :=
  s!"  {s.kind} name: '{s.name}'\n    Context: {s.context}" ++ meaningLines heap s.meaning

end Symbol
end ScriptCore
