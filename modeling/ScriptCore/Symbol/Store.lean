import ScriptCore.Symbol.Table

/-!
# Stores

A store holds what scripts share: cells, symbols and tables, each named by an identity.
Symbols and tables, like cells, are never freed.
-/

namespace ScriptCore

/-- Cells, symbols and tables. -/
structure Store where
  heap : Heap
  symbols : Array Symbol
  tables : Tables
  deriving DecidableEq, Inhabited

namespace Store

/-- A store without anything in it. -/
def empty : Store := ⟨.empty, #[], .empty⟩

/-- Run an action on the cells. -/
def onHeap {α : Type} (act : Action Heap α) : Action Store α :=
  Action.onPart Store.heap (fun s heap => { s with heap }) act

/-- The symbol with an identity. -/
def symbol? (s : Store) (id : SymbolId) : Option Symbol := s.symbols[id.index]?

/-- The symbol has the kind. -/
def hasKind (s : Store) (kind : SymbolKind) (id : SymbolId) : Bool :=
  (s.symbol? id).any fun symbol => symbol.kind = kind

/-- Add a symbol. -/
def addSymbol (symbol : Symbol) : StateM Store SymbolId := fun s =>
  (⟨s.symbols.size⟩, { s with symbols := s.symbols.push symbol })

/-- Add a table without symbols. -/
def addTable (parent : Option TableId) : StateM Store TableId := fun s =>
  (s.tables.next, { s with tables := s.tables.add parent })

/-- Put a symbol into a namespace of a table, under its name. -/
def define (s : Store) (t : TableId) (space : String) (id : SymbolId) : Store :=
  match s.symbol? id with
  | some symbol => { s with tables := s.tables.modify t (·.define space symbol.name id) }
  | none => s

/-- Bind a symbol to another cell. -/
def bindSymbol (id : SymbolId) (c : CellId) : Action Store Unit := fun s =>
  match s.symbol? id with
  | some symbol =>
      match symbol.bind c with
      | .ok bound => (.ok (), { s with symbols := s.symbols.setIfInBounds id.index bound })
      | .error e => (.error e, s)
  | none => (.ok (), s)

end Store
end ScriptCore
