import ScriptCore.Dict
import ScriptCore.Symbol.Basic

/-!
# Symbol tables

A table keeps symbols by namespace and name.  It may have a parent, where names that it does
not have are looked up next.

**Chains.**  A collection of tables grows by tables whose parent, if any, is an older table,
and the parent of a table never changes.  So the parents of a table form a finite chain, and
looking a name up along the chain ends.
-/

namespace ScriptCore

/-- The identity of a table in a collection. -/
structure TableId where
  index : Nat
  deriving DecidableEq, Repr, Inhabited

/-- Symbols by namespace and name. -/
abbrev Spaces : Type := Dict (Dict SymbolId)

namespace Spaces

/-- The symbol under a namespace and a name. -/
def find? (s : Spaces) (space name : String) : Option SymbolId :=
  (Dict.find? s space).bind (·.find? name)

/-- Put a symbol under a namespace and a name. -/
def define (s : Spaces) (space name : String) (id : SymbolId) : Spaces :=
  Dict.insert s space (((Dict.find? s space).getD .empty).insert name id)

/-- Drop the symbol under a namespace and a name. -/
def remove (s : Spaces) (space name : String) : Spaces :=
  Dict.modify s space (·.erase name)

/-- Drop a namespace with its symbols. -/
def clear (s : Spaces) (space : String) : Spaces := Dict.erase s space

/-- Drop every namespace. -/
def clearAll (_ : Spaces) : Spaces := .empty

/-- The symbols of a namespace, by name. -/
def inSpace (s : Spaces) (space : String) : List (String × SymbolId) :=
  match Dict.find? s space with
  | some names => names.entries
  | none => []

/-- The symbols of a namespace whose names start with a given text, by name. -/
def withStart (s : Spaces) (space start : String) : List (String × SymbolId) :=
  (s.inSpace space).filter fun p => p.1.startsWith start

/-- The namespaces that hold a symbol, in increasing order. -/
def spaces (s : Spaces) : List String :=
  (s.entries.filter fun p => !p.2.isEmpty).map Prod.fst

/-- Every symbol with its namespace, by namespace and name. -/
def all (s : Spaces) : List (String × SymbolId) :=
  s.entries.flatMap fun p => p.2.values.map fun id => (p.1, id)

/-- The number of symbols. -/
def count (s : Spaces) : Nat := s.values.foldl (fun n names => n + names.size) 0

end Spaces

/-- Symbols, and the table to look in next. -/
structure Table where
  parent : Option TableId
  spaces : Spaces
  deriving DecidableEq, Repr

/-- Tables, where the parent of each is an older one. -/
structure Tables where
  all : Array Table
  older : ∀ (i : Nat) (t : Table), all[i]? = some t → ∀ p ∈ t.parent, p.index < i

namespace Tables

instance : DecidableEq Tables := fun s t =>
  decidable_of_iff (s.all = t.all) <| by
    cases s; cases t; simp

/-- No tables. -/
def empty : Tables := ⟨#[], by simp⟩

instance : Inhabited Tables := ⟨empty⟩

def size (ts : Tables) : Nat := ts.all.size

/-- The table with an identity. -/
def get? (ts : Tables) (t : TableId) : Option Table := ts.all[t.index]?

/-- The identity of the table that is added next. -/
def next (ts : Tables) : TableId := ⟨ts.size⟩

/-- Add a table without symbols.  A parent that is not in the collection is left out. -/
def add (ts : Tables) (parent : Option TableId) : Tables where
  all := ts.all.push ⟨parent.filter fun p => p.index < ts.size, .empty⟩
  older := by
    intro i t hi p hp
    rw [Array.getElem?_push] at hi
    split at hi
    · rename_i heq
      obtain rfl := Option.some.inj hi
      obtain ⟨_, hlt⟩ := Option.filter_eq_some_iff.1 hp
      have hlt' : p.index < ts.all.size := of_decide_eq_true hlt
      omega
    · exact ts.older i t hi p hp

/-- Change the symbols of a table and keep its parent. -/
def modify (ts : Tables) (t : TableId) (f : Spaces → Spaces) : Tables where
  all := ts.all.modify t.index fun table => { table with spaces := f table.spaces }
  older := by
    intro i u hi p hp
    rw [Array.getElem?_modify] at hi
    split at hi
    · obtain ⟨u', hu', rfl⟩ := Option.map_eq_some_iff.1 hi
      exact ts.older i u' hu' p hp
    · exact ts.older i u hi p hp

/-- The parent of a table. -/
def parent? (ts : Tables) (t : TableId) : Option TableId := (ts.get? t).bind Table.parent

/-- The symbols of a table. -/
def spacesOf (ts : Tables) (t : TableId) : Spaces :=
  match ts.get? t with
  | some table => table.spaces
  | none => .empty

/-- The parent of a table is older than the table. -/
theorem parent?_lt {ts : Tables} {t p : TableId} (h : ts.parent? t = some p) :
    p.index < t.index := by
  obtain ⟨table, htable, hp⟩ := Option.bind_eq_some_iff.1 h
  exact ts.older t.index table htable p hp

/-- The symbol that a table has itself. -/
def local? (ts : Tables) (t : TableId) (space name : String) : Option SymbolId :=
  (ts.spacesOf t).find? space name

/-- The symbol that a table has, or else the one that its parent finds. -/
def lookup? (ts : Tables) (t : TableId) (space name : String) : Option SymbolId :=
  match ts.local? t space name with
  | some id => some id
  | none =>
      match _ : ts.parent? t with
      | some p => ts.lookup? p space name
      | none => none
  termination_by t.index
  decreasing_by
    rename_i h
    exact parent?_lt h

/-- A table, its parent, the parent of that, and so on. -/
def chain (ts : Tables) (t : TableId) : List TableId :=
  match _ : ts.parent? t with
  | some p => t :: ts.chain p
  | none => [t]
  termination_by t.index
  decreasing_by
    rename_i h
    exact parent?_lt h

end Tables
end ScriptCore
