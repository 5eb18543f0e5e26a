import ScriptCore.Scope.Entering

/-!
# Symbols in scopes

Symbols are added to the current scope or to a named one, each to the namespace of its kind,
and looked up from the current scope outwards.  `assign` binds the nearest symbol that the
variables namespace has under a name.
-/

namespace ScriptCore

/-- The ways to add a symbol: by its kind, or with a demand on the kind. -/
inductive Admission
  | any
  | var
  | constant
  | function
  | method
  | klass
  | enum
  deriving DecidableEq, Repr

namespace Admission

/-- The kinds of symbols that are accepted. -/
def kinds : Admission → List SymbolKind
  | any => SymbolKind.all
  | var => [.var]
  | constant => [.constant]
  | function => [.function]
  | method => [.method, .function]
  | klass => [.klass]
  | enum => [.enum]

/-- The namespace that a symbol goes into. -/
def space (a : Admission) (kind : SymbolKind) : String :=
  match a with
  | any => kind.space
  | var | klass | enum => Space.vars
  | constant => Space.constants
  | function => Space.functions
  | method => Space.methods

/-- The accepted kinds in words. -/
def demand (a : Admission) : String := " or ".intercalate (a.kinds.map SymbolKind.name)

end Admission

/-- The ways to look a symbol up by its name alone. -/
inductive Sought
  | var
  | constant
  | function
  | method
  | enum
  deriving DecidableEq, Repr

namespace Sought

/-- The namespace that is searched. -/
def space : Sought → String
  | var | enum => Space.vars
  | constant => Space.constants
  | function => Space.functions
  | method => Space.methods

/-- The kinds that count as found. -/
def kinds : Sought → List SymbolKind
  | var => [.var]
  | constant => [.constant]
  | function => [.function]
  | method => [.function, .method]
  | enum => [.enum]

end Sought

namespace Container

/-- The table of a named scope, or of the current scope if no name is given. -/
def targetTable (k : Container) : Option String → Except Error TableId
  | none => .ok k.currentTable
  | some name =>
      match k.scopes.find? name with
      | some table => .ok table
      | none => .error (Error.of (.unknownScope name))

/-- The namespace that a symbol is admitted to. -/
def spaceFor (a : Admission) (symbol : Symbol) : Except Error String :=
  if symbol.kind ∈ a.kinds then .ok (a.space symbol.kind)
  else .error (Error.of (.wrongSymbolKind symbol.name a.demand symbol.kind.name))

/-- Add a symbol to a scope and answer with the namespace.  The kind is looked at before the
scope. -/
def add (k : Container) (a : Admission) (id : SymbolId) (scope : Option String) :
    Action Store String := fun s =>
  match s.symbol? id with
  | none => (.error (Error.of (.undefinedSymbol "")), s)
  | some symbol =>
      match spaceFor a symbol, k.targetTable scope with
      | .ok space, .ok table => (.ok space, s.define table space id)
      | .error e, _ => (.error e, s)
      | .ok _, .error e => (.error e, s)

/-- The nearest symbol under a namespace and a name. -/
def lookup? (k : Container) (s : Store) (space name : String) : Option SymbolId :=
  s.tables.lookup? k.currentTable space name

/-- The nearest symbol, or a refusal. -/
def resolve (k : Container) (s : Store) (space name : String) : Except Error SymbolId :=
  match k.lookup? s space name with
  | some id => .ok id
  | none => .error (Error.of (.undefinedSymbol name))

/-- The nearest symbol in the namespace that is searched, if it has a kind that counts. -/
def seek? (k : Container) (s : Store) (sought : Sought) (name : String) : Option SymbolId :=
  (k.lookup? s sought.space name).filter fun id => sought.kinds.any (s.hasKind · id)

/-- The variable that a named scope has itself. -/
def variableIn? (k : Container) (s : Store) (scope name : String) : Option SymbolId :=
  (k.scopes.find? scope).bind fun table =>
    (s.tables.local? table Space.vars name).filter (s.hasKind .var)

/-- The variable with a name, or else the constant, the function or the method. -/
def find? (k : Container) (s : Store) (name : String) : Option SymbolId :=
  k.seek? s .var name <|> k.seek? s .constant name <|>
    k.seek? s .function name <|> k.seek? s .method name

/-- Bind the nearest symbol of the variables namespace to a cell. -/
def assign (k : Container) (name : String) (c : CellId) : Action Store Unit := fun s =>
  match k.lookup? s Space.vars name with
  | some id => Store.bindSymbol id c s
  | none =>
      if (k.seek? s .constant name).isSome then
        (.error (Error.of (.immutableAssignment name)), s)
      else (.error (Error.of (.undefinedSymbol name)), s)

/-- The symbols of a table, by namespace. -/
def tableText (s : Store) (spaces : Spaces) : String :=
  String.join <| spaces.spaces.map fun space =>
    let symbols := (spaces.inSpace space).filterMap fun p => s.symbol? p.2
    s!" Namespace: '{space}'\n" ++
      String.join (symbols.map fun symbol => symbol.text s.heap ++ "\n")

/-- All named scopes with their symbols. -/
def text (k : Container) (s : Store) : String :=
  String.join <| k.scopes.entries.map fun p =>
    s!"Scope: '{p.1}'\n" ++ tableText s (s.tables.spacesOf p.2)

end Container
end ScriptCore
