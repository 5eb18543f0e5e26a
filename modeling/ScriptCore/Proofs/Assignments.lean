import ScriptCore.Proofs.SymbolKinds

/-!
# What an assignment binds

An assignment goes to the nearest entry that the variables namespace has under a name.  A variable
is bound to the given cell.  A class or an enum that stands nearer hides a variable further out, and
the assignment is refused.  If there is no entry at all, the refusal depends on whether a constant
of the name is visible.

**Sharing.**  A symbol is one object, however many scopes reach it.  `Store.seen?` is the cell that
is seen from a table under a namespace and a name: after an assignment it is the new cell wherever
the look-up reaches the symbol, and what it was everywhere else (`seen?_of_rebound`).

**Results.**
* `Tables.Nearest`, `Tables.Bare`: the nearest entry of a chain, and a chain without an entry.
* `assignsNearest`: the outcomes of an assignment by the nearest entry.
* `assignments_bind_nearest`: the same after every run, where for symbols that were added to scopes
  there are no other cases.
-/

namespace ScriptCore

namespace Tables

/-- The entry under a namespace and a name in the first table of a chain that has one. -/
def Nearest (ts : Tables) (t : TableId) (space name : String) (id : SymbolId) : Prop :=
  ∃ nearer u further, ts.chain t = nearer ++ u :: further ∧
    ts.local? u space name = some id ∧ ∀ v ∈ nearer, ts.local? v space name = none

/-- No table of a chain has an entry under a namespace and a name. -/
def Bare (ts : Tables) (t : TableId) (space name : String) : Prop :=
  ∀ u ∈ ts.chain t, ts.local? u space name = none

variable {ts : Tables} {t : TableId} {space name : String}

theorem lookup?_eq_some_iff_nearest {id : SymbolId} :
    ts.lookup? t space name = some id ↔ ts.Nearest t space name id :=
  lookup?_eq_some_iff

theorem lookup?_eq_none_iff_bare : ts.lookup? t space name = none ↔ ts.Bare t space name :=
  lookup?_eq_none_iff

end Tables

/-- Only variables and constants are bound to a cell. -/
theorem Symbol.bind_of_kind {symbol : Symbol} (c : CellId)
    (hvar : symbol.kind ≠ .var) (hconstant : symbol.kind ≠ .constant) :
    symbol.bind c = .error (Error.of
      (.wrongSymbolKind symbol.name SymbolKind.var.name symbol.kind.name)) := by
  obtain ⟨name, context, meaning⟩ := symbol
  cases meaning with
  | var declared cell => exact absurd rfl hvar
  | constant cell => exact absurd rfl hconstant
  | function routine => rfl
  | method owner routine => rfl
  | klass parent isAbstract => rfl
  | enum ordinals => rfl

/-- The cell that is seen from a table under a namespace and a name. -/
def Store.seen? (s : Store) (t : TableId) (space name : String) : Option CellId :=
  ((s.tables.lookup? t space name).bind s.symbol?).bind Symbol.cell?

/-- The new cell is seen wherever the symbol is reached, and all else is seen as before. -/
theorem Store.seen?_of_rebound {s later : Store} {id : SymbolId} {c : CellId}
    (h : s.Rebound later id c) (t : TableId) (space name : String) :
    later.seen? t space name =
      if s.tables.lookup? t space name = some id then some c else s.seen? t space name := by
  unfold seen?
  rw [h.tables]
  cases hlookup : s.tables.lookup? t space name with
  | none =>
      rw [if_neg nofun]
      rfl
  | some other =>
      by_cases hother : other = id
      · subst hother
        obtain ⟨-, bound, -, -, hbound, hcell⟩ := h.bound
        rw [if_pos rfl, Option.bind_some, hbound, Option.bind_some, hcell]
      · rw [if_neg fun heq => hother (Option.some.inj heq), Option.bind_some, Option.bind_some,
          h.others other hother]

namespace Container

/-- The nearest entry of the constants namespace under the name is a constant. -/
def SeesConstant (k : Container) (s : Store) (name : String) : Prop :=
  ∃ id symbol, s.tables.Nearest k.currentTable Space.constants name id ∧
    s.symbol? id = some symbol ∧ symbol.kind = .constant

/-- The outcomes of an assignment by the nearest entry of the variables namespace. -/
structure AssignsNearest (k : Container) (s : Store) (name : String) (c : CellId) : Prop where
  binds : ∀ id symbol, s.tables.Nearest k.currentTable Space.vars name id →
    s.symbol? id = some symbol → symbol.kind = .var →
      (k.assign name c s).1 = .ok () ∧ s.Rebound (k.assign name c s).2 id c ∧
      ∀ t space other, (k.assign name c s).2.seen? t space other =
        if s.tables.lookup? t space other = some id then some c else s.seen? t space other
  refuses : ∀ id symbol, s.tables.Nearest k.currentTable Space.vars name id →
    s.symbol? id = some symbol → symbol.kind ≠ .var → symbol.kind ≠ .constant →
      k.assign name c s = (.error (Error.of
        (.wrongSymbolKind symbol.name SymbolKind.var.name symbol.kind.name)), s)
  keepsConstant : s.tables.Bare k.currentTable Space.vars name → k.SeesConstant s name →
    k.assign name c s = (.error (Error.of (.immutableAssignment name)), s)
  finds_none : s.tables.Bare k.currentTable Space.vars name → ¬ k.SeesConstant s name →
    k.assign name c s = (.error (Error.of (.undefinedSymbol name)), s)

variable {k : Container} {s : Store} {name : String}

theorem isSome_seek?_constant_iff :
    (k.seek? s .constant name).isSome = true ↔ k.SeesConstant s name := by
  rw [Option.isSome_iff_exists]
  refine exists_congr fun id => ?_
  rw [seek?_eq_some_iff, lookup?, Tables.lookup?_eq_some_iff_nearest]
  constructor
  · rintro ⟨hnearest, kind, hkind, hhas⟩
    obtain rfl := List.mem_singleton.1 hkind
    obtain ⟨symbol, hsymbol, hconstant⟩ := Store.hasKind_iff.1 hhas
    exact ⟨symbol, hnearest, hsymbol, hconstant⟩
  · rintro ⟨symbol, hnearest, hsymbol, hconstant⟩
    exact ⟨hnearest, .constant, List.mem_singleton.2 rfl,
      Store.hasKind_iff.2 ⟨symbol, hsymbol, hconstant⟩⟩

theorem assign_of_bare (c : CellId) (hbare : s.tables.Bare k.currentTable Space.vars name) :
    k.assign name c s =
      if (k.seek? s .constant name).isSome then
        (.error (Error.of (.immutableAssignment name)), s)
      else (.error (Error.of (.undefinedSymbol name)), s) := by
  have hlookup : k.lookup? s Space.vars name = none := Tables.lookup?_eq_none_iff_bare.2 hbare
  rw [assign, hlookup]

theorem assignsNearest (k : Container) (s : Store) (name : String) (c : CellId) :
    k.AssignsNearest s name c where
  binds id symbol hnearest hsymbol hvar := by
    obtain ⟨hok, hrebound⟩ :=
      rebound_assign c (Tables.lookup?_eq_some_iff_nearest.2 hnearest) hsymbol hvar
    exact ⟨hok, hrebound, Store.seen?_of_rebound hrebound⟩
  refuses id symbol hnearest hsymbol hvar hconstant := by
    have hlookup : k.lookup? s Space.vars name = some id :=
      Tables.lookup?_eq_some_iff_nearest.2 hnearest
    simp only [assign, hlookup, Store.bindSymbol, hsymbol, Symbol.bind_of_kind c hvar hconstant]
  keepsConstant hbare hsees := by
    rw [assign_of_bare c hbare, if_pos (isSome_seek?_constant_iff.2 hsees)]
  finds_none hbare hnot := by
    rw [assign_of_bare c hbare, if_neg fun h => hnot (isSome_seek?_constant_iff.1 h)]

end Container

section Runs

variable {s : Store} {t : TableId} {name : String}

/-- In sorted tables the nearest entry of a namespace is of a kind that the namespace is for. -/
theorem kind_of_nearest (h : ∀ u ∈ s.tables.chain t, s.Sorted u) {space : String} {id : SymbolId}
    (hnearest : s.tables.Nearest t space name id) :
    ∃ symbol, s.symbol? id = some symbol ∧ symbol.kind ∈ Space.kinds space := by
  obtain ⟨nearer, u, further, hchain, hlocal, -⟩ := hnearest
  have hu : u ∈ s.tables.chain t := hchain ▸ List.mem_append_right nearer List.mem_cons_self
  exact h u hu _ _ _ hlocal

/-- In sorted tables a constant is visible if there is an entry of its namespace at all. -/
theorem Container.seesConstant_iff {k : Container}
    (h : ∀ u ∈ s.tables.chain k.currentTable, s.Sorted u) :
    k.SeesConstant s name ↔ ¬ s.tables.Bare k.currentTable Space.constants name := by
  rw [← Tables.lookup?_eq_none_iff_bare, ← ne_eq, Option.ne_none_iff_exists']
  refine exists_congr fun id => ?_
  rw [Tables.lookup?_eq_some_iff_nearest]
  constructor
  · rintro ⟨symbol, hnearest, -⟩
    exact hnearest
  · intro hnearest
    obtain ⟨symbol, hsymbol, hkind⟩ := kind_of_nearest h hnearest
    have hkinds : Space.kinds Space.constants = [.constant] := by decide
    rw [hkinds, List.mem_singleton] at hkind
    exact ⟨symbol, hnearest, hsymbol, hkind⟩

/-- The tables that the current scope looks into are sorted after every run. -/
theorem sorted_chain_run (rootName : String) (maxDepth : Nat) (s : Store)
    (calls : List EngineCall) (hcalls : ∀ c ∈ calls, c.Adds) :
    let e := Engine.run ⟨(Store.addTable none s).2,
      Container.withRoot ⟨rootName, s.tables.next⟩ maxDepth⟩ calls
    ∀ u ∈ e.store.tables.chain e.container.currentTable, e.store.Sorted u := by
  intro e u hu
  have hground := grounded_build rootName maxDepth s
  have hown := ownChains_run hground (fun _ => uses_withRoot) calls
  have hroot : (Store.addTable none s).2.Sorted s.tables.next :=
    (Store.Sorted.of_not_has (Tables.not_has_next _)).addTable none
  exact sorted_run hroot calls hcalls (ownTable_of_mem_chain hground (fun _ => uses_withRoot) calls
    (hown.uses _ (Container.uses_currentTable _)) hu)

end Runs

/-- After any run an assignment goes by the nearest entry of the variables namespace.  A variable is
bound to the cell itself, which is then seen wherever the variable is reached, while every other
symbol, every table and the contents of all cells are as they were.  A class or an enum is refused
as a wrong kind.  Without an entry the name is an immutable constant, if one is visible, or
undefined; and a refusal changes nothing.  If symbols got into tables by being added, the nearest
entry is a variable, a class or an enum, and a constant is visible unless its namespace has no
entry. -/
theorem assignments_bind_nearest (rootName : String) (hname : rootName ≠ "") (maxDepth : Nat)
    (s : Store) :
    ∃ k s', Container.build rootName maxDepth s = (.ok k, s') ∧ ∀ calls : List EngineCall,
      let e := Engine.run ⟨s', k⟩ calls
      (∀ name c, e.container.AssignsNearest e.store name c) ∧
      ((∀ c ∈ calls, c.Adds) → ∀ name,
        (∀ id, e.store.tables.Nearest e.container.currentTable Space.vars name id →
          ∃ symbol, e.store.symbol? id = some symbol ∧ symbol.kind ∈ [.var, .klass, .enum]) ∧
        (e.container.SeesConstant e.store name ↔
          ¬ e.store.tables.Bare e.container.currentTable Space.constants name)) := by
  refine ⟨_, _, build_of_ne_empty hname maxDepth s, fun calls => ?_⟩
  refine ⟨Container.assignsNearest _ _, fun hcalls name => ?_⟩
  have hsorted := sorted_chain_run rootName maxDepth s calls hcalls
  exact ⟨fun id => kind_of_nearest hsorted, Container.seesConstant_iff hsorted⟩

/-- A variable and a constant in the root scope, a class in a block, and a block within that. -/
def nestedNames : List EngineCall :=
  [.store (.makeSymbol ⟨"x", "main", .var .int ⟨0⟩⟩), .add .var ⟨0⟩ none,
    .store (.makeSymbol ⟨"y", "main", .var .int ⟨1⟩⟩), .add .var ⟨1⟩ none,
    .store (.makeSymbol ⟨"z", "main", .constant ⟨2⟩⟩), .add .constant ⟨2⟩ none,
    .scope (.enterBlock "b"),
    .store (.makeSymbol ⟨"y", "b", .klass none false⟩), .add .klass ⟨3⟩ none,
    .scope (.enterBlock "c")]

/-- From the inner block the variable of the root scope is bound, for the root scope too, the class
hides the other variable, and the constant and the unknown name are told apart. -/
theorem nested_names_assigned :
    "main" ≠ "" ∧ (∀ c ∈ nestedNames, c.Adds) ∧
    ∃ k s', Container.build "main" defaultMaxDepth Store.empty = (.ok k, s') ∧
      let e := Engine.run ⟨s', k⟩ nestedNames
      let after := fun name => e.container.assign name ⟨7⟩ e.store
      e.store.tables.Nearest e.container.currentTable Space.vars "x" ⟨0⟩ ∧
      (after "x").1 = .ok () ∧ (after "x").2.seen? ⟨0⟩ Space.vars "x" = some ⟨7⟩ ∧
      (after "x").2.seen? ⟨0⟩ Space.vars "y" = some ⟨1⟩ ∧
      after "y" = (.error (Error.of (.wrongSymbolKind "y" "variable" "class")), e.store) ∧
      after "z" = (.error (Error.of (.immutableAssignment "z")), e.store) ∧
      after "w" = (.error (Error.of (.undefinedSymbol "w")), e.store) := by
  have hname : "main" ≠ "" := by decide
  have hcalls : ∀ c ∈ nestedNames, c.Adds := by simp [nestedNames, EngineCall.Adds]
  obtain ⟨k, s', hbuild, hrun⟩ :=
    assignments_bind_nearest "main" hname defaultMaxDepth Store.empty
  obtain ⟨hassign, hadded⟩ := hrun nestedNames
  have hvisible := fun name => (hadded hcalls name).2
  refine ⟨hname, hcalls, k, s', hbuild, ?_⟩
  cases hbuild
  intro e after
  have hx : e.store.tables.Nearest e.container.currentTable Space.vars "x" ⟨0⟩ :=
    Tables.lookup?_eq_some_iff_nearest.1 (by decide +kernel)
  have hy : e.store.tables.Nearest e.container.currentTable Space.vars "y" ⟨3⟩ :=
    Tables.lookup?_eq_some_iff_nearest.1 (by decide +kernel)
  have hbare : ∀ name ∈ ["z", "w"],
      e.store.tables.Bare e.container.currentTable Space.vars name := by
    intro name hmem
    have hlookup : ∀ name ∈ ["z", "w"],
        e.store.tables.lookup? e.container.currentTable Space.vars name = none := by
      decide +kernel
    exact Tables.lookup?_eq_none_iff_bare.1 (hlookup name hmem)
  have hz : e.store.tables.lookup? e.container.currentTable Space.constants "z" ≠ none := by
    decide +kernel
  have hw : e.store.tables.lookup? e.container.currentTable Space.constants "w" = none := by
    decide +kernel
  have hvar : e.store.symbol? ⟨0⟩ = some ⟨"x", "main", .var .int ⟨0⟩⟩ := by decide +kernel
  have hclass : e.store.symbol? ⟨3⟩ = some ⟨"y", "b", .klass none false⟩ := by decide +kernel
  obtain ⟨hok, -, hseen⟩ := (hassign "x" ⟨7⟩).binds ⟨0⟩ _ hx hvar rfl
  refine ⟨hx, hok, ?_, ?_, ?_, ?_, ?_⟩
  · exact (hseen ⟨0⟩ Space.vars "x").trans (by decide +kernel)
  · exact (hseen ⟨0⟩ Space.vars "y").trans (by decide +kernel)
  · exact (hassign "y" ⟨7⟩).refuses ⟨3⟩ _ hy hclass (by decide) (by decide)
  · refine (hassign "z" ⟨7⟩).keepsConstant (hbare "z" (by decide)) ((hvisible "z").2 ?_)
    exact fun h => hz (Tables.lookup?_eq_none_iff_bare.2 h)
  · refine (hassign "w" ⟨7⟩).finds_none (hbare "w" (by decide)) fun h => ?_
    exact (hvisible "w").1 h (Tables.lookup?_eq_none_iff_bare.1 hw)

end ScriptCore
