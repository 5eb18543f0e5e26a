import ScriptCore.Proofs.LookupChains

/-!
# Symbols stand in the namespaces of their kinds

A table keeps symbols by namespace and name and looks at no kinds.  That the variables namespace
has nothing but variables, classes and enums, and so on, is due to the ways in which symbols get
into the tables of a container.  Each way has its own demand on the kind and its own namespace,
and goes to the current scope or to any named one.

**Invariant.**  `Store.Sorted`: whatever a table has under a namespace is a symbol of the store,
with a kind that belongs there.  No call changes the kind of a symbol (`Store.KeepsKinds`), a new
table has no symbols, and a host may take symbols away (`EngineCall.Adds`).

**Assigning.**  An assignment takes the nearest symbol of the variables namespace without a look at
its kind, and `find?` the nearest variable, if no class or enum hides it, and otherwise a symbol of
another namespace.  In sorted tables the two agree.

**Results.**
* `Sorted.perform`, `sorted_run`: one call, and a run.
* `ownTable_of_mem_chain`: the tables on the chain of a table in use are those of the container.
* `assign_eq_ok_iff`, `assign_of_find?`: assigning and finding.
* `kinds_sorted`: the invariant and its consequence after every run.
-/

namespace ScriptCore

/-- The kinds of symbols that a namespace is for. -/
def Space.kinds (space : String) : List SymbolKind :=
  if space = Space.vars then [.var, .klass, .enum]
  else if space = Space.constants then [.constant]
  else if space = Space.functions then [.function]
  else if space = Space.methods then [.method, .function]
  else []

theorem Admission.mem_kinds_space (a : Admission) {kind : SymbolKind} (h : kind ∈ a.kinds) :
    kind ∈ Space.kinds (a.space kind) := by
  cases a <;> cases kind <;> revert h <;> decide

/-- What a table has under a namespace is of a kind that the namespace is for. -/
def Store.Sorted (s : Store) (t : TableId) : Prop :=
  ∀ space name id, s.tables.local? t space name = some id →
    ∃ symbol, s.symbol? id = some symbol ∧ symbol.kind ∈ Space.kinds space

/-- The symbols keep their kinds. -/
def Store.KeepsKinds (s t : Store) : Prop :=
  ∀ id symbol, s.symbol? id = some symbol →
    ∃ later, t.symbol? id = some later ∧ later.kind = symbol.kind

/-- A change that puts no symbol into a table. -/
def Spaces.Removes (f : Spaces → Spaces) : Prop :=
  ∀ (spaces : Spaces) space name id,
    (f spaces).find? space name = some id → spaces.find? space name = some id

/-- The call puts no symbol into a table without looking at its kind. -/
def EngineCall.Adds : EngineCall → Prop
  | .store (.changeTable _ f) => Spaces.Removes f
  | _ => True

namespace Store

variable {s t u : Store}

theorem keepsKinds_of_symbols (h : t.symbols = s.symbols) : s.KeepsKinds t := by
  intro id symbol hsymbol
  refine ⟨symbol, ?_, rfl⟩
  rw [symbol?, h]
  exact hsymbol

theorem KeepsKinds.trans (hst : s.KeepsKinds t) (htu : t.KeepsKinds u) : s.KeepsKinds u := by
  intro id symbol hsymbol
  obtain ⟨later, hlater, hkind⟩ := hst id symbol hsymbol
  obtain ⟨last, hlast, hkind'⟩ := htu id later hlater
  exact ⟨last, hlast, hkind'.trans hkind⟩

theorem ignoresCells_keepsKinds : IgnoresCells KeepsKinds :=
  ⟨fun _ _ => keepsKinds_of_symbols rfl, KeepsKinds.trans⟩

theorem exists_bind_of_kind {symbol : Symbol} (c : CellId) (h : symbol.kind = .var) :
    ∃ bound, symbol.bind c = .ok bound := by
  obtain ⟨name, context, meaning⟩ := symbol
  cases meaning with
  | var declared cell => exact ⟨_, rfl⟩
  | constant cell => cases h
  | function routine => cases h
  | method owner routine => cases h
  | klass parent isAbstract => cases h
  | enum ordinals => cases h

theorem keepsKinds_bindSymbol (id : SymbolId) (c : CellId) (s : Store) :
    s.KeepsKinds (bindSymbol id c s).2 := by
  cases hsymbol : s.symbol? id with
  | none =>
      refine keepsKinds_of_symbols ?_
      simp only [bindSymbol, hsymbol]
  | some symbol =>
      cases hbound : symbol.bind c with
      | error err =>
          refine keepsKinds_of_symbols ?_
          simp only [bindSymbol, hsymbol, hbound]
      | ok bound =>
          obtain ⟨hvar, hstill, -⟩ := Symbol.of_bind hbound
          have hstore : (bindSymbol id c s).2 =
              { s with symbols := s.symbols.setIfInBounds id.index bound } := by
            simp only [bindSymbol, hsymbol, hbound]
          intro other symbol' hsymbol'
          rw [hstore, symbol?_setIfInBounds, hsymbol]
          split
          · next hsame =>
              rw [hsame, hsymbol] at hsymbol'
              obtain rfl := Option.some.inj hsymbol'
              exact ⟨bound, rfl, hstill.trans hvar.symm⟩
          · exact ⟨symbol', hsymbol', rfl⟩

theorem keepsKinds_addSymbol (symbol : Symbol) (s : Store) :
    s.KeepsKinds (addSymbol symbol s).2 := by
  intro id old hold
  have hlt : id.index < s.symbols.size := (Array.getElem?_eq_some_iff.1 hold).1
  refine ⟨old, ?_, rfl⟩
  rw [← hold]
  exact Array.getElem?_push_lt hlt |>.trans (Array.getElem?_eq_getElem hlt).symm

theorem keepsKinds_assign (k : Container) (name : String) (c : CellId) :
    Leads KeepsKinds (k.assign name c) := by
  intro s
  unfold Container.assign
  cases k.lookup? s Space.vars name with
  | some id => exact keepsKinds_bindSymbol id c s
  | none => cases (k.seek? s .constant name).isSome <;> exact keepsKinds_of_symbols rfl

theorem hasKind_iff {id : SymbolId} {kind : SymbolKind} :
    s.hasKind kind id = true ↔ ∃ symbol, s.symbol? id = some symbol ∧ symbol.kind = kind := by
  simp [Store.hasKind, Option.any_eq_true]

end Store

namespace Store.Sorted

variable {s s' : Store} {t : TableId}

/-- A table that is not there has no symbols. -/
theorem of_not_has (h : ¬ s.tables.Has t) : s.Sorted t := by
  intro space name id hlocal
  have hget : s.tables.get? t = none := Array.getElem?_eq_none (Nat.le_of_not_lt h)
  simp [Tables.local?, Tables.spacesOf, hget, Spaces.find?] at hlocal

/-- What a table has afterwards it had before, or it belongs where it is. -/
theorem of_local? (h : s.Sorted t) (hkinds : s.KeepsKinds s')
    (hlocal : ∀ space name id, s'.tables.local? t space name = some id →
      s.tables.local? t space name = some id ∨
        ∃ symbol, s'.symbol? id = some symbol ∧ symbol.kind ∈ Space.kinds space) :
    s'.Sorted t := by
  intro space name id hid
  obtain hold | hnew := hlocal space name id hid
  · obtain ⟨symbol, hsymbol, hkind⟩ := h space name id hold
    obtain ⟨later, hlater, hsame⟩ := hkinds id symbol hsymbol
    exact ⟨later, hlater, hsame ▸ hkind⟩
  · exact hnew

theorem of_tables (h : s.Sorted t) (hkinds : s.KeepsKinds s') (htables : s'.tables = s.tables) :
    s'.Sorted t :=
  h.of_local? hkinds fun _ _ _ hid => .inl (htables ▸ hid)

theorem addTable (h : s.Sorted t) (parent : Option TableId) :
    { s with tables := s.tables.add parent }.Sorted t := by
  refine h.of_local? (keepsKinds_of_symbols rfl) fun space name id hid => ?_
  by_cases ht : t = s.tables.next
  · rw [ht, Tables.local?_next_add] at hid
    cases hid
  · rw [Tables.local?_congr space name ((s.tables.get?_add parent t).trans (if_neg ht))] at hid
    exact .inl hid

/-- A changed table is sorted if what is new in it belongs where it is. -/
theorem changeTable (h : s.Sorted t) {u : TableId} {f : Spaces → Spaces}
    (hf : ∀ (spaces : Spaces) space name id, (f spaces).find? space name = some id →
      spaces.find? space name = some id ∨
        ∃ symbol, s.symbol? id = some symbol ∧ symbol.kind ∈ Space.kinds space) :
    { s with tables := s.tables.modify u f }.Sorted t := by
  refine h.of_local? (keepsKinds_of_symbols rfl) fun space name id hid => ?_
  have hget := s.tables.get?_modify f u t
  by_cases ht : t = u
  · rw [if_pos ht] at hget
    cases htable : s.tables.get? t with
    | none =>
        rw [htable] at hget
        rw [Tables.local?_congr space name (hget.trans htable.symm)] at hid
        exact .inl hid
    | some table =>
        rw [htable] at hget
        have hspaces : (s.tables.modify u f).spacesOf t = f (s.tables.spacesOf t) := by
          simp only [Tables.spacesOf, hget, htable, Option.map_some]
        rw [Tables.local?, hspaces] at hid
        exact hf _ space name id hid
  · rw [if_neg ht] at hget
    rw [Tables.local?_congr space name hget] at hid
    exact .inl hid

theorem add (h : s.Sorted t) (k : Container) (a : Admission) (id : SymbolId)
    (scope : Option String) : (k.add a id scope s).2.Sorted t := by
  obtain heq | ⟨symbol, u, hsymbol, hkind, -, heq⟩ := store_add k a id scope s
  · rw [heq]
    exact h
  · rw [heq]
    refine h.changeTable fun spaces space name other hother => ?_
    rw [Spaces.find?_define] at hother
    split at hother
    · next hhere =>
        obtain rfl := Option.some.inj hother
        refine .inr ⟨symbol, hsymbol, ?_⟩
        rw [hhere.1]
        exact a.mem_kinds_space hkind
    · exact .inl hother

theorem scopeCall {e : Engine} (h : e.store.Sorted t) (c : ScopeCall) :
    (c.perform e).store.Sorted t := by
  cases c with
  | create name => exact h.addTable _
  | enterBlock name => exact h.addTable _
  | enterCall base => exact h.addTable _
  | enter name => exact h
  | leave => exact h
  | stepOut => exact h

theorem storeCall (h : s.Sorted t) {c : StoreCall} (hc : EngineCall.Adds (.store c)) :
    (c.perform s).Sorted t := by
  cases c with
  | changeCells f => exact h
  | makeSymbol symbol => exact h.of_tables (keepsKinds_addSymbol symbol s) rfl
  | bindSymbol id c => exact h.of_tables (keepsKinds_bindSymbol id c s) (tables_bindSymbol id c s)
  | makeTable parent => exact h.addTable parent
  | changeTable u f =>
      exact h.changeTable fun spaces space name id hid => .inl (hc spaces space name id hid)

theorem registryCall {e : Engine} (h : e.store.Sorted t) (c : RegistryCall) :
    (c.perform e).store.Sorted t := by
  obtain ⟨heap, hstore⟩ := store_registry c e
  rw [hstore]
  exact h

/-- A table stays sorted, whatever is called. -/
theorem perform {e : Engine} (h : e.store.Sorted t) {c : EngineCall} (hc : c.Adds) :
    (c.perform e).store.Sorted t := by
  cases c with
  | scope c => exact h.scopeCall c
  | registry c => exact h.registryCall c
  | store c => exact h.storeCall hc
  | add a id target => exact h.add e.container a id target
  | assign name c =>
      exact h.of_tables (keepsKinds_assign e.container name c e.store)
        (tables_assign e.container name c e.store)
  | call callee args =>
      have hkinds : Leads KeepsKinds (e.container.call callee args) :=
        Leads.call ignoresCells_keepsKinds (keepsKinds_assign e.container) callee args
      exact h.of_tables (hkinds e.store) (tables_call e.container callee args e.store)

end Store.Sorted

section Runs

variable {start : Engine}

/-- The parent of a table of a container is a table of the container. -/
theorem ownTable_parent (hground : Grounded start)
    (huses : ∀ t, start.container.Uses t → t = start.container.stack.root.table)
    (calls : List EngineCall) {t p : TableId} (ht : OwnTable start calls t)
    (hp : (start.run calls).store.tables.parent? t = some p) : OwnTable start calls p := by
  induction calls using List.reverseRecOn generalizing t p with
  | nil =>
      obtain rfl | ⟨how, earlier, d, later, hsplit, -⟩ := ht
      · rw [show start.run [] = start from rfl, hground.root] at hp
        cases hp
      · simp at hsplit
  | append_singleton calls c ih =>
      have hown := ownChains_run hground huses calls
      rw [Engine.run_append_singleton] at hp
      obtain hold | ⟨how, hmaking, rfl⟩ := ht.of_append
      · rw [(keepsParents_perform c _).parent?_eq t (hown.has t hold)] at hp
        exact (ih hold hp).append c
      · -- A new table has the root table or the current table as its parent, or none.
        rw [tables_of_making? hmaking, Tables.parent?_next_add] at hp
        have hparent : how.parent (start.run calls).container = some p :=
          (Option.filter_eq_some_iff.1 hp).1
        refine OwnTable.append (hown.uses p ?_) c
        cases how with
        | created name =>
            rw [Making.parent, Engine.createParent] at hparent
            split at hparent
            · cases hparent
            · obtain rfl := Option.some.inj hparent
              exact .inl ⟨_, ScopeStack.root_mem_toList _, rfl⟩
        | block =>
            obtain rfl := Option.some.inj hparent
            exact Container.uses_currentTable _

theorem ownTable_of_mem_chain (hground : Grounded start)
    (huses : ∀ t, start.container.Uses t → t = start.container.stack.root.table)
    (calls : List EngineCall) {t u : TableId} (ht : OwnTable start calls t)
    (hu : u ∈ (start.run calls).store.tables.chain t) : OwnTable start calls u := by
  fun_induction (start.run calls).store.tables.chain t with
  | case1 t p hp ih =>
      rcases List.mem_cons.1 hu with rfl | hu
      · exact ht
      · exact ih (ownTable_parent hground huses calls ht hp) hu
  | case2 t hp =>
      obtain rfl := List.mem_singleton.1 hu
      exact ht

/-- The tables of a container are sorted after every run. -/
theorem sorted_run (hroot : start.store.Sorted start.container.stack.root.table)
    (calls : List EngineCall) (hcalls : ∀ c ∈ calls, c.Adds) {t : TableId}
    (ht : OwnTable start calls t) : (start.run calls).store.Sorted t := by
  induction calls using List.reverseRecOn generalizing t with
  | nil =>
      obtain rfl | ⟨how, earlier, d, later, hsplit, -⟩ := ht
      · exact hroot
      · simp at hsplit
  | append_singleton calls c ih =>
      have hc : c.Adds := hcalls c (List.mem_append_right calls List.mem_cons_self)
      rw [Engine.run_append_singleton]
      obtain hold | ⟨how, -, rfl⟩ := ht.of_append
      · exact (ih (fun d hd => hcalls d (List.mem_append_left _ hd)) hold).perform hc
      · exact (Store.Sorted.of_not_has (Tables.not_has_next _)).perform hc

end Runs

/-- A variable is bound to another cell, and nothing else is changed. -/
structure Store.Rebound (s later : Store) (id : SymbolId) (c : CellId) : Prop where
  bound : ∃ symbol bound, s.symbol? id = some symbol ∧ symbol.bind c = .ok bound ∧
    later.symbol? id = some bound ∧ bound.cell? = some c
  others : ∀ other, other ≠ id → later.symbol? other = s.symbol? other
  heap : later.heap = s.heap
  tables : later.tables = s.tables

namespace Container

variable {k : Container} {s : Store} {name : String} {id : SymbolId}

theorem seek?_eq_some_iff {sought : Sought} :
    k.seek? s sought name = some id ↔
      k.lookup? s sought.space name = some id ∧
        ∃ kind ∈ sought.kinds, s.hasKind kind id = true := by
  rw [seek?, Option.filter_eq_some_iff, List.any_eq_true]

/-- A variable is found as the nearest symbol of the variables namespace. -/
theorem find?_var_iff :
    (k.find? s name = some id ∧ s.hasKind .var id = true) ↔
      k.lookup? s Space.vars name = some id ∧ s.hasKind .var id = true := by
  refine and_congr_left fun hvar => ?_
  obtain ⟨symbol, hsymbol, hkind⟩ := Store.hasKind_iff.1 hvar
  -- The other namespaces are searched for other kinds.
  have hother : ∀ sought : Sought, .var ∉ sought.kinds → k.seek? s sought name ≠ some id := by
    intro sought hnot hseek
    obtain ⟨-, kind, hmem, hhas⟩ := seek?_eq_some_iff.1 hseek
    obtain ⟨symbol', hsymbol', rfl⟩ := Store.hasKind_iff.1 hhas
    rw [hsymbol] at hsymbol'
    obtain rfl := Option.some.inj hsymbol'
    exact hnot (hkind ▸ hmem)
  have hconstant := hother .constant (by decide)
  have hfunction := hother .function (by decide)
  have hmethod := hother .method (by decide)
  have hseek : k.seek? s .var name = some id ↔ k.lookup? s Space.vars name = some id := by
    rw [seek?_eq_some_iff]
    exact and_iff_left ⟨.var, List.mem_cons_self, hvar⟩
  rw [← hseek, find?]
  simp only [Option.orElse_eq_orElse, Option.orElse_eq_or, Option.or_eq_some_iff, hconstant,
    hfunction, hmethod, and_false, or_false]

theorem rebound_assign {symbol : Symbol} (c : CellId)
    (hlookup : k.lookup? s Space.vars name = some id) (hsymbol : s.symbol? id = some symbol)
    (hvar : symbol.kind = .var) :
    (k.assign name c s).1 = .ok () ∧ s.Rebound (k.assign name c s).2 id c := by
  obtain ⟨bound, hbound⟩ := Store.exists_bind_of_kind c hvar
  have hassign : k.assign name c s =
      (.ok (), { s with symbols := s.symbols.setIfInBounds id.index bound }) := by
    simp only [assign, hlookup, Store.bindSymbol, hsymbol, hbound]
  rw [hassign]
  refine ⟨rfl, ⟨symbol, bound, hsymbol, hbound, ?_, (Symbol.of_bind hbound).2.2⟩, ?_, rfl, rfl⟩
  · rw [Store.symbol?_setIfInBounds, if_pos rfl, hsymbol]
    rfl
  · intro other hother
    rw [Store.symbol?_setIfInBounds, if_neg hother]

theorem assign_eq_ok_iff (hsorted : ∀ t ∈ s.tables.chain k.currentTable, s.Sorted t) (c : CellId) :
    (k.assign name c s).1 = .ok () ↔
      ∃ id, k.find? s name = some id ∧ s.hasKind .var id = true := by
  simp only [find?_var_iff]
  cases hlookup : k.lookup? s Space.vars name with
  | none =>
      simp only [assign, hlookup]
      split <;> simp
  | some id =>
      obtain ⟨nearer, t, further, hchain, hlocal, -⟩ := Tables.lookup?_eq_some_iff.1 hlookup
      have ht : t ∈ s.tables.chain k.currentTable :=
        hchain ▸ List.mem_append_right nearer List.mem_cons_self
      obtain ⟨symbol, hsymbol, -⟩ := hsorted t ht _ _ _ hlocal
      constructor
      · intro hok
        simp only [assign, hlookup, Store.bindSymbol, hsymbol] at hok
        cases hbound : symbol.bind c with
        | error err =>
            rw [hbound] at hok
            cases hok
        | ok bound =>
            exact ⟨id, rfl, Store.hasKind_iff.2 ⟨symbol, hsymbol, (Symbol.of_bind hbound).1⟩⟩
      · rintro ⟨other, hsame, hvar⟩
        obtain rfl := Option.some.inj hsame
        obtain ⟨symbol, hsymbol, hkind⟩ := Store.hasKind_iff.1 hvar
        exact (rebound_assign c hlookup hsymbol hkind).1

theorem assign_of_find? (c : CellId) (hfind : k.find? s name = some id)
    (hvar : s.hasKind .var id = true) : s.Rebound (k.assign name c s).2 id c := by
  obtain ⟨hlookup, -⟩ := find?_var_iff.1 ⟨hfind, hvar⟩
  obtain ⟨symbol, hsymbol, hkind⟩ := Store.hasKind_iff.1 hvar
  exact (rebound_assign c hlookup hsymbol hkind).2

end Container

/-- In every table that can be reached in a container, through a scope or a scope name and then from
parent to parent, symbols stand in the namespaces of their kinds, if symbols got there by being
added.  So an assignment succeeds if and only if what is found under the name is a variable, and
binds that variable. -/
theorem kinds_sorted (rootName : String) (hname : rootName ≠ "") (maxDepth : Nat) (s : Store) :
    ∃ k s', Container.build rootName maxDepth s = (.ok k, s') ∧
      ∀ calls : List EngineCall, (∀ c ∈ calls, c.Adds) →
        let e := Engine.run ⟨s', k⟩ calls
        (∀ u, e.container.Uses u → ∀ t ∈ e.store.tables.chain u, e.store.Sorted t) ∧
        ∀ name c,
          ((e.container.assign name c e.store).1 = .ok () ↔
            ∃ id, e.container.find? e.store name = some id ∧ e.store.hasKind .var id = true) ∧
          ∀ id, e.container.find? e.store name = some id → e.store.hasKind .var id = true →
            e.store.Rebound (e.container.assign name c e.store).2 id c := by
  refine ⟨_, _, build_of_ne_empty hname maxDepth s, fun calls hcalls => ?_⟩
  intro e
  have hground := grounded_build rootName maxDepth s
  have hown := ownChains_run hground (fun _ => uses_withRoot) calls
  have hroot : (Store.addTable none s).2.Sorted s.tables.next :=
    (Store.Sorted.of_not_has (Tables.not_has_next _)).addTable none
  have hsorted : ∀ u, e.container.Uses u → ∀ t ∈ e.store.tables.chain u, e.store.Sorted t := by
    intro u hu t ht
    exact sorted_run hroot calls hcalls
      (ownTable_of_mem_chain hground (fun _ => uses_withRoot) calls (hown.uses u hu) ht)
  refine ⟨hsorted, fun name c => ⟨?_, fun id => Container.assign_of_find? c⟩⟩
  exact Container.assign_eq_ok_iff (hsorted _ (Container.uses_currentTable _)) c

theorem Spaces.removes_remove (space name : String) :
    Spaces.Removes fun spaces => spaces.remove space name := by
  intro spaces other key id hfound
  have hremove : Dict.find? (spaces.remove space name) other =
      if other = space then (Dict.find? spaces space).map (·.erase name)
      else Dict.find? spaces other := Dict.find?_modify spaces space other _
  obtain ⟨names, hnames, hid⟩ := Option.bind_eq_some_iff.1 hfound
  rw [hremove] at hnames
  split at hnames
  · next hother =>
      obtain ⟨before, hbefore, rfl⟩ := Option.map_eq_some_iff.1 hnames
      rw [Dict.find?_erase] at hid
      split at hid
      · cases hid
      · rw [Spaces.find?, hother, hbefore]
        exact hid
  · rw [Spaces.find?, hnames]
    exact hid

/-- A class and a constant with the name of a variable of the scope around. -/
def hiddenVariable : List EngineCall :=
  [.store (.makeSymbol ⟨"x", "main", .var .int ⟨0⟩⟩), .add .any ⟨0⟩ none,
    .store (.makeSymbol ⟨"y", "main", .var .int ⟨1⟩⟩), .add .var ⟨1⟩ none,
    .scope (.enterBlock "b"),
    .store (.makeSymbol ⟨"x", "b", .klass none false⟩), .add .klass ⟨2⟩ none,
    .store (.makeSymbol ⟨"y", "b", .enum .empty⟩), .add .any ⟨3⟩ (some "b"),
    .store (.changeTable ⟨1⟩ (·.remove Space.vars "y")),
    .store (.makeSymbol ⟨"x", "main", .constant ⟨0⟩⟩), .add .constant ⟨4⟩ (some "main")]

/-- The constant is found and the assignment refused; the other variable is found and assigned. -/
theorem hidden_variable_not_assigned :
    "main" ≠ "" ∧ (∀ c ∈ hiddenVariable, c.Adds) ∧
    ∃ k s', Container.build "main" defaultMaxDepth Store.empty = (.ok k, s') ∧
      let e := Engine.run ⟨s', k⟩ hiddenVariable
      e.store.Sorted ⟨0⟩ ∧ e.store.Sorted ⟨1⟩ ∧
      e.container.find? e.store "x" = some ⟨4⟩ ∧
      (e.container.assign "x" ⟨5⟩ e.store).1 ≠ .ok () ∧
      (e.container.assign "y" ⟨5⟩ e.store).1 = .ok () ∧
      e.store.Rebound (e.container.assign "y" ⟨5⟩ e.store).2 ⟨1⟩ ⟨5⟩ := by
  have hname : "main" ≠ "" := by decide
  have hcalls : ∀ c ∈ hiddenVariable, c.Adds := by
    simp [hiddenVariable, EngineCall.Adds, Spaces.removes_remove]
  obtain ⟨k, s', hbuild, hrun⟩ := kinds_sorted "main" hname defaultMaxDepth Store.empty
  obtain ⟨hsorted, hassign⟩ := hrun hiddenVariable hcalls
  refine ⟨hname, hcalls, k, s', hbuild, ?_⟩
  cases hbuild
  intro e
  have hchain : e.store.tables.chain e.container.currentTable = [⟨1⟩, ⟨0⟩] := by decide +kernel
  have htables := hsorted _ (Container.uses_currentTable _)
  rw [hchain] at htables
  have hx : e.container.find? e.store "x" = some ⟨4⟩ := by decide +kernel
  have hy : e.container.find? e.store "y" = some ⟨1⟩ := by decide +kernel
  have hvar : e.store.hasKind .var ⟨1⟩ = true := by decide +kernel
  refine ⟨htables ⟨0⟩ (by simp), htables ⟨1⟩ (by simp), hx, fun hok => ?_,
    (hassign "y" ⟨5⟩).1.2 ⟨_, hy, hvar⟩, (hassign "y" ⟨5⟩).2 _ hy hvar⟩
  obtain ⟨id, hfind, hkind⟩ := (hassign "x" ⟨5⟩).1.1 hok
  obtain rfl := Option.some.inj (hx.symm.trans hfind)
  exact absurd hkind (by decide +kernel)

end ScriptCore
