import ScriptCore.Proofs.ClassDeclarations
import ScriptCore.Proofs.NewCells

/-!
# The cells that an engine holds

An engine keeps cells outside its heap: the variables and constants are bound to cells, classes
have cells for their static properties and for the defaults of the others.  A host that gets its
cells from the engine and hands them back can only hand in cells of the heap.  Then all cells that
are kept stay cells of the heap, and so do all cells that are referred to.

**Runs.**  `EngineCall.Sound` says that the cells handed in with a call are there, and that a host
changes cells as `CellCall` does.  `Engine.RunsSoundly` says this of every call of a run, at the
moment of the call.

**Invariant.**  `Engine.Sound`: the heap is closed and its values are well formed, and the cells
that symbols and classes keep are in it.

**Results.**
* `Advances.run`, `Grows.advances`: what a heap keeps on its way.
* `soundAfter_call`: what a call of a function or method keeps.
* `Engine.Sound.perform`, `Engine.Sound.run`: every call, and every run.
-/

namespace ScriptCore

namespace Heap

/-- No cell is lost, and the heap stays closed and well formed. -/
structure Advances (h g : Heap) : Prop where
  has : ∀ x, h.Has x → g.Has x
  closed : h.Closed → g.Closed
  wellFormed : h.WellFormed → g.WellFormed

theorem Advances.refl (h : Heap) : Advances h h := ⟨fun _ hx => hx, id, id⟩

theorem Advances.trans {h g k : Heap} (hg : Advances h g) (hk : Advances g k) : Advances h k :=
  ⟨fun x hx => hk.has x (hg.has x hx), hk.closed ∘ hg.closed, hk.wellFormed ∘ hg.wellFormed⟩

theorem Grows.advances {own : CellId → Prop} {h g : Heap} (hg : Grows own h g)
    (hown : ∀ y, own y → h.Has y) : Advances h g :=
  ⟨hg.kept.has, hg.closed hown, hg.wellFormed⟩

theorem Advances.perform {h : Heap} {call : CellCall} (hcall : call.Within h.Has h) :
    Advances h (call.perform h) :=
  ⟨(ChangesWithin.perform hcall).has, fun hh => hh.perform hcall, call.wellFormed_perform⟩

theorem Advances.run {calls : List CellCall} :
    ∀ {h : Heap}, RunsWithin Has h calls → Advances h (h.run calls) := by
  induction calls with
  | nil => exact fun {h} _ => .refl h
  | cons call calls ih => exact fun {h} hcalls => (perform hcalls.1).trans (ih hcalls.2)

end Heap

/-- The cells that a class keeps: the defaults of its properties and its static properties. -/
def Class.cells (c : Class) : List CellId :=
  c.properties.filterMap Property.default ++ c.statics.values

/-- All cells that classes keep have a property. -/
def ClassesKeep (has : CellId → Prop) (classes : Dict Class) : Prop :=
  ∀ name c, classes.find? name = some c → ∀ d ∈ c.cells, has d

/-- The heap is closed and well formed, and symbols are bound to cells of it. -/
structure Store.Sound (s : Store) : Prop where
  closed : s.heap.Closed
  wellFormed : s.heap.WellFormed
  symbols : ∀ id symbol, s.symbol? id = some symbol → ∀ c ∈ symbol.cell?, s.heap.Has c

/-- The store is sound, and the cells that classes keep are in its heap. -/
structure Engine.Sound (e : Engine) : Prop where
  store : e.store.Sound
  classes : ClassesKeep e.store.heap.Has e.container.classes

/-- The cells that are handed in with a call. -/
def RegistryCall.cells : RegistryCall → List CellId
  | .addProperty _ p => p.default.toList
  | .setStatic _ _ c => [c]
  | _ => []

/-- The cells that are handed in are in the heap. -/
def EngineCall.Sound (e : Engine) : EngineCall → Prop
  | .registry c => ∀ d ∈ c.cells, e.store.heap.Has d
  | .store (.changeCells f) =>
      ∃ calls, e.store.heap.RunsWithin Heap.Has calls ∧ f e.store.heap = e.store.heap.run calls
  | .store (.makeSymbol symbol) => ∀ c ∈ symbol.cell?, e.store.heap.Has c
  | .store (.bindSymbol _ c) => e.store.heap.Has c
  | .assign _ c => e.store.heap.Has c
  | .call _ args => ∀ c ∈ args, e.store.heap.Has c
  | _ => True

/-- At every call of a run, the cells that are handed in are in the heap. -/
def Engine.RunsSoundly : Engine → List EngineCall → Prop
  | _, [] => True
  | e, c :: calls => c.Sound e ∧ RunsSoundly (c.perform e) calls

theorem Store.sound_empty : Store.empty.Sound :=
  ⟨by decide, Heap.wellFormed_empty, by simp [Store.symbol?, Store.empty]⟩

/-- The second store is sound and has the cells of the first. -/
structure Store.SoundAfter (s t : Store) : Prop where
  sound : t.Sound
  has : ∀ x, s.heap.Has x → t.heap.Has x

namespace Store

variable {s t u : Store}

theorem SoundAfter.refl (hs : s.Sound) : SoundAfter s s := ⟨hs, fun _ hx => hx⟩

theorem SoundAfter.withHeap (h : SoundAfter s t) {heap : Heap} (hheap : t.heap.Advances heap) :
    SoundAfter s { t with heap } where
  sound := ⟨hheap.closed h.sound.closed, hheap.wellFormed h.sound.wellFormed,
    fun id symbol hsymbol c hc => hheap.has c (h.sound.symbols id symbol hsymbol c hc)⟩
  has x hx := hheap.has x (h.has x hx)

theorem SoundAfter.withTables (h : SoundAfter s t) (tables : Tables) :
    SoundAfter s { t with tables } :=
  ⟨⟨h.sound.closed, h.sound.wellFormed, h.sound.symbols⟩, h.has⟩

theorem SoundAfter.addSymbol (hs : s.Sound) {symbol : Symbol}
    (hsymbol : ∀ c ∈ symbol.cell?, s.heap.Has c) : SoundAfter s (addSymbol symbol s).2 where
  sound := by
    refine ⟨hs.closed, hs.wellFormed, fun id found hfound c hc => ?_⟩
    have hpush : (s.symbols.push symbol)[id.index]? = some found := hfound
    rw [Array.getElem?_push] at hpush
    split at hpush
    · obtain rfl := Option.some.inj hpush
      exact hsymbol c hc
    · exact hs.symbols id found hpush c hc
  has _ hx := hx

theorem SoundAfter.bindSymbol (hs : s.Sound) (id : SymbolId) {c : CellId} (hc : s.heap.Has c) :
    SoundAfter s (bindSymbol id c s).2 := by
  unfold Store.bindSymbol
  split
  · next symbol hsymbol =>
      split
      · next bound hbound =>
          refine ⟨⟨hs.closed, hs.wellFormed, fun other found hfound d hd => ?_⟩, fun _ hx => hx⟩
          rw [symbol?_setIfInBounds, hsymbol] at hfound
          split at hfound
          · obtain rfl := Option.some.inj hfound
            obtain rfl : c = d := Option.some.inj ((Symbol.of_bind hbound).2.2.symm.trans hd)
            exact hc
          · exact hs.symbols other found hfound d hd
      · exact .refl hs
  · exact .refl hs

theorem SoundAfter.assign (hs : s.Sound) (k : Container) (name : String) {c : CellId}
    (hc : s.heap.Has c) : SoundAfter s (k.assign name c s).2 := by
  unfold Container.assign
  split
  · exact .bindSymbol hs _ hc
  · split <;> exact .refl hs

end Store

section Actions

variable {α β : Type} {P : Store → Prop} {s : Store}

/-- What holds after the first part and is kept by the second holds after both. -/
theorem Action.after_bind {act : Action Store α} {next : α → Action Store β}
    (hact : P (act s).2) (hnext : ∀ a t, act s = (.ok a, t) → P (next a t).2) :
    P ((act >>= next) s).2 := by
  rw [Action.bind_apply]
  rcases hrun : act s with ⟨_ | a, t⟩
  · rw [hrun] at hact
    exact hact
  · exact hnext a t hrun

theorem Action.after_lift {r : Except Error α} (hs : P s) :
    P ((liftM r : Action Store α) s).2 := by
  cases r <;> exact hs

/-- An answer that needs no store leaves it as it is. -/
theorem Action.after_lift_bind {r : Except Error α} {next : α → Action Store β} (hs : P s)
    (hnext : ∀ a, r = .ok a → P (next a s).2) :
    P (((liftM r : Action Store α) >>= next) s).2 := by
  cases r with
  | error err => exact hs
  | ok a => exact hnext a rfl

end Actions

theorem Primitive.mem_of_argument {name : String} {args : List CellId} {i : Nat} {c : CellId}
    (h : argument name args i = .ok c) : c ∈ args := by
  unfold argument at h
  split at h
  · next d hd =>
      cases h
      exact List.mem_of_getElem? hd
  · cases h

theorem Primitive.typeOfValue_cases {heap : Heap} {args : List CellId} {v : Value}
    (h : typeOfValue heap args = .ok v) : (∃ s, v = .string s) ∨ ∃ b, v = .bool b := by
  match args, h with
  | [c], h =>
      cases h
      exact .inl ⟨_, rfl⟩
  | [c, expected], h =>
      cases htext : textArgument "typeof" heap expected with
      | error err =>
          simp only [typeOfValue, htext] at h
          cases h
      | ok name =>
          simp only [typeOfValue, htext] at h
          cases h
          exact .inr ⟨_, rfl⟩

/-- The entries of a map that is read out of a value are those that the value refers to. -/
theorem Value.mem_children_of_get {v : Value} {m : Dict CellId} (h : v.get .map = .ok m)
    {d : CellId} (hd : d ∈ m.values) : d ∈ v.children := by
  unfold Value.get at h
  split at h
  · split at h
    · next n hn =>
        cases h
        obtain ⟨p, hp, has⟩ := Option.bind_eq_some_iff.1 hn
        cases p with
        | map m' =>
            cases has
            rw [Value.children, hp]
            exact hd
        | _ => cases has
    · cases h
  · cases h

section Calls

variable {s : Store} {k : Container} {args : List CellId}

theorem Store.SoundAfter.answer {t : Store} {v : Value} (ht : s.SoundAfter t) (hwf : v.WellFormed)
    (hv : ∀ d ∈ v.children, t.heap.Has d) : s.SoundAfter (Primitive.answer v t).2 :=
  ht.withHeap (Heap.Grows.advances (.alloc hwf hv) fun _ hy => hy)

theorem soundAfter_data (hs : s.Sound) (kind : Kind) (hkind : kind ≠ .map) (d : kind.Data) :
    s.SoundAfter (Primitive.answer (.of kind d) s).2 := by
  refine (Store.SoundAfter.refl hs).answer (Value.wellFormed_of kind d) fun c hc => ?_
  cases kind with
  | map => exact absurd rfl hkind
  | _ => cases hc

theorem soundAfter_report (hs : s.Sound) {report : StateM Heap CellId} {a : Account}
    (hreport : report = a.write) (ha : ∀ c ∈ a.cells, s.heap.Has c) :
    s.SoundAfter (Primitive.onCells report s).2 := by
  subst hreport
  exact (Store.SoundAfter.refl hs).withHeap ((Account.write_grows s.heap a).1.advances ha)

theorem soundAfter_setEntry (hs : s.Sound) {target entry : CellId} (key : String)
    (htarget : s.heap.Has target) (hentry : s.heap.Has entry) :
    s.SoundAfter { s with heap := s.heap.setEntry target key entry } := by
  have hwithin : (CellCall.change target (.setEntry key entry)).Within s.heap.Has s.heap := by
    refine ⟨htarget, fun d hd => ?_⟩
    obtain rfl := List.mem_singleton.1 hd
    exact hentry
  exact (Store.SoundAfter.refl hs).withHeap (.perform hwithin)

theorem soundAfter_instantiate (hs : s.Sound) (k : Container) {m : Dict CellId}
    (hm : ∀ d ∈ m.values, s.heap.Has d) : s.SoundAfter (Store.onHeap (k.instantiate m) s).2 :=
  (Store.SoundAfter.refl hs).withHeap ((Container.instantiate_grows k m s.heap).1.advances hm)

theorem mem_of_mem_values_ofItems {items : List CellId} {c : CellId}
    (h : c ∈ (Dict.ofItems items).values) : c ∈ items := by
  rw [Dict.ofItems_eq_ofList] at h
  exact Account.mem_of_mem_children_zip (nodup_numerals _) h

/-- The cells that the report on a class shows are cells that the class keeps. -/
theorem has_of_mem_cells_ofClass {has : CellId → Prop}
    (hclasses : ClassesKeep has k.classes) {name : String} {d : CellId}
    (hd : d ∈ (Account.ofClass k name).cells) : has d := by
  rw [Account.cells_ofClass] at hd
  cases hc : k.class? name with
  | none =>
      rw [hc] at hd
      cases hd
  | some c =>
      rw [hc] at hd
      exact hclasses name c hc d (List.mem_append_right _ hd)

/-- A native body that is handed cells of the heap leaves a sound store. -/
theorem soundAfter_run (hs : s.Sound)
    (hclasses : ClassesKeep s.heap.Has k.classes)
    (hargs : ∀ c ∈ args, s.heap.Has c) (p : Primitive) : s.SoundAfter (p.run k args s).2 := by
  have hrefl := Store.SoundAfter.refl hs
  have hargument : ∀ {name i c}, Primitive.argument name args i = .ok c → s.heap.Has c :=
    fun hc => hargs _ (Primitive.mem_of_argument hc)
  unfold Primitive.run
  refine Action.after_bind hrefl fun t u hget => ?_
  cases hget
  cases p with
  | const c => exact hrefl
  | first name => exact Action.after_lift hrefl
  | count => exact soundAfter_data hs .int (by decide) _
  | sum => exact Action.after_lift_bind hrefl fun n _ => soundAfter_data hs .int (by decide) n
  | list =>
      refine hrefl.answer (Value.wellFormed_of .map _) fun d hd => ?_
      exact hargs d (mem_of_mem_values_ofItems hd)
  | setEntry name =>
      refine Action.after_lift_bind hrefl fun target htarget => ?_
      refine Action.after_lift_bind hrefl fun keyCell _ => ?_
      refine Action.after_lift_bind hrefl fun key _ => ?_
      refine Action.after_lift_bind hrefl fun entry hentry => ?_
      exact soundAfter_setEntry hs key (hargument htarget) (hargument hentry)
  | fail e => exact hrefl
  | readVariable name =>
      refine Action.after_lift_bind hrefl fun id _ => ?_
      cases (s.symbol? id).bind Symbol.cell? <;> exact hrefl
  | assignVariable name =>
      refine Action.after_lift_bind hrefl fun c hc => ?_
      have hassign := Store.SoundAfter.assign hs k name (hargument hc)
      refine Action.after_bind hassign fun _ t ht => ?_
      rw [ht] at hassign
      exact hassign.answer (Value.wellFormed_bare .null) fun d hd => by cases hd
  | instantiate name =>
      refine Action.after_lift_bind hrefl fun c hc => ?_
      refine Action.after_lift_bind hrefl fun m hm => ?_
      exact soundAfter_instantiate hs k fun d hd => hs.closed c d (Value.mem_children_of_get hm hd)
  | scopeName => exact soundAfter_data hs .string (by decide) _
  | listModules =>
      refine Action.after_lift_bind hrefl fun _ _ => ?_
      refine soundAfter_report hs (Account.list_eq_write (Account.ofModule_eq_write k) _) ?_
      rw [Account.cells_list_map (Account.cells_ofModule k)]
      simp
  | moduleExists =>
      exact Action.after_lift_bind hrefl fun _ _ => soundAfter_data hs .bool (by decide) _
  | moduleInfo =>
      refine Action.after_lift_bind hrefl fun name _ => ?_
      refine soundAfter_report hs (Account.ofModule_eq_write k name) ?_
      rw [Account.cells_ofModule]
      simp
  | functionInfo =>
      refine Action.after_lift_bind hrefl fun name _ => ?_
      refine soundAfter_report hs (Account.ofFunction_eq_write k name) ?_
      rw [Account.cells_ofFunction]
      simp
  | classInfo =>
      refine Action.after_lift_bind hrefl fun name _ => ?_
      exact soundAfter_report hs (Account.ofClass_eq_write k name) fun d hd =>
        has_of_mem_cells_ofClass hclasses hd
  | typeOf =>
      refine Action.after_lift_bind hrefl fun v hv => ?_
      obtain ⟨text, rfl⟩ | ⟨b, rfl⟩ := Primitive.typeOfValue_cases hv
      · exact soundAfter_data hs .string (by decide) text
      · exact soundAfter_data hs .bool (by decide) b

theorem soundAfter_call (hs : s.Sound)
    (hclasses : ClassesKeep s.heap.Has k.classes)
    (hargs : ∀ c ∈ args, s.heap.Has c) (callee : Callee) :
    s.SoundAfter (k.call callee args s).2 :=
  Action.after_lift_bind (.refl hs) fun p _ => soundAfter_run hs hclasses hargs p

end Calls

section Classes

variable {has : CellId → Prop} {classes : Dict Class}

namespace ClassesKeep

theorem insert (h : ClassesKeep has classes) {owner : String} {c : Class}
    (hc : ∀ d ∈ c.cells, has d) : ClassesKeep has (classes.insert owner c) := by
  intro name c' hc'
  rw [Dict.find?_insert] at hc'
  split at hc'
  · obtain rfl := Option.some.inj hc'
    exact hc
  · exact h name c' hc'

variable {k : Container}

/-- The cells that a class keeps after a change it kept before, or they have the property. -/
theorem updateClass (h : ClassesKeep has k.classes) (owner : String) {f : Class → Class}
    (hf : ∀ c, ∀ d ∈ (f c).cells, d ∈ c.cells ∨ has d) :
    ClassesKeep has (Container.updateClass owner f k).2.classes := by
  cases hc : k.classes.find? owner with
  | none =>
      simp only [Container.updateClass, hc]
      exact h
  | some c =>
      rw [Container.updateClass_of_find? hc]
      exact h.insert fun d hd => (hf c d hd).elim (h owner c hc d) id

theorem registerClass (h : ClassesKeep has k.classes) (name : String) :
    ClassesKeep has (k.registerClass name).classes := by
  unfold Container.registerClass
  split
  · exact h
  · exact h.insert fun d hd => by cases hd

theorem registerSubclass (h : ClassesKeep has k.classes) (name parent : String) :
    ClassesKeep has (Container.registerSubclass name parent k).2.classes := by
  unfold Container.registerSubclass
  split
  · intro other c hc
    dsimp only at hc
    rw [Dict.find?_modify] at hc
    split at hc
    · obtain ⟨before, hbefore, rfl⟩ := Option.map_eq_some_iff.1 hc
      exact h.registerClass name name before hbefore
    · exact h.registerClass name other c hc
  · exact h

theorem addMethod (h : ClassesKeep has k.classes) (owner : String) (m : Method) :
    ClassesKeep has (Container.addMethod owner m k).2.classes := by
  unfold Container.addMethod
  split
  · exact h
  · next c hc =>
      split
      · exact h
      · exact h.insert (h owner c hc)

end ClassesKeep

theorem mem_cells_setStatic {c : Class} {property : String} {cell d : CellId}
    (hd : d ∈ (c.setStatic property cell).cells) : d ∈ c.cells ∨ d = cell := by
  rcases List.mem_append.1 hd with hd | hd
  · exact .inl (List.mem_append_left _ hd)
  · exact (Dict.mem_values_insert hd).imp_left (List.mem_append_right _)

theorem mem_cells_declareProperty {c : Class} {p : Property} {d : CellId}
    (hd : d ∈ (c.declareProperty p).cells) : d ∈ c.cells ∨ d ∈ p.default := by
  rcases List.mem_append.1 hd with hd | hd
  · obtain ⟨q, hq, hdefault⟩ := List.mem_filterMap.1 hd
    rcases List.mem_append.1 hq with hq | hq
    · exact .inl (List.mem_append_left _ (List.mem_filterMap.2 ⟨q, hq, hdefault⟩))
    · obtain rfl := List.mem_singleton.1 hq
      exact .inr hdefault
  · exact .inl (List.mem_append_right _ hd)

end Classes

namespace Engine.Sound

variable {e : Engine}

/-- The store may be replaced by a sound one with all cells. -/
theorem withStore (h : e.Sound) {s : Store} (hs : e.store.SoundAfter s) :
    Engine.Sound { e with store := s } :=
  ⟨hs.sound, fun name c hc d hd => hs.has d (h.classes name c hc d hd)⟩

/-- The registries may be replaced if the classes keep cells of the heap. -/
theorem withContainer (h : e.Sound) {k : Container}
    (hk : ClassesKeep e.store.heap.Has k.classes) : Engine.Sound { e with container := k } :=
  ⟨h.store, hk⟩

theorem addProperty (h : e.Sound) (owner : String) {p : Property}
    (hp : ∀ d ∈ p.default, e.store.heap.Has d) : (Engine.addProperty owner p e).2.Sound := by
  unfold Engine.addProperty
  dsimp only
  split
  · exact h
  · next c hc =>
      split
      · exact h
      · have hdeclared : ∀ d ∈ (c.declareProperty p).cells, e.store.heap.Has d :=
          fun d hd => (mem_cells_declareProperty hd).elim (h.classes owner c hc d) (hp d)
        split
        · obtain ⟨hgrows, hcell⟩ := Container.initialCell_grows p e.store.heap
          have hstore := (Store.SoundAfter.refl h.store).withHeap
            (hgrows.advances fun _ => False.elim)
          refine (h.withStore hstore).withContainer ((h.withStore hstore).classes.insert ?_)
          intro d hd
          rcases mem_cells_setStatic hd with hd | rfl
          · exact hstore.has d (hdeclared d hd)
          · exact hcell.2
        · exact h.withContainer (h.classes.insert hdeclared)

theorem registryCall (h : e.Sound) {c : RegistryCall} (hc : ∀ d ∈ c.cells, e.store.heap.Has d) :
    (c.perform e).Sound := by
  cases c with
  | registerFunction name native returns => exact h.withContainer h.classes
  | registerDoc key doc => exact h.withContainer h.classes
  | registerClass name => exact h.withContainer (h.classes.registerClass name)
  | registerSubclass name parent =>
      exact h.withContainer (h.classes.registerSubclass name parent)
  | addProperty owner p => exact h.addProperty owner fun d hd => hc d (Option.mem_toList.2 hd)
  | addMethod owner m => exact h.withContainer (h.classes.addMethod owner m)
  | setStatic name property cell =>
      refine h.withContainer (h.classes.updateClass _ fun c d hd => ?_)
      refine (mem_cells_setStatic hd).imp_right ?_
      rintro rfl
      exact hc d List.mem_cons_self
  | eraseStatic name property =>
      refine h.withContainer (h.classes.updateClass _ fun c d hd => .inl ?_)
      rcases List.mem_append.1 hd with hd | hd
      · exact List.mem_append_left _ hd
      · exact List.mem_append_right _ (Dict.mem_values_erase hd)
  | clearStatics name =>
      refine h.withContainer (h.classes.updateClass _ fun c d hd => .inl ?_)
      rcases List.mem_append.1 hd with hd | hd
      · exact List.mem_append_left _ hd
      · cases hd
  | openModule name => exact h.withContainer h.classes
  | closeModule previous listed => exact h.withContainer h.classes
  | removeModule name =>
      refine h.withContainer (k := (Container.removeModule name e.container).2) ?_
      rw [Container.classes_removeModule]
      exact h.classes
  | describeModule name description =>
      refine h.withContainer (k := (Container.describeModule name description e.container).2) ?_
      rw [Container.classes_describeModule]
      exact h.classes

theorem storeCall (h : e.Sound) {c : StoreCall} (hc : EngineCall.Sound e (.store c)) :
    Engine.Sound { e with store := c.perform e.store } := by
  have hrefl := Store.SoundAfter.refl h.store
  cases c with
  | changeCells f =>
      obtain ⟨calls, hcalls, heap⟩ := hc
      refine h.withStore ?_
      rw [StoreCall.perform, heap]
      exact hrefl.withHeap (.run hcalls)
  | makeSymbol symbol => exact h.withStore (.addSymbol h.store hc)
  | bindSymbol id c => exact h.withStore (.bindSymbol h.store id hc)
  | makeTable parent => exact h.withStore (hrefl.withTables _)
  | changeTable t f => exact h.withStore (hrefl.withTables _)

theorem add (h : e.Sound) (a : Admission) (id : SymbolId) (target : Option String) :
    e.store.SoundAfter (e.container.add a id target e.store).2 := by
  obtain heq | ⟨symbol, t, -, -, -, heq⟩ := store_add e.container a id target e.store
  · rw [heq]
    exact .refl h.store
  · rw [heq]
    exact (Store.SoundAfter.refl h.store).withTables _

theorem scopeCall (h : e.Sound) (c : ScopeCall) : (c.perform e).Sound := by
  have hclasses : (c.perform e).container.classes = e.container.classes := by
    rw [container_scopeCall]
  have hrefl := Store.SoundAfter.refl h.store
  have hstore : e.store.SoundAfter (c.perform e).store := by
    cases c with
    | create name => exact hrefl.withTables _
    | enterBlock name => exact hrefl.withTables _
    | enterCall base => exact hrefl.withTables _
    | enter name => exact hrefl
    | leave => exact hrefl
    | stepOut => exact hrefl
  refine ⟨hstore.sound, ?_⟩
  rw [hclasses]
  exact (h.withStore hstore).classes

/-- Every call that is handed cells of the heap leaves a sound engine. -/
theorem perform (h : e.Sound) {c : EngineCall} (hc : c.Sound e) : (c.perform e).Sound := by
  cases c with
  | scope c => exact h.scopeCall c
  | registry c => exact h.registryCall hc
  | store c => exact h.storeCall hc
  | add a id target => exact h.withStore (h.add a id target)
  | assign name c => exact h.withStore (.assign h.store e.container name hc)
  | call callee args => exact h.withStore (soundAfter_call h.store h.classes hc callee)

theorem run {calls : List EngineCall} :
    ∀ {e : Engine}, e.Sound → e.RunsSoundly calls → (e.run calls).Sound := by
  induction calls with
  | nil => exact fun h _ => h
  | cons c calls ih => exact fun h hcalls => ih (h.perform hcalls.1) hcalls.2

end Engine.Sound

/-- A container that was just built has no classes. -/
theorem sound_build {s : Store} (hs : s.Sound) (rootName : String) (maxDepth : Nat) :
    Engine.Sound ⟨(Store.addTable none s).2,
      Container.withRoot ⟨rootName, s.tables.next⟩ maxDepth⟩ :=
  ⟨((Store.SoundAfter.refl hs).withTables _).sound,
    fun name c hc => by simp [Container.withRoot] at hc⟩

end ScriptCore
