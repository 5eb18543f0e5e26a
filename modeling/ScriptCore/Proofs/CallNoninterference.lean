import ScriptCore.Proofs.BlockTransparency

/-!
# Calls do not depend on their caller

Two containers may have quite different scopes on their stacks.  If their roots have the same name
and the same symbols and their call counters agree, then a call does the same in both of them: the
frames have the same names, every look-up finds the same symbol, and every symbol is added or
assigned, or refused, in the same way.

**Programs.**  `FrameStep` lists what a call does, and `FrameStep.perform` answers with all that the
program sees of it, in order.

**Simulation.**  Tables have other identities in the two containers, so the layers of the current
scope are compared instead (`SameFrame`).  Entering a scope puts an empty layer on top of the
layers of the root or of the current scope.  A step inside changes the first layer at most.  After a
scope is left the layers are those from before, because a block writes to no older table.  Symbols
are shared by the two containers as far as the root and the program know them, and an assignment
binds such a symbol in both.

**Results.**
* `SameFrame.define`, `SameFrame.assign`, `SameFrame.enter`: what one step keeps.
* `same_perform`: what a step with all that is nested in it keeps, and what it shows.
* `calls_do_not_interfere`: two calls of one program show the same.
-/

namespace ScriptCore

/-- How a symbol is looked up from the current scope. -/
inductive Query
  | inSpace (space : String)
  | sought (kind : Sought)
  | any
  deriving DecidableEq, Repr

def Query.answer (e : Engine) (name : String) : Query → Option SymbolId
  | .inSpace space => e.container.lookup? e.store space name
  | .sought kind => e.container.seek? e.store kind name
  | .any => e.container.find? e.store name

/-- A step of a call. -/
inductive FrameStep
  | add (a : Admission) (id : SymbolId)
  | assign (name : String) (c : CellId)
  | look (query : Query) (name : String)
  | scope (opening : Opening) (body : List FrameStep)

/-- What a program sees of its steps. -/
inductive Seen
  | added (result : Except Error String)
  | assigned (result : Except Error Unit)
  /-- The symbol that was found, and what it stands for. -/
  | looked (found : Option (SymbolId × Option Symbol))
  /-- The name of a call frame that was entered. -/
  | entered (frame : Option String)
  | left (name : Option String)

/-- Enter a scope; the answer is the name of the frame, if it is one. -/
def Opening.enter : Opening → Engine → Option String × Engine
  | .block name, e => (none, (Engine.enterBlock name e).2)
  | .create name, e => (none, (Engine.create name e).2)
  | .call base, e =>
      let (frame, e) := Engine.enterCall base e
      (some frame, e)

mutual

/-- What a step shows, and the engine after it. -/
def FrameStep.perform : FrameStep → Engine → List Seen × Engine
  | .add a id, e =>
      let (result, e) := Engine.onStore (e.container.add a id none) e
      ([.added result], e)
  | .assign name c, e =>
      let (result, e) := Engine.onStore (e.container.assign name c) e
      ([.assigned result], e)
  | .look query name, e =>
      ([.looked ((query.answer e name).map fun id => (id, e.store.symbol? id))], e)
  | .scope opening body, e =>
      let (frame, inside) := opening.enter e
      let (seen, inside) := FrameStep.performAll body inside
      let (name, e) := Engine.leave inside
      (.entered frame :: seen ++ [.left name], e)

def FrameStep.performAll : List FrameStep → Engine → List Seen × Engine
  | [], e => ([], e)
  | step :: rest, e =>
      let (first, e) := step.perform e
      let (later, e) := FrameStep.performAll rest e
      (first ++ later, e)

end

mutual

/-- The symbols that a step adds. -/
def FrameStep.ids : FrameStep → List SymbolId
  | .add _ id => [id]
  | .assign _ _ => []
  | .look _ _ => []
  | .scope _ body => FrameStep.allIds body

def FrameStep.allIds : List FrameStep → List SymbolId
  | [] => []
  | step :: rest => step.ids ++ FrameStep.allIds rest

end

section Blocks

mutual

/-- The step of a block that changes an engine in the same way. -/
def FrameStep.toBlockStep : FrameStep → BlockStep
  | .add a id => .add a id
  | .assign name c => .assign name c
  | .look _ name => .look Space.vars name
  | .scope opening body => .block opening (FrameStep.toBlockSteps body) .leave

def FrameStep.toBlockSteps : List FrameStep → List BlockStep
  | [] => []
  | step :: rest => step.toBlockStep :: FrameStep.toBlockSteps rest

end

theorem Opening.enter_engine (opening : Opening) (e : Engine) :
    (opening.enter e).2 = opening.toCall.perform e := by
  cases opening <;> rfl

mutual

theorem engine_perform :
    ∀ (step : FrameStep) (e : Engine), (step.perform e).2 = step.toBlockStep.perform e
  | .add a id, e => by
      rw [FrameStep.perform, FrameStep.toBlockStep, BlockStep.perform]
      rfl
  | .assign name c, e => by
      rw [FrameStep.perform, FrameStep.toBlockStep, BlockStep.perform]
      rfl
  | .look query name, e => by
      rw [FrameStep.perform, FrameStep.toBlockStep, BlockStep.perform]
  | .scope opening body, e => by
      rw [FrameStep.perform, FrameStep.toBlockStep, BlockStep.perform, ← opening.enter_engine,
        ← engine_performAll body]
      rfl

theorem engine_performAll :
    ∀ (body : List FrameStep) (e : Engine),
      (FrameStep.performAll body e).2 = BlockStep.performAll (FrameStep.toBlockSteps body) e
  | [], e => by
      rw [FrameStep.performAll, FrameStep.toBlockSteps, BlockStep.performAll]
  | step :: rest, e => by
      rw [FrameStep.performAll, FrameStep.toBlockSteps, BlockStep.performAll,
        ← engine_perform step, ← engine_performAll rest]

end

theorem confined_step (step : FrameStep) (e : Engine) :
    Confined (· = e.container.currentTable) e (step.perform e).2 := by
  rw [engine_perform]
  exact confined_perform step.toBlockStep e

theorem confined_body (body : List FrameStep) (e : Engine) :
    Confined (· = e.container.currentTable) e (FrameStep.performAll body e).2 := by
  rw [engine_performAll]
  exact confined_performAll (FrameStep.toBlockSteps body) e

theorem confined_scope (opening : Opening) (body : List FrameStep) (e : Engine) :
    Confined (fun _ => False) e ((FrameStep.scope opening body).perform e).2 := by
  rw [engine_perform, FrameStep.toBlockStep]
  exact confined_block opening .leave (confined_performAll _) e

end Blocks

namespace Engine

/-- What the root table has itself. -/
def rootLayer (e : Engine) : Layer := e.store.tables.local? e.container.stack.root.table

/-- The layers of the current scope. -/
def layers (e : Engine) : List Layer :=
  e.store.tables.layers e.container.currentTable

end Engine

/-- The root table is in the store and has no parent. -/
structure Rooted (e : Engine) : Prop where
  has : e.store.tables.Has e.container.stack.root.table
  parent : e.store.tables.parent? e.container.stack.root.table = none

/-- The current table is in the store as well, and it is not the root table. -/
structure InFrame (e : Engine) : Prop extends Rooted e where
  hasCurrent : e.store.tables.Has e.container.currentTable
  notRoot : e.container.currentTable ≠ e.container.stack.root.table

theorem Grounded.rooted {e : Engine} (h : Grounded e) : Rooted e := ⟨h.has_root, h.root⟩

theorem Rooted.pushNew {e : Engine} (h : Rooted e) (name : String) (parent : Option TableId) :
    InFrame (Engine.pushNew name parent e).2 where
  has := (Tables.KeepsParents.add _ parent).has h.has
  parent := ((Tables.KeepsParents.add _ parent).parent?_eq _ h.has).trans h.parent
  hasCurrent := e.store.tables.has_next_add parent
  notRoot := (Tables.ne_next_of_has h.has).symm

theorem Rooted.enter {e : Engine} (h : Rooted e) (opening : Opening) :
    InFrame (opening.enter e).2 := by
  cases opening with
  | block name => exact h.pushNew name _
  | create name => exact h.pushNew name _
  | call base =>
      have hcount : Rooted { e with container :=
          { e.container with nextFrame := e.container.nextFrame + 1 } } := ⟨h.has, h.parent⟩
      exact hcount.pushNew _ _

/-- The root table is not written to from inside a frame. -/
theorem InFrame.of_confined {e f : Engine} (h : InFrame e)
    (hstep : Confined (· = e.container.currentTable) e f) : InFrame f where
  has := by
    rw [hstep.stack]
    exact hstep.tables.has h.has
  parent := by
    rw [hstep.stack]
    have hroot := h.parent
    unfold Tables.parent? at hroot ⊢
    rwa [hstep.tables.get?_eq _ h.has h.notRoot.symm]
  hasCurrent := by
    rw [hstep.currentTable_eq]
    exact hstep.tables.has h.hasCurrent
  notRoot := by
    rw [hstep.currentTable_eq, hstep.stack]
    exact h.notRoot

/-- All symbols of the layers are shared. -/
def Shares (shared : SymbolId → Prop) (layers : List Layer) : Prop :=
  ∀ layer ∈ layers, ∀ space name id, layer space name = some id → shared id

/-- The roots have the same name and the same symbols, the call counters are equal, and shared
symbols, such as those of the root, have the same meaning. -/
structure SameRoots (shared : SymbolId → Prop) (e f : Engine) : Prop where
  name : f.container.stack.root.name = e.container.stack.root.name
  nextFrame : f.container.nextFrame = e.container.nextFrame
  rootLayer : f.rootLayer = e.rootLayer
  rootShared : Shares shared [e.rootLayer]
  symbols : ∀ id, shared id → f.store.symbol? id = e.store.symbol? id

/-- Moreover the current scopes have the same layers. -/
structure SameFrame (shared : SymbolId → Prop) (e f : Engine) : Prop
    extends SameRoots shared e f where
  layers : f.layers = e.layers
  layersShared : Shares shared e.layers

/-- The layers with a symbol put into the first of them. -/
def overlay (space name : String) (id : SymbolId) : List Layer → List Layer
  | [] => []
  | layer :: rest =>
      (fun other key => if other = space ∧ key = name then some id else layer other key) :: rest

namespace Shares

variable {shared : SymbolId → Prop} {layers : List Layer}

theorem cons_empty (h : Shares shared layers) : Shares shared (Layer.empty :: layers) := by
  intro layer hlayer space name id hid
  rcases List.mem_cons.1 hlayer with rfl | hlayer
  · cases hid
  · exact h layer hlayer space name id hid

theorem overlay {id : SymbolId} (h : Shares shared layers) (hid : shared id)
    (space name : String) : Shares shared (overlay space name id layers) := by
  cases layers with
  | nil => exact h
  | cons first rest =>
      intro layer hlayer other key found hfound
      rcases List.mem_cons.1 hlayer with rfl | hlayer
      · dsimp only at hfound
        split at hfound
        · exact Option.some.inj hfound ▸ hid
        · exact h first List.mem_cons_self other key found hfound
      · exact h layer (List.mem_cons_of_mem _ hlayer) other key found hfound

end Shares

namespace SameFrame

variable {shared : SymbolId → Prop} {e f : Engine} {id : SymbolId}

section Looking

variable (h : SameFrame shared e f)

include h

theorem lookup?_eq (space name : String) :
    f.container.lookup? f.store space name = e.container.lookup? e.store space name := by
  have hlayers := h.layers
  unfold Engine.layers at hlayers
  unfold Container.lookup?
  rw [Tables.lookup?_eq_findSome?, Tables.lookup?_eq_findSome?, hlayers]

theorem shared_of_lookup? {space name : String}
    (hfound : e.container.lookup? e.store space name = some id) : shared id := by
  unfold Container.lookup? at hfound
  rw [Tables.lookup?_eq_findSome?] at hfound
  obtain ⟨layer, hlayer, hid⟩ := List.exists_of_findSome?_eq_some hfound
  exact h.layersShared layer hlayer space name id hid

theorem hasKind_eq (hid : shared id) (kind : SymbolKind) :
    f.store.hasKind kind id = e.store.hasKind kind id := by
  unfold Store.hasKind
  rw [h.symbols id hid]

theorem seek?_eq (sought : Sought) (name : String) :
    f.container.seek? f.store sought name = e.container.seek? e.store sought name := by
  unfold Container.seek?
  rw [h.lookup?_eq]
  cases hfound : e.container.lookup? e.store sought.space name with
  | none => rfl
  | some id =>
      have hkinds : (fun kind => f.store.hasKind kind id) = fun kind => e.store.hasKind kind id :=
        funext (h.hasKind_eq (h.shared_of_lookup? hfound))
      simp only [Option.filter_some, hkinds]

theorem shared_of_seek? {sought : Sought} {name : String}
    (hfound : e.container.seek? e.store sought name = some id) : shared id :=
  h.shared_of_lookup? (Option.filter_eq_some_iff.1 hfound).1

theorem answer_eq (query : Query) (name : String) : query.answer f name = query.answer e name := by
  cases query with
  | inSpace space => exact h.lookup?_eq space name
  | sought kind => exact h.seek?_eq kind name
  | any =>
      unfold Query.answer Container.find?
      rw [h.seek?_eq, h.seek?_eq, h.seek?_eq, h.seek?_eq]

theorem shared_of_answer {query : Query} {name : String} (hfound : query.answer e name = some id) :
    shared id := by
  cases query with
  | inSpace space => exact h.shared_of_lookup? hfound
  | sought kind => exact h.shared_of_seek? hfound
  | any =>
      unfold Query.answer Container.find? at hfound
      simp only [Option.orElse_eq_orElse, Option.orElse_eq_or, Option.or_eq_some_iff] at hfound
      obtain hfound | ⟨-, hfound | ⟨-, hfound | ⟨-, hfound⟩⟩⟩ := hfound <;>
        exact h.shared_of_seek? hfound

/-- A look-up shows the same symbol with the same meaning. -/
theorem looked_eq (query : Query) (name : String) :
    (query.answer f name).map (fun id => (id, f.store.symbol? id)) =
      (query.answer e name).map fun id => (id, e.store.symbol? id) := by
  rw [h.answer_eq]
  cases hfound : query.answer e name with
  | none => rfl
  | some id => rw [Option.map_some, Option.map_some, h.symbols id (h.shared_of_answer hfound)]

end Looking

end SameFrame

section Adding

theorem Tables.layers_define {ts : Tables} {t : TableId} (ht : ts.Has t) (space name : String)
    (id : SymbolId) :
    (ts.modify t (·.define space name id)).layers t = overlay space name id (ts.layers t) := by
  rw [layers_modify _ ht, layers_eq ts, overlay, List.tail_cons, List.cons.injEq]
  refine ⟨?_, rfl⟩
  funext other key
  exact Spaces.find?_define _ space name id other key

/-- The engine with a symbol put into the current table. -/
def Engine.defineHere (e : Engine) (space name : String) (id : SymbolId) : Engine :=
  { e with store := { e.store with
    tables := e.store.tables.modify e.container.currentTable (·.define space name id) } }

theorem onStore_add (e : Engine) (a : Admission) (id : SymbolId) :
    Engine.onStore (e.container.add a id none) e =
      match e.store.symbol? id with
      | none => (.error (Error.of (.undefinedSymbol "")), e)
      | some symbol =>
          match Container.spaceFor a symbol with
          | .ok space => (.ok space, e.defineHere space symbol.name id)
          | .error err => (.error err, e) := by
  cases hsymbol : e.store.symbol? id with
  | none => simp [Engine.onStore, Action.onPart, Container.add, hsymbol]
  | some symbol =>
      cases hspace : Container.spaceFor a symbol <;>
        simp [Engine.onStore, Action.onPart, Container.add, Container.targetTable, Store.define,
          Engine.defineHere, hsymbol, hspace]

theorem SameFrame.define {shared : SymbolId → Prop} {e f : Engine} (h : SameFrame shared e f)
    (he : InFrame e) (hf : InFrame f) {id : SymbolId} (hid : shared id) (space name : String) :
    SameFrame shared (e.defineHere space name id) (f.defineHere space name id) := by
  -- Only the current table is written to, and that is not the root table.
  have hroot : ∀ g : Engine, InFrame g → (g.defineHere space name id).rootLayer = g.rootLayer := by
    intro g hg
    funext other key
    refine Tables.local?_congr other key ?_
    exact (Tables.get?_modify _ _ _ _).trans (if_neg hg.notRoot.symm)
  have hlayers : ∀ g : Engine, InFrame g →
      (g.defineHere space name id).layers = overlay space name id g.layers :=
    fun g hg => Tables.layers_define hg.hasCurrent space name id
  refine ⟨⟨h.name, h.nextFrame, ?_, ?_, h.symbols⟩, ?_, ?_⟩
  · rw [hroot e he, hroot f hf, h.rootLayer]
  · rw [hroot e he]
    exact h.rootShared
  · rw [hlayers e he, hlayers f hf, h.layers]
  · rw [hlayers e he]
    exact h.layersShared.overlay hid space name

theorem SameFrame.add {shared : SymbolId → Prop} {e f : Engine} (h : SameFrame shared e f)
    (he : InFrame e) (hf : InFrame f) {id : SymbolId} (hid : shared id) (a : Admission) :
    (Engine.onStore (f.container.add a id none) f).1 =
        (Engine.onStore (e.container.add a id none) e).1 ∧
      SameFrame shared (Engine.onStore (e.container.add a id none) e).2
        (Engine.onStore (f.container.add a id none) f).2 := by
  rw [onStore_add, onStore_add, h.symbols id hid]
  cases e.store.symbol? id with
  | none => exact ⟨rfl, h⟩
  | some symbol =>
      dsimp only
      cases Container.spaceFor a symbol with
      | error err => exact ⟨rfl, h⟩
      | ok space => exact ⟨rfl, h.define he hf hid space symbol.name⟩

end Adding

section Assigning

/-- The engine with a symbol replaced. -/
def Engine.withSymbol (e : Engine) (id : SymbolId) (symbol : Symbol) : Engine :=
  { e with store := { e.store with symbols := e.store.symbols.setIfInBounds id.index symbol } }

theorem symbol?_withSymbol (e : Engine) (id other : SymbolId) (symbol : Symbol) :
    (e.withSymbol id symbol).store.symbol? other =
      if other = id then (e.store.symbol? id).map fun _ => symbol else e.store.symbol? other :=
  e.store.symbol?_setIfInBounds id other symbol

theorem onStore_bindSymbol (e : Engine) (id : SymbolId) (c : CellId) :
    Engine.onStore (Store.bindSymbol id c) e =
      match e.store.symbol? id with
      | none => (.ok (), e)
      | some symbol =>
          match symbol.bind c with
          | .ok bound => (.ok (), e.withSymbol id bound)
          | .error err => (.error err, e) := by
  cases hsymbol : e.store.symbol? id with
  | none => simp [Engine.onStore, Action.onPart, Store.bindSymbol, hsymbol]
  | some symbol =>
      cases hbound : symbol.bind c <;>
        simp [Engine.onStore, Action.onPart, Store.bindSymbol, Engine.withSymbol, hsymbol, hbound]

theorem onStore_assign (e : Engine) (name : String) (c : CellId) :
    Engine.onStore (e.container.assign name c) e =
      match e.container.lookup? e.store Space.vars name with
      | some id => Engine.onStore (Store.bindSymbol id c) e
      | none =>
          if (e.container.seek? e.store .constant name).isSome then
            (.error (Error.of (.immutableAssignment name)), e)
          else (.error (Error.of (.undefinedSymbol name)), e) := by
  cases hfound : e.container.lookup? e.store Space.vars name with
  | some id => simp [Engine.onStore, Action.onPart, Container.assign, hfound]
  | none =>
      cases hconstant : (e.container.seek? e.store .constant name).isSome <;>
        simp [Engine.onStore, Action.onPart, Container.assign, hfound, hconstant]

variable {shared : SymbolId → Prop} {e f : Engine}

theorem SameFrame.withSymbol (h : SameFrame shared e f) {id : SymbolId} (hid : shared id)
    (symbol : Symbol) : SameFrame shared (e.withSymbol id symbol) (f.withSymbol id symbol) := by
  refine ⟨⟨h.name, h.nextFrame, h.rootLayer, h.rootShared, ?_⟩, h.layers, h.layersShared⟩
  intro other hother
  rw [symbol?_withSymbol, symbol?_withSymbol, h.symbols id hid, h.symbols other hother]

/-- The same symbol is found in both engines and bound in both, or the same error is given. -/
theorem SameFrame.assign (h : SameFrame shared e f) (name : String) (c : CellId) :
    (Engine.onStore (f.container.assign name c) f).1 =
        (Engine.onStore (e.container.assign name c) e).1 ∧
      SameFrame shared (Engine.onStore (e.container.assign name c) e).2
        (Engine.onStore (f.container.assign name c) f).2 := by
  rw [onStore_assign, onStore_assign, h.lookup?_eq, h.seek?_eq]
  cases hfound : e.container.lookup? e.store Space.vars name with
  | none =>
      dsimp only
      cases (e.container.seek? e.store .constant name).isSome with
      | true => exact ⟨rfl, h⟩
      | false => exact ⟨rfl, h⟩
  | some id =>
      have hid : shared id := h.shared_of_lookup? hfound
      dsimp only
      rw [onStore_bindSymbol, onStore_bindSymbol, h.symbols id hid]
      cases e.store.symbol? id with
      | none => exact ⟨rfl, h⟩
      | some symbol =>
          dsimp only
          cases symbol.bind c with
          | error err => exact ⟨rfl, h⟩
          | ok bound => exact ⟨rfl, h.withSymbol hid bound⟩

end Assigning

section Entering

variable {shared : SymbolId → Prop} {e f : Engine}

theorem Rooted.rootLayer_pushNew (h : Rooted e) (name : String) (parent : Option TableId) :
    (Engine.pushNew name parent e).2.rootLayer = e.rootLayer := by
  funext space key
  exact Tables.local?_congr space key (Tables.get?_add_of_has parent h.has)

/-- A scope that sees the root has the layer of the root below its own. -/
theorem Rooted.layers_create (h : Rooted e) (name : String) :
    (Engine.create name e).2.layers =
      if name = e.container.stack.root.name then [Layer.empty]
      else [Layer.empty, e.rootLayer] := by
  show (e.store.tables.add (Engine.createParent e.container name)).layers e.store.tables.next = _
  unfold Engine.createParent
  split
  · exact Tables.layers_next_add_none _
  · rw [Tables.layers_next_add_some h.has, Tables.layers_of_parent?_none h.parent]
    rfl

theorem InFrame.layers_enterBlock (h : InFrame e) (name : String) :
    (Engine.enterBlock name e).2.layers = Layer.empty :: e.layers :=
  Tables.layers_next_add_some h.hasCurrent

namespace SameRoots

theorem pushNew (h : SameRoots shared e f) (he : Rooted e) (hf : Rooted f) (name : String)
    (parent other : Option TableId) :
    SameRoots shared (Engine.pushNew name parent e).2 (Engine.pushNew name other f).2 := by
  refine ⟨h.name, h.nextFrame, ?_, ?_, h.symbols⟩
  · rw [he.rootLayer_pushNew, hf.rootLayer_pushNew, h.rootLayer]
  · rw [he.rootLayer_pushNew]
    exact h.rootShared

theorem create (h : SameRoots shared e f) (he : Rooted e) (hf : Rooted f) (name : String) :
    SameFrame shared (Engine.create name e).2 (Engine.create name f).2 := by
  refine ⟨h.pushNew he hf name _ _, ?_, ?_⟩
  · rw [he.layers_create, hf.layers_create, h.name, h.rootLayer]
  · rw [he.layers_create]
    split
    · exact Shares.cons_empty fun layer hlayer => by cases hlayer
    · exact h.rootShared.cons_empty

/-- The call counters are equal, so the frames have the same name. -/
theorem enterCall (h : SameRoots shared e f) (he : Rooted e) (hf : Rooted f) (base : String) :
    (Engine.enterCall base f).1 = (Engine.enterCall base e).1 ∧
      SameFrame shared (Engine.enterCall base e).2 (Engine.enterCall base f).2 := by
  have hname : Engine.frameName base f.container.nextFrame =
      Engine.frameName base e.container.nextFrame := by rw [h.nextFrame]
  have hcount : ∀ g : Engine, Rooted g → Rooted { g with container :=
      { g.container with nextFrame := g.container.nextFrame + 1 } } :=
    fun g hg => ⟨hg.has, hg.parent⟩
  have hnext : f.container.nextFrame + 1 = e.container.nextFrame + 1 := by rw [h.nextFrame]
  have hroots : SameRoots shared
      { e with container := { e.container with nextFrame := e.container.nextFrame + 1 } }
      { f with container := { f.container with nextFrame := f.container.nextFrame + 1 } } :=
    ⟨h.name, hnext, h.rootLayer, h.rootShared, h.symbols⟩
  refine ⟨hname, ?_⟩
  have hframe := hroots.create (hcount e he) (hcount f hf)
    (Engine.frameName base e.container.nextFrame)
  show SameFrame shared _ (Engine.create (Engine.frameName base f.container.nextFrame) _).2
  rw [hname]
  exact hframe

end SameRoots

theorem SameFrame.enter (h : SameFrame shared e f) (he : InFrame e) (hf : InFrame f)
    (opening : Opening) :
    (opening.enter f).1 = (opening.enter e).1 ∧
      SameFrame shared (opening.enter e).2 (opening.enter f).2 := by
  cases opening with
  | block name =>
      refine ⟨rfl, ⟨h.toSameRoots.pushNew he.toRooted hf.toRooted name _ _, ?_, ?_⟩⟩
      · exact (hf.layers_enterBlock name).trans
          ((congrArg _ h.layers).trans (he.layers_enterBlock name).symm)
      · show Shares shared (Engine.enterBlock name e).2.layers
        rw [he.layers_enterBlock]
        exact h.layersShared.cons_empty
  | create name => exact ⟨rfl, h.toSameRoots.create he.toRooted hf.toRooted name⟩
  | call base =>
      obtain ⟨hname, hframe⟩ := h.toSameRoots.enterCall he.toRooted hf.toRooted base
      exact ⟨congrArg some hname, hframe⟩

end Entering

section Leaving

/-- The name of the scope that is entered. -/
def Opening.scopeName (k : Container) : Opening → String
  | .block name => name
  | .create name => name
  | .call base => Engine.frameName base k.nextFrame

theorem Opening.stack_enter (opening : Opening) (e : Engine) :
    (opening.enter e).2.container.stack =
      e.container.stack.push ⟨opening.scopeName e.container, e.store.tables.next⟩ := by
  cases opening <;> rfl

theorem leave_of_push {e : Engine} {scope : Scope} {rest : ScopeStack}
    (h : e.container.stack = rest.push scope) :
    Engine.leave e = (some scope.name, { e with container := { e.container with
      stack := rest
      scopes := Container.releaseName e.container.scopes rest scope } }) := by
  have hpop : e.container.stack.pop? = some (scope, rest) := by
    rw [h]
    rfl
  simp [Engine.leave, Container.leave, hpop]

variable {shared : SymbolId → Prop} {e f : Engine}

/-- The roots stay the same when a scope is left. -/
theorem SameRoots.leave {scope other : Scope} {rest below : ScopeStack}
    (h : SameRoots shared e f) (he : e.container.stack = rest.push scope)
    (hf : f.container.stack = below.push other) :
    SameRoots shared (Engine.leave e).2 (Engine.leave f).2 := by
  have hroot : ∀ {g : Engine} {top : Scope} {inner : ScopeStack},
      g.container.stack = inner.push top →
        (Engine.leave g).2.container.stack.root = g.container.stack.root := by
    intro g top inner hg
    rw [leave_of_push hg, hg]
    rfl
  have hlayer : ∀ {g : Engine} {top : Scope} {inner : ScopeStack},
      g.container.stack = inner.push top → (Engine.leave g).2.rootLayer = g.rootLayer := by
    intro g top inner hg
    unfold Engine.rootLayer
    rw [hroot hg, leave_of_push hg]
  refine ⟨?_, ?_, ?_, ?_, ?_⟩
  · rw [hroot he, hroot hf, h.name]
  · rw [leave_of_push he, leave_of_push hf]
    exact h.nextFrame
  · rw [hlayer he, hlayer hf, h.rootLayer]
  · rw [hlayer he]
    exact h.rootShared
  · rw [leave_of_push he, leave_of_push hf]
    exact h.symbols

theorem layers_of_confined (h : Confined (fun _ => False) e f)
    (hcurrent : e.store.tables.Has e.container.currentTable) : f.layers = e.layers := by
  unfold Engine.layers
  rw [h.currentTable_eq]
  exact Tables.layers_of_keepsExcept h.tables hcurrent

theorem perform_scope (opening : Opening) (body : List FrameStep) (e : Engine) :
    (FrameStep.scope opening body).perform e =
      (.entered (opening.enter e).1 :: (FrameStep.performAll body (opening.enter e).2).1 ++
          [.left (Engine.leave (FrameStep.performAll body (opening.enter e).2).2).1],
        (Engine.leave (FrameStep.performAll body (opening.enter e).2).2).2) := by
  rw [FrameStep.perform]
  rfl

/-- A scope shows the same if it is entered in the same way and its body shows the same. -/
theorem same_scope (opening : Opening) {body : List FrameStep}
    (hbody : ∀ e f, SameFrame shared e f → InFrame e → InFrame f →
      (FrameStep.performAll body f).1 = (FrameStep.performAll body e).1 ∧
        SameFrame shared (FrameStep.performAll body e).2 (FrameStep.performAll body f).2)
    (he : Rooted e) (hf : Rooted f)
    (hname : opening.scopeName f.container = opening.scopeName e.container)
    (henter : (opening.enter f).1 = (opening.enter e).1 ∧
      SameFrame shared (opening.enter e).2 (opening.enter f).2) :
    ((FrameStep.scope opening body).perform f).1 = ((FrameStep.scope opening body).perform e).1 ∧
      SameRoots shared ((FrameStep.scope opening body).perform e).2
        ((FrameStep.scope opening body).perform f).2 := by
  obtain ⟨hframe, hsame⟩ := henter
  obtain ⟨hseen, hend⟩ := hbody _ _ hsame (he.enter opening) (hf.enter opening)
  -- The body leaves the stack alone, so the scope that is left is the one that was entered.
  have hstack : ∀ g : Engine,
      (FrameStep.performAll body (opening.enter g).2).2.container.stack =
        g.container.stack.push ⟨opening.scopeName g.container, g.store.tables.next⟩ :=
    fun g => (confined_body body _).stack.trans (opening.stack_enter g)
  have hleft : (Engine.leave (FrameStep.performAll body (opening.enter f).2).2).1 =
      (Engine.leave (FrameStep.performAll body (opening.enter e).2).2).1 := by
    rw [leave_of_push (hstack f), leave_of_push (hstack e), hname]
  rw [perform_scope, perform_scope, hframe, hseen, hleft]
  exact ⟨rfl, hend.toSameRoots.leave (hstack e) (hstack f)⟩

end Leaving

section Steps

variable {shared : SymbolId → Prop}

mutual

theorem same_perform :
    ∀ (step : FrameStep) (e f : Engine), (∀ id ∈ step.ids, shared id) → SameFrame shared e f →
      InFrame e → InFrame f →
        (step.perform f).1 = (step.perform e).1 ∧
          SameFrame shared (step.perform e).2 (step.perform f).2
  | .add a id, e, f, hids, h, he, hf => by
      rw [FrameStep.ids] at hids
      obtain ⟨hresult, hsame⟩ := h.add he hf (hids id (List.mem_singleton_self id)) a
      rw [FrameStep.perform, FrameStep.perform]
      exact ⟨congrArg (fun result => [Seen.added result]) hresult, hsame⟩
  | .assign name c, e, f, _, h, _, _ => by
      obtain ⟨hresult, hsame⟩ := h.assign name c
      rw [FrameStep.perform, FrameStep.perform]
      exact ⟨congrArg (fun result => [Seen.assigned result]) hresult, hsame⟩
  | .look query name, e, f, _, h, _, _ => by
      rw [FrameStep.perform, FrameStep.perform, h.looked_eq]
      exact ⟨rfl, h⟩
  | .scope opening body, e, f, hids, h, he, hf => by
      rw [FrameStep.ids] at hids
      have hname : opening.scopeName f.container = opening.scopeName e.container := by
        cases opening with
        | block name => rfl
        | create name => rfl
        | call base => exact congrArg (Engine.frameName base) h.nextFrame
      obtain ⟨hseen, hroots⟩ := same_scope opening
        (fun e f hsame he hf => same_performAll body e f hids hsame he hf) he.toRooted hf.toRooted
        hname (h.enter he hf opening)
      refine ⟨hseen, hroots, ?_, ?_⟩
      · rw [layers_of_confined (confined_scope opening body e) he.hasCurrent,
          layers_of_confined (confined_scope opening body f) hf.hasCurrent, h.layers]
      · rw [layers_of_confined (confined_scope opening body e) he.hasCurrent]
        exact h.layersShared

theorem same_performAll :
    ∀ (body : List FrameStep) (e f : Engine), (∀ id ∈ FrameStep.allIds body, shared id) →
      SameFrame shared e f → InFrame e → InFrame f →
        (FrameStep.performAll body f).1 = (FrameStep.performAll body e).1 ∧
          SameFrame shared (FrameStep.performAll body e).2 (FrameStep.performAll body f).2
  | [], e, f, _, h, _, _ => by
      rw [FrameStep.performAll, FrameStep.performAll]
      exact ⟨rfl, h⟩
  | step :: rest, e, f, hids, h, he, hf => by
      rw [FrameStep.allIds] at hids
      obtain ⟨hfirst, hsame⟩ := same_perform step e f
        (fun id hid => hids id (List.mem_append_left _ hid)) h he hf
      obtain ⟨hlater, hend⟩ := same_performAll rest _ _
        (fun id hid => hids id (List.mem_append_right _ hid)) hsame
        (he.of_confined (confined_step step e)) (hf.of_confined (confined_step step f))
      rw [FrameStep.performAll, FrameStep.performAll]
      refine ⟨?_, hend⟩
      dsimp only
      rw [hfirst, hlater]

end

end Steps

/-- A call shows the same in engines with the same roots. -/
theorem same_call {shared : SymbolId → Prop} {e f : Engine} (h : SameRoots shared e f)
    (he : Rooted e) (hf : Rooted f) (base : String) {body : List FrameStep}
    (hids : ∀ id ∈ FrameStep.allIds body, shared id) :
    ((FrameStep.scope (.call base) body).perform f).1 =
      ((FrameStep.scope (.call base) body).perform e).1 := by
  obtain ⟨hframe, hsame⟩ := h.enterCall he hf base
  have hbody : ∀ e f, SameFrame shared e f → InFrame e → InFrame f →
      (FrameStep.performAll body f).1 = (FrameStep.performAll body e).1 ∧
        SameFrame shared (FrameStep.performAll body e).2 (FrameStep.performAll body f).2 :=
    fun e f => same_performAll body e f hids
  have hname := congrArg (Engine.frameName base) h.nextFrame
  exact (same_scope (.call base) hbody he hf hname ⟨congrArg some hframe, hsame⟩).1

/-- Two containers are built under one name and then used in any way.  If their call counters are
equal, their root tables have the same symbols, and these and the symbols that a program adds mean
the same in both, then a call of the program shows the same in both: the names of all frames, the
answers of all look-ups, and the results of all additions and assignments. -/
theorem calls_do_not_interfere (rootName : String) (hname : rootName ≠ "") (depth depth' : Nat)
    (s s' : Store) :
    ∃ k t k' t',
      Container.build rootName depth s = (.ok k, t) ∧
      Container.build rootName depth' s' = (.ok k', t') ∧
      ∀ (calls calls' : List EngineCall) (base : String) (body : List FrameStep),
        let e := Engine.run ⟨t, k⟩ calls
        let f := Engine.run ⟨t', k'⟩ calls'
        f.container.nextFrame = e.container.nextFrame →
        (∀ space name, f.rootLayer space name = e.rootLayer space name) →
        (∀ id, (id ∈ FrameStep.allIds body ∨ ∃ space name, e.rootLayer space name = some id) →
          f.store.symbol? id = e.store.symbol? id) →
        ((FrameStep.scope (.call base) body).perform f).1 =
          ((FrameStep.scope (.call base) body).perform e).1 := by
  refine ⟨_, _, _, _, build_of_ne_empty hname depth s, build_of_ne_empty hname depth' s', ?_⟩
  intro calls calls' base body e f hnext hroot hsymbols
  have he : Rooted e := (grounded_run (grounded_build rootName depth s) calls).rooted
  have hf : Rooted f := (grounded_run (grounded_build rootName depth' s') calls').rooted
  have hroots : SameRoots
      (fun id => id ∈ FrameStep.allIds body ∨ ∃ space name, e.rootLayer space name = some id) e f :=
    { name := by rw [root_run, root_run]; rfl
      nextFrame := hnext
      rootLayer := funext fun space => funext fun name => hroot space name
      rootShared := by
        intro layer hlayer space name id hid
        obtain rfl := List.mem_singleton.1 hlayer
        exact Or.inr ⟨space, name, hid⟩
      symbols := hsymbols }
  exact same_call hroots he hf base fun id hid => Or.inl hid

theorem rootLayer_run {e : Engine} {calls : List EngineCall} {spaces : Spaces}
    (h : (e.run calls).store.tables.spacesOf e.container.stack.root.table = spaces) :
    (e.run calls).rootLayer = spaces.find? := by
  funext space name
  unfold Engine.rootLayer Tables.local?
  rw [root_run, h]

/-- A variable in the root, another one in a block, and one that is in no table yet. -/
def callerInBlock : List EngineCall :=
  [.store (.makeSymbol ⟨"x", "main", .var .int ⟨0⟩⟩), .add .any ⟨0⟩ none,
    .scope (.enterBlock "a"), .store (.makeSymbol ⟨"y", "a", .var .int ⟨0⟩⟩), .add .any ⟨1⟩ none,
    .store (.makeSymbol ⟨"z", "f", .var .int ⟨0⟩⟩)]

/-- The same root below another scope, with a constant in place of the variable of the block. -/
def callerInScope : List EngineCall :=
  [.store (.makeSymbol ⟨"x", "main", .var .int ⟨0⟩⟩), .add .any ⟨0⟩ none,
    .scope (.create "b"), .store (.makeSymbol ⟨"y", "b", .constant ⟨5⟩⟩), .add .any ⟨1⟩ none,
    .scope (.create "main"), .store (.makeSymbol ⟨"z", "f", .var .int ⟨0⟩⟩)]

/-- A call that assigns to the variable of the root, adds one of its own and calls again. -/
def assigningCall : List FrameStep :=
  [.look .any "y", .add .constant ⟨2⟩, .add .any ⟨2⟩, .assign "x" ⟨3⟩, .assign "y" ⟨3⟩,
    .scope (.call "g") [.look (.sought .var) "x", .look .any "z"],
    .scope (.block "main") [.look .any "z"]]

theorem callers_do_not_interfere :
    "main" ≠ "" ∧
    ∃ k t k' t',
      Container.build "main" 0 Store.empty = (.ok k, t) ∧
      Container.build "main" defaultMaxDepth Store.empty = (.ok k', t') ∧
      let e := Engine.run ⟨t, k⟩ callerInBlock
      let f := Engine.run ⟨t', k'⟩ callerInScope
      f.container.nextFrame = e.container.nextFrame ∧
      (∀ space name, f.rootLayer space name = e.rootLayer space name) ∧
      f.container.stack.names ≠ e.container.stack.names ∧
      e.container.find? e.store "y" ≠ f.container.find? f.store "y" ∧
      ((FrameStep.scope (.call "f") assigningCall).perform f).1 =
        ((FrameStep.scope (.call "f") assigningCall).perform e).1 := by
  have hname : "main" ≠ "" := by decide
  obtain ⟨k, t, k', t', hbuild, hbuild', hcalls⟩ :=
    calls_do_not_interfere "main" hname 0 defaultMaxDepth Store.empty Store.empty
  specialize hcalls callerInBlock callerInScope "f" assigningCall
  refine ⟨hname, k, t, k', t', hbuild, hbuild', ?_⟩
  cases hbuild
  cases hbuild'
  intro e f
  have hroot : e.rootLayer = (Spaces.define .empty Space.vars "x" ⟨0⟩).find? :=
    rootLayer_run (by decide +kernel)
  have hroot' : f.rootLayer = (Spaces.define .empty Space.vars "x" ⟨0⟩).find? :=
    rootLayer_run (by decide +kernel)
  have hroots : ∀ space name, f.rootLayer space name = e.rootLayer space name := by
    intro space name
    rw [hroot, hroot']
  have hnext : f.container.nextFrame = e.container.nextFrame := by decide +kernel
  refine ⟨hnext, hroots, by decide +kernel, by decide +kernel, hcalls hnext hroots ?_⟩
  -- The program adds the third symbol, and the root has the first.
  rintro id (hid | ⟨space, name, hid⟩)
  · obtain rfl : id = ⟨2⟩ := by
      simpa [assigningCall, FrameStep.allIds, FrameStep.ids] using hid
    decide +kernel
  · rw [hroot, Spaces.find?_define] at hid
    split at hid
    · obtain rfl := Option.some.inj hid
      decide +kernel
    · cases hid

end ScriptCore
