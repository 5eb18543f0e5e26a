import ScriptCore.Proofs.EngineRuns

/-!
# What a call frame sees

The table of a call frame is made by `create`, which gives it the root table as its parent
unless the frame has the name of the root.  The root table has no parent itself, so a frame sees
what the root table has and nothing of its caller.  A root whose name has the form of a frame's
name is the exception: the frame with that very name gets a table without a parent and sees
nothing at all.

**Results.**
* `lookup?_create`: what is found right after `create`, in any grounded engine.
* `call_frame_sees_root`: what a call frame sees, in every state of every container.
* `frame_named_like_root_sees_nothing`: the exception, at its smallest.
-/

namespace ScriptCore

variable {e : Engine}

theorem createParent_of_eq {k : Container} {name : String} (h : name = k.stack.root.name) :
    Engine.createParent k name = none := if_pos h

theorem createParent_of_ne {k : Container} {name : String} (h : name ≠ k.stack.root.name) :
    Engine.createParent k name = some k.stack.root.table := if_neg h

/-- The table of a new scope is new, and it has the parent that `createParent` says. -/
theorem lookup?_create_eq (e : Engine) (name space key : String) :
    (Engine.create name e).2.container.lookup? (Engine.create name e).2.store space key =
      (e.store.tables.add (Engine.createParent e.container name)).lookup? e.store.tables.next
        space key := rfl

theorem lookup?_create (h : Grounded e) (name space key : String) :
    (Engine.create name e).2.container.lookup? (Engine.create name e).2.store space key =
      if name = e.container.stack.root.name then none
      else e.store.tables.local? e.container.stack.root.table space key := by
  rw [lookup?_create_eq]
  split
  · next hroot => rw [createParent_of_eq hroot, Tables.lookup?_next_add_none]
  · next hroot =>
      rw [createParent_of_ne hroot, Tables.lookup?_next_add_some space key h.has_root,
        Tables.lookup?_of_parent?_none space key h.root]

/-- Entering a call frame is `create` under the frame's name, with the counter moved on. -/
theorem enterCall_eq (base : String) (e : Engine) :
    (Engine.enterCall base e).2 =
      (Engine.create (Engine.frameName base e.container.nextFrame)
        { e with container :=
          { e.container with nextFrame := e.container.nextFrame + 1 } }).2 := rfl

theorem lookup?_enterCall (h : Grounded e) (base space key : String) :
    (Engine.enterCall base e).2.container.lookup? (Engine.enterCall base e).2.store space key =
      if Engine.frameName base e.container.nextFrame = e.container.stack.root.name then none
      else e.store.tables.local? e.container.stack.root.table space key := by
  rw [enterCall_eq]
  exact lookup?_create ⟨h.stack, h.scopes, h.root⟩ _ space key

/-- The tables that were there are as they were. -/
theorem get?_enterCall {t : TableId} (ht : e.store.tables.Has t) (base : String) :
    (Engine.enterCall base e).2.store.tables.get? t = e.store.tables.get? t :=
  Tables.get?_add_of_has _ ht

/-- A container is built under a name and then used in any way, and a call frame is entered.
The frame finds under every namespace and name what the root table has there itself, unless the
frame's name is the name of the root; then it finds nothing. -/
theorem call_frame_sees_root (rootName : String) (hname : rootName ≠ "") (maxDepth : Nat)
    (s : Store) :
    ∃ k s' root, Container.build rootName maxDepth s = (.ok k, s') ∧
      k.stack.toList = [⟨rootName, root⟩] ∧
      ∀ (calls : List EngineCall) (base : String),
        let e := Engine.run ⟨s', k⟩ calls
        let f := (Engine.enterCall base e).2
        f.store.tables.get? root = e.store.tables.get? root ∧
        ∀ space name,
          f.container.lookup? f.store space name =
            if Engine.frameName base e.container.nextFrame = rootName then none
            else f.store.tables.local? root space name := by
  refine ⟨_, _, s.tables.next, build_of_ne_empty hname maxDepth s, rfl, ?_⟩
  intro calls base e f
  have hground : Grounded e := grounded_run (grounded_build rootName maxDepth s) calls
  have hroot : e.container.stack.root = ⟨rootName, s.tables.next⟩ := root_run _ calls
  have hhas : e.store.tables.Has s.tables.next := by
    have hroot_has := hground.has_root
    rwa [hroot] at hroot_has
  have hkept : f.store.tables.get? s.tables.next = e.store.tables.get? s.tables.next :=
    get?_enterCall hhas base
  refine ⟨hkept, ?_⟩
  intro space name
  rw [Tables.local?_congr space name hkept, lookup?_enterCall hground, hroot]

/-- A variable in the root, a block with a variable of its own, and a call frame. -/
def callerWithLocals : List EngineCall :=
  [.store (.makeSymbol ⟨"x", "main", .var .int ⟨0⟩⟩), .add .any ⟨0⟩ none,
    .scope (.enterBlock "f::call_0"),
    .store (.makeSymbol ⟨"y", "main", .var .int ⟨0⟩⟩), .add .any ⟨1⟩ none,
    .scope (.enterCall "f")]

theorem frame_sees_globals_not_locals :
    "main" ≠ "" ∧
    ∃ k s', Container.build "main" defaultMaxDepth Store.empty = (.ok k, s') ∧
      let e := Engine.run ⟨s', k⟩ callerWithLocals
      let f := (Engine.enterCall "f" e).2
      f.container.stack.names = ["main", "f::call_0", "f::call_0", "f::call_1"] ∧
      f.container.lookup? f.store Space.vars "x" = some ⟨0⟩ ∧
      f.container.lookup? f.store Space.vars "y" = none := by
  have hname : "main" ≠ "" := by decide
  obtain ⟨k, s', root, hbuild, hstack, hframe⟩ :=
    call_frame_sees_root "main" hname defaultMaxDepth Store.empty
  obtain ⟨-, hlookup⟩ := hframe callerWithLocals "f"
  refine ⟨hname, k, s', hbuild, ?_⟩
  dsimp only at hlookup ⊢
  rw [hlookup, hlookup]
  cases hbuild
  obtain rfl : (⟨0⟩ : TableId) = root := congrArg Scope.table (List.head_eq_of_cons_eq hstack)
  decide

/-- A variable in a root that is named like the first frame of calls from `f`. -/
def variableInFrameLikeRoot : List EngineCall :=
  [.store (.makeSymbol ⟨"x", "main", .var .int ⟨0⟩⟩), .add .any ⟨0⟩ none]

theorem frame_named_like_root_sees_nothing :
    ∃ k s', Container.build "f::call_0" defaultMaxDepth Store.empty = (.ok k, s') ∧
      let e := Engine.run ⟨s', k⟩ variableInFrameLikeRoot
      let f := (Engine.enterCall "f" e).2
      f.store.tables.local? k.stack.root.table Space.vars "x" = some ⟨0⟩ ∧
      f.container.lookup? f.store Space.vars "x" = none := by
  refine ⟨_, _, build_of_ne_empty (by decide) _ _, by decide, ?_⟩
  decide +kernel

end ScriptCore
