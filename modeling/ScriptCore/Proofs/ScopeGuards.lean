import Mathlib.Data.List.Infix
import ScriptCore.Proofs.SteppingOut

/-!
# What a guarded block leaves

`withBlock` enters a block, runs a body in it and leaves a scope afterwards, also if the body
stops early.  The body has the whole engine: it may enter scopes that it does not leave, and
leave scopes that it did not enter, the block among them.

**Which scope is left.**  It is the one that is innermost when the body ends.  This is the block
if the body has closed what it opened.  A body that stops between entering a scope and leaving
it makes the guard leave the inner scope, and the block stays open.

**Depth.**  A call pushes one scope, pops one or keeps the stack, so scopes are lost from the
inside only (`Surrounds`).  A run that never goes below the depth at which it starts has all the
scopes it started with at its end, with those it opened inside them.

**Results.**
* `surrounds_run`: what a run keeps that stays at or above a depth.
* `guard_leaves_innermost`: the stack after a guarded block, and when it is the stack before it.
* `stopped_body_leaves_block_open`: a body that stops early and leaves the block open.
-/

namespace ScriptCore

namespace ScopeStack

variable {s t : ScopeStack} {scope : Scope}

/-- The scopes of a stack are the outermost scopes of another one. -/
def Surrounds (s t : ScopeStack) : Prop := s.toList <+: t.toList

theorem length_toList (s : ScopeStack) : s.toList.length = s.depth := by
  simp [toList, depth]

theorem toList_inj : s.toList = t.toList ↔ s = t := by
  obtain ⟨root, inner⟩ := s
  obtain ⟨root', inner'⟩ := t
  simp [toList]

namespace Surrounds

theorem refl (s : ScopeStack) : s.Surrounds s := List.prefix_rfl

theorem push (h : s.Surrounds t) (scope : Scope) : s.Surrounds (t.push scope) := by
  unfold Surrounds
  rw [toList_push]
  exact List.IsPrefix.trans h (List.prefix_append _ _)

theorem of_push (h : s.Surrounds (t.push scope)) (hdepth : s.depth ≤ t.depth) :
    s.Surrounds t := by
  have hinner : t.toList <+: (t.push scope).toList := by
    rw [toList_push]
    exact List.prefix_append _ _
  refine List.prefix_of_prefix_length_le h hinner ?_
  rw [length_toList, length_toList]
  exact hdepth

end Surrounds

/-- What one call can do to a stack. -/
inductive Moves (s : ScopeStack) : ScopeStack → Prop
  | kept : Moves s s
  | pushed (scope : Scope) : Moves s (s.push scope)
  | popped {t : ScopeStack} (scope : Scope) : s = t.push scope → Moves s t

theorem Surrounds.moves {base : ScopeStack} (h : base.Surrounds s) (hmoves : s.Moves t)
    (hdepth : base.depth ≤ t.depth) : base.Surrounds t := by
  cases hmoves with
  | kept => exact h
  | pushed scope => exact h.push scope
  | popped scope heq =>
      rw [heq] at h
      exact h.of_push hdepth

/-- The stack without its innermost scope.  The root stays. -/
def outer (s : ScopeStack) : ScopeStack := { s with inner := s.inner.tail }

theorem outer_push (s : ScopeStack) (scope : Scope) : (s.push scope).outer = s := rfl

theorem toList_outer (h : 1 < s.depth) : s.outer.toList = s.toList.dropLast := by
  obtain ⟨scope, rest, -, rfl⟩ := exists_pop? h
  rw [outer_push, toList_push, List.dropLast_concat]

theorem outer_eq_iff :
    t.outer = s ↔ (∃ scope, t = s.push scope) ∨ (t = s ∧ s.inner = []) := by
  obtain ⟨root, inner⟩ := t
  constructor
  · rintro rfl
    cases inner with
    | nil => exact .inr ⟨rfl, rfl⟩
    | cons scope inner => exact .inl ⟨scope, rfl⟩
  · rintro (⟨scope, heq⟩ | ⟨rfl, hinner⟩)
    · rw [heq, outer_push]
    · cases hinner
      rfl

/-- Leaving one scope of a block and the scopes opened in it. -/
theorem outer_of_opened {block : Scope} {opened : List Scope}
    (h : t.toList = s.toList ++ block :: opened) :
    t.outer.toList = s.toList ++ (block :: opened).dropLast ∧ (t.outer = s ↔ opened = []) := by
  have hdepth : 1 < t.depth := by
    have hroot : 0 < s.depth := Nat.succ_pos _
    have hlength := congrArg List.length h
    rw [List.length_append, List.length_cons, length_toList, length_toList] at hlength
    omega
  have hleft : t.outer.toList = s.toList ++ (block :: opened).dropLast := by
    rw [toList_outer hdepth, h]
    exact List.dropLast_append_of_ne_nil (List.cons_ne_nil _ _)
  refine ⟨hleft, ?_⟩
  rw [← toList_inj, hleft, List.append_right_eq_self]
  cases opened with
  | nil => simp
  | cons scope opened => simp

end ScopeStack

theorem moves_perform (c : ScopeCall) (e : Engine) :
    e.container.stack.Moves (c.perform e).container.stack := by
  cases change_perform c e with
  | pushed name hstack _ =>
      rw [hstack]
      exact .pushed _
  | entered name table _ hstack _ =>
      rw [hstack]
      exact .pushed _
  | left scope hpop _ => exact .popped scope (ScopeStack.eq_push_of_pop? hpop)
  | stepped scope hpop _ => exact .popped scope (ScopeStack.eq_push_of_pop? hpop)
  | kept hstack _ =>
      rw [hstack]
      exact .kept

theorem moves_perform_call (c : EngineCall) (e : Engine) :
    e.container.stack.Moves (c.perform e).container.stack := by
  cases c with
  | scope c => exact moves_perform c e
  | registry c =>
      have hstack := (keepsScopes_registry c e).container.stack
      rw [EngineCall.perform, hstack]
      exact .kept
  | store c => exact .kept
  | add a id target => exact .kept
  | assign name c => exact .kept
  | call callee args => exact .kept

/-- A run that is never less deep than a stack keeps the scopes of that stack. -/
theorem surrounds_run {base : ScopeStack} {e : Engine} {calls : List EngineCall}
    (h : base.Surrounds e.container.stack)
    (hdepth : ∀ earlier, earlier <+: calls → base.depth ≤ (e.run earlier).container.stack.depth) :
    base.Surrounds (e.run calls).container.stack := by
  induction calls generalizing e with
  | nil => exact h
  | cons c calls ih =>
      have hfirst : base.depth ≤ (c.perform e).container.stack.depth :=
        hdepth [c] (List.cons_prefix_cons.2 ⟨rfl, List.nil_prefix⟩)
      refine ih (h.moves (moves_perform_call c e) hfirst) ?_
      intro earlier hearlier
      exact hdepth (c :: earlier) (List.cons_prefix_cons.2 ⟨rfl, hearlier⟩)

/-- At no moment does the run go below the depth at which it starts. -/
def Engine.StaysInside (e : Engine) (calls : List EngineCall) : Prop :=
  ∀ earlier, earlier <+: calls →
    e.container.stack.depth ≤ (e.run earlier).container.stack.depth

theorem Engine.StaysInside.exists_opened {e : Engine} {calls : List EngineCall}
    (h : e.StaysInside calls) :
    ∃ opened, (e.run calls).container.stack.toList = e.container.stack.toList ++ opened := by
  obtain ⟨opened, heq⟩ := surrounds_run (.refl e.container.stack) h
  exact ⟨opened, heq.symm⟩

theorem stack_leave (e : Engine) :
    (Engine.leave e).2.container.stack = e.container.stack.outer := by
  obtain ⟨store, k⟩ := e
  cases hinner : k.stack.inner with
  | nil =>
      have houter : k.stack.outer = k.stack := ScopeStack.outer_eq_iff.2 (.inr ⟨rfl, hinner⟩)
      rw [houter]
      simp [Engine.leave, Container.leave, ScopeStack.pop?, hinner]
  | cons scope inner =>
      simp [Engine.leave, Container.leave, ScopeStack.pop?, ScopeStack.outer, hinner]

theorem stack_withBlock {α : Type} (name : String) (body : StateM Engine α) (e : Engine) :
    (Engine.withBlock name body e).2.container.stack =
      (body (Engine.enterBlock name e).2).2.container.stack.outer := by
  rw [Engine.withBlock_apply]
  exact stack_leave _

/-- A guarded block, whose body makes any calls and then ends or stops.  The guard leaves the
scope that is innermost then, but not the root.  So the stack is the one before the block exactly
if the body ends with that stack and one scope more, or if there was only the root and the body
has left the block itself.

If the body stays inside the block, the block is still on the stack when the body ends, and
inside it are the scopes that the body has left open.  The guard takes away the last of them, so
the block is left exactly if the body has closed every scope it opened. -/
theorem guard_leaves_innermost {α : Type} (name : String) (body : StateM Engine α) (e : Engine)
    (calls : List EngineCall)
    (hcalls : (body (Engine.enterBlock name e).2).2 = (Engine.enterBlock name e).2.run calls) :
    let start := (Engine.enterBlock name e).2
    let inside := start.run calls
    let after := (Engine.withBlock name body e).2
    (Engine.withBlock name body e).1 = (body start).1 ∧
    after.container.stack = inside.container.stack.outer ∧
    after.container.stack.root = e.container.stack.root ∧
    (after.container.stack = e.container.stack ↔
      (∃ scope, inside.container.stack = e.container.stack.push scope) ∨
        (inside.container.stack = e.container.stack ∧ e.container.stack.inner = [])) ∧
    (start.StaysInside calls →
      ∃ opened,
        inside.container.stack.toList =
          e.container.stack.toList ++ ⟨name, e.store.tables.next⟩ :: opened ∧
        after.container.stack.toList =
          e.container.stack.toList ++ (⟨name, e.store.tables.next⟩ :: opened).dropLast ∧
        (after.container.stack = e.container.stack ↔ opened = [])) := by
  intro start inside after
  have hafter : after.container.stack = inside.container.stack.outer := by
    have hleft := stack_withBlock name body e
    rwa [hcalls] at hleft
  refine ⟨rfl, hafter, ?_, ?_, ?_⟩
  · rw [hafter]
    exact root_run start calls
  · rw [hafter]
    exact ScopeStack.outer_eq_iff
  · intro hstays
    obtain ⟨opened, hopened⟩ := hstays.exists_opened
    have hstart : start.container.stack =
        e.container.stack.push ⟨name, e.store.tables.next⟩ := rfl
    rw [hstart, ScopeStack.toList_push, List.append_assoc] at hopened
    rw [hafter]
    exact ⟨opened, hopened, ScopeStack.outer_of_opened hopened⟩

/-- Assign to a variable, from the current scope. -/
def assignHere (name : String) (c : CellId) : Action Engine Unit := do
  let k := (← getThe Engine).container
  Engine.onStore (k.assign name c)

/-- A body that leaves the scope it entered and is then refused an assignment. -/
def closedBody : Action Engine Unit := do
  let _ ← modifyGetThe Engine (Engine.enterBlock "inner")
  let _ ← modifyGetThe Engine Engine.leave
  assignHere "x" ⟨0⟩

theorem closed_body_restores_stack :
    ∃ k s', Container.build "main" defaultMaxDepth Store.empty = (.ok k, s') ∧
      let e : Engine := ⟨s', k⟩
      let calls := [.scope (.enterBlock "inner"), .scope .leave, .assign "x" ⟨0⟩]
      (closedBody (Engine.enterBlock "block" e).2).2 =
        (Engine.enterBlock "block" e).2.run calls ∧
      (Engine.enterBlock "block" e).2.StaysInside calls ∧
      (Engine.withBlock "block" closedBody.run e).1 =
        .error (Error.of (.undefinedSymbol "x")) ∧
      (Engine.withBlock "block" closedBody.run e).2.container.stack = e.container.stack := by
  refine ⟨_, _, build_of_ne_empty (by decide) defaultMaxDepth Store.empty, ?_⟩
  intro e calls
  have hcalls : (closedBody (Engine.enterBlock "block" e).2).2 =
      (Engine.enterBlock "block" e).2.run calls := by decide +kernel
  have hstays : (Engine.enterBlock "block" e).2.StaysInside calls := by
    have hall : ∀ earlier ∈ calls.inits, (Engine.enterBlock "block" e).2.container.stack.depth ≤
        ((Engine.enterBlock "block" e).2.run earlier).container.stack.depth := by decide +kernel
    intro earlier hearlier
    exact hall earlier ((List.mem_inits _ _).2 hearlier)
  obtain ⟨hresult, -, -, -, hinside⟩ :=
    guard_leaves_innermost "block" closedBody.run e calls hcalls
  obtain ⟨opened, hopened, -, hsame⟩ := hinside hstays
  have hend : ((Engine.enterBlock "block" e).2.run calls).container.stack.toList =
      e.container.stack.toList ++ [⟨"block", e.store.tables.next⟩] := by decide +kernel
  refine ⟨hcalls, hstays, ?_, hsame.2 ?_⟩
  · rw [hresult]
    decide +kernel
  · exact (List.cons.inj (List.append_cancel_left (hopened.symm.trans hend))).2

/-- A body that is refused an assignment before it leaves the scope it entered. -/
def stoppedBody : Action Engine Unit := do
  let _ ← modifyGetThe Engine (Engine.enterBlock "inner")
  assignHere "x" ⟨0⟩
  let _ ← modifyGetThe Engine Engine.leave

theorem stopped_body_leaves_block_open :
    ∃ k s', Container.build "main" defaultMaxDepth Store.empty = (.ok k, s') ∧
      let e : Engine := ⟨s', k⟩
      let after := (Engine.withBlock "block" stoppedBody.run e).2
      (Engine.withBlock "block" stoppedBody.run e).1 =
        .error (Error.of (.undefinedSymbol "x")) ∧
      after.container.stack.names = ["main", "block"] ∧
      after.container.stack ≠ e.container.stack := by
  refine ⟨_, _, build_of_ne_empty (by decide) _ _, ?_, ?_, ?_⟩ <;> decide +kernel

end ScriptCore
