import ScriptCore.Proofs.Dictionaries
import ScriptCore.Scope.Entering

/-!
# Scope names follow the stack

The active scopes are on a stack, and a name map says which table a scope name stands for.
The two are kept apart, so that a scope can be found by its name, and every call that enters
or leaves a scope has to keep them in step.  Names may repeat on the stack, and the same table
may be there more than once.

**Invariant.**  `NamesFollow`: a name stands for the table of the innermost active scope of
that name, and for nothing if there is none.  Entering a scope by its name pushes the table
that the name stands for already.  The scope that is left is the innermost of its name, so the
name stands for its table and goes to the next scope of that name, if there is one.  Only
`stepOut` breaks the invariant, and is meant to.

**Results.**
* `change_perform`: what one call can do to the stack and to the names.
* `scope_names_follow_stack`: in every run without `stepOut` the bottom of the stack is the root
  scope, the names are the names on the stack, and each stands for its innermost scope.
-/

namespace ScriptCore

/-- A call that enters or leaves a scope. -/
inductive ScopeCall
  | create (name : String)
  | enterBlock (name : String)
  | enter (name : String)
  | enterCall (base : String)
  | leave
  | stepOut
  deriving DecidableEq, Repr

/-- The engine after a call, whether the call is refused or not. -/
def ScopeCall.perform : ScopeCall → Engine → Engine
  | .create name, e => (Engine.create name e).2
  | .enterBlock name, e => (Engine.enterBlock name e).2
  | .enter name, e => (Engine.onContainer (Container.enter name) e).2
  | .enterCall base, e => (Engine.enterCall base e).2
  | .leave, e => (Engine.leave e).2
  | .stepOut, e => { e with container := (Container.stepOut e.container).2 }

/-- The engine after a run of calls. -/
def Engine.after (e : Engine) (calls : List ScopeCall) : Engine :=
  calls.foldl (fun e c => c.perform e) e

/-- What every call of a run keeps, the run keeps. -/
theorem Engine.after_induction {P : Engine → Prop} {calls : List ScopeCall} {e : Engine}
    (hstep : ∀ c ∈ calls, ∀ e, P e → P (c.perform e)) (h : P e) : P (e.after calls) := by
  induction calls generalizing e with
  | nil => exact h
  | cons c calls ih =>
      refine ih ?_ (hstep c List.mem_cons_self e h)
      intro d hd
      exact hstep d (List.mem_cons_of_mem c hd)

namespace ScopeStack

theorem find?_push (s : ScopeStack) (scope : Scope) (name : String) :
    (s.push scope).find? name = if scope.name = name then some scope else s.find? name := by
  by_cases hname : scope.name = name
  · simp [find?, inwardsOut, push, hname]
  · simp [find?, inwardsOut, push, hname]

theorem eq_push_of_pop? {s rest : ScopeStack} {scope : Scope}
    (h : s.pop? = some (scope, rest)) : s = rest.push scope := by
  obtain ⟨root, inner⟩ := s
  cases inner with
  | nil => simp [pop?] at h
  | cons top inner =>
      simp only [pop?, Option.some.injEq, Prod.mk.injEq] at h
      obtain ⟨rfl, rfl⟩ := h
      rfl

theorem inwardsOut_eq_reverse (s : ScopeStack) : s.inwardsOut = s.toList.reverse := by
  simp [inwardsOut, toList]

/-- The scope that is found by its name is the last of that name from the root inwards. -/
theorem find?_eq_some_iff {s : ScopeStack} {name : String} {scope : Scope} :
    s.find? name = some scope ↔
      scope.name = name ∧ ∃ outer inner, s.toList = outer ++ scope :: inner ∧
        ∀ other ∈ inner, other.name ≠ name := by
  unfold find?
  rw [inwardsOut_eq_reverse, List.find?_eq_some_iff_append]
  simp only [beq_iff_eq]
  constructor
  · rintro ⟨hname, inner, outer, hsplit, hinner⟩
    refine ⟨hname, outer.reverse, inner.reverse, ?_, ?_⟩
    · simpa using congrArg List.reverse hsplit
    · intro other hother
      simpa using hinner other (List.mem_reverse.1 hother)
  · rintro ⟨hname, outer, inner, hsplit, hinner⟩
    refine ⟨hname, inner.reverse, outer.reverse, by simp [hsplit], ?_⟩
    intro other hother
    simpa using hinner other (List.mem_reverse.1 hother)

theorem mem_names_iff {s : ScopeStack} {name : String} :
    name ∈ s.names ↔ (s.find? name).isSome := by
  unfold find? names
  rw [inwardsOut_eq_reverse, List.find?_isSome]
  simp

end ScopeStack

/-- What a call can do to the stack and to the names. -/
inductive ScopeChange (e : Engine) (k : Container) : ScopeCall → Prop
  | pushed {c : ScopeCall} (name : String) :
      k.stack = e.container.stack.push ⟨name, e.store.tables.next⟩ →
      k.scopes = e.container.scopes.insert name e.store.tables.next → ScopeChange e k c
  | entered {c : ScopeCall} (name : String) (table : TableId) :
      e.container.scopes.find? name = some table →
      k.stack = e.container.stack.push ⟨name, table⟩ →
      k.scopes = e.container.scopes → ScopeChange e k c
  | left {c : ScopeCall} (scope : Scope) :
      e.container.stack.pop? = some (scope, k.stack) →
      k.scopes = Container.releaseName e.container.scopes k.stack scope → ScopeChange e k c
  | stepped (scope : Scope) :
      e.container.stack.pop? = some (scope, k.stack) →
      k.scopes = e.container.scopes → ScopeChange e k .stepOut
  | kept {c : ScopeCall} :
      k.stack = e.container.stack → k.scopes = e.container.scopes → ScopeChange e k c

theorem change_perform (c : ScopeCall) (e : Engine) :
    ScopeChange e (c.perform e).container c := by
  cases c with
  | create name => exact .pushed name rfl rfl
  | enterBlock name => exact .pushed name rfl rfl
  | enterCall base =>
      exact .pushed (Engine.frameName base e.container.nextFrame) rfl rfl
  | enter name =>
      cases htable : e.container.scopes.find? name with
      | none =>
          refine .kept ?_ ?_ <;>
            simp [ScopeCall.perform, Engine.onContainer, Action.onPart, Container.enter, htable]
      | some table =>
          refine .entered name table htable ?_ ?_ <;>
            simp [ScopeCall.perform, Engine.onContainer, Action.onPart, Container.enter, htable]
  | leave =>
      cases hpop : e.container.stack.pop? with
      | none =>
          refine .kept ?_ ?_ <;>
            simp [ScopeCall.perform, Engine.leave, Container.leave, hpop]
      | some popped =>
          refine .left popped.1 ?_ ?_ <;>
            simp [ScopeCall.perform, Engine.leave, Container.leave, hpop]
  | stepOut =>
      cases hpop : e.container.stack.pop? with
      | none =>
          refine .kept ?_ ?_ <;>
            simp [ScopeCall.perform, Container.stepOut, hpop]
      | some popped =>
          refine .stepped popped.1 ?_ ?_ <;>
            simp [ScopeCall.perform, Container.stepOut, hpop]

/-- The root scope stays where it is. -/
theorem root_perform (c : ScopeCall) (e : Engine) :
    (c.perform e).container.stack.root = e.container.stack.root := by
  cases change_perform c e with
  | pushed name hstack _ => rw [hstack]; rfl
  | entered name table _ hstack _ => rw [hstack]; rfl
  | left scope hpop _ => rw [ScopeStack.eq_push_of_pop? hpop]; rfl
  | stepped scope hpop _ => rw [ScopeStack.eq_push_of_pop? hpop]; rfl
  | kept hstack _ => rw [hstack]

theorem root_after (e : Engine) (calls : List ScopeCall) :
    (e.after calls).container.stack.root = e.container.stack.root := by
  refine Engine.after_induction
    (P := fun f => f.container.stack.root = e.container.stack.root) ?_ rfl
  intro c _ f hf
  rw [root_perform, hf]

/-- Each name stands for the table of its innermost scope. -/
def NamesFollow (k : Container) : Prop :=
  ∀ name, k.scopes.find? name = (k.stack.find? name).map Scope.table

theorem namesFollow_releaseName {scopes : Dict TableId} {rest : ScopeStack} {scope : Scope}
    (h : ∀ name, scopes.find? name = ((rest.push scope).find? name).map Scope.table)
    (name : String) :
    (Container.releaseName scopes rest scope).find? name =
      (rest.find? name).map Scope.table := by
  -- The scope that is left is on top, so its name stands for its table.
  have hreg : scopes.find? scope.name = some scope.table := by
    rw [h, ScopeStack.find?_push, if_pos rfl]
    rfl
  have hother : name ≠ scope.name → scopes.find? name = (rest.find? name).map Scope.table := by
    intro hne
    rw [h, ScopeStack.find?_push, if_neg hne.symm]
  unfold Container.releaseName
  rw [if_pos hreg]
  cases houter : rest.find? scope.name with
  | some outer =>
      show (scopes.insert scope.name outer.table).find? name = _
      rw [Dict.find?_insert]
      by_cases hname : name = scope.name
      · rw [if_pos hname, hname, houter]
        rfl
      · rw [if_neg hname, hother hname]
  | none =>
      show (scopes.erase scope.name).find? name = _
      rw [Dict.find?_erase]
      by_cases hname : name = scope.name
      · rw [if_pos hname, hname, houter]
        rfl
      · rw [if_neg hname, hother hname]

theorem namesFollow_perform {c : ScopeCall} {e : Engine} (hc : c ≠ .stepOut)
    (h : NamesFollow e.container) : NamesFollow (c.perform e).container := by
  intro name
  cases change_perform c e with
  | pushed new hstack hscopes =>
      rw [hstack, hscopes, Dict.find?_insert, ScopeStack.find?_push]
      by_cases hname : name = new
      · rw [if_pos hname, if_pos hname.symm]
        rfl
      · rw [if_neg hname, if_neg (Ne.symm hname)]
        exact h name
  | entered known table htable hstack hscopes =>
      rw [hstack, hscopes, ScopeStack.find?_push]
      by_cases hname : known = name
      · rw [if_pos hname, ← hname, htable]
        rfl
      · rw [if_neg hname]
        exact h name
  | left scope hpop hscopes =>
      rw [hscopes]
      refine namesFollow_releaseName ?_ name
      intro other
      rw [← ScopeStack.eq_push_of_pop? hpop]
      exact h other
  | stepped scope _ _ => exact absurd rfl hc
  | kept hstack hscopes =>
      rw [hstack, hscopes]
      exact h name

theorem namesFollow_after {e : Engine} {calls : List ScopeCall} (hcalls : .stepOut ∉ calls)
    (h : NamesFollow e.container) : NamesFollow (e.after calls).container := by
  refine Engine.after_induction (P := fun f => NamesFollow f.container) ?_ h
  intro c hc f hf
  have hne : c ≠ .stepOut := by
    rintro rfl
    exact hcalls hc
  exact namesFollow_perform hne hf

theorem namesFollow_withRoot (root : Scope) (maxDepth : Nat) :
    NamesFollow (Container.withRoot root maxDepth) := by
  intro name
  show (Dict.empty.insert root.name root.table).find? name = _
  rw [Dict.find?_insert]
  by_cases hname : name = root.name
  · simp [Container.withRoot, ScopeStack.find?, ScopeStack.inwardsOut, hname]
  · simp [Container.withRoot, ScopeStack.find?, ScopeStack.inwardsOut, hname, Ne.symm hname]

theorem build_of_ne_empty {rootName : String} (hname : rootName ≠ "") (maxDepth : Nat)
    (s : Store) :
    Container.build rootName maxDepth s =
      (.ok (Container.withRoot ⟨rootName, s.tables.next⟩ maxDepth),
        (Store.addTable none s).2) := by
  have hempty : rootName.isEmpty = false := by simpa using hname
  simp only [Container.build, hempty, Bool.false_eq_true, if_false]
  rfl

namespace NamesFollow

variable {k : Container}

theorem mem_scopeNames_iff (h : NamesFollow k) (name : String) :
    name ∈ k.scopeNames ↔ name ∈ k.stack.names := by
  unfold Container.scopeNames
  rw [Dict.mem_keys_iff, h name, ScopeStack.mem_names_iff, Option.isSome_map]

theorem exists_innermost (h : NamesFollow k) {name : String} (hname : name ∈ k.stack.names) :
    ∃ outer inner table, k.stack.toList = outer ++ ⟨name, table⟩ :: inner ∧
      (∀ scope ∈ inner, scope.name ≠ name) ∧ k.scopeTable? name = some table := by
  obtain ⟨scope, hfind⟩ := Option.isSome_iff_exists.1 (ScopeStack.mem_names_iff.1 hname)
  obtain ⟨rfl, outer, inner, hsplit, hinner⟩ := ScopeStack.find?_eq_some_iff.1 hfind
  refine ⟨outer, inner, scope.table, hsplit, hinner, ?_⟩
  unfold Container.scopeTable?
  rw [h, hfind]
  rfl

end NamesFollow

/-- A container that was built under a name starts with the root scope alone.  After any run
without `stepOut` the root scope is still at the bottom, with its table.  The scope names are
those on the stack, and each stands for the table of its innermost scope. -/
theorem scope_names_follow_stack (rootName : String) (hname : rootName ≠ "") (maxDepth : Nat)
    (s : Store) (calls : List ScopeCall) (hcalls : .stepOut ∉ calls) :
    ∃ k s' table, Container.build rootName maxDepth s = (.ok k, s') ∧
      k.stack.toList = [⟨rootName, table⟩] ∧
      ∀ e : Engine, e.container.stack = k.stack → e.container.scopes = k.scopes →
        let l := (e.after calls).container
        l.stack.toList.head? = some ⟨rootName, table⟩ ∧
        l.scopeNames.Pairwise (· < ·) ∧
        (∀ name, name ∈ l.scopeNames ↔ name ∈ l.stack.names) ∧
        ∀ name ∈ l.stack.names, ∃ outer inner table,
          l.stack.toList = outer ++ ⟨name, table⟩ :: inner ∧
          (∀ scope ∈ inner, scope.name ≠ name) ∧ l.scopeTable? name = some table := by
  refine ⟨_, _, s.tables.next, build_of_ne_empty hname maxDepth s, rfl, ?_⟩
  intro e hstack hscopes l
  have hstart : NamesFollow e.container := by
    intro name
    rw [hstack, hscopes]
    exact namesFollow_withRoot _ maxDepth name
  have hend : NamesFollow (e.after calls).container := namesFollow_after hcalls hstart
  have hroot : (e.after calls).container.stack.root = ⟨rootName, s.tables.next⟩ := by
    rw [root_after, hstack]
    rfl
  refine ⟨congrArg some hroot, Dict.keys_ascending _, hend.mem_scopeNames_iff, ?_⟩
  intro name hmem
  exact hend.exists_innermost hmem

/-- A run in which the root's name is taken by a second table, which is entered twice. -/
def rootNameReused : List ScopeCall :=
  [.create "main", .enterBlock "a", .enter "main", .enterCall "f", .leave, .leave, .enter "b"]

theorem reused_root_name_follows_stack :
    "main" ≠ "" ∧ .stepOut ∉ rootNameReused ∧
    ∃ k s', Container.build "main" defaultMaxDepth Store.empty = (.ok k, s') ∧
      (Engine.after ⟨s', k⟩ rootNameReused).container.stack.names = ["main", "main", "a"] ∧
      (Engine.after ⟨s', k⟩ rootNameReused).container.scopeNames = ["a", "main"] ∧
      ∃ outer inner table,
        (Engine.after ⟨s', k⟩ rootNameReused).container.stack.toList =
          outer ++ ⟨"main", table⟩ :: inner ∧
        (∀ scope ∈ inner, scope.name ≠ "main") ∧
        (Engine.after ⟨s', k⟩ rootNameReused).container.scopeTable? "main" = some table := by
  have hname : "main" ≠ "" := by decide
  have hcalls : ScopeCall.stepOut ∉ rootNameReused := by decide
  obtain ⟨k, s', table, hbuild, -, hrun⟩ :=
    scope_names_follow_stack "main" hname defaultMaxDepth Store.empty rootNameReused hcalls
  obtain ⟨-, -, -, hinnermost⟩ := hrun ⟨s', k⟩ rfl rfl
  refine ⟨hname, hcalls, k, s', hbuild, ?_⟩
  cases hbuild
  refine ⟨by decide, by decide, ?_⟩
  exact hinnermost "main" (by decide)

end ScriptCore
