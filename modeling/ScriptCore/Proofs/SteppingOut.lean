import ScriptCore.Proofs.EngineRuns

/-!
# Stepping out of a scope and back

`stepOut` leaves the innermost scope and keeps its name, so that `enter` can go back to it.  A
name stands for one table only, while the stack may hold several scopes of that name.

**When the way back is exact.**  The name on top of the stack always stands for some table
(`Registered`), so `enter` is never refused.  It finds the table that was left exactly when the
name stood for that table.  The name may stand for another one: if a scope is stepped out of
while another scope of its name is active (`Covers`), the name stays with the inner table, and
when the outer scope is left in the same way its table is no longer kept under any name.  As
long as this does not happen to a name, the name stands for its innermost active scope
(`FollowsInnermost`).

**Results.**
* `registered_after`: what every run keeps.
* `followsInnermost_after`: what a run keeps that never steps out over a scope of the same name.
* `step_out_and_back`: what stepping out and going back does to the stack.
* `outer_namesake_is_lost`: a run after which going back ends in another table.
-/

namespace ScriptCore

namespace ScopeStack

theorem exists_pop? {s : ScopeStack} (h : 1 < s.depth) :
    ∃ scope rest, s.pop? = some (scope, rest) ∧ s = rest.push scope := by
  obtain ⟨root, inner⟩ := s
  cases inner with
  | nil => exact absurd h (by simp [depth])
  | cons scope inner => exact ⟨scope, ⟨root, inner⟩, rfl, rfl⟩

theorem push_inj {s : ScopeStack} {scope other : Scope} :
    s.push scope = s.push other ↔ scope = other := by
  simp [push]

end ScopeStack

namespace Container

/-- The innermost scope has the name, and another active scope has it too. -/
def Covers (k : Container) (name : String) : Prop :=
  ∃ scope rest, k.stack.pop? = some (scope, rest) ∧ scope.name = name ∧ name ∈ rest.names

/-- Every name on the stack stands for a table. -/
def Registered (k : Container) : Prop :=
  ∀ name, (k.stack.find? name).isSome → (k.scopes.find? name).isSome

/-- The name, if it is on the stack, stands for the table of its innermost scope. -/
def FollowsInnermost (k : Container) (name : String) : Prop :=
  ∀ scope, k.stack.find? name = some scope → k.scopes.find? name = some scope.table

end Container

theorem registered_perform {e : Engine} (c : ScopeCall) (h : e.container.Registered) :
    (c.perform e).container.Registered := by
  intro name hname
  cases change_perform c e with
  | pushed new hstack hscopes =>
      rw [hstack, ScopeStack.find?_push] at hname
      rw [hscopes, Dict.find?_insert]
      by_cases hnew : name = new
      · rw [if_pos hnew]
        rfl
      · rw [if_neg hnew]
        rw [if_neg (Ne.symm hnew)] at hname
        exact h name hname
  | entered known table htable hstack hscopes =>
      rw [hstack, ScopeStack.find?_push] at hname
      rw [hscopes]
      by_cases hknown : known = name
      · rw [← hknown, htable]
        rfl
      · rw [if_neg hknown] at hname
        exact h name hname
  | left scope hpop hscopes =>
      rw [hscopes, find?_releaseName]
      split
      · rwa [Option.isSome_map]
      · refine h name ?_
        rw [ScopeStack.eq_push_of_pop? hpop, ScopeStack.find?_push]
        split
        · rfl
        · exact hname
  | stepped scope hpop hscopes =>
      rw [hscopes]
      refine h name ?_
      rw [ScopeStack.eq_push_of_pop? hpop, ScopeStack.find?_push]
      split
      · rfl
      · exact hname
  | kept hstack hscopes =>
      rw [hstack] at hname
      rw [hscopes]
      exact h name hname

theorem registered_after {e : Engine} (h : e.container.Registered) (calls : List ScopeCall) :
    (e.after calls).container.Registered :=
  Engine.after_induction (P := fun f => f.container.Registered)
    (fun c _ _ hf => registered_perform c hf) h

theorem followsInnermost_perform {e : Engine} {c : ScopeCall} {name : String}
    (hc : c = .stepOut → ¬ e.container.Covers name) (h : e.container.FollowsInnermost name) :
    (c.perform e).container.FollowsInnermost name := by
  intro found hfound
  cases change_perform c e with
  | pushed new hstack hscopes =>
      rw [hstack, ScopeStack.find?_push] at hfound
      rw [hscopes, Dict.find?_insert]
      by_cases hnew : new = name
      · rw [if_pos hnew] at hfound
        obtain rfl := Option.some.inj hfound
        rw [if_pos hnew.symm]
      · rw [if_neg hnew] at hfound
        rw [if_neg (Ne.symm hnew)]
        exact h found hfound
  | entered known table htable hstack hscopes =>
      rw [hstack, ScopeStack.find?_push] at hfound
      rw [hscopes]
      by_cases hknown : known = name
      · rw [if_pos hknown] at hfound
        obtain rfl := Option.some.inj hfound
        rw [← hknown]
        exact htable
      · rw [if_neg hknown] at hfound
        exact h found hfound
  | left scope hpop hscopes =>
      have hbefore := ScopeStack.eq_push_of_pop? hpop
      rw [hscopes, find?_releaseName]
      by_cases hscope : scope.name = name
      · -- The scope that is left was the innermost of its name, so the name stands for it.
        have hstands : e.container.scopes.find? scope.name = some scope.table := by
          rw [hscope]
          refine h scope ?_
          rw [hbefore, ScopeStack.find?_push, if_pos hscope]
        rw [if_pos ⟨hscope.symm, hstands⟩, hfound]
        rfl
      · rw [if_neg fun hstands => hscope hstands.1.symm]
        refine h found ?_
        rw [hbefore, ScopeStack.find?_push, if_neg hscope]
        exact hfound
  | stepped scope hpop hscopes =>
      rw [hscopes]
      refine h found ?_
      rw [ScopeStack.eq_push_of_pop? hpop, ScopeStack.find?_push, if_neg]
      · exact hfound
      · intro hscope
        refine hc rfl ⟨scope, _, hpop, hscope, ?_⟩
        rw [ScopeStack.mem_names_iff, hfound]
        rfl
  | kept hstack hscopes =>
      rw [hstack] at hfound
      rw [hscopes]
      exact h found hfound

theorem followsInnermost_after {e : Engine} {calls : List ScopeCall} {name : String}
    (hcalls : ∀ earlier later, calls = earlier ++ .stepOut :: later →
      ¬ (e.after earlier).container.Covers name)
    (h : e.container.FollowsInnermost name) :
    (e.after calls).container.FollowsInnermost name := by
  induction calls generalizing e with
  | nil => exact h
  | cons c calls ih =>
      refine ih ?_ (followsInnermost_perform ?_ h)
      · intro earlier later hsplit
        exact hcalls (c :: earlier) later (by rw [hsplit]; rfl)
      · rintro rfl
        exact hcalls [] calls rfl

namespace NamesFollow

variable {k : Container}

theorem registered (h : NamesFollow k) : k.Registered := by
  intro name hname
  rwa [h name, Option.isSome_map]

theorem followsInnermost (h : NamesFollow k) (name : String) : k.FollowsInnermost name := by
  intro scope hscope
  rw [h, hscope]
  rfl

end NamesFollow

/-- Stepping out of the innermost scope and going back by its name. -/
theorem enter_stepOut {k : Container} (hregistered : k.Registered) (hdepth : 1 < k.stack.depth) :
    ∃ scope out back,
      k.stack.find? scope.name = some scope ∧
      k.currentTable = scope.table ∧
      Container.stepOut k = (some scope.name, out) ∧
      Container.enter scope.name out = (.ok (), back) ∧
      back.stack.names = k.stack.names ∧
      (back.stack = k.stack ↔ k.scopeTable? scope.name = some k.currentTable) := by
  obtain ⟨scope, rest, hpop, hpush⟩ := ScopeStack.exists_pop? hdepth
  have htop : k.stack.find? scope.name = some scope := by
    rw [hpush, ScopeStack.find?_push, if_pos rfl]
  have hcurrent : k.currentTable = scope.table := by
    unfold Container.currentTable
    rw [hpush]
    rfl
  obtain ⟨table, htable⟩ :=
    Option.isSome_iff_exists.1 (hregistered scope.name (by rw [htop]; rfl))
  refine ⟨scope, { k with stack := rest }, { k with stack := rest.push ⟨scope.name, table⟩ },
    htop, hcurrent, ?_, ?_, ?_, ?_⟩
  · simp [Container.stepOut, hpop]
  · simp [Container.enter, htable]
  · simp [hpush, ScopeStack.names, ScopeStack.toList_push]
  · unfold Container.scopeTable?
    rw [htable, hcurrent, Option.some.injEq, hpush, ScopeStack.push_inj]
    exact ⟨fun h => congrArg Scope.table h, fun h => by rw [h]⟩

/-- A container is built under a name and then used by any run of scope calls.  If a scope is
inside the root, it can be stepped out of, and its name can be entered right afterwards.  This
gives a stack with the same names.  It is the same stack exactly when the name stood for the
table of the scope, as it does if no call of the run stepped out of a scope of that name while
another one was active. -/
theorem step_out_and_back (rootName : String) (hname : rootName ≠ "") (maxDepth : Nat)
    (s : Store) (calls : List ScopeCall) :
    ∃ k s', Container.build rootName maxDepth s = (.ok k, s') ∧
      ∀ e : Engine, e.container.stack = k.stack → e.container.scopes = k.scopes →
        let l := (e.after calls).container
        1 < l.stack.depth → ∃ name out back,
          Container.stepOut l = (some name, out) ∧
          Container.enter name out = (.ok (), back) ∧
          back.stack.names = l.stack.names ∧
          (back.stack = l.stack ↔ l.scopeTable? name = some l.currentTable) ∧
          ((∀ earlier later, calls = earlier ++ .stepOut :: later →
            ¬ (e.after earlier).container.Covers name) → back.stack = l.stack) := by
  refine ⟨_, _, build_of_ne_empty hname maxDepth s, ?_⟩
  intro e hstack hscopes l hdepth
  have hstart : NamesFollow e.container := by
    intro name
    rw [hstack, hscopes]
    exact namesFollow_withRoot _ maxDepth name
  have hregistered : l.Registered := registered_after hstart.registered calls
  obtain ⟨scope, out, back, htop, hcurrent, hout, hback, hnames, hsame⟩ :=
    enter_stepOut hregistered hdepth
  refine ⟨scope.name, out, back, hout, hback, hnames, hsame, fun hcalls => hsame.2 ?_⟩
  rw [hcurrent]
  exact followsInnermost_after hcalls (hstart.followsInnermost scope.name) scope htop

/-- A run that steps out of one scope and ends in a scope whose name is on the stack twice. -/
def namesakeOnTop : List ScopeCall := [.create "a", .enterBlock "b", .stepOut, .enterBlock "a"]

theorem namesake_on_top_and_back :
    "main" ≠ "" ∧
    ∃ k s', Container.build "main" defaultMaxDepth Store.empty = (.ok k, s') ∧
      let l := (Engine.after ⟨s', k⟩ namesakeOnTop).container
      l.stack.names = ["main", "a", "a"] ∧
      ∃ name out back,
        Container.stepOut l = (some name, out) ∧ Container.enter name out = (.ok (), back) ∧
        back.stack = l.stack := by
  have hname : "main" ≠ "" := by decide
  obtain ⟨k, s', hbuild, hrun⟩ :=
    step_out_and_back "main" hname defaultMaxDepth Store.empty namesakeOnTop
  specialize hrun ⟨s', k⟩ rfl rfl
  refine ⟨hname, k, s', hbuild, ?_⟩
  cases hbuild
  obtain ⟨name, out, back, hout, hback, -, hsame, -⟩ := hrun (by decide)
  obtain rfl : "a" = name := Option.some.inj (congrArg Prod.fst hout)
  exact ⟨by decide, _, out, back, hout, hback, hsame.2 (by decide)⟩

/-- A run that steps out of one of two scopes with the same name. -/
def innerNamesakeLeft : List ScopeCall := [.create "a", .enterBlock "a", .stepOut]

/-- The outer scope is stepped out of in turn, and its name leads to the inner table. -/
theorem outer_namesake_is_lost :
    ∃ k s' out back,
      Container.build "main" defaultMaxDepth Store.empty = (.ok k, s') ∧
      let l := (Engine.after ⟨s', k⟩ innerNamesakeLeft).container
      1 < l.stack.depth ∧
      Container.stepOut l = (some "a", out) ∧ Container.enter "a" out = (.ok (), back) ∧
      back.stack ≠ l.stack ∧ back.currentTable ≠ l.currentTable := by
  refine ⟨_, _, _, _, build_of_ne_empty (by decide) _ _, by decide, rfl, rfl, ?_, ?_⟩ <;> decide

end ScriptCore
