import Mathlib.Data.List.Induction
import ScriptCore.Proofs.CallFrames

/-!
# Look-ups end at the root

A look-up goes from a table to its parent until a table has the symbol.  It counts no steps and
marks no tables, so it ends because of how tables come about: a table gets its parent when it is
made, and the parent is there already.  Tables are kept when their scopes are stepped out of, they
are entered again by their names, new blocks are opened under them, and a host may hold any of them.

**Chains.**  `Tables.Ancestry`: a list of tables goes from parent to parent up to a table without
one, and no table comes twice.  `Tables.chain` is such a list for every table.

**Searching.**  `Tables.Searches` is the loop of a look-up, step by step; a derivation is a loop that
ends.

**Making.**  `MadeIn` says which call of a run made a table and how.  A container uses only tables
that its own calls made (`OwnTable`).

**Results.**
* `Tables.ancestry_chain`, `Tables.searches_iff`: chains and look-ups from any table.
* `uses_perform`: what one call can do to the tables that a container uses.
* `ownChains_run`: every run keeps the tables of a container chained to the root.
* `lookups_follow_chains`: where chains end, and what a look-up finds along them.
-/

namespace ScriptCore

namespace Tables

/-- The loop of a look-up, from the table that is looked into next to the answer. -/
inductive Searches (ts : Tables) (space name : String) :
    Option TableId → Option SymbolId → Prop
  | exhausted : Searches ts space name none none
  | found {t : TableId} {id : SymbolId} :
      ts.local? t space name = some id → Searches ts space name (some t) (some id)
  | onwards {t : TableId} {answer : Option SymbolId} :
      ts.local? t space name = none → Searches ts space name (ts.parent? t) answer →
      Searches ts space name (some t) answer

/-- A list of tables leads from a table to one without a parent, always to the parent of the table
before, and comes to no table twice. -/
structure Ancestry (ts : Tables) (t : TableId) (path : List TableId) (last : TableId) : Prop where
  head : path.head? = some t
  linked : path.IsChain fun u p => ts.parent? u = some p
  nodup : path.Nodup
  getLast : path.getLast? = some last
  ends : ts.parent? last = none

section Searching

variable {ts : Tables} {space name : String} {t : TableId}

theorem Searches.answer_eq {start : Option TableId} {answer : Option SymbolId}
    (h : ts.Searches space name start answer) :
    answer = start.bind (ts.lookup? · space name) := by
  induction h with
  | exhausted => rfl
  | @found t id hlocal =>
      rw [Option.bind_some, lookup?_eq, hlocal]
      rfl
  | @onwards t answer hlocal _ ih =>
      rw [Option.bind_some, lookup?_eq, hlocal, ih]
      rfl

theorem searches_lookup? (ts : Tables) (t : TableId) (space name : String) :
    ts.Searches space name (some t) (ts.lookup? t space name) := by
  fun_induction ts.lookup? t space name with
  | case1 t id hlocal => exact .found hlocal
  | case2 t hlocal p hp ih =>
      refine .onwards hlocal ?_
      rw [hp]
      exact ih
  | case3 t hlocal hp =>
      refine .onwards hlocal ?_
      rw [hp]
      exact .exhausted

/-- The loop ends with the answer of the look-up and with no other. -/
theorem searches_iff {answer : Option SymbolId} :
    ts.Searches space name (some t) answer ↔ ts.lookup? t space name = answer := by
  constructor
  · intro h
    exact h.answer_eq.symm
  · rintro rfl
    exact ts.searches_lookup? t space name

theorem lookup?_eq_some_iff {id : SymbolId} :
    ts.lookup? t space name = some id ↔
      ∃ nearer u further, ts.chain t = nearer ++ u :: further ∧
        ts.local? u space name = some id ∧ ∀ v ∈ nearer, ts.local? v space name = none := by
  rw [lookup?_eq_findSome?, layers, List.findSome?_map, List.findSome?_eq_some_iff]
  rfl

theorem lookup?_eq_none_iff :
    ts.lookup? t space name = none ↔ ∀ u ∈ ts.chain t, ts.local? u space name = none := by
  rw [lookup?_eq_findSome?, layers, List.findSome?_map, List.findSome?_eq_none_iff]
  rfl

end Searching

section Chains

variable {ts us : Tables} {t p : TableId}

theorem index_le_of_mem_chain {u : TableId} (hu : u ∈ ts.chain t) : u.index ≤ t.index := by
  fun_induction ts.chain t with
  | case1 t p hp ih =>
      rcases List.mem_cons.1 hu with rfl | hu
      · exact Nat.le_refl _
      · have hle := ih hu
        have hlt := parent?_lt hp
        omega
  | case2 t hp =>
      obtain rfl := List.mem_singleton.1 hu
      exact Nat.le_refl _

theorem getLast?_cons_chain (ts : Tables) (t p : TableId) :
    (t :: ts.chain p).getLast? = (ts.chain p).getLast? := by
  rw [chain_eq ts p, List.getLast?_cons_cons]

/-- The chain of a table leads on from parent to parent and ends. -/
theorem ancestry_chain (ts : Tables) (t : TableId) :
    ∃ last, ts.Ancestry t (ts.chain t) last := by
  fun_induction ts.chain t with
  | case1 t p hp ih =>
      obtain ⟨last, hrest⟩ := ih
      refine ⟨last, rfl, ?_, ?_, ?_, hrest.ends⟩
      · have hlinked := hrest.linked
        rw [chain_eq ts p] at hlinked ⊢
        exact .cons_cons hp hlinked
      · refine List.nodup_cons.2 ⟨fun hmem => ?_, hrest.nodup⟩
        have hle := index_le_of_mem_chain hmem
        have hlt := parent?_lt hp
        omega
      · rw [getLast?_cons_chain]
        exact hrest.getLast
  | case2 t hp =>
      exact ⟨t, rfl, .singleton t, List.pairwise_singleton _ t, rfl, hp⟩

/-- A chain stays as it is while tables keep their parents. -/
theorem KeepsParents.chain_eq (h : KeepsParents ts us) (ht : ts.Has t) :
    us.chain t = ts.chain t := by
  fun_induction ts.chain t with
  | case1 t p hp ih =>
      rw [Tables.chain_eq, h.parent?_eq t ht, hp, Option.map_some, Option.getD_some,
        ih (has_parent ht hp)]
  | case2 t hp =>
      rw [Tables.chain_eq, h.parent?_eq t ht, hp]
      rfl

theorem chain_next_add_none (ts : Tables) : (ts.add none).chain ts.next = [ts.next] := by
  rw [chain_eq, parent?_next_add]
  rfl

theorem chain_next_add_some (hp : ts.Has p) :
    (ts.add (some p)).chain ts.next = ts.next :: ts.chain p := by
  rw [chain_eq, parent?_next_add_some hp, Option.map_some, Option.getD_some,
    (KeepsParents.add ts (some p)).chain_eq hp]

theorem chain_of_parent?_none (hp : ts.parent? t = none) : ts.chain t = [t] := by
  rw [chain_eq, hp]
  rfl

end Chains

end Tables

/-- How a call makes the table of a new scope. -/
inductive Making
  /-- As `create` does, under a name. -/
  | created (name : String)
  /-- As a block of the current scope. -/
  | block
  deriving DecidableEq, Repr

def Making.parent (k : Container) : Making → Option TableId
  | .created name => Engine.createParent k name
  | .block => some k.currentTable

/-- How a call makes a table, if it makes one for a scope. -/
def EngineCall.making? (e : Engine) : EngineCall → Option Making
  | .scope (.create name) => some (.created name)
  | .scope (.enterCall base) =>
      some (.created (Engine.frameName base e.container.nextFrame))
  | .scope (.enterBlock _) => some .block
  | _ => none

/-- A call of the run made the table, in this way. -/
def MadeIn (start : Engine) (calls : List EngineCall) (how : Making) (t : TableId) : Prop :=
  ∃ earlier c later, calls = earlier ++ c :: later ∧
    c.making? (start.run earlier) = some how ∧ t = (start.run earlier).store.tables.next

/-- The table is the root table, or the run made it for a scope. -/
def OwnTable (start : Engine) (calls : List EngineCall) (t : TableId) : Prop :=
  t = start.container.stack.root.table ∨ ∃ how, MadeIn start calls how t

/-- The table belongs to an active scope, or a name stands for it. -/
def Container.Uses (k : Container) (t : TableId) : Prop :=
  (∃ scope ∈ k.stack.toList, scope.table = t) ∨ ∃ name, k.scopes.find? name = some t

section Steps

variable {c : EngineCall} {e : Engine}

theorem tables_of_making? {how : Making} (h : c.making? e = some how) :
    (c.perform e).store.tables = e.store.tables.add (how.parent e.container) := by
  cases c with
  | scope c =>
      cases c with
      | create name =>
          obtain rfl := Option.some.inj h
          rfl
      | enterBlock name =>
          obtain rfl := Option.some.inj h
          rfl
      | enterCall base =>
          obtain rfl := Option.some.inj h
          rfl
      | enter name => cases h
      | leave => cases h
      | stepOut => cases h
  | registry c => cases h
  | store c => cases h
  | add a id target => cases h
  | assign name c => cases h
  | call callee args => cases h

theorem keepsParents_scopeCall (c : ScopeCall) (e : Engine) :
    e.store.tables.KeepsParents (c.perform e).store.tables := by
  cases c with
  | create name => exact .add _ _
  | enterBlock name => exact .add _ _
  | enterCall base => exact .add _ _
  | enter name => exact .refl _
  | leave => exact .refl _
  | stepOut => exact .refl _

theorem keepsParents_perform (c : EngineCall) (e : Engine) :
    e.store.tables.KeepsParents (c.perform e).store.tables := by
  cases c with
  | scope c => exact keepsParents_scopeCall c e
  | registry c => exact (keepsScopes_registry c e).tables
  | store c => exact (keepsScopes_store c e).tables
  | add a id target => exact (keepsScopes_add a id target e).tables
  | assign name c => exact (keepsScopes_assign name c e).tables
  | call callee args => exact (keepsScopes_call callee args e).tables

namespace Container

variable {k l : Container} {t : TableId}

theorem Uses.of_sameScopes (h : l.Uses t) (hsame : k.SameScopes l) : k.Uses t := by
  unfold Uses at h ⊢
  rwa [hsame.stack, hsame.scopes] at h

theorem uses_currentTable (k : Container) : k.Uses k.currentTable :=
  .inl ⟨k.stack.top, k.stack.top_mem_toList, rfl⟩

theorem Uses.of_push {name : String} {table : TableId}
    (h : { k with stack := k.stack.push ⟨name, table⟩ }.Uses t) : k.Uses t ∨ t = table := by
  obtain ⟨scope, hscope, rfl⟩ | hname := h
  · rw [ScopeStack.toList_push, List.mem_append, List.mem_singleton] at hscope
    rcases hscope with hscope | rfl
    · exact .inl (.inl ⟨scope, hscope, rfl⟩)
    · exact .inr rfl
  · exact .inl (.inr hname)

theorem Uses.of_pushNew {name : String} {table : TableId}
    (h : { k with stack := k.stack.push ⟨name, table⟩, scopes := k.scopes.insert name table }.Uses
      t) : k.Uses t ∨ t = table := by
  obtain hscope | ⟨other, hother⟩ := h
  · exact Uses.of_push (k := k) (.inl hscope)
  · change (k.scopes.insert name table).find? other = some t at hother
    rw [Dict.find?_insert] at hother
    split at hother
    · exact .inr (Option.some.inj hother).symm
    · exact .inl (.inr ⟨other, hother⟩)

/-- Scopes may be left if the names then stand for tables in use. -/
theorem Uses.of_pop {left : Scope} {rest : ScopeStack} {scopes : Dict TableId}
    (hpop : k.stack.pop? = some (left, rest))
    (hscopes : ∀ name, scopes.find? name = some t → k.Uses t)
    (h : { k with stack := rest, scopes }.Uses t) : k.Uses t := by
  obtain ⟨scope, hscope, rfl⟩ | ⟨name, hname⟩ := h
  · refine .inl ⟨scope, ?_, rfl⟩
    rw [ScopeStack.eq_push_of_pop? hpop, ScopeStack.toList_push]
    exact List.mem_append_left _ hscope
  · exact hscopes name hname

end Container

theorem uses_enter {name : String} {t : TableId}
    (h : ((ScopeCall.enter name).perform e).container.Uses t) : e.container.Uses t := by
  cases htable : e.container.scopes.find? name with
  | none =>
      simpa [ScopeCall.perform, Engine.onContainer, Action.onPart, Container.enter, htable]
        using h
  | some table =>
      have hpushed : { e.container with
          stack := e.container.stack.push ⟨name, table⟩ }.Uses t := by
        simpa [ScopeCall.perform, Engine.onContainer, Action.onPart, Container.enter, htable]
          using h
      rcases hpushed.of_push with hold | rfl
      · exact hold
      · exact .inr ⟨name, htable⟩

theorem uses_leave {t : TableId} (h : (ScopeCall.leave.perform e).container.Uses t) :
    e.container.Uses t := by
  cases hpop : e.container.stack.pop? with
  | none => simpa [ScopeCall.perform, Engine.leave, Container.leave, hpop] using h
  | some popped =>
      rw [perform_leave hpop] at h
      refine Container.Uses.of_pop hpop (fun name hname => ?_) h
      -- A released name goes to a scope further out.
      rw [find?_releaseName] at hname
      split at hname
      · obtain ⟨scope, hscope, rfl⟩ := Option.map_eq_some_iff.1 hname
        refine .inl ⟨scope, ?_, rfl⟩
        rw [ScopeStack.eq_push_of_pop? hpop, ScopeStack.toList_push]
        exact List.mem_append_left _ (ScopeStack.mem_toList_of_find? hscope)
      · exact .inr ⟨name, hname⟩

theorem uses_stepOut {t : TableId} (h : (ScopeCall.stepOut.perform e).container.Uses t) :
    e.container.Uses t := by
  cases hpop : e.container.stack.pop? with
  | none => simpa [ScopeCall.perform, Container.stepOut, hpop] using h
  | some popped =>
      rw [perform_stepOut hpop] at h
      exact Container.Uses.of_pop hpop (fun name hname => .inr ⟨name, hname⟩) h

/-- A table that a container uses after a call was in use before, or the call made it. -/
theorem uses_perform {t : TableId} (h : (c.perform e).container.Uses t) :
    e.container.Uses t ∨ ∃ how, c.making? e = some how ∧ t = e.store.tables.next := by
  cases c with
  | scope c =>
      cases c with
      | create name => exact h.of_pushNew.imp_right fun ht => ⟨_, rfl, ht⟩
      | enterBlock name => exact h.of_pushNew.imp_right fun ht => ⟨_, rfl, ht⟩
      | enterCall base => exact h.of_pushNew.imp_right fun ht => ⟨_, rfl, ht⟩
      | enter name => exact .inl (uses_enter h)
      | leave => exact .inl (uses_leave h)
      | stepOut => exact .inl (uses_stepOut h)
  | registry c => exact .inl (h.of_sameScopes (keepsScopes_registry c e).container)
  | store c => exact .inl h
  | add a id target => exact .inl h
  | assign name c => exact .inl h
  | call callee args => exact .inl h

end Steps

section Runs

variable {start : Engine} {calls : List EngineCall} {how : Making} {t : TableId}

theorem MadeIn.append (h : MadeIn start calls how t) (c : EngineCall) :
    MadeIn start (calls ++ [c]) how t := by
  obtain ⟨earlier, d, later, rfl, hmaking, ht⟩ := h
  exact ⟨earlier, d, later ++ [c], by simp, hmaking, ht⟩

theorem MadeIn.last {c : EngineCall} (hmaking : c.making? (start.run calls) = some how) :
    MadeIn start (calls ++ [c]) how (start.run calls).store.tables.next :=
  ⟨calls, c, [], rfl, hmaking, rfl⟩

/-- A table that a run made was made by its last call or before. -/
theorem MadeIn.of_append {c : EngineCall} (h : MadeIn start (calls ++ [c]) how t) :
    MadeIn start calls how t ∨
      c.making? (start.run calls) = some how ∧ t = (start.run calls).store.tables.next := by
  obtain ⟨earlier, d, later, hsplit, hmaking, ht⟩ := h
  rcases List.eq_nil_or_concat later with rfl | ⟨between, last, rfl⟩
  · obtain ⟨rfl, hc⟩ := List.append_inj' hsplit rfl
    obtain rfl : c = d := List.singleton_inj.1 hc
    exact .inr ⟨hmaking, ht⟩
  · rw [List.concat_eq_append, ← List.cons_append, ← List.append_assoc] at hsplit
    obtain ⟨rfl, -⟩ := List.append_inj' hsplit rfl
    exact .inl ⟨earlier, d, between, rfl, hmaking, ht⟩

theorem OwnTable.append (h : OwnTable start calls t) (c : EngineCall) :
    OwnTable start (calls ++ [c]) t :=
  h.imp_right fun ⟨how, hmade⟩ => ⟨how, hmade.append c⟩

theorem OwnTable.of_append {c : EngineCall} (h : OwnTable start (calls ++ [c]) t) :
    OwnTable start calls t ∨
      ∃ how, c.making? (start.run calls) = some how ∧
        t = (start.run calls).store.tables.next := by
  obtain hroot | ⟨how, hmade⟩ := h
  · exact .inl (.inl hroot)
  · exact hmade.of_append.imp (fun hmade => .inr ⟨how, hmade⟩) fun hlast => ⟨how, hlast⟩

/-- The table is the root table, or it was created under the name of the root. -/
def EndsChains (start : Engine) (calls : List EngineCall) (t : TableId) : Prop :=
  t = start.container.stack.root.table ∨
    MadeIn start calls (.created start.container.stack.root.name) t

theorem EndsChains.append (h : EndsChains start calls t) (c : EngineCall) :
    EndsChains start (calls ++ [c]) t :=
  h.imp_right fun hmade => hmade.append c

/-- The tables that a container uses are its own, its own tables are in the store, and their chains
end where they may. -/
structure OwnChains (start : Engine) (calls : List EngineCall) : Prop where
  uses : ∀ t, (start.run calls).container.Uses t → OwnTable start calls t
  has : ∀ t, OwnTable start calls t → (start.run calls).store.tables.Has t
  ends : ∀ t, OwnTable start calls t →
    ∃ last, ((start.run calls).store.tables.chain t).getLast? = some last ∧
      EndsChains start calls last

namespace OwnChains

variable {c : EngineCall}

theorem nil (h : Grounded start)
    (huses : ∀ t, start.container.Uses t → t = start.container.stack.root.table) :
    OwnChains start [] where
  uses t ht := .inl (huses t ht)
  has t ht := by
    obtain rfl | ⟨how, earlier, d, later, hsplit, -⟩ := ht
    · exact h.has_root
    · simp at hsplit
  ends t ht := by
    obtain rfl | ⟨how, earlier, d, later, hsplit, -⟩ := ht
    · refine ⟨_, ?_, .inl rfl⟩
      exact congrArg List.getLast? (Tables.chain_of_parent?_none h.root)
    · simp at hsplit

/-- The chain of a table that the last call made goes on with the chain of the root table or of the
current table, unless the table was created under the name of the root. -/
theorem ends_of_making? (h : OwnChains start calls) (hground : Grounded (start.run calls))
    (hmaking : c.making? (start.run calls) = some how) :
    ∃ last,
      (((start.run calls).store.tables.add (how.parent (start.run calls).container)).chain
        (start.run calls).store.tables.next).getLast? = some last ∧
      EndsChains start (calls ++ [c]) last := by
  have hroot : (start.run calls).container.stack.root = start.container.stack.root :=
    root_run start calls
  cases how with
  | created name =>
      by_cases hname : name = start.container.stack.root.name
      · refine ⟨_, ?_, .inr (hname ▸ MadeIn.last hmaking)⟩
        rw [Making.parent, createParent_of_eq (by rw [hroot, hname]), Tables.chain_next_add_none]
        rfl
      · refine ⟨start.container.stack.root.table, ?_, .inl rfl⟩
        rw [Making.parent, createParent_of_ne (by rwa [hroot]),
          Tables.chain_next_add_some hground.has_root, Tables.getLast?_cons_chain,
          Tables.chain_of_parent?_none hground.root, hroot]
        rfl
  | block =>
      have hown : OwnTable start calls (start.run calls).container.currentTable :=
        h.uses _ (Container.uses_currentTable _)
      obtain ⟨last, hlast, hends⟩ := h.ends _ hown
      refine ⟨last, ?_, hends.append c⟩
      rw [Making.parent, Tables.chain_next_add_some (h.has _ hown), Tables.getLast?_cons_chain,
        hlast]

theorem append (h : OwnChains start calls) (hground : Grounded (start.run calls)) :
    OwnChains start (calls ++ [c]) where
  uses t ht := by
    rw [Engine.run_append_singleton] at ht
    obtain hold | ⟨how, hmaking, rfl⟩ := uses_perform ht
    · exact (h.uses t hold).append c
    · exact .inr ⟨how, .last hmaking⟩
  has t ht := by
    rw [Engine.run_append_singleton]
    obtain hold | ⟨how, hmaking, rfl⟩ := ht.of_append
    · exact (keepsParents_perform c _).has (h.has t hold)
    · rw [tables_of_making? hmaking]
      exact Tables.has_next_add _ _
  ends t ht := by
    rw [Engine.run_append_singleton]
    obtain hold | ⟨how, hmaking, rfl⟩ := ht.of_append
    · obtain ⟨last, hlast, hends⟩ := h.ends t hold
      refine ⟨last, ?_, hends.append c⟩
      rw [(keepsParents_perform c _).chain_eq (h.has t hold), hlast]
    · rw [tables_of_making? hmaking]
      exact h.ends_of_making? hground hmaking

end OwnChains

theorem ownChains_run (hground : Grounded start)
    (huses : ∀ t, start.container.Uses t → t = start.container.stack.root.table)
    (calls : List EngineCall) : OwnChains start calls := by
  induction calls using List.reverseRecOn with
  | nil => exact .nil hground huses
  | append_singleton calls c ih => exact ih.append (grounded_run hground calls)

theorem uses_withRoot {root : Scope} {maxDepth : Nat}
    (h : (Container.withRoot root maxDepth).Uses t) : t = root.table := by
  obtain ⟨scope, hscope, rfl⟩ | ⟨name, hname⟩ := h
  · obtain rfl := List.mem_singleton.1 hscope
    rfl
  · change (Dict.empty.insert root.name root.table).find? name = some t at hname
    rw [Dict.find?_insert] at hname
    split at hname
    · exact (Option.some.inj hname).symm
    · simp at hname

end Runs

/-- A container is built under a name and then used in any way.  Its active scopes and its scope names
have tables that it made itself.  From each table that it ever made the parents lead, without coming
to a table twice, to the root table or to a table without a parent that was created under the name of
the root.  The loop of a look-up ends, from any table, and a look-up in the container answers with
what the first table on the chain of the current table has that has anything, or with nothing if none
has. -/
theorem lookups_follow_chains (rootName : String) (hname : rootName ≠ "") (maxDepth : Nat)
    (s : Store) :
    ∃ k s' root, Container.build rootName maxDepth s = (.ok k, s') ∧
      k.stack.toList = [⟨rootName, root⟩] ∧
      ∀ calls : List EngineCall,
        let e := Engine.run ⟨s', k⟩ calls
        let ts := e.store.tables
        (∀ t, e.container.Uses t → OwnTable ⟨s', k⟩ calls t) ∧
        (∀ t, OwnTable ⟨s', k⟩ calls t → ∃ last, ts.Ancestry t (ts.chain t) last ∧
          (last = root ∨ MadeIn ⟨s', k⟩ calls (.created rootName) last)) ∧
        ∀ space name,
          (∀ t, ∃ answer, ts.Searches space name (some t) answer) ∧
          (∀ answer, ts.Searches space name (some e.container.currentTable) answer ↔
            e.container.lookup? e.store space name = answer) ∧
          (∀ id, e.container.lookup? e.store space name = some id ↔
            ∃ nearer t further, ts.chain e.container.currentTable = nearer ++ t :: further ∧
              ts.local? t space name = some id ∧
              ∀ u ∈ nearer, ts.local? u space name = none) ∧
          (e.container.lookup? e.store space name = none ↔
            ∀ t ∈ ts.chain e.container.currentTable, ts.local? t space name = none) := by
  refine ⟨_, _, s.tables.next, build_of_ne_empty hname maxDepth s, rfl, ?_⟩
  intro calls e ts
  have hown := ownChains_run (grounded_build rootName maxDepth s) (fun _ => uses_withRoot) calls
  refine ⟨hown.uses, ?_, ?_⟩
  · intro t ht
    obtain ⟨last, hancestry⟩ := ts.ancestry_chain t
    obtain ⟨other, hother, hends⟩ := hown.ends t ht
    obtain rfl : last = other := Option.some.inj (hancestry.getLast.symm.trans hother)
    exact ⟨last, hancestry, hends⟩
  · intro space name
    exact ⟨fun t => ⟨_, ts.searches_lookup? t space name⟩, fun _ => Tables.searches_iff,
      fun _ => Tables.lookup?_eq_some_iff, Tables.lookup?_eq_none_iff⟩

/-- A scope is stepped out of and entered again from a block, a block is opened under it, and the name
of the root is taken by a table of its own. -/
def reenteredScopes : List EngineCall :=
  [.scope (.create "a"), .scope (.enterBlock "b"), .scope .stepOut, .scope .stepOut,
    .store (.makeSymbol ⟨"x", "main", .var .int ⟨0⟩⟩), .add .any ⟨0⟩ none,
    .scope (.create "main"), .scope (.enterBlock "c"), .scope (.enter "b"),
    .scope (.enterBlock "d")]

theorem reentered_block_chained :
    "main" ≠ "" ∧
    ∃ k s', Container.build "main" defaultMaxDepth Store.empty = (.ok k, s') ∧
      let e := Engine.run ⟨s', k⟩ reenteredScopes
      let ts := e.store.tables
      e.container.stack.names = ["main", "main", "c", "b", "d"] ∧
      ts.Ancestry e.container.currentTable [⟨5⟩, ⟨2⟩, ⟨1⟩, ⟨0⟩] ⟨0⟩ ∧
      ts.Ancestry ⟨4⟩ [⟨4⟩, ⟨3⟩] ⟨3⟩ ∧
      MadeIn ⟨s', k⟩ reenteredScopes (.created "main") ⟨3⟩ ∧
      e.container.lookup? e.store Space.vars "x" = some ⟨0⟩ := by
  have hname : "main" ≠ "" := by decide
  obtain ⟨k, s', root, hbuild, hstack, hrun⟩ :=
    lookups_follow_chains "main" hname defaultMaxDepth Store.empty
  obtain ⟨huses, hchains, hlookups⟩ := hrun reenteredScopes
  refine ⟨hname, k, s', hbuild, ?_⟩
  cases hbuild
  obtain rfl : (⟨0⟩ : TableId) = root := congrArg Scope.table (List.head_eq_of_cons_eq hstack)
  obtain ⟨last, hcurrent, -⟩ := hchains _ (huses _ (Container.uses_currentTable _))
  obtain ⟨other, hother, hmade⟩ := hchains ⟨4⟩
    (.inr ⟨.block, reenteredScopes.take 7, .scope (.enterBlock "c"), reenteredScopes.drop 8,
      rfl, rfl, by decide⟩)
  rw [show Tables.chain _ _ = [⟨5⟩, ⟨2⟩, ⟨1⟩, ⟨0⟩] by decide +kernel] at hcurrent
  rw [show Tables.chain _ _ = [⟨4⟩, ⟨3⟩] by decide +kernel] at hother
  obtain rfl : ⟨0⟩ = last := Option.some.inj hcurrent.getLast
  obtain rfl : ⟨3⟩ = other := Option.some.inj hother.getLast
  refine ⟨by decide, hcurrent, hother, hmade.resolve_left (by decide), ?_⟩
  refine ((hlookups Space.vars "x").2.2.1 ⟨0⟩).2 ⟨[⟨5⟩, ⟨2⟩, ⟨1⟩], ⟨0⟩, [], ?_, ?_, ?_⟩
  · decide +kernel
  · decide
  · decide

end ScriptCore
