import Mathlib.Data.List.Induction
import Mathlib.Data.List.Sort
import ScriptCore.Proofs.Dictionaries
import ScriptCore.Proofs.TableChains

/-!
# Tables as finite maps

A table is written by four calls: a symbol is defined under its own name, a name is removed, a
namespace is cleared, and everything is cleared.  Whatever the calls were, the table is a finite map
from namespaces and names to symbols.

**History.**  `LastDefined` reads off the calls which symbol a pair has: the one that was defined
last under the pair, if no later call concerned the pair.

**Graph.**  `Spaces.graph` lists the triples of a table in the order of namespaces and names.  A
namespace that lost its last symbol by a removal may stay behind as an empty dictionary, which one
that was cleared does not; the graph has no trace of it, and every listing is read off the graph
(`Store.Shows`).  The graph depends on the pairs and their symbols alone (`graph_congr`).

**Results.**
* `local?_perform`: what one call makes of a pair.
* `local?_runTable`: after a run each pair has the symbol that was defined last.
* `tables_act_as_maps`: the listings and the frame after every run.
-/

namespace ScriptCore

/-- One pair comes before another by its namespace, or in the same namespace by its name. -/
def PairBefore (p q : String × String) : Prop :=
  p.1 < q.1 ∨ p.1 = q.1 ∧ p.2 < q.2

instance asymm_pairBefore {α : Type} :
    Std.Asymm fun a b : (String × String) × α => PairBefore a.1 b.1 where
  asymm a b hab hba := by
    obtain hlt | ⟨hsame, hlt⟩ := hab
    · obtain hlt' | ⟨hsame', -⟩ := hba
      · exact String.lt_asymm hlt hlt'
      · exact String.lt_irrefl _ (hsame' ▸ hlt)
    · obtain hlt' | ⟨-, hlt'⟩ := hba
      · exact String.lt_irrefl _ (hsame ▸ hlt')
      · exact String.lt_asymm hlt hlt'

namespace Spaces

/-- The pairs with their symbols, by namespace and name. -/
def graph (s : Spaces) : List ((String × String) × SymbolId) :=
  s.entries.flatMap fun p => p.2.entries.map fun q => ((p.1, q.1), q.2)

variable {s s' : Spaces} {space name : String} {id : SymbolId}

theorem find?_eq_some_iff :
    s.find? space name = some id ↔ ∃ names, (space, names) ∈ s.entries ∧
      (name, id) ∈ names.entries := by
  unfold find?
  rw [Option.bind_eq_some_iff]
  simp only [Dict.find?_eq_some_iff]

theorem mem_graph_iff : ((space, name), id) ∈ s.graph ↔ s.find? space name = some id := by
  rw [find?_eq_some_iff, graph, List.mem_flatMap]
  constructor
  · rintro ⟨⟨_, names⟩, hnames, hmem⟩
    obtain ⟨⟨_, _⟩, hid, heq⟩ := List.mem_map.1 hmem
    cases heq
    exact ⟨names, hnames, hid⟩
  · rintro ⟨names, hnames, hid⟩
    exact ⟨(space, names), hnames, List.mem_map.2 ⟨(name, id), hid, rfl⟩⟩

theorem pairwise_graph (s : Spaces) : s.graph.Pairwise fun a b => PairBefore a.1 b.1 := by
  rw [graph, List.pairwise_flatMap]
  constructor
  · intro p _
    rw [List.pairwise_map]
    exact p.2.ascending.imp fun hlt => Or.inr ⟨rfl, hlt⟩
  · refine s.ascending.imp fun {p q} hlt a ha b hb => ?_
    obtain ⟨_, -, rfl⟩ := List.mem_map.1 ha
    obtain ⟨_, -, rfl⟩ := List.mem_map.1 hb
    exact Or.inl hlt

/-- The graph depends on what is found alone. -/
theorem graph_congr (h : ∀ space name, s'.find? space name = s.find? space name) :
    s'.graph = s.graph := by
  refine s'.pairwise_graph.eq_of_mem_iff s.pairwise_graph ?_
  rintro ⟨⟨space, name⟩, id⟩
  rw [mem_graph_iff, mem_graph_iff, h]

theorem all_eq (s : Spaces) : s.all = s.graph.map fun e => (e.1.1, e.2) := by
  simp only [all, graph, List.map_flatMap, Dict.values, List.map_map, Function.comp_def]

theorem inSpace_eq (s : Spaces) (space : String) :
    s.inSpace space = (s.graph.filter fun e => e.1.1 = space).map fun e => (e.1.2, e.2) := by
  -- Both lists are strictly increasing in the names, so it is enough that they have the same pairs.
  refine Dict.ascending_ext ?_ ?_ ?_
  · unfold inSpace
    cases Dict.find? s space with
    | some names => exact names.ascending
    | none => exact List.Pairwise.nil
  · unfold Ascending
    rw [List.pairwise_map, List.pairwise_filter]
    refine s.pairwise_graph.imp fun {a b} hbefore ha hb => ?_
    have hsame : a.1.1 = b.1.1 := (of_decide_eq_true ha).trans (of_decide_eq_true hb).symm
    obtain hlt | ⟨-, hlt⟩ := hbefore
    · exact absurd (hsame ▸ hlt) (String.lt_irrefl _)
    · exact hlt
  · rintro ⟨name, id⟩
    have hfound : (name, id) ∈ s.inSpace space ↔ s.find? space name = some id := by
      unfold inSpace find?
      cases Dict.find? s space with
      | some names => exact (names.find?_eq_some_iff name id).symm
      | none => exact iff_of_false List.not_mem_nil fun h => nomatch h
    rw [hfound, ← mem_graph_iff]
    constructor
    · intro hmem
      exact List.mem_map.2 ⟨_, List.mem_filter.2 ⟨hmem, decide_eq_true rfl⟩, rfl⟩
    · intro hmem
      obtain ⟨⟨⟨_, _⟩, _⟩, hfilter, heq⟩ := List.mem_map.1 hmem
      cases heq
      obtain ⟨hgraph, hspace⟩ := List.mem_filter.1 hfilter
      obtain rfl := of_decide_eq_true hspace
      exact hgraph

theorem withStart_eq (s : Spaces) (space start : String) :
    s.withStart space start =
      (s.graph.filter fun e => e.1.1 = space ∧ start.toList <+: e.1.2.toList).map
        fun e => (e.1.2, e.2) := by
  rw [withStart, inSpace_eq, List.filter_map, List.filter_filter]
  congr 1
  refine List.filter_congr fun e _ => ?_
  have hstart : e.1.2.startsWith start = decide (start.toList <+: e.1.2.toList) := by
    rw [Bool.eq_iff_iff, String.startsWith_string_iff, decide_eq_true_iff]
  rw [Function.comp_apply, hstart, Bool.and_comm, Bool.decide_and]

theorem spaces_ascending (s : Spaces) : s.spaces.Pairwise (· < ·) := by
  unfold spaces
  rw [List.pairwise_map]
  exact s.ascending.filter _

theorem mem_spaces_iff : space ∈ s.spaces ↔ ∃ e ∈ s.graph, e.1.1 = space := by
  unfold spaces
  rw [List.mem_map]
  constructor
  · rintro ⟨⟨_, names⟩, hmem, rfl⟩
    obtain ⟨hnames, hsome⟩ := List.mem_filter.1 hmem
    cases hentries : names.entries with
    | nil => simp [Dict.isEmpty, hentries] at hsome
    | cons first rest =>
        obtain ⟨name, id⟩ := first
        have hfirst : (name, id) ∈ names.entries := hentries ▸ List.mem_cons_self
        exact ⟨_, mem_graph_iff.2 (find?_eq_some_iff.2 ⟨names, hnames, hfirst⟩), rfl⟩
  · rintro ⟨⟨⟨_, name⟩, id⟩, hmem, rfl⟩
    obtain ⟨names, hnames, hid⟩ := find?_eq_some_iff.1 (mem_graph_iff.1 hmem)
    refine ⟨_, List.mem_filter.2 ⟨hnames, ?_⟩, rfl⟩
    cases hentries : names.entries with
    | nil => exact absurd (hentries ▸ hid) List.not_mem_nil
    | cons first rest => simp [Dict.isEmpty, hentries]

theorem count_eq (s : Spaces) : s.count = s.graph.length := by
  have hfold : ∀ (l : List (String × Dict SymbolId)) (n : Nat),
      (l.map Prod.snd).foldl (fun n names => n + names.size) n =
        n + (l.flatMap fun p => p.2.entries.map fun q => ((p.1, q.1), q.2)).length := by
    intro l
    induction l with
    | nil => exact fun n => rfl
    | cons p l ih =>
        intro n
        rw [List.map_cons, List.foldl_cons, ih, List.flatMap_cons, List.length_append,
          List.length_map, Dict.size, Nat.add_assoc]
  rw [count, Dict.values, hfold, Nat.zero_add, graph]

theorem find?_remove (s : Spaces) (space name other key : String) :
    (s.remove space name).find? other key =
      if other = space ∧ key = name then none else s.find? other key := by
  unfold find? remove
  rw [Dict.find?_modify]
  by_cases hspace : other = space
  · subst hspace
    rw [if_pos rfl]
    cases Dict.find? s other with
    | none => simp
    | some names =>
        rw [Option.map_some, Option.bind_some, Option.bind_some, Dict.find?_erase]
        simp only [true_and]
  · rw [if_neg hspace, if_neg fun h => hspace h.1]

theorem find?_clear (s : Spaces) (space other key : String) :
    (s.clear space).find? other key = if other = space then none else s.find? other key := by
  unfold find? clear
  rw [Dict.find?_erase]
  split <;> rfl

end Spaces

/-- The name of a symbol. -/
def Store.name? (s : Store) (id : SymbolId) : Option String :=
  (s.symbol? id).map Symbol.name

theorem Store.define_of_name? {s : Store} {t : TableId} {space name : String} {id : SymbolId}
    (h : s.name? id = some name) :
    s.define t space id = { s with tables := s.tables.modify t (·.define space name id) } := by
  obtain ⟨symbol, hsymbol, rfl⟩ := Option.map_eq_some_iff.1 h
  rw [define, hsymbol]

theorem Store.define_of_not_name? {s : Store} {t : TableId} {space : String} {id : SymbolId}
    (h : s.name? id = none) : s.define t space id = s := by
  rw [define, Option.map_eq_none_iff.1 h]

/-- A call that writes one table. -/
inductive TableCall
  | define (space : String) (id : SymbolId)
  | remove (space name : String)
  | clear (space : String)
  | clearAll
  deriving DecidableEq

namespace TableCall

/-- The store after a call on a table. -/
def perform (t : TableId) : TableCall → Store → Store
  | .define space id, s => s.define t space id
  | .remove space name, s => { s with tables := s.tables.modify t (·.remove space name) }
  | .clear space, s => { s with tables := s.tables.modify t (·.clear space) }
  | .clearAll, s => { s with tables := s.tables.modify t Spaces.clearAll }

/-- The call decides what the table has under a namespace and a name. -/
def Concerns (s : Store) (space name : String) : TableCall → Prop
  | .define other id => space = other ∧ s.name? id = some name
  | .remove other key => space = other ∧ name = key
  | .clear other => space = other
  | .clearAll => True

end TableCall

/-- The store after calls on a table. -/
def Store.runTable (s : Store) (t : TableId) (calls : List TableCall) : Store :=
  calls.foldl (fun s c => c.perform t s) s

/-- The symbol has the name and was defined in the namespace, and no call after that concerned the
namespace and the name. -/
def LastDefined (s : Store) (calls : List TableCall) (space name : String) (id : SymbolId) : Prop :=
  ∃ earlier later, calls = earlier ++ .define space id :: later ∧ s.name? id = some name ∧
    ∀ c ∈ later, ¬ c.Concerns s space name

/-- The listings of a table show a graph: a strictly increasing list of pairs of a namespace and a
name with symbols of these names. -/
structure Store.Shows (s : Store) (t : TableId) (graph : List ((String × String) × SymbolId)) :
    Prop where
  ascending : graph.Pairwise fun a b => PairBefore a.1 b.1
  named : ∀ e ∈ graph, s.name? e.2 = some e.1.2
  local?_iff : ∀ space name id,
    s.tables.local? t space name = some id ↔ ((space, name), id) ∈ graph
  all : (s.tables.spacesOf t).all = graph.map fun e => (e.1.1, e.2)
  inSpace : ∀ space, (s.tables.spacesOf t).inSpace space =
    (graph.filter fun e => e.1.1 = space).map fun e => (e.1.2, e.2)
  withStart : ∀ space start, (s.tables.spacesOf t).withStart space start =
    (graph.filter fun e => e.1.1 = space ∧ start.toList <+: e.1.2.toList).map fun e => (e.1.2, e.2)
  spaces_ascending : (s.tables.spacesOf t).spaces.Pairwise (· < ·)
  mem_spaces : ∀ space, space ∈ (s.tables.spacesOf t).spaces ↔ ∃ e ∈ graph, e.1.1 = space
  count : (s.tables.spacesOf t).count = graph.length

/-- At most the symbols of one table were changed. -/
structure Store.ConfinedTo (s : Store) (t : TableId) (later : Store) : Prop where
  heap : later.heap = s.heap
  symbols : later.symbols = s.symbols
  size : later.tables.size = s.tables.size
  parents : ∀ u, later.tables.parent? u = s.tables.parent? u
  others : ∀ u, u ≠ t → later.tables.get? u = s.tables.get? u

section Runs

variable {s later : Store} {t : TableId} {calls : List TableCall} {c : TableCall}
  {space name : String} {id : SymbolId}

namespace Store.ConfinedTo

theorem refl (s : Store) (t : TableId) : s.ConfinedTo t s :=
  ⟨rfl, rfl, rfl, fun _ => rfl, fun _ _ => rfl⟩

theorem trans {last : Store} (h : s.ConfinedTo t later) (h' : later.ConfinedTo t last) :
    s.ConfinedTo t last where
  heap := h'.heap.trans h.heap
  symbols := h'.symbols.trans h.symbols
  size := h'.size.trans h.size
  parents u := (h'.parents u).trans (h.parents u)
  others u hu := (h'.others u hu).trans (h.others u hu)

theorem modify (s : Store) (t : TableId) (f : Spaces → Spaces) :
    s.ConfinedTo t { s with tables := s.tables.modify t f } where
  heap := rfl
  symbols := rfl
  size := Tables.size_modify ..
  parents u := Tables.parent?_modify ..
  others u hu := by rw [Tables.get?_modify, if_neg hu]

theorem perform (c : TableCall) (s : Store) (t : TableId) :
    s.ConfinedTo t (c.perform t s) := by
  cases c with
  | define space id =>
      rw [TableCall.perform]
      cases hname : s.name? id with
      | some name =>
          rw [Store.define_of_name? hname]
          exact modify ..
      | none =>
          rw [Store.define_of_not_name? hname]
          exact refl ..
  | remove space name => exact modify ..
  | clear space => exact modify ..
  | clearAll => exact modify ..

theorem name?_eq (h : s.ConfinedTo t later) : later.name? = s.name? := by
  unfold Store.name? Store.symbol?
  rw [h.symbols]

end Store.ConfinedTo

theorem confinedTo_runTable (calls : List TableCall) (s : Store) (t : TableId) :
    s.ConfinedTo t (s.runTable t calls) := by
  induction calls generalizing s with
  | nil => exact .refl s t
  | cons c calls ih => exact (Store.ConfinedTo.perform c s t).trans (ih _)

/-- After a call a pair has the symbol that the call defines there, or else, if the call does not
concern the pair, the symbol it had. -/
theorem local?_perform (ht : s.tables.Has t) :
    (c.perform t s).tables.local? t space name = some id ↔
      c = .define space id ∧ s.name? id = some name ∨
      ¬ c.Concerns s space name ∧ s.tables.local? t space name = some id := by
  cases c with
  | define other new =>
      rw [TableCall.perform, TableCall.Concerns, TableCall.define.injEq]
      cases hnew : s.name? new with
      | none =>
          rw [Store.define_of_not_name? hnew]
          have hnot : ¬ ((other = space ∧ new = id) ∧ s.name? id = some name) := by
            rintro ⟨⟨-, rfl⟩, hid⟩
            exact nomatch hnew.symm.trans hid
          simp only [hnot, reduceCtorEq, and_false, not_false_eq_true, true_and, false_or]
      | some key =>
          rw [Store.define_of_name? hnew, Tables.local?_modify _ ht, Spaces.find?_define,
            Option.some.injEq]
          by_cases hpair : space = other ∧ name = key
          · obtain ⟨rfl, rfl⟩ := hpair
            rw [if_pos ⟨rfl, rfl⟩, Option.some.injEq]
            constructor
            · rintro rfl
              exact .inl ⟨⟨rfl, rfl⟩, hnew⟩
            · rintro (⟨⟨-, hid⟩, -⟩ | ⟨hnot, -⟩)
              · exact hid
              · exact absurd ⟨rfl, rfl⟩ hnot
          · have hnot : ¬ (space = other ∧ key = name) := fun h => hpair ⟨h.1, h.2.symm⟩
            have hother : ¬ ((other = space ∧ new = id) ∧ s.name? id = some name) := by
              rintro ⟨⟨rfl, rfl⟩, hid⟩
              exact hnot ⟨rfl, Option.some.inj (hnew.symm.trans hid)⟩
            rw [if_neg hpair]
            simp only [hother, hnot, not_false_eq_true, true_and, false_or]
            rfl
  | remove other key =>
      simp only [TableCall.perform, TableCall.Concerns, Tables.local?_modify _ ht,
        Spaces.find?_remove, Option.ite_none_left_eq_some, reduceCtorEq, false_and, false_or]
      rfl
  | clear other =>
      simp only [TableCall.perform, TableCall.Concerns, Tables.local?_modify _ ht,
        Spaces.find?_clear, Option.ite_none_left_eq_some, reduceCtorEq, false_and, false_or]
      rfl
  | clearAll =>
      simp only [TableCall.perform, TableCall.Concerns, Tables.local?_modify _ ht, reduceCtorEq,
        not_true, false_and, or_false, iff_false]
      exact fun h => nomatch h

theorem lastDefined_append_singleton :
    LastDefined s (calls ++ [c]) space name id ↔
      c = .define space id ∧ s.name? id = some name ∨
      ¬ c.Concerns s space name ∧ LastDefined s calls space name id := by
  constructor
  · rintro ⟨earlier, after, hcalls, hid, hafter⟩
    rcases List.eq_nil_or_concat after with rfl | ⟨between, last, rfl⟩
    · obtain ⟨-, hc⟩ := List.append_inj' hcalls rfl
      exact .inl ⟨List.singleton_inj.1 hc, hid⟩
    · rw [List.concat_eq_append, ← List.cons_append, ← List.append_assoc] at hcalls
      obtain ⟨hbefore, hc⟩ := List.append_inj' hcalls rfl
      obtain rfl := List.singleton_inj.1 hc
      rw [List.concat_eq_append] at hafter
      refine .inr ⟨hafter c (List.mem_append_right _ List.mem_cons_self), ?_⟩
      exact ⟨earlier, between, hbefore, hid, fun d hd => hafter d (List.mem_append_left _ hd)⟩
  · rintro (⟨rfl, hid⟩ | ⟨hc, earlier, after, rfl, hid, hafter⟩)
    · exact ⟨calls, [], rfl, hid, fun _ hd => absurd hd List.not_mem_nil⟩
    · refine ⟨earlier, after ++ [c], by simp, hid, fun d hd => ?_⟩
      rcases List.mem_append.1 hd with hd | hd
      · exact hafter d hd
      · rwa [List.mem_singleton.1 hd]

theorem concerns_congr (h : later.name? = s.name?) :
    c.Concerns later space name ↔ c.Concerns s space name := by
  cases c <;> simp only [TableCall.Concerns, h]

/-- A table that had no symbols has under each pair the symbol that was defined last. -/
theorem local?_runTable (ht : s.tables.Has t)
    (hempty : ∀ space name, s.tables.local? t space name = none) :
    (s.runTable t calls).tables.local? t space name = some id ↔
      LastDefined s calls space name id := by
  induction calls using List.reverseRecOn with
  | nil =>
      rw [Store.runTable, List.foldl_nil, hempty]
      refine iff_of_false (fun h => nomatch h) ?_
      rintro ⟨earlier, after, hcalls, -⟩
      exact absurd hcalls.symm (by simp)
  | append_singleton calls c ih =>
      have hconfined := confinedTo_runTable calls s t
      have hhas : (s.runTable t calls).tables.Has t := by
        unfold Tables.Has
        rw [hconfined.size]
        exact ht
      have hrun : s.runTable t (calls ++ [c]) = c.perform t (s.runTable t calls) :=
        List.foldl_append
      rw [hrun, local?_perform hhas, concerns_congr hconfined.name?_eq, hconfined.name?_eq, ih,
        lastDefined_append_singleton]

/-- The listings show the graph as soon as the symbols stand under their names. -/
theorem shows_graph (hnamed : ∀ space name id,
    s.tables.local? t space name = some id → s.name? id = some name) :
    s.Shows t (s.tables.spacesOf t).graph where
  ascending := Spaces.pairwise_graph _
  named := fun ⟨⟨_, _⟩, _⟩ he => hnamed _ _ _ (Spaces.mem_graph_iff.1 he)
  local?_iff _ _ _ := Spaces.mem_graph_iff.symm
  all := Spaces.all_eq _
  inSpace := Spaces.inSpace_eq _
  withStart := Spaces.withStart_eq _
  spaces_ascending := Spaces.spaces_ascending _
  mem_spaces _ := Spaces.mem_spaces_iff
  count := Spaces.count_eq _

end Runs

/-- After any calls on a new table the table is a finite map.  A pair has the symbol that was
defined last under it, if no later call removed or cleared it, and the listings show these pairs and
symbols in order.  The parent of the table, every other table and all symbols and cells are as they
were.  Calls that end with the same pairs and symbols end with the same listings. -/
theorem tables_act_as_maps (s : Store) (parent : Option TableId) (calls : List TableCall) :
    let t := s.tables.next
    let opened := (Store.addTable parent s).2
    let shown := fun calls => (opened.runTable t calls).tables.spacesOf t
    ∃ graph, (opened.runTable t calls).Shows t graph ∧
      (∀ space name id, ((space, name), id) ∈ graph ↔ LastDefined s calls space name id) ∧
      opened.ConfinedTo t (opened.runTable t calls) ∧
      ∀ others,
        (∀ space name, (shown others).find? space name = (shown calls).find? space name) →
        (shown others).all = (shown calls).all ∧
        (shown others).inSpace = (shown calls).inSpace ∧
        (shown others).withStart = (shown calls).withStart ∧
        (shown others).spaces = (shown calls).spaces ∧
        (shown others).count = (shown calls).count := by
  intro t opened shown
  have hlast : ∀ space name id, (opened.runTable t calls).tables.local? t space name = some id ↔
      LastDefined opened calls space name id := fun space name id =>
    local?_runTable (Tables.has_next_add _ parent) fun space name =>
      Tables.local?_next_add space name s.tables parent
  refine ⟨(shown calls).graph, shows_graph fun space name id hid => ?_, fun space name id => ?_,
    confinedTo_runTable calls opened t, fun others hsame => ?_⟩
  · obtain ⟨-, -, -, hname, -⟩ := (hlast space name id).1 hid
    rw [(confinedTo_runTable calls opened t).name?_eq]
    exact hname
  · rw [Spaces.mem_graph_iff]
    exact hlast space name id
  · have hgraph := Spaces.graph_congr hsame
    refine ⟨?_, ?_, ?_, ?_, ?_⟩
    · rw [Spaces.all_eq, Spaces.all_eq, hgraph]
    · funext space
      rw [Spaces.inSpace_eq, Spaces.inSpace_eq, hgraph]
    · funext space start
      rw [Spaces.withStart_eq, Spaces.withStart_eq, hgraph]
    · refine (Spaces.spaces_ascending _).eq_of_mem_iff (Spaces.spaces_ascending _) fun space => ?_
      rw [Spaces.mem_spaces_iff, Spaces.mem_spaces_iff, hgraph]
    · rw [Spaces.count_eq, Spaces.count_eq, hgraph]

/-- Three symbols, two of them of one name. -/
def namesakes : Store :=
  { Store.empty with
    symbols := #[⟨"x", "main", .constant ⟨0⟩⟩, ⟨"y", "main", .constant ⟨1⟩⟩,
      ⟨"x", "main", .klass none false⟩] }

/-- One namespace is emptied by a removal and one is cleared, and a symbol is replaced. -/
def emptyingWrites : List TableCall :=
  [.define "b" ⟨0⟩, .define "a" ⟨1⟩, .define "a" ⟨0⟩, .remove "b" "x", .define "c" ⟨1⟩, .clear "c",
    .define "a" ⟨2⟩]

/-- Other writes end with other dictionaries and the same listings. -/
theorem emptied_namespace_unseen :
    let t := namesakes.tables.next
    let opened := (Store.addTable none namesakes).2
    let shown := fun calls => (opened.runTable t calls).tables.spacesOf t
    let others := [.clearAll, .define "a" ⟨2⟩, .define "a" ⟨1⟩]
    LastDefined namesakes emptyingWrites "a" "x" ⟨2⟩ ∧
      ¬ LastDefined namesakes emptyingWrites "b" "x" ⟨0⟩ ∧
      (shown emptyingWrites).all = [("a", ⟨2⟩), ("a", ⟨1⟩)] ∧
      shown others ≠ shown emptyingWrites ∧
      (∀ space name,
        (shown others).find? space name = (shown emptyingWrites).find? space name) ∧
      (shown others).all = (shown emptyingWrites).all ∧
      (shown others).spaces = (shown emptyingWrites).spaces ∧
      (shown others).count = (shown emptyingWrites).count := by
  intro t opened shown others
  obtain ⟨graph, hshows, hlast, -, hothers⟩ := tables_act_as_maps namesakes none emptyingWrites
  have hfound : (opened.runTable t emptyingWrites).tables.local? t "a" "x" = some ⟨2⟩ := by
    decide +kernel
  have hmissing : (opened.runTable t emptyingWrites).tables.local? t "b" "x" = none := by
    decide +kernel
  have hgraph : (shown others).graph = (shown emptyingWrites).graph := by decide +kernel
  have hsame : ∀ space name,
      (shown others).find? space name = (shown emptyingWrites).find? space name := by
    intro space name
    refine Option.ext fun id => ?_
    rw [← Spaces.mem_graph_iff, ← Spaces.mem_graph_iff, hgraph]
  obtain ⟨hall, -, -, hspaces, hcount⟩ := hothers others hsame
  refine ⟨(hlast _ _ _).1 ((hshows.local?_iff _ _ _).1 hfound), fun h => ?_, by decide +kernel,
    by decide +kernel, hsame, hall, hspaces, hcount⟩
  have hpresent := (hshows.local?_iff _ _ _).2 ((hlast _ _ _).2 h)
  exact nomatch hmissing.symm.trans hpresent

end ScriptCore
