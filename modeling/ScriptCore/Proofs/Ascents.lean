import ScriptCore.Proofs.Lineages

/-!
# How far a lineage goes

The lineage of a class is collected by a loop that goes from parent to parent.  Before each class
the loop asks whether the depth limit is passed, whether the class was met before and whether it is
registered, in this order, and it ends at the first of these that stops it.  Hierarchies may run in
circles, a circle may be entered at any of its classes, and it may be longer than the limit.

**Loop.**  `Climbs`: the loop, step by step, from the classes collected so far to those at its end.
A derivation is a loop that ends.

**Ascents.**  `ancestor?`: a name, its parent, the parent of that, and so on, which goes on for ever
in a circle.  `Ascent`: the beginnings of that sequence that have registered classes only, none of
them twice, and are not longer than a limit.

**Results.**
* `climbs_iff`: the loop ends, and with the lineage.
* `ascent_lineageFrom`, `prefix_lineageFrom`: a walk is an ascent, and every other ascent is a
  beginning of it.
* `lineages_longest`: both after every run.
-/

namespace ScriptCore
namespace Container

/-- The loop that collects a lineage, with the classes so far, the names met, the name that comes
next, and the classes at the end. -/
inductive Climbs (classes : Dict Class) (maxDepth : Nat) :
    List Class → List String → Option String → List Class → Prop
  | top {chain : List Class} {met : List String} : Climbs classes maxDepth chain met none chain
  | deep {chain : List Class} {met : List String} {name : String} :
      maxDepth < chain.length → Climbs classes maxDepth chain met (some name) chain
  | circular {chain : List Class} {met : List String} {name : String} :
      ¬ maxDepth < chain.length → name ∈ met → Climbs classes maxDepth chain met (some name) chain
  | missing {chain : List Class} {met : List String} {name : String} :
      ¬ maxDepth < chain.length → name ∉ met → classes.find? name = none →
      Climbs classes maxDepth chain met (some name) chain
  | onwards {chain result : List Class} {met : List String} {name : String} {c : Class} :
      ¬ maxDepth < chain.length → name ∉ met → classes.find? name = some c →
      Climbs classes maxDepth (chain ++ [c]) (name :: met) c.parent result →
      Climbs classes maxDepth chain met (some name) result

/-- The name of the parent of a registered class. -/
def parentOf? (classes : Dict Class) (name : String) : Option String :=
  (classes.find? name).bind Class.parent

/-- The sequence of a name, its parent, the parent of that, and so on. -/
def ancestor? (classes : Dict Class) : String → Nat → Option String
  | name, 0 => some name
  | name, n + 1 => (parentOf? classes name).bind (ancestor? classes · n)

/-- A list of names is a beginning of the sequence of ancestors.  It has registered classes only and
none of them twice, and it is not longer than the limit. -/
structure Ascent (classes : Dict Class) (limit : Nat) (name : String) (path : List String) :
    Prop where
  course : ∀ i, i < path.length → path[i]? = ancestor? classes name i
  registered : ∀ n ∈ path, classes.contains n = true
  nodup : path.Nodup
  length_le : path.length ≤ limit

section Loop

variable {classes : Dict Class} {maxDepth : Nat}

/-- One turn of the loop, in terms of the walk. -/
theorem lineageFrom_succ (classes : Dict Class) (n : Nat) (met : List String) (name : String) :
    lineageFrom classes (n + 1) met name =
      if name ∈ met then []
      else
        match classes.find? name with
        | none => []
        | some c => c :: (c.parent.map (lineageFrom classes n (name :: met))).getD [] := by
  rw [lineageFrom]
  split
  · rfl
  · cases classes.find? name with
    | none => rfl
    | some c =>
        simp only
        cases c.parent <;> rfl

/-- From any point on, the loop ends with the classes so far and the walk from the next name. -/
theorem climbs_lineageFrom (n : Nat) (chain : List Class) (met : List String)
    (next : Option String) (hn : n = maxDepth + 1 - chain.length) :
    Climbs classes maxDepth chain met next
      (chain ++ (next.map (lineageFrom classes n met)).getD []) := by
  induction n generalizing chain met next with
  | zero =>
      cases next with
      | none =>
          rw [Option.map_none, Option.getD_none, List.append_nil]
          exact .top
      | some name =>
          rw [Option.map_some, Option.getD_some, lineageFrom, List.append_nil]
          exact .deep (by omega)
  | succ n ih =>
      have hshort : ¬ maxDepth < chain.length := by omega
      cases next with
      | none =>
          rw [Option.map_none, Option.getD_none, List.append_nil]
          exact .top
      | some name =>
          rw [Option.map_some, Option.getD_some, lineageFrom_succ]
          by_cases hmet : name ∈ met
          · rw [if_pos hmet, List.append_nil]
            exact .circular hshort hmet
          · rw [if_neg hmet]
            cases hc : classes.find? name with
            | none =>
                simp only [List.append_nil]
                exact .missing hshort hmet hc
            | some c =>
                refine .onwards hshort hmet hc ?_
                have hrest := ih (chain ++ [c]) (name :: met) c.parent
                  (by rw [List.length_append, List.length_singleton]; omega)
                rwa [List.append_assoc, List.singleton_append] at hrest

theorem Climbs.result_eq {chain result : List Class} {met : List String} {next : Option String}
    (h : Climbs classes maxDepth chain met next result) :
    result = chain ++
      (next.map (lineageFrom classes (maxDepth + 1 - chain.length) met)).getD [] := by
  induction h with
  | top => rw [Option.map_none, Option.getD_none, List.append_nil]
  | @deep chain met name hdeep =>
      have hdone : maxDepth + 1 - chain.length = 0 := by omega
      rw [hdone, Option.map_some, Option.getD_some, lineageFrom, List.append_nil]
  | @circular chain met name hshort hmet =>
      have hturn : maxDepth + 1 - chain.length = maxDepth - chain.length + 1 := by omega
      rw [hturn, Option.map_some, Option.getD_some, lineageFrom_succ, if_pos hmet, List.append_nil]
  | @missing chain met name hshort hmet hc =>
      have hturn : maxDepth + 1 - chain.length = maxDepth - chain.length + 1 := by omega
      rw [hturn, Option.map_some, Option.getD_some, lineageFrom_succ, if_neg hmet, hc]
      simp only [List.append_nil]
  | @onwards chain result met name c hshort hmet hc _ ih =>
      have hturn : maxDepth + 1 - chain.length = maxDepth + 1 - (chain ++ [c]).length + 1 := by
        rw [List.length_append, List.length_singleton]
        omega
      rw [ih, hturn, Option.map_some, Option.getD_some, lineageFrom_succ, if_neg hmet, hc,
        List.append_assoc, List.singleton_append]

/-- The loop ends with the lineage and with nothing else. -/
theorem climbs_iff {k : Container} {name : String} {result : List Class} :
    Climbs k.classes k.maxDepth [] [] (some name) result ↔ result = k.lineage name := by
  constructor
  · intro h
    exact h.result_eq
  · rintro rfl
    exact climbs_lineageFrom (k.maxDepth + 1) [] [] (some name) rfl

end Loop

section Ascents

variable {classes : Dict Class}

theorem ascent_nil (classes : Dict Class) (limit : Nat) (name : String) :
    Ascent classes limit name [] where
  course _ hi := absurd hi (Nat.not_lt_zero _)
  registered _ hn := absurd hn List.not_mem_nil
  nodup := List.nodup_nil
  length_le := Nat.zero_le limit

/-- A name and an ascent from its parent, if there is one, are an ascent. -/
theorem Ascent.cons {limit : Nat} {name : String} {path : List String}
    (hname : classes.contains name = true) (hfresh : name ∉ path)
    (hpath : path = [] ∨
      ∃ parent, parentOf? classes name = some parent ∧ Ascent classes limit parent path) :
    Ascent classes (limit + 1) name (name :: path) := by
  obtain rfl | ⟨parent, hparent, h⟩ := hpath
  · refine ⟨fun i hi => ?_, fun n hn => ?_, List.nodup_singleton name, by simp⟩
    · obtain rfl : i = 0 := by simpa using hi
      rfl
    · obtain rfl := List.mem_singleton.1 hn
      exact hname
  · refine ⟨fun i hi => ?_, fun n hn => ?_, List.nodup_cons.2 ⟨hfresh, h.nodup⟩, ?_⟩
    · cases i with
      | zero => rfl
      | succ i =>
          rw [List.getElem?_cons_succ, h.course i (Nat.lt_of_succ_lt_succ hi), ancestor?, hparent,
            Option.bind_some]
    · rcases List.mem_cons.1 hn with rfl | hn
      · exact hname
      · exact h.registered n hn
    · have hle := h.length_le
      rw [List.length_cons]
      omega

/-- An ascent starts with the name, and what follows is an ascent from the parent. -/
theorem Ascent.of_cons {limit : Nat} {name first : String} {path : List String}
    (h : Ascent classes limit name (first :: path)) :
    first = name ∧ classes.contains name = true ∧ name ∉ path ∧ (path = [] ∨
      ∃ parent, parentOf? classes name = some parent ∧
        Ascent classes (limit - 1) parent path) := by
  obtain rfl : first = name := Option.some.inj (h.course 0 (Nat.succ_pos _))
  obtain ⟨hfresh, hnodup⟩ := List.nodup_cons.1 h.nodup
  have hlength : path.length + 1 ≤ limit := h.length_le
  refine ⟨rfl, h.registered first List.mem_cons_self, hfresh, ?_⟩
  have hcourse : ∀ i, i < path.length →
      path[i]? = (parentOf? classes first).bind (ancestor? classes · i) := by
    intro i hi
    have hnext := h.course (i + 1) (Nat.succ_lt_succ hi)
    rwa [List.getElem?_cons_succ, ancestor?] at hnext
  cases hparent : parentOf? classes first with
  | none =>
      left
      rw [hparent] at hcourse
      cases path with
      | nil => rfl
      | cons second path =>
          have hnone := hcourse 0 (Nat.succ_pos _)
          cases hnone
  | some parent =>
      right
      refine ⟨parent, rfl, fun i hi => ?_, fun n hn => ?_, hnodup, by omega⟩
      · rw [hcourse i hi, hparent, Option.bind_some]
      · exact h.registered n (List.mem_cons_of_mem _ hn)

/-- A walk is an ascent and comes to no class that was met before. -/
theorem ascent_lineageFrom (h : Consistent classes) (n : Nat) (met : List String)
    (name : String) :
    Ascent classes n name ((lineageFrom classes n met name).map Class.name) ∧
      ∀ m ∈ (lineageFrom classes n met name).map Class.name, m ∉ met := by
  induction n generalizing met name with
  | zero => exact ⟨ascent_nil _ _ _, fun m hm => absurd hm List.not_mem_nil⟩
  | succ n ih =>
      have hnil : Ascent classes (n + 1) name [] ∧ ∀ m ∈ ([] : List String), m ∉ met :=
        ⟨ascent_nil _ _ _, fun m hm => absurd hm List.not_mem_nil⟩
      rw [lineageFrom_succ]
      by_cases hmet : name ∈ met
      · rw [if_pos hmet]
        exact hnil
      · rw [if_neg hmet]
        cases hc : classes.find? name with
        | none => exact hnil
        | some c =>
            have hname : c.name = name := h.named name c hc
            have hregistered : classes.contains name = true := by
              rw [Dict.contains, hc]
              rfl
            have hparentOf : parentOf? classes name = c.parent := by
              rw [parentOf?, hc, Option.bind_some]
            simp only [List.map_cons, hname]
            cases hparent : c.parent with
            | none =>
                refine ⟨.cons hregistered List.not_mem_nil (.inl rfl), fun m hm => ?_⟩
                obtain rfl := List.mem_singleton.1 hm
                exact hmet
            | some parent =>
                obtain ⟨hascent, hfresh⟩ := ih (name :: met) parent
                rw [hparent] at hparentOf
                refine ⟨.cons hregistered (fun hmem => ?_) (.inr ⟨parent, hparentOf, hascent⟩),
                  fun m hm => ?_⟩
                · exact hfresh name hmem List.mem_cons_self
                · rcases List.mem_cons.1 hm with rfl | hm
                  · exact hmet
                  · exact fun hold => hfresh m hm (List.mem_cons_of_mem name hold)

/-- Every ascent that comes to no class met before is a beginning of the walk. -/
theorem prefix_lineageFrom (h : Consistent classes) {n : Nat} {met : List String} {name : String}
    {path : List String} (hpath : Ascent classes n name path) (hfresh : ∀ m ∈ path, m ∉ met) :
    path <+: (lineageFrom classes n met name).map Class.name := by
  induction n generalizing met name path with
  | zero =>
      obtain rfl := List.length_eq_zero_iff.1 (Nat.le_zero.1 hpath.length_le)
      exact List.nil_prefix
  | succ n ih =>
      cases path with
      | nil => exact List.nil_prefix
      | cons first path =>
          obtain ⟨rfl, hregistered, hnot, hrest⟩ := hpath.of_cons
          obtain ⟨c, hc⟩ := Option.isSome_iff_exists.1 hregistered
          have hmet : first ∉ met := hfresh first List.mem_cons_self
          rw [lineageFrom_succ, if_neg hmet, hc]
          simp only [List.map_cons, h.named first c hc, List.prefix_cons_inj]
          obtain rfl | ⟨parent, hparent, hascent⟩ := hrest
          · exact List.nil_prefix
          · rw [parentOf?, hc, Option.bind_some] at hparent
            rw [hparent, Option.map_some, Option.getD_some]
            refine ih hascent fun m hm hmem => ?_
            rcases List.mem_cons.1 hmem with rfl | hold
            · exact hnot hm
            · exact hfresh m (List.mem_cons_of_mem _ hm) hold

end Ascents

theorem lineage_eq_nil_iff {k : Container} {name : String} :
    k.lineage name = [] ↔ k.hasClass name = false := by
  constructor
  · intro hnil
    cases hc : k.classes.find? name with
    | none => rw [hasClass, Dict.contains, hc, Option.isSome_none]
    | some c =>
        obtain ⟨further, hlineage⟩ := lineage_of_find? hc
        rw [hnil] at hlineage
        cases hlineage
  · exact lineage_of_not_hasClass

end Container

section Limit

theorem maxDepth_registry (c : RegistryCall) (e : Engine) :
    (c.perform e).container.maxDepth = e.container.maxDepth := by
  obtain ⟨name, native, returns, rfl⟩ | hcore := sameCore_registry c e
  · rfl
  · exact hcore.maxDepth

/-- No call changes the depth limit. -/
theorem maxDepth_perform (c : EngineCall) (e : Engine) :
    (c.perform e).container.maxDepth = e.container.maxDepth := by
  cases c with
  | scope c =>
      show (c.perform e).container.maxDepth = e.container.maxDepth
      rw [container_scopeCall]
  | registry c => exact maxDepth_registry c e
  | store c => rfl
  | add a id target => rfl
  | assign name c => rfl
  | call callee args => rfl

theorem maxDepth_run (e : Engine) (calls : List EngineCall) :
    (e.run calls).container.maxDepth = e.container.maxDepth := by
  refine Engine.run_induction
    (P := fun f => f.container.maxDepth = e.container.maxDepth) ?_ calls rfl
  intro c f hf
  rw [maxDepth_perform, hf]

end Limit

/-- A container is built with any depth limit and then used in any way.  From every name the loop
that collects a lineage ends, and always with the lineage, which has the classes as registered.
Their names are the longest beginning of the sequence of ancestors that has registered classes only,
none of them twice, and at most one more than the limit: they are such a beginning, and every other
one is a beginning of them.  A lineage is empty if and only if the name is not that of a class. -/
theorem lineages_longest (rootName : String) (hname : rootName ≠ "") (maxDepth : Nat) (s : Store) :
    ∃ k s', Container.build rootName maxDepth s = (.ok k, s') ∧
      ∀ (calls : List EngineCall) (name : String),
        let now := (Engine.run ⟨s', k⟩ calls).container
        let names := (now.lineage name).map Class.name
        (∀ result, Container.Climbs now.classes maxDepth [] [] (some name) result ↔
          result = now.lineage name) ∧
        (∀ c ∈ now.lineage name, now.class? c.name = some c) ∧
        Container.Ascent now.classes (maxDepth + 1) name names ∧
        (∀ path, Container.Ascent now.classes (maxDepth + 1) name path → path <+: names) ∧
        (now.lineage name = [] ↔ now.hasClass name = false) := by
  refine ⟨_, _, build_of_ne_empty hname maxDepth s, fun calls name => ?_⟩
  intro now names
  have hconsistent : Consistent now.classes := consistent_run rootName maxDepth s calls
  have hlimit : now.maxDepth = maxDepth := maxDepth_run _ calls
  have hnames : names =
      (Container.lineageFrom now.classes (maxDepth + 1) [] name).map Class.name := by
    rw [← hlimit]
    rfl
  refine ⟨fun result => ?_, fun c => Container.find?_of_mem_lineage hconsistent, ?_,
    fun path hpath => ?_, Container.lineage_eq_nil_iff⟩
  · rw [← hlimit]
    exact Container.climbs_iff
  · rw [hnames]
    exact (Container.ascent_lineageFrom hconsistent _ _ _).1
  · rw [hnames]
    exact Container.prefix_lineageFrom hconsistent hpath fun _ _ => List.not_mem_nil

/-- A circle of three classes that a fourth one leads into, and a class that is its own parent. -/
def circleWithEntry : List EngineCall :=
  [.registry (.registerClass "A"), .registry (.registerSubclass "B" "A"),
    .registry (.registerSubclass "C" "B"), .registry (.registerSubclass "D" "C"),
    .registry (.registerSubclass "A" "C"), .registry (.registerClass "E"),
    .registry (.registerSubclass "E" "E")]

/-- With a limit of one the walk is cut off in the circle, with a limit of ten it goes round
once. -/
theorem circle_climbed_once :
    "main" ≠ "" ∧
    (∃ k s', Container.build "main" 1 Store.empty = (.ok k, s') ∧
      let now := (Engine.run ⟨s', k⟩ circleWithEntry).container
      Container.Ascent now.classes 2 "D" ["D", "C"] ∧
      ¬ Container.Ascent now.classes 2 "D" ["D", "C", "B"]) ∧
    ∃ k s', Container.build "main" 10 Store.empty = (.ok k, s') ∧
      let now := (Engine.run ⟨s', k⟩ circleWithEntry).container
      (now.lineage "D").map Class.name = ["D", "C", "B", "A"] ∧
      Container.Climbs now.classes 10 [] [] (some "D") (now.lineage "D") ∧
      Container.Ascent now.classes 11 "D" ["D", "C", "B", "A"] ∧
      ¬ Container.Ascent now.classes 11 "D" ["D", "C", "B", "A", "C"] ∧
      Container.Ascent now.classes 11 "E" ["E"] ∧ now.lineage "F" = [] := by
  have hname : "main" ≠ "" := by decide
  obtain ⟨k, s', hbuild, hrun⟩ := lineages_longest "main" hname 1 Store.empty
  obtain ⟨l, t', hbuild', hrun'⟩ := lineages_longest "main" hname 10 Store.empty
  refine ⟨hname, ⟨k, s', hbuild, ?_⟩, l, t', hbuild', ?_⟩
  · obtain ⟨-, -, hascent, hgreatest, -⟩ := hrun circleWithEntry "D"
    cases hbuild
    intro now
    have hnames : (now.lineage "D").map Class.name = ["D", "C"] := by decide +kernel
    rw [hnames] at hascent hgreatest
    exact ⟨hascent, fun h => absurd (hgreatest _ h) (by decide)⟩
  · obtain ⟨hclimbs, -, hascent, hgreatest, -⟩ := hrun' circleWithEntry "D"
    obtain ⟨-, -, hself, -⟩ := hrun' circleWithEntry "E"
    obtain ⟨-, -, -, -, hempty⟩ := hrun' circleWithEntry "F"
    cases hbuild'
    intro now
    have hnames : (now.lineage "D").map Class.name = ["D", "C", "B", "A"] := by decide +kernel
    have hown : (now.lineage "E").map Class.name = ["E"] := by decide +kernel
    rw [hnames] at hascent hgreatest
    rw [hown] at hself
    exact ⟨hnames, (hclimbs _).2 rfl, hascent, fun h => absurd (hgreatest _ h) (by decide), hself,
      hempty.2 (by decide +kernel)⟩

end ScriptCore
