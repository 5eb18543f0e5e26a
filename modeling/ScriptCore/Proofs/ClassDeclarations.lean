import Mathlib.Data.List.Nodup
import Mathlib.Logic.Relation
import ScriptCore.Proofs.EngineRuns

/-!
# What classes declare

Classes are registered, get parents and declare members.  A class that is registered again is left
as it is, a parent may be exchanged for another one, so that hierarchies run in circles, and a
member whose name is taken is refused.  Static cells come and go, and modules are taken off their
list again.

**Steps.**  `ClassStep`: all that a call can do to the registered classes.  A call takes no step,
one step, or two if a subclass is new.  What is proved of a step holds of every run, and no later
proof looks into a call.

**Invariant.**  `Consistent`: classes are under their own names and parents are registered, and the
members of a class have names of their own and are named after the class.

**Order.**  `Grows`: classes stay, and what they declare later comes after what they declare now.

**Results.**
* `steps_run`: a run is a sequence of steps.
* `Consistent.step`, `Grows.step`: what a step keeps.
* `class_declarations_kept`: what every run of a container keeps.
-/

namespace ScriptCore

/-- A change of one class. -/
inductive ClassStep (classes : Dict Class) : Dict Class → Prop
  | register (name : String) (origin : Option String) :
      classes.find? name = none →
      ClassStep classes (classes.insert name (Class.new name origin))
  | inherit {name : String} {c : Class} (parent : String) :
      classes.find? name = some c → classes.contains parent = true →
      ClassStep classes (classes.insert name { c with parent := some parent })
  | property {name : String} {c : Class} (p : Property) (statics : Dict CellId) :
      classes.find? name = some c → c.property? p.name = none →
      ClassStep classes (classes.insert name { c.declareProperty p with statics })
  | method {name : String} {c : Class} (m : Method) :
      classes.find? name = some c → c.method? m.name = none →
      ClassStep classes (classes.insert name (c.declareMethod (m.ownedBy name)))
  | statics {name : String} {c : Class} (statics : Dict CellId) :
      classes.find? name = some c →
      ClassStep classes (classes.insert name { c with statics })

/-- Any number of changes. -/
abbrev ClassSteps : Dict Class → Dict Class → Prop := Relation.ReflTransGen ClassStep

namespace Container

variable (k : Container)

theorem find?_registerClass (name other : String) :
    (k.registerClass name).classes.find? other =
      if other = name then some ((k.classes.find? name).getD (Class.new name k.currentModule))
      else k.classes.find? other := by
  unfold registerClass
  cases hname : k.classes.find? name with
  | none =>
      rw [if_neg (by simp [Dict.contains, hname])]
      exact Dict.find?_insert _ _ _ _
  | some c =>
      rw [if_pos (by simp [Dict.contains, hname])]
      by_cases hother : other = name
      · rw [if_pos hother, hother, hname, Option.getD_some]
      · rw [if_neg hother]

theorem contains_registerClass {name other : String} (h : k.classes.contains other = true) :
    (k.registerClass name).classes.contains other = true := by
  unfold registerClass
  split
  · exact h
  · exact Dict.contains_insert_iff.2 (.inr h)

theorem registerSubclass_of_contains (name : String) {parent : String}
    (h : k.classes.contains parent = true) :
    registerSubclass name parent k = (.ok (), { k.registerClass name with
      classes := (k.registerClass name).classes.modify name fun c =>
        { c with parent := some parent } }) := by
  unfold registerSubclass
  rw [if_pos h]

theorem registerSubclass_of_not_contains (name : String) {parent : String}
    (h : ¬ k.classes.contains parent = true) :
    registerSubclass name parent k =
      (.error ((Error.of (.unknownClass parent)).withNote s!"parent of {name}"), k) := by
  unfold registerSubclass
  rw [if_neg h]

theorem steps_registerClass (name : String) :
    ClassSteps k.classes (k.registerClass name).classes := by
  unfold registerClass
  by_cases hname : k.classes.contains name = true
  · rw [if_pos hname]
  · rw [if_neg hname]
    exact .single (.register name _ (by simpa [Dict.contains] using hname))

theorem steps_registerSubclass (name parent : String) :
    ClassSteps k.classes (registerSubclass name parent k).2.classes := by
  by_cases hparent : k.classes.contains parent = true
  · have hfound : (k.registerClass name).classes.find? name =
        some ((k.classes.find? name).getD (Class.new name k.currentModule)) := by
      rw [find?_registerClass, if_pos rfl]
    rw [registerSubclass_of_contains k name hparent]
    refine (steps_registerClass k name).tail ?_
    rw [Dict.modify_of_find? hfound]
    exact .inherit parent hfound (contains_registerClass k hparent)
  · rw [registerSubclass_of_not_contains k name hparent]

theorem steps_addMethod (owner : String) (m : Method) :
    ClassSteps k.classes (addMethod owner m k).2.classes := by
  unfold addMethod
  cases hc : k.classes.find? owner with
  | none => exact .refl
  | some c =>
      cases hm : c.method? m.name with
      | some _ => simp only [hm, Option.isSome_some, if_true]; exact .refl
      | none =>
          simp only [hm, Option.isSome_none, Bool.false_eq_true, if_false]
          exact .single (.method m hc hm)

theorem updateClass_of_find? {k : Container} {name : String} {c : Class}
    (h : k.classes.find? name = some c) (f : Class → Class) :
    updateClass name f k = (.ok (), k.putClass name (f c)) := by
  simp only [updateClass, h, putClass]

/-- Static cells are changed in a class that is registered, if anywhere. -/
theorem steps_updateClass (name : String) (f : Class → Class)
    (hf : ∀ c, ∃ statics, f c = { c with statics }) :
    ClassSteps k.classes (updateClass name f k).2.classes := by
  unfold updateClass
  cases hc : k.classes.find? name with
  | none => exact .refl
  | some c =>
      obtain ⟨statics, hstatics⟩ := hf c
      show ClassSteps _ (k.classes.insert name (f c))
      rw [hstatics]
      exact .single (.statics statics hc)

theorem classes_removeModule (name : String) : (removeModule name k).2.classes = k.classes := by
  unfold removeModule
  split <;> rfl

theorem classes_describeModule (name description : String) :
    (describeModule name description k).2.classes = k.classes := by
  unfold describeModule
  split <;> rfl

end Container

theorem steps_addProperty (owner : String) (p : Property) (e : Engine) :
    ClassSteps e.container.classes (Engine.addProperty owner p e).2.container.classes := by
  unfold Engine.addProperty
  cases hc : e.container.classes.find? owner with
  | none => simp only [hc]; exact .refl
  | some c =>
      cases hp : c.property? p.name with
      | some _ => simp only [hc, hp, Option.isSome_some, if_true]; exact .refl
      | none =>
          simp only [hc, hp, Option.isSome_none, Bool.false_eq_true, if_false]
          split
          · exact .single (.property p _ hc hp)
          · exact .single (.property p c.statics hc hp)

theorem steps_registry (c : RegistryCall) (e : Engine) :
    ClassSteps e.container.classes (c.perform e).container.classes := by
  cases c with
  | registerFunction name native returns => exact .refl
  | registerDoc key doc => exact .refl
  | registerClass name => exact e.container.steps_registerClass name
  | registerSubclass name parent => exact e.container.steps_registerSubclass name parent
  | addProperty owner p => exact steps_addProperty owner p e
  | addMethod owner m => exact e.container.steps_addMethod owner m
  | setStatic name property cell =>
      exact e.container.steps_updateClass _ _ fun c => ⟨_, rfl⟩
  | eraseStatic name property => exact e.container.steps_updateClass _ _ fun c => ⟨_, rfl⟩
  | clearStatics name => exact e.container.steps_updateClass _ _ fun c => ⟨_, rfl⟩
  | openModule name => exact .refl
  | closeModule previous listed => exact .refl
  | removeModule name =>
      show ClassSteps _ (Container.removeModule name e.container).2.classes
      rw [Container.classes_removeModule]
  | describeModule name description =>
      show ClassSteps _ (Container.describeModule name description e.container).2.classes
      rw [Container.classes_describeModule]

/-- Scopes come and go without the registries. -/
theorem container_scopeCall (c : ScopeCall) (e : Engine) :
    (c.perform e).container =
      { e.container with
        stack := (c.perform e).container.stack
        scopes := (c.perform e).container.scopes
        nextFrame := (c.perform e).container.nextFrame } := by
  cases c with
  | create name => rfl
  | enterBlock name => rfl
  | enterCall base => rfl
  | enter name =>
      cases htable : e.container.scopes.find? name <;>
        simp [ScopeCall.perform, Engine.onContainer, Action.onPart, Container.enter, htable]
  | leave =>
      cases hpop : e.container.stack.pop? <;>
        simp [ScopeCall.perform, Engine.leave, Container.leave, hpop]
  | stepOut =>
      cases hpop : e.container.stack.pop? <;>
        simp [ScopeCall.perform, Container.stepOut, hpop]

theorem steps_perform (c : EngineCall) (e : Engine) :
    ClassSteps e.container.classes (c.perform e).container.classes := by
  cases c with
  | scope c =>
      show ClassSteps _ (c.perform e).container.classes
      rw [container_scopeCall]
  | registry c => exact steps_registry c e
  | store c => exact .refl
  | add a id target => exact .refl
  | assign name c => exact .refl
  | call callee args => exact .refl

theorem steps_run (calls : List EngineCall) (e : Engine) :
    ClassSteps e.container.classes (e.run calls).container.classes := by
  refine Engine.run_induction
    (P := fun f => ClassSteps e.container.classes f.container.classes) ?_ calls .refl
  intro c f hf
  exact hf.trans (steps_perform c f)

/-- The members of a class have names of their own, where a leading dollar sign does not make a
property another one, and its methods are named after the class. -/
structure Class.Orderly (c : Class) : Prop where
  properties : (c.properties.map fun p => bareName p.name).Nodup
  methods : (c.methods.map Method.name).Nodup
  qualified : ∀ m ∈ c.methods, m.qualified = c.name ++ "::" ++ m.name ∧ m.doc.name = m.qualified

namespace Class

theorem orderly_new (name : String) (origin : Option String) : (new name origin).Orderly :=
  ⟨List.nodup_nil, List.nodup_nil, fun _ hm => absurd hm List.not_mem_nil⟩

theorem nodup_map_append {α : Type} {key : α → String} {members : List α} {a : α}
    (h : (members.map key).Nodup) (hnew : members.find? (fun b => key b == key a) = none) :
    ((members ++ [a]).map key).Nodup := by
  rw [List.map_append, List.map_singleton, ← List.concat_eq_append]
  refine h.concat ?_
  intro hmem
  obtain ⟨b, hb, heq⟩ := List.mem_map.1 hmem
  exact List.find?_eq_none.1 hnew b hb (beq_iff_eq.2 heq)

theorem Orderly.declareProperty {c : Class} (h : c.Orderly) {p : Property}
    (hp : c.property? p.name = none) : (c.declareProperty p).Orderly where
  properties := nodup_map_append h.properties hp
  methods := h.methods
  qualified := h.qualified

theorem Orderly.declareMethod {c : Class} (h : c.Orderly) {m : Method}
    (hm : c.method? m.name = none) : (c.declareMethod (m.ownedBy c.name)).Orderly where
  properties := h.properties
  methods := nodup_map_append h.methods hm
  qualified := by
    intro q hq
    obtain hq | hq := List.mem_append.1 hq
    · exact h.qualified q hq
    · obtain rfl := List.mem_singleton.1 hq
      exact ⟨rfl, rfl⟩

end Class

/-- Classes are under their own names, parents are registered, and every class is orderly. -/
structure Consistent (classes : Dict Class) : Prop where
  named : ∀ name c, classes.find? name = some c → c.name = name
  parents : ∀ name c parent, classes.find? name = some c → c.parent = some parent →
    classes.contains parent = true
  orderly : ∀ name c, classes.find? name = some c → c.Orderly

namespace Consistent

variable {classes later : Dict Class}

theorem empty : Consistent .empty where
  named name c hc := by simp at hc
  parents name c parent hc := by simp at hc
  orderly name c hc := by simp at hc

/-- A class may be put under its own name if its parent is registered before or is there already. -/
theorem insert (h : Consistent classes) {name : String} {d : Class} (hname : d.name = name)
    (hparent : ∀ parent, d.parent = some parent → classes.contains parent = true)
    (hd : d.Orderly) : Consistent (classes.insert name d) where
  named other c hc := by
    rw [Dict.find?_insert] at hc
    split at hc
    · next hother =>
        obtain rfl := Option.some.inj hc
        rw [hname, hother]
    · exact h.named other c hc
  parents other c parent hc hp := by
    rw [Dict.find?_insert] at hc
    refine Dict.contains_insert_iff.2 (.inr ?_)
    split at hc
    · obtain rfl := Option.some.inj hc
      exact hparent parent hp
    · exact h.parents other c parent hc hp
  orderly other c hc := by
    rw [Dict.find?_insert] at hc
    split at hc
    · obtain rfl := Option.some.inj hc
      exact hd
    · exact h.orderly other c hc

theorem step (h : Consistent classes) (hstep : ClassStep classes later) : Consistent later := by
  cases hstep with
  | register name origin _ =>
      exact h.insert rfl (fun _ hp => nomatch hp) (Class.orderly_new name origin)
  | @inherit name c parent hc hparent =>
      have horderly := h.orderly name c hc
      refine h.insert (h.named name c hc) ?_
        ⟨horderly.properties, horderly.methods, horderly.qualified⟩
      intro other hother
      obtain rfl := Option.some.inj hother
      exact hparent
  | @property name c p statics hc hp =>
      have horderly := (h.orderly name c hc).declareProperty hp
      exact h.insert (h.named name c hc) (h.parents name c · hc)
        ⟨horderly.properties, horderly.methods, horderly.qualified⟩
  | @method name c m hc hm =>
      have hname : c.name = name := h.named name c hc
      refine h.insert hname (h.parents name c · hc) ?_
      rw [← hname]
      exact (h.orderly name c hc).declareMethod hm
  | @statics name c statics hc =>
      have horderly := h.orderly name c hc
      exact h.insert (h.named name c hc) (h.parents name c · hc)
        ⟨horderly.properties, horderly.methods, horderly.qualified⟩

theorem steps (h : Consistent classes) (hsteps : ClassSteps classes later) : Consistent later := by
  induction hsteps with
  | refl => exact h
  | tail _ hstep ih => exact ih.step hstep

end Consistent

/-- Every class is still there, and its members come first in their order. -/
def Grows (classes later : Dict Class) : Prop :=
  ∀ name c, classes.find? name = some c → ∃ d, later.find? name = some d ∧
    c.properties <+: d.properties ∧ c.methods <+: d.methods

namespace Grows

variable {classes later latest : Dict Class}

theorem refl (classes : Dict Class) : Grows classes classes := fun _ c hc =>
  ⟨c, hc, List.prefix_rfl, List.prefix_rfl⟩

theorem trans (h : Grows classes later) (h' : Grows later latest) : Grows classes latest := by
  intro name c hc
  obtain ⟨d, hd, hproperties, hmethods⟩ := h name c hc
  obtain ⟨d', hd', hproperties', hmethods'⟩ := h' name d hd
  exact ⟨d', hd', hproperties.trans hproperties', hmethods.trans hmethods'⟩

theorem insert {name : String} {d : Class}
    (h : ∀ c, classes.find? name = some c →
      c.properties <+: d.properties ∧ c.methods <+: d.methods) :
    Grows classes (classes.insert name d) := by
  intro other c hc
  by_cases hother : other = name
  · subst hother
    exact ⟨d, Dict.find?_insert_self _ _ _, h c hc⟩
  · refine ⟨c, ?_, List.prefix_rfl, List.prefix_rfl⟩
    rw [Dict.find?_insert, if_neg hother, hc]

theorem step (hstep : ClassStep classes later) : Grows classes later := by
  cases hstep with
  | register name origin hnew =>
      refine insert fun c hc => ?_
      rw [hnew] at hc
      cases hc
  | inherit parent hfound _ =>
      refine insert fun c hc => ?_
      obtain rfl := Option.some.inj (hfound.symm.trans hc)
      exact ⟨List.prefix_rfl, List.prefix_rfl⟩
  | property p statics hfound _ =>
      refine insert fun c hc => ?_
      obtain rfl := Option.some.inj (hfound.symm.trans hc)
      exact ⟨List.prefix_append _ _, List.prefix_rfl⟩
  | method m hfound _ =>
      refine insert fun c hc => ?_
      obtain rfl := Option.some.inj (hfound.symm.trans hc)
      exact ⟨List.prefix_rfl, List.prefix_append _ _⟩
  | statics statics hfound =>
      refine insert fun c hc => ?_
      obtain rfl := Option.some.inj (hfound.symm.trans hc)
      exact ⟨List.prefix_rfl, List.prefix_rfl⟩

theorem steps (hsteps : ClassSteps classes later) : Grows classes later := by
  induction hsteps with
  | refl => exact .refl _
  | tail _ hstep ih => exact ih.trans (.step hstep)

end Grows

/-- The classes are consistent after any run of a container that was built. -/
theorem consistent_run (rootName : String) (maxDepth : Nat) (s : Store)
    (calls : List EngineCall) :
    Consistent (Engine.run ⟨(Store.addTable none s).2,
      Container.withRoot ⟨rootName, s.tables.next⟩ maxDepth⟩ calls).container.classes :=
  Consistent.empty.steps (steps_run calls
    ⟨(Store.addTable none s).2, Container.withRoot ⟨rootName, s.tables.next⟩ maxDepth⟩)

/-- A container that was built under a name has consistent classes after every run, and whatever
comes after a run leaves its classes and their members where they are. -/
theorem class_declarations_kept (rootName : String) (hname : rootName ≠ "") (maxDepth : Nat)
    (s : Store) :
    ∃ k s', Container.build rootName maxDepth s = (.ok k, s') ∧ ∀ calls,
      Consistent (Engine.run ⟨s', k⟩ calls).container.classes ∧
      ∀ later, Grows (Engine.run ⟨s', k⟩ calls).container.classes
        (Engine.run ⟨s', k⟩ (calls ++ later)).container.classes := by
  refine ⟨_, _, build_of_ne_empty hname maxDepth s, fun calls => ⟨?_, fun later => ?_⟩⟩
  · exact consistent_run rootName maxDepth s calls
  · rw [Engine.run_append]
    exact .steps (steps_run later _)

/-- A class and its subclass come from a module.  The second property is refused, since a dollar sign
does not make it another one. -/
def declaredClasses : List EngineCall :=
  [.registry (.openModule "m"), .registry (.registerClass "A"),
    .registry (.registerSubclass "B" "A"), .registry (.closeModule none (some ⟨"m", ""⟩)),
    .registry (.addProperty "A" ⟨"$x", .int, none, false, true⟩),
    .registry (.addProperty "A" ⟨"x", .int, none, false, false⟩),
    .registry (.addMethod "B" (.new "run" .null [] "" false none))]

/-- The subclass becomes the parent of its parent, an unknown parent is refused, and the static cells
and the module are dropped. -/
def closedCircle : List EngineCall :=
  [.registry (.registerSubclass "A" "B"), .registry (.registerSubclass "A" "C"),
    .registry (.addMethod "B" (.new "stop" .null [] "" false none)),
    .registry (.clearStatics "A"), .registry (.removeModule "m")]

theorem circular_classes_kept :
    "main" ≠ "" ∧
    ∃ k s', Container.build "main" defaultMaxDepth Store.empty = (.ok k, s') ∧
      (let e := Engine.run ⟨s', k⟩ (declaredClasses ++ closedCircle)
      Consistent e.container.classes ∧
      (e.container.classes.find? "A").bind Class.parent = some "B" ∧
      (e.container.classes.find? "B").bind Class.parent = some "A" ∧
      (e.container.classes.find? "A").map (·.properties.map Property.name) = some ["$x"] ∧
      (e.container.classes.find? "B").map (·.methods.map Method.qualified) =
        some ["B::run", "B::stop"]) ∧
      Grows (Engine.run ⟨s', k⟩ declaredClasses).container.classes
        (Engine.run ⟨s', k⟩ (declaredClasses ++ closedCircle)).container.classes := by
  have hname : "main" ≠ "" := by decide
  obtain ⟨k, s', hbuild, hrun⟩ :=
    class_declarations_kept "main" hname defaultMaxDepth Store.empty
  refine ⟨hname, k, s', hbuild, ⟨(hrun _).1, ?_⟩, (hrun declaredClasses).2 closedCircle⟩
  cases hbuild
  decide +kernel

end ScriptCore
