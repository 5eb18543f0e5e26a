import ScriptCore.Proofs.ClassDeclarations
import ScriptCore.Proofs.Reports

/-!
# The documentation of methods

A method is kept in its class and documented under its qualified name.  Two classes may declare
methods with the same qualified name, since `A::B::m` is the method `B::m` of `A` as well as the
method `m` of `A::B`; then the method that was declared last is the one that is documented.

**History.**  `Engine.declared` lists the methods that a run declared, the latest first.  The
methods of a class are its declarations in order (`methodsIn_run`), and the documentation under a
qualified name is that of the latest declaration of the name (`doc?_run`), whatever functions were
registered under it.

**Results.**
* `EngineCall.effect`: what a call does to methods and documentation.
* `methodsIn_run`, `doc?_run`: what a run does to them.
* `documented_of_doc?`: the reports on a name and on a class agree on a method that is documented
  under its qualified name.
* `latest_method_documented`: which method a qualified name documents, after any run.
-/

namespace ScriptCore

/-- The method that a call declares, with its class. -/
def EngineCall.declared? (e : Engine) : EngineCall → Option (String × Method)
  | .registry (.addMethod owner m) =>
      match (Container.addMethod owner m e.container).1 with
      | .ok _ => some (owner, m.ownedBy owner)
      | .error _ => none
  | _ => none

/-- The name that a call documents other than by declaring a method. -/
def EngineCall.documented? : EngineCall → Option String
  | .registry (.registerDoc key _) => some key
  | _ => none

/-- The methods that a run declares, with their classes, the latest first. -/
def Engine.declared (e : Engine) : List EngineCall → List (String × Method)
  | [] => []
  | call :: rest => (call.perform e).declared rest ++ (call.declared? e).toList

theorem Engine.declared_append_singleton (e : Engine) (calls : List EngineCall)
    (call : EngineCall) :
    e.declared (calls ++ [call]) = (call.declared? (e.run calls)).toList ++ e.declared calls := by
  induction calls generalizing e with
  | nil => simp [Engine.declared, Engine.run]
  | cons first calls ih =>
      rw [List.cons_append, Engine.declared, ih, Engine.declared, List.append_assoc]
      rfl

/-- The methods of a class, none if it is not registered. -/
def methodsIn (classes : Dict Class) (owner : String) : List Method :=
  ((classes.find? owner).map Class.methods).getD []

section Methods

theorem methodsIn_of_find? {classes : Dict Class} {owner : String} {c : Class}
    (h : classes.find? owner = some c) : methodsIn classes owner = c.methods := by
  rw [methodsIn, h]
  rfl

theorem mem_methodsIn_iff {classes : Dict Class} {owner : String} {m : Method} :
    m ∈ methodsIn classes owner ↔ ∃ c, classes.find? owner = some c ∧ m ∈ c.methods := by
  unfold methodsIn
  cases classes.find? owner <;> simp

theorem methodsIn_insert (classes : Dict Class) (name : String) (c : Class) (owner : String) :
    methodsIn (classes.insert name c) owner =
      if owner = name then c.methods else methodsIn classes owner := by
  unfold methodsIn
  rw [Dict.find?_insert]
  split <;> rfl

/-- A class that is put in the place of one with the same methods. -/
theorem methodsIn_insert_same {classes : Dict Class} {name : String} {c : Class}
    (h : c.methods = methodsIn classes name) (owner : String) :
    methodsIn (classes.insert name c) owner = methodsIn classes owner := by
  rw [methodsIn_insert]
  split
  · next howner => rw [h, howner]
  · rfl

theorem methodsIn_registerClass (k : Container) (name owner : String) :
    methodsIn (k.registerClass name).classes owner = methodsIn k.classes owner := by
  unfold methodsIn
  rw [Container.find?_registerClass]
  split
  · next howner =>
      subst howner
      cases k.classes.find? owner <;> rfl
  · rfl

theorem methodsIn_registerSubclass (k : Container) (name parent owner : String) :
    methodsIn (Container.registerSubclass name parent k).2.classes owner =
      methodsIn k.classes owner := by
  by_cases hparent : k.classes.contains parent = true
  · have hfound := k.find?_registerClass name name
    rw [if_pos rfl] at hfound
    rw [k.registerSubclass_of_contains name hparent, Dict.modify_of_find? hfound]
    refine Eq.trans (methodsIn_insert_same ?_ owner) (methodsIn_registerClass k name owner)
    exact (methodsIn_of_find? hfound).symm
  · rw [k.registerSubclass_of_not_contains name hparent]

theorem methodsIn_updateClass (k : Container) (name : String) {f : Class → Class}
    (hf : ∀ c, (f c).methods = c.methods) (owner : String) :
    methodsIn (Container.updateClass name f k).2.classes owner = methodsIn k.classes owner := by
  unfold Container.updateClass
  cases hc : k.classes.find? name with
  | none => rfl
  | some c => exact methodsIn_insert_same ((hf c).trans (methodsIn_of_find? hc).symm) owner

theorem methodsIn_addProperty (owner name : String) (p : Property) (e : Engine) :
    methodsIn (Engine.addProperty name p e).2.container.classes owner =
      methodsIn e.container.classes owner := by
  unfold Engine.addProperty
  cases hc : e.container.classes.find? name with
  | none => simp only [hc]
  | some c =>
      have hmethods := (methodsIn_of_find? hc).symm
      cases hp : c.property? p.name with
      | some _ => simp only [hc, hp, Option.isSome_some, if_true]
      | none =>
          simp only [hc, hp, Option.isSome_none, Bool.false_eq_true, if_false]
          split
          all_goals refine methodsIn_insert_same ?_ owner
          all_goals exact hmethods

end Methods

/-- A function does not take the place of documentation that is there. -/
theorem doc?_registerFunction {k : Container} {key : String} {d : Doc} (h : k.doc? key = some d)
    (name : String) (native : Native) (returns : Tag) :
    (k.registerFunction name native returns).doc? key = some d := by
  unfold Container.doc? at h ⊢
  unfold Container.registerFunction
  by_cases hname : k.docs.contains name = true
  · simp only [hname, if_true]
    exact h
  · simp only [hname, if_false, Bool.false_eq_true]
    rw [Dict.find?_insert, if_neg, h]
    rintro rfl
    exact hname (by rw [Dict.contains, h]; rfl)

/-- What a call does to methods and documentation: it declares a method, which goes behind the
others of its class and is documented, or it leaves the methods and the documentation that is there
alone, but for a name that it documents itself. -/
inductive EngineCall.Effect (call : EngineCall) (e : Engine) : Prop
  | declares {owner : String} {c : Class} {m : Method}
      (hdeclared : call.declared? e = some (owner, m))
      (hclass : e.container.classes.find? owner = some c)
      (hafter : (call.perform e).container =
        (e.container.putClass owner (c.declareMethod m)).registerDoc m.qualified m.doc)
  | spares (hdeclared : call.declared? e = none)
      (hmethods : ∀ owner, methodsIn (call.perform e).container.classes owner =
        methodsIn e.container.classes owner)
      (hdocs : ∀ key d, call.documented? ≠ some key → e.container.doc? key = some d →
        (call.perform e).container.doc? key = some d)

namespace EngineCall

variable {call : EngineCall} {e : Engine}

theorem Effect.of_docs (hdeclared : call.declared? e = none)
    (hmethods : ∀ owner, methodsIn (call.perform e).container.classes owner =
      methodsIn e.container.classes owner)
    (hdocs : (call.perform e).container.docs = e.container.docs) : call.Effect e := by
  refine .spares hdeclared hmethods fun key d _ hd => ?_
  unfold Container.doc?
  rw [hdocs]
  exact hd

theorem Effect.of_refused {owner : String} {m : Method} {err : Error}
    (h : Container.addMethod owner m e.container = (.error err, e.container)) :
    Effect (.registry (.addMethod owner m)) e := by
  have hsame : ((EngineCall.registry (.addMethod owner m)).perform e).container = e.container :=
    congrArg Prod.snd h
  refine .of_docs ?_ (fun _ => ?_) ?_
  · simp only [declared?, h]
  · rw [hsame]
  · rw [hsame]

theorem effect_addMethod (owner : String) (m : Method) (e : Engine) :
    Effect (.registry (.addMethod owner m)) e := by
  cases hc : e.container.classes.find? owner with
  | none =>
      have hrefused : Container.addMethod owner m e.container =
          (.error (Error.of (.unknownClass owner)), e.container) := by
        simp only [Container.addMethod, hc]
      exact .of_refused hrefused
  | some c =>
      cases hm : c.method? m.name with
      | some _ =>
          have hrefused : Container.addMethod owner m e.container =
              (.error (Error.of (.duplicateMember owner m.name)), e.container) := by
            simp [Container.addMethod, hc, hm]
          exact .of_refused hrefused
      | none =>
          have hdone : Container.addMethod owner m e.container = (.ok (),
              (e.container.putClass owner (c.declareMethod (m.ownedBy owner))).registerDoc
                (m.ownedBy owner).qualified (m.ownedBy owner).doc) := by
            simp [Container.addMethod, hc, hm]
          refine .declares (m := m.ownedBy owner) ?_ hc (congrArg Prod.snd hdone)
          simp only [declared?, hdone]

theorem effect_registry (c : RegistryCall) (e : Engine) : Effect (.registry c) e := by
  cases c with
  | registerFunction name native returns =>
      exact .spares rfl (fun _ => rfl) fun _ _ _ hd => doc?_registerFunction hd name native returns
  | registerDoc key doc =>
      refine .spares rfl (fun _ => rfl) fun other d hother hd => ?_
      have hne : other ≠ key := fun h => hother (congrArg some h.symm)
      exact (Dict.find?_insert _ _ _ _).trans ((if_neg hne).trans hd)
  | registerClass name =>
      exact .of_docs rfl (methodsIn_registerClass e.container name)
        (e.container.sameRecords_registerClass name).docs
  | registerSubclass name parent =>
      exact .of_docs rfl (methodsIn_registerSubclass e.container name parent)
        (e.container.sameRecords_registerSubclass name parent).docs
  | addProperty owner p =>
      exact .of_docs rfl (fun other => methodsIn_addProperty other owner p e)
        (sameRecords_addProperty owner p e).docs
  | addMethod owner m => exact effect_addMethod owner m e
  | setStatic name property cell =>
      exact .of_docs rfl (methodsIn_updateClass e.container _ fun _ => rfl)
        (e.container.sameRecords_updateClass _ _).docs
  | eraseStatic name property =>
      exact .of_docs rfl (methodsIn_updateClass e.container _ fun _ => rfl)
        (e.container.sameRecords_updateClass _ _).docs
  | clearStatics name =>
      exact .of_docs rfl (methodsIn_updateClass e.container _ fun _ => rfl)
        (e.container.sameRecords_updateClass _ _).docs
  | openModule name => exact .of_docs rfl (fun _ => rfl) rfl
  | closeModule previous listed => exact .of_docs rfl (fun _ => rfl) rfl
  | removeModule name =>
      exact .of_docs rfl (fun other => congrArg (methodsIn · other)
        (e.container.classes_removeModule name))
        (e.container.sameRecords_removeModule name).docs
  | describeModule name description =>
      exact .of_docs rfl (fun other => congrArg (methodsIn · other)
        (e.container.classes_describeModule name description))
        (e.container.sameRecords_describeModule name description).docs

theorem effect (call : EngineCall) (e : Engine) : call.Effect e := by
  cases call with
  | scope c =>
      refine .of_docs rfl (fun other => ?_) ?_
      · show methodsIn (c.perform e).container.classes other = _
        rw [container_scopeCall]
      · show (c.perform e).container.docs = _
        rw [container_scopeCall]
  | registry c => exact effect_registry c e
  | store c => exact .of_docs rfl (fun _ => rfl) rfl
  | add a id target => exact .of_docs rfl (fun _ => rfl) rfl
  | assign name c => exact .of_docs rfl (fun _ => rfl) rfl
  | call callee args => exact .of_docs rfl (fun _ => rfl) rfl

end EngineCall

section Runs

variable {e : Engine} {calls : List EngineCall}

/-- The methods of a class are its declarations, in order. -/
theorem methodsIn_run (e : Engine) (calls : List EngineCall) (owner : String) :
    methodsIn (e.run calls).container.classes owner =
      methodsIn e.container.classes owner ++
        (((e.declared calls).reverse.filter (·.1 == owner)).map Prod.snd) := by
  induction calls using List.reverseRecOn with
  | nil => simp [Engine.run, Engine.declared]
  | append_singleton calls call ih =>
      rw [Engine.run_append_singleton, Engine.declared_append_singleton]
      cases call.effect (e.run calls) with
      | @declares name c m hdeclared hclass hafter =>
          rw [hafter, hdeclared]
          show methodsIn ((e.run calls).container.classes.insert name (c.declareMethod m)) owner = _
          rw [methodsIn_insert]
          by_cases howner : owner = name
          · subst howner
            rw [methodsIn_of_find? hclass] at ih
            simp [Class.declareMethod, ih]
          · have hne : name ≠ owner := fun h => howner h.symm
            simp [howner, hne, ih]
      | spares hdeclared hmethods _ =>
          rw [hmethods, hdeclared]
          exact ih

/-- A qualified name documents the method of that name that was declared last. -/
theorem doc?_run {key : String} (hdirect : ∀ call ∈ calls, call.documented? ≠ some key)
    {latest : String × Method}
    (hlatest : (e.declared calls).find? (·.2.qualified == key) = some latest) :
    (e.run calls).container.doc? key = some latest.2.doc := by
  induction calls using List.reverseRecOn with
  | nil => cases hlatest
  | append_singleton calls call ih =>
      have hbefore : ∀ call ∈ calls, call.documented? ≠ some key :=
        fun c hc => hdirect c (List.mem_append_left _ hc)
      rw [Engine.run_append_singleton]
      rw [Engine.declared_append_singleton] at hlatest
      cases call.effect (e.run calls) with
      | @declares owner c m hdeclared hclass hafter =>
          rw [hdeclared] at hlatest
          rw [hafter]
          show ((e.run calls).container.docs.insert m.qualified m.doc).find? key = _
          rw [Dict.find?_insert]
          by_cases hkey : m.qualified = key
          · have hm : latest = (owner, m) := by simpa [hkey] using hlatest.symm
            rw [if_pos hkey.symm, hm]
          · rw [if_neg fun h => hkey h.symm]
            exact ih hbefore (by simpa [hkey] using hlatest)
      | spares hdeclared _ hdocs =>
          rw [hdeclared] at hlatest
          have hnot : call.documented? ≠ some key := hdirect call (by simp)
          exact hdocs key _ hnot (ih hbefore hlatest)

/-- A method of a class was declared. -/
theorem mem_declared_iff (hstart : e.container.classes = .empty) {owner : String} {m : Method} :
    (owner, m) ∈ e.declared calls ↔ m ∈ methodsIn (e.run calls).container.classes owner := by
  have hnone : methodsIn e.container.classes owner = [] := by
    rw [hstart]
    rfl
  rw [methodsIn_run, hnone, List.nil_append]
  simp

/-- A method is in the history, so that its qualified name was declared for the last time by some
class. -/
theorem exists_latest (hstart : e.container.classes = .empty) {owner : String} {m : Method}
    (hm : m ∈ methodsIn (e.run calls).container.classes owner) :
    ∃ latest, (e.declared calls).find? (·.2.qualified == m.qualified) = some latest ∧
      latest.2 ∈ methodsIn (e.run calls).container.classes latest.1 ∧
      latest.2.qualified = m.qualified := by
  have hsome : ((e.declared calls).find? (·.2.qualified == m.qualified)).isSome := by
    rw [List.find?_isSome]
    exact ⟨(owner, m), (mem_declared_iff hstart).2 hm, beq_self_eq_true m.qualified⟩
  obtain ⟨latest, hlatest⟩ := Option.isSome_iff_exists.1 hsome
  have hsame := List.find?_some hlatest
  exact ⟨latest, hlatest, (mem_declared_iff hstart).1 (List.mem_of_find?_eq_some hlatest),
    beq_iff_eq.1 hsame⟩

end Runs

section Names

/-- The last place of a separator splits a list in one way. -/
theorem eq_of_append_cons_eq {α : Type} {a : α} {xs xs' ys ys' : List α} (hys : a ∉ ys)
    (hys' : a ∉ ys') (h : xs ++ a :: ys = xs' ++ a :: ys') : xs = xs' ∧ ys = ys' := by
  obtain ⟨zs, hzs, hrest⟩ | ⟨zs, hzs, hrest⟩ := List.append_eq_append_iff.1 h
  · cases zs with
    | nil => simpa [hzs] using hrest
    | cons b zs =>
        obtain ⟨-, rfl⟩ := List.cons.inj hrest
        simp at hys
  · cases zs with
    | nil => simpa [hzs] using hrest.symm
    | cons b zs =>
        obtain ⟨-, rfl⟩ := List.cons.inj hrest
        simp at hys'

/-- A qualified name tells the owner if the name in it has no colon. -/
theorem owner_eq_of_qualify_eq {owner owner' name name' : String} (hname : ':' ∉ name.toList)
    (hname' : ':' ∉ name'.toList) (h : qualify owner name = qualify owner' name') :
    owner = owner' := by
  have hsplit : ∀ owner name : String,
      (qualify owner name).toList = (owner.toList ++ [':']) ++ ':' :: name.toList := by
    intro owner name
    simp [qualify, scopeSeparator]
  have hlists : (qualify owner name).toList = (qualify owner' name').toList := by rw [h]
  rw [hsplit, hsplit] at hlists
  have howners := (eq_of_append_cons_eq hname hname' hlists).1
  exact String.toList_inj.1 (List.append_cancel_right howners)

end Names

/-- The entries of an object have the given values. -/
def Heap.HasEntries (h : Heap) (c : CellId) (entries : List (String × Value)) : Prop :=
  ∀ entry ∈ entries, ∃ d, h.lookup? c entry.1 = some d ∧ h.read d = entry.2

/-- An object describes a parameter. -/
def DescribesParameter (h : Heap) (c : CellId) (p : Parameter) : Prop :=
  h.HasEntries c [("name", .string p.name), ("type", .string p.tag.name),
    ("description", .string p.description), ("optional", .bool p.optional),
    ("interpolate", .bool p.interpolate)]

/-- An object describes what is documented: name, return type, description and parameters. -/
structure Describes (h : Heap) (c : CellId) (d : Doc) : Prop where
  texts : h.HasEntries c [("name", .string d.name), ("return_type", .string d.returns.name),
    ("description", .string d.description)]
  parameters : ∃ list cells, h.lookup? c "parameters" = some list ∧ h.Lists list cells ∧
    List.Forall₂ (DescribesParameter h) cells d.parameters

section Described

open Account (Shows)

variable {h : Heap} {c : CellId} {keys : List String} {hkeys : keys.Nodup} {items : List Account}

theorem entry_of_shows (hs : Shows h c (.node keys hkeys items)) {i : Nat} {key : String}
    {l : Leaf} (hkey : keys[i]? = some key) (hl : items[i]? = some (.leaf l)) :
    ∃ d, h.lookup? c key = some d ∧ h.read d = l.value := by
  obtain ⟨d, hd, hshows⟩ := hs.entry hkey hl
  cases hshows with
  | leaf _ hread => exact ⟨d, hd, hread⟩

theorem describesParameter_of_shows {p : Parameter} (hs : Shows h c (.ofParameter p)) :
    DescribesParameter h c p := by
  simp only [DescribesParameter, Heap.HasEntries, List.forall_mem_cons]
  refine ⟨entry_of_shows hs (i := 0) rfl rfl, entry_of_shows hs (i := 1) rfl rfl,
    entry_of_shows hs (i := 2) rfl rfl, entry_of_shows hs (i := 3) rfl rfl,
    entry_of_shows hs (i := 4) rfl rfl, by simp⟩

/-- What is said of a function or a method beyond its documentation comes after it. -/
theorem describes_of_shows {d : Doc} {moreKeys : List String} {more : List Account}
    {hkeys : (Account.docKeys ++ moreKeys).Nodup}
    (hs : Shows h c (.node (Account.docKeys ++ moreKeys) hkeys (Account.docItems d ++ more))) :
    Describes h c d := by
  obtain ⟨list, hlist, hparameters⟩ := hs.entry (i := 3) rfl rfl
  obtain ⟨cells, hlists, hcells⟩ := hparameters.list
  rw [List.forall₂_map_right_iff] at hcells
  refine ⟨?_, list, cells, hlist, hlists, hcells.imp fun _ _ => describesParameter_of_shows⟩
  simp only [Heap.HasEntries, List.forall_mem_cons]
  exact ⟨entry_of_shows hs (i := 0) rfl rfl, entry_of_shows hs (i := 1) rfl rfl,
    entry_of_shows hs (i := 2) rfl rfl, by simp⟩

end Described

/-- A method is documented under its qualified name, and the report on that name describes it as the
report on its class does, at the method's place in the class. -/
structure Documented (k : Container) (owner : String) (m : Method) : Prop where
  doc : k.doc? m.qualified = some m.doc
  reports : ∀ h (i : Nat), (methodsIn k.classes owner)[i]? = some m →
    let onName := Report.ofFunction k m.qualified h
    let onClass := Report.ofClass k owner onName.2
    ∃ methods entry, onClass.2.lookup? onClass.1 "methods" = some methods ∧
      onClass.2.lookup? methods (toString i) = some entry ∧
      Describes onClass.2 onName.1 m.doc ∧ Describes onClass.2 entry m.doc

/-- The entry of a method in the account of its class. -/
theorem describes_method_of_shows {k : Container} {owner : String} {h : Heap} {c : CellId} {i : Nat}
    {m : Method} (hs : Account.Shows h c (.ofClass k owner))
    (hm : (methodsIn k.classes owner)[i]? = some m) :
    ∃ methods entry, h.lookup? c "methods" = some methods ∧
      h.lookup? methods (toString i) = some entry ∧ Describes h entry m.doc := by
  obtain ⟨d, hd, -⟩ := mem_methodsIn_iff.1 (List.mem_of_getElem? hm)
  have hclass : k.class? owner = some d := hd
  rw [methodsIn_of_find? hd] at hm
  unfold Account.ofClass at hs
  rw [hclass] at hs
  obtain ⟨methods, hmethods, hlist⟩ := hs.entry (i := 4) rfl rfl
  obtain ⟨cells, hlists, hcells⟩ := hlist.list
  rw [List.forall₂_map_right_iff] at hcells
  obtain ⟨hlength, hentries⟩ := List.forall₂_iff_get.1 hcells
  obtain ⟨hi, rfl⟩ := List.getElem?_eq_some_iff.1 hm
  have hi' : i < cells.length := hlength ▸ hi
  refine ⟨methods, cells[i], hmethods, ?_, describes_of_shows (hentries i hi' hi)⟩
  rw [hlists.1 i, List.getElem?_eq_getElem hi']

theorem documented_of_doc? {k : Container} {owner : String} {m : Method}
    (hdoc : k.doc? m.qualified = some m.doc) : Documented k owner m := by
  refine ⟨hdoc, fun h i hi => ?_⟩
  rw [Account.ofFunction_eq_write, Account.ofClass_eq_write]
  intro onName onClass
  have hname := (Account.write_shows h (.ofFunction k m.qualified)).2
  obtain ⟨hext, hclass⟩ := Account.write_shows onName.2 (.ofClass k owner)
  obtain ⟨methods, entry, hmethods, hentry, hdescribes⟩ := describes_method_of_shows hclass hi
  refine ⟨methods, entry, hmethods, hentry, ?_, hdescribes⟩
  have hname' : Account.Shows onClass.2 onName.1 (.ofFunction k m.qualified) := hname.extends hext
  unfold Account.ofFunction at hname'
  rw [hdoc] at hname'
  exact describes_of_shows hname'

namespace Consistent

variable {classes : Dict Class} {owner : String} {m m' : Method}

theorem qualified_eq (h : Consistent classes) (hm : m ∈ methodsIn classes owner) :
    m.qualified = qualify owner m.name := by
  obtain ⟨c, hc, hmem⟩ := mem_methodsIn_iff.1 hm
  rw [((h.orderly owner c hc).qualified m hmem).1, h.named owner c hc]
  rfl

/-- A class has one method of a qualified name. -/
theorem method_eq (h : Consistent classes) (hm : m ∈ methodsIn classes owner)
    (hm' : m' ∈ methodsIn classes owner) (hqualified : m.qualified = m'.qualified) : m = m' := by
  have hnames : m.name = m'.name := by
    rw [h.qualified_eq hm, h.qualified_eq hm'] at hqualified
    exact String.append_right_inj _ |>.1 hqualified
  obtain ⟨c, hc, hmem⟩ := mem_methodsIn_iff.1 hm
  rw [methodsIn_of_find? hc] at hm'
  exact List.inj_on_of_nodup_map (h.orderly owner c hc).methods hmem hm' hnames

end Consistent

/-- A container is built under a name and then used in any way.  Unless it was documented directly,
the qualified name of a method documents the method that was declared last under it.  If this is a
method of the same class, then it is the method itself, and the reports on the name and on the class
agree.  It is one if no other class has a method of that qualified name, and so if the methods of
that qualified name have no colon in their names. -/
theorem latest_method_documented (rootName : String) (hname : rootName ≠ "") (maxDepth : Nat)
    (s : Store) :
    ∃ k s', Container.build rootName maxDepth s = (.ok k, s') ∧ ∀ calls owner m,
      let after := (Engine.run ⟨s', k⟩ calls).container
      m ∈ methodsIn after.classes owner →
      (∀ call ∈ calls, call.documented? ≠ some m.qualified) →
      m.qualified = qualify owner m.name ∧
      ∃ latest,
        (Engine.declared ⟨s', k⟩ calls).find? (·.2.qualified == m.qualified) = some latest ∧
        after.doc? m.qualified = some latest.2.doc ∧
        (latest.1 = owner → Documented after owner m) ∧
        ((∀ other, ∀ m' ∈ methodsIn after.classes other, m'.qualified = m.qualified →
          other = owner) → Documented after owner m) ∧
        ((∀ other, ∀ m' ∈ methodsIn after.classes other, m'.qualified = m.qualified →
          ':' ∉ m'.name.toList) → Documented after owner m) := by
  refine ⟨_, _, build_of_ne_empty hname maxDepth s, ?_⟩
  intro calls owner m after hm hdirect
  have hconsistent : Consistent after.classes := consistent_run rootName maxDepth s calls
  have hqualified := hconsistent.qualified_eq hm
  obtain ⟨latest, hlatest, hfound, hsame⟩ := exists_latest rfl hm
  have hdoc : after.doc? m.qualified = some latest.2.doc := doc?_run hdirect hlatest
  have hown : latest.1 = owner → Documented after owner m := by
    intro howner
    rw [howner] at hfound
    rw [hconsistent.method_eq hfound hm hsame] at hdoc
    exact documented_of_doc? hdoc
  refine ⟨hqualified, latest, hlatest, hdoc, hown, fun halone => ?_, fun hcolons => ?_⟩
  · exact hown (halone latest.1 latest.2 hfound hsame)
  · refine hown (owner_eq_of_qualify_eq (hcolons _ _ hfound hsame) (hcolons _ _ hm rfl) ?_)
    rw [← hconsistent.qualified_eq hfound, ← hqualified, hsame]

/-- A method with an optional parameter. -/
def sampleMethod (returns : Tag) : Method :=
  .new "f" returns [⟨"x", .int, "a number", true, false⟩] "sample" false none

/-- Two classes have methods of one name, one of them is declared a second time, and a function
takes the qualified name of the other one before and after. -/
def namesakeMethods : List EngineCall :=
  [.registry (.registerFunction "A::f" (.perform .count) .bool), .registry (.registerClass "A"),
    .registry (.registerSubclass "B" "A"), .registry (.addMethod "A" (sampleMethod .int)),
    .registry (.addMethod "B" (sampleMethod .string)),
    .registry (.addMethod "B" (sampleMethod .null)),
    .registry (.registerFunction "A::f" (.perform .sum) .bool),
    .registry (.registerDoc "f" ⟨"f", .null, [], ""⟩)]

theorem namesakes_documented :
    "main" ≠ "" ∧
    ∃ k s', Container.build "main" defaultMaxDepth Store.empty = (.ok k, s') ∧
      let after := (Engine.run ⟨s', k⟩ namesakeMethods).container
      (sampleMethod .int).ownedBy "A" ∈ methodsIn after.classes "A" ∧
      (sampleMethod .string).ownedBy "B" ∈ methodsIn after.classes "B" ∧
      (∀ call ∈ namesakeMethods,
        call.documented? ≠ some "A::f" ∧ call.documented? ≠ some "B::f") ∧
      Documented after "A" ((sampleMethod .int).ownedBy "A") ∧
      Documented after "B" ((sampleMethod .string).ownedBy "B") := by
  have hname : "main" ≠ "" := by decide
  obtain ⟨k, s', hbuild, hrun⟩ :=
    latest_method_documented "main" hname defaultMaxDepth Store.empty
  refine ⟨hname, k, s', hbuild, ?_⟩
  cases hbuild
  intro after
  have hdirect : ∀ call ∈ namesakeMethods,
      call.documented? ≠ some "A::f" ∧ call.documented? ≠ some "B::f" := by decide
  have hA : (sampleMethod .int).ownedBy "A" ∈ methodsIn after.classes "A" := by decide +kernel
  have hB : (sampleMethod .string).ownedBy "B" ∈ methodsIn after.classes "B" := by decide +kernel
  obtain ⟨-, latest, hlatest, -, hownA, -⟩ := hrun _ _ _ hA fun call hcall => (hdirect call hcall).1
  obtain ⟨-, latest', hlatest', -, hownB, -⟩ :=
    hrun _ _ _ hB fun call hcall => (hdirect call hcall).2
  refine ⟨hA, hB, hdirect, hownA ?_, hownB ?_⟩
  · cases hlatest
    rfl
  · cases hlatest'
    rfl

/-- The method `B::m` of `A` and the method `m` of `A::B`. -/
def collidingMethods : List EngineCall :=
  [.registry (.registerClass "A"), .registry (.registerClass "A::B"),
    .registry (.addMethod "A" (.new "B::m" .int [] "" false none)),
    .registry (.addMethod "A::B" (.new "m" .string [] "" false none))]

/-- The first of two methods with one qualified name is not the one that is documented. -/
theorem overshadowed_method_not_documented :
    ∃ k s', Container.build "main" defaultMaxDepth Store.empty = (.ok k, s') ∧
      let after := (Engine.run ⟨s', k⟩ collidingMethods).container
      (∀ call ∈ collidingMethods, call.documented? = none) ∧
      ∃ m ∈ methodsIn after.classes "A", m.qualified = "A::B::m" ∧ m.doc.returns = .int ∧
        (after.doc? "A::B::m").map Doc.returns = some .string ∧ ¬ Documented after "A" m := by
  refine ⟨_, _, rfl, by decide, Method.ownedBy (.new "B::m" .int [] "" false none) "A", ?_⟩
  have hreturns : ∀ (k : Container) (m : Method), (k.doc? m.qualified).map Doc.returns ≠
      some m.doc.returns → ¬ Documented k "A" m := by
    intro k m hne hdocumented
    rw [hdocumented.doc] at hne
    exact hne rfl
  exact ⟨by decide +kernel, rfl, rfl, by decide +kernel, hreturns _ _ (by decide +kernel)⟩

end ScriptCore
