import ScriptCore.Proofs.Ascents
import ScriptCore.Proofs.CallChains

/-!
# Which declaration a member resolves to

A class has the members of its lineage.  Every question about a method goes to one declaration, the
one of the nearest class that declares the name: whether there is such a method, what it returns,
what it takes, whether it is private, and what a call of it does.  A method that is written as a
script has no native body, and then a call is refused even if a class further up has one.  With
properties it is the same, up to a leading dollar sign.

**Resolution.**  `Resolves`: the nearest declaration in a lineage, with its class.  A registry is
consistent, so a class declares a name once.

**New declarations.**  `InSight`: a class stands in a lineage and no class before it has a
declaration.  From there a new declaration in that class is taken, also over one that comes
further up (`TakesOver`), and from everywhere else it is not seen.

**Results.**
* `method?_eq_some_iff`, `property?_eq_some_iff`: what is found is the nearest declaration.
* `Extended.resolves_new`, `Extended.resolves_iff`: what one more declaration changes.
* `members_resolved`: both after every run.
-/

namespace ScriptCore

namespace Class

/-- The class declares the method under the name. -/
def DeclaresMethod (c : Class) (name : String) (m : Method) : Prop :=
  m ∈ c.methods ∧ m.name = name

/-- The class declares the property under the name, up to a leading dollar sign. -/
def DeclaresProperty (c : Class) (name : String) (p : Property) : Prop :=
  p ∈ c.properties ∧ bareName p.name = bareName name

/-- Among members with keys of their own the one that is found is the one with the key. -/
theorem find?_eq_some_iff_of_nodup {α : Type} {key : α → String} {members : List α}
    (h : (members.map key).Nodup) {wanted : String} {a : α} :
    members.find? (fun b => key b == wanted) = some a ↔ a ∈ members ∧ key a = wanted := by
  constructor
  · intro hfind
    have hkey := List.find?_some hfind
    exact ⟨List.mem_of_find?_eq_some hfind, beq_iff_eq.1 hkey⟩
  · rintro ⟨hmem, hkey⟩
    cases hfind : members.find? (fun b => key b == wanted) with
    | none => exact absurd (beq_iff_eq.2 hkey) (List.find?_eq_none.1 hfind a hmem)
    | some b =>
        have hb := List.find?_some hfind
        have hsame : key b = key a := (beq_iff_eq.1 hb).trans hkey.symm
        rw [List.inj_on_of_nodup_map h (List.mem_of_find?_eq_some hfind) hmem hsame]

theorem Orderly.method?_eq_some_iff {c : Class} (h : c.Orderly) {name : String} {m : Method} :
    c.method? name = some m ↔ c.DeclaresMethod name m :=
  find?_eq_some_iff_of_nodup h.methods

theorem Orderly.property?_eq_some_iff {c : Class} (h : c.Orderly) {name : String}
    {p : Property} : c.property? name = some p ↔ c.DeclaresProperty name p := by
  have hnodup : (c.properties.map fun q => bareName q.name).Nodup := h.properties
  exact find?_eq_some_iff_of_nodup hnodup

theorem declaresMethod_declareMethod {c : Class} {m q : Method} {name : String} :
    (c.declareMethod m).DeclaresMethod name q ↔
      c.DeclaresMethod name q ∨ name = m.name ∧ q = m := by
  unfold DeclaresMethod declareMethod
  rw [List.mem_append, List.mem_singleton, or_and_right]
  refine or_congr_right ⟨?_, ?_⟩
  · rintro ⟨rfl, rfl⟩
    exact ⟨rfl, rfl⟩
  · rintro ⟨rfl, rfl⟩
    exact ⟨rfl, rfl⟩

theorem declaresProperty_declareProperty {c : Class} {p q : Property} {name : String}
    {statics : Dict CellId} :
    { c.declareProperty p with statics }.DeclaresProperty name q ↔
      c.DeclaresProperty name q ∨ bareName name = bareName p.name ∧ q = p := by
  unfold DeclaresProperty declareProperty
  rw [List.mem_append, List.mem_singleton, or_and_right]
  refine or_congr_right ⟨?_, ?_⟩
  · rintro ⟨rfl, hname⟩
    exact ⟨hname.symm, rfl⟩
  · rintro ⟨hname, rfl⟩
    exact ⟨rfl, hname.symm⟩

end Class

namespace Container

section Resolution

variable {β : Type}

/-- The named class stands in the lineage of a class, and no class before it has a declaration. -/
def InSight (k : Container) (name : String) (declares : Class → β → Prop) (owner : String) :
    Prop :=
  ∃ nearer c further, k.lineage name = nearer ++ c :: further ∧ c.name = owner ∧
    ∀ d ∈ nearer, ∀ b, ¬ declares d b

/-- The named class is the first of a lineage that has a declaration, and it has this one. -/
def Resolves (k : Container) (name : String) (declares : Class → β → Prop) (owner : String)
    (b : β) : Prop :=
  ∃ nearer c further, k.lineage name = nearer ++ c :: further ∧ c.name = owner ∧
    declares c b ∧ ∀ d ∈ nearer, ∀ other, ¬ declares d other

/-- If no class of a lineage has a declaration, all of its classes are in sight. -/
theorem inSight_of_names {k : Container} {name owner : String} {declares : Class → β → Prop}
    {before after : List String}
    (hnames : (k.lineage name).map Class.name = before ++ owner :: after)
    (hnone : ∀ c ∈ k.lineage name, ∀ b, ¬ declares c b) : k.InSight name declares owner := by
  obtain ⟨nearer, rest, hsplit, -, hrest⟩ := List.map_eq_append_iff.1 hnames
  obtain ⟨c, further, rfl, hc, -⟩ := List.map_eq_cons_iff.1 hrest
  exact ⟨nearer, c, further, hsplit, hc, fun d hd => hnone d (hsplit ▸ List.mem_append_left _ hd)⟩

/-- From where the class of a new declaration is in sight, members resolve to the new declaration
and did not resolve to one of that class.  Everywhere else they resolve as they did. -/
def TakesOver (now later : Container) (declares : Class → β → Prop) (concerned : Prop)
    (owner : String) (b : β) : Prop :=
  ∀ name,
    (concerned ∧ now.InSight name declares owner →
      later.Resolves name declares owner b ∧ ∀ old, ¬ now.Resolves name declares owner old) ∧
    (¬ (concerned ∧ now.InSight name declares owner) → ∀ other old,
      later.Resolves name declares other old ↔ now.Resolves name declares other old)

/-- What is found along a lineage is the nearest declaration. -/
theorem findSome?_lineage_eq_some_iff {k : Container} {name : String}
    {declares : Class → β → Prop} {find : Class → Option β}
    (hfind : ∀ c ∈ k.lineage name, ∀ b, find c = some b ↔ declares c b) {b : β} :
    (k.lineage name).findSome? find = some b ↔ ∃ owner, k.Resolves name declares owner b := by
  have hnone : ∀ c ∈ k.lineage name, find c = none ↔ ∀ b, ¬ declares c b := by
    intro c hc
    rw [Option.eq_none_iff_forall_ne_some]
    exact forall_congr' fun b => not_congr (hfind c hc b)
  rw [List.findSome?_eq_some_iff]
  constructor
  · rintro ⟨nearer, c, further, hlineage, hc, hnearer⟩
    rw [hlineage] at hfind hnone
    refine ⟨c.name, nearer, c, further, hlineage, rfl, ?_, fun d hd => ?_⟩
    · exact (hfind c (List.mem_append_right nearer List.mem_cons_self) b).1 hc
    · exact (hnone d (List.mem_append_left _ hd)).1 (hnearer d hd)
  · rintro ⟨owner, nearer, c, further, hlineage, -, hc, hnearer⟩
    rw [hlineage] at hfind hnone
    refine ⟨nearer, c, further, hlineage, ?_, fun d hd => ?_⟩
    · exact (hfind c (List.mem_append_right nearer List.mem_cons_self) b).2 hc
    · exact (hnone d (List.mem_append_left _ hd)).2 (hnearer d hd)

variable {k : Container} {name : String}

theorem orderly_of_mem_lineage (h : Consistent k.classes) {c : Class} (hc : c ∈ k.lineage name) :
    c.Orderly :=
  h.orderly c.name c (find?_of_mem_lineage h hc)

theorem method?_eq_some_iff (h : Consistent k.classes) {method : String} {m : Method} :
    k.method? name method = some m ↔
      ∃ owner, k.Resolves name (·.DeclaresMethod method) owner m :=
  findSome?_lineage_eq_some_iff fun _ hc _ => (orderly_of_mem_lineage h hc).method?_eq_some_iff

theorem property?_eq_some_iff (h : Consistent k.classes) {property : String} {p : Property} :
    k.property? name property = some p ↔
      ∃ owner, k.Resolves name (·.DeclaresProperty property) owner p :=
  findSome?_lineage_eq_some_iff fun _ hc _ => (orderly_of_mem_lineage h hc).property?_eq_some_iff

end Resolution

section Answers

/-- Every question about a method is answered by this declaration. -/
structure AnswersMethod (k : Container) (name method : String) (m : Method) : Prop where
  has : k.hasMethod name method = true
  returns : k.methodReturns name method = .ok m.returns
  parameters : k.methodParameters name method = .ok m.parameters
  isPrivate : k.isPrivateMethod name method = m.isPrivate
  call : ∀ args s, k.call (.method name method) args s =
    match m.native with
    | some native => native.run k args s
    | none => (.error (Error.of (.unknownMethod name method)), s)

/-- Every question about a method finds none. -/
structure LacksMethod (k : Container) (name method : String) : Prop where
  has : k.hasMethod name method = false
  returns : k.methodReturns name method = .error (k.missingMethod name method)
  parameters : k.methodParameters name method = .error (k.missingMethod name method)
  isPrivate : k.isPrivateMethod name method = false
  call : ∀ args s,
    k.call (.method name method) args s = (.error (k.missingMethod name method), s)

/-- Every question about a property is answered by this declaration. -/
structure AnswersProperty (k : Container) (name property : String) (p : Property) : Prop where
  has : k.hasProperty name property = true
  tag : k.propertyTag name property = .ok p.tag
  isPrivate : k.isPrivateProperty name property = p.isPrivate

/-- Every question about a property finds none. -/
structure LacksProperty (k : Container) (name property : String) : Prop where
  has : k.hasProperty name property = false
  tag : k.propertyTag name property = .error (k.missingProperty name property)
  isPrivate : k.isPrivateProperty name property = false

variable {k : Container} {name : String}

theorem hasClass_of_method? {method : String} {m : Method} (h : k.method? name method = some m) :
    k.hasClass name = true := by
  cases hclass : k.hasClass name with
  | true => rfl
  | false =>
      rw [method?, lineage_of_not_hasClass hclass] at h
      cases h

theorem answersMethod_of_method? {method : String} {m : Method}
    (h : k.method? name method = some m) : k.AnswersMethod name method m where
  has := by rw [hasMethod, h, Option.isSome_some]
  returns := by
    rw [methodReturns, getMethod, h]
    rfl
  parameters := by
    rw [methodParameters, getMethod, h]
    rfl
  isPrivate := by
    rw [isPrivateMethod, h]
    rfl
  call args s := by
    rw [call_eq, body, if_pos (hasClass_of_method? h), h, Option.bind_some]
    cases m.native <;> rfl

theorem lacksMethod_of_method? {method : String} (h : k.method? name method = none) :
    k.LacksMethod name method where
  has := by rw [hasMethod, h, Option.isSome_none]
  returns := by
    rw [methodReturns, getMethod, h]
    rfl
  parameters := by
    rw [methodParameters, getMethod, h]
    rfl
  isPrivate := by
    rw [isPrivateMethod, h]
    rfl
  call args s := by
    rw [call_eq, body, missingMethod]
    cases k.hasClass name with
    | true =>
        rw [if_pos rfl, if_pos rfl, h, Option.bind_none]
    | false =>
        rw [if_neg Bool.false_ne_true, if_neg Bool.false_ne_true]

theorem answersProperty_of_property? {property : String} {p : Property}
    (h : k.property? name property = some p) : k.AnswersProperty name property p where
  has := by rw [hasProperty, h, Option.isSome_some]
  tag := by
    rw [propertyTag, getProperty, h]
    rfl
  isPrivate := by
    rw [isPrivateProperty, h]
    rfl

theorem lacksProperty_of_property? {property : String} (h : k.property? name property = none) :
    k.LacksProperty name property where
  has := by rw [hasProperty, h, Option.isSome_none]
  tag := by
    rw [propertyTag, getProperty, h]
    rfl
  isPrivate := by
    rw [isPrivateProperty, h]
    rfl

end Answers

section Declaring

variable {β : Type}

/-- The second container has all lineages of the first, and in these the named class, if it is the
name in question that was declared, has one declaration more. -/
structure Extended (now later : Container) (change : Class → Class)
    (declares : Class → β → Prop) (concerned : Prop) (owner : String) (b : β) : Prop where
  lineage : ∀ name, later.lineage name = (now.lineage name).map change
  name : ∀ c, (change c).name = c.name
  declares : ∀ c other,
    declares (change c) other ↔ declares c other ∨ concerned ∧ c.name = owner ∧ other = b

variable {now later : Container} {change : Class → Class} {declares : Class → β → Prop}
  {concerned : Prop} {owner : String} {b : β} {name : String}

namespace Extended

theorem resolves_new (h : Extended now later change declares concerned owner b)
    (hnodup : ((now.lineage name).map Class.name).Nodup) (hconcerned : concerned)
    (hsight : now.InSight name declares owner) : later.Resolves name declares owner b := by
  obtain ⟨nearer, c, further, hlineage, hc, hnearer⟩ := hsight
  rw [hlineage, List.map_append, List.map_cons] at hnodup
  refine ⟨nearer.map change, change c, further.map change, ?_, ?_, ?_, ?_⟩
  · rw [h.lineage, hlineage, List.map_append, List.map_cons]
  · rw [h.name, hc]
  · exact (h.declares c b).2 (.inr ⟨hconcerned, hc, rfl⟩)
  · intro _ hmem other hother
    obtain ⟨d, hd, rfl⟩ := List.mem_map.1 hmem
    obtain hold | ⟨-, hsame, -⟩ := (h.declares d other).1 hother
    · exact hnearer d hd other hold
    · -- The class comes only once in a lineage.
      have hapart := (List.nodup_append.1 hnodup).2.2 d.name (List.mem_map_of_mem hd) c.name
        List.mem_cons_self
      exact hapart (hsame.trans hc.symm)

theorem resolves_iff (h : Extended now later change declares concerned owner b)
    (hnot : ¬ (concerned ∧ now.InSight name declares owner)) {other : String} {old : β} :
    later.Resolves name declares other old ↔ now.Resolves name declares other old := by
  constructor
  · rintro ⟨nearer', c', further', hlineage, hname, hdeclares, hnearer⟩
    rw [h.lineage] at hlineage
    obtain ⟨nearer, rest, hsplit, rfl, hrest⟩ := List.map_eq_append_iff.1 hlineage
    obtain ⟨c, further, rfl, rfl, rfl⟩ := List.map_eq_cons_iff.1 hrest
    have hbefore : ∀ d ∈ nearer, ∀ q, ¬ declares d q := fun d hd q hq =>
      hnearer (change d) (List.mem_map_of_mem hd) q ((h.declares d q).2 (.inl hq))
    rw [h.name] at hname
    obtain hold | ⟨hconcerned, howner, -⟩ := (h.declares c old).1 hdeclares
    · exact ⟨nearer, c, further, hsplit, hname, hold, hbefore⟩
    · exact absurd ⟨hconcerned, nearer, c, further, hsplit, howner, hbefore⟩ hnot
  · rintro ⟨nearer, c, further, hlineage, hname, hdeclares, hnearer⟩
    refine ⟨nearer.map change, change c, further.map change, ?_, ?_, ?_, ?_⟩
    · rw [h.lineage, hlineage, List.map_append, List.map_cons]
    · rw [h.name, hname]
    · exact (h.declares c old).2 (.inl hdeclares)
    · intro _ hmem q hq
      obtain ⟨d, hd, rfl⟩ := List.mem_map.1 hmem
      obtain hold | ⟨hconcerned, howner, -⟩ := (h.declares d q).1 hq
      · exact hnearer d hd q hold
      · -- The class would be in sight, since the classes before it are among the nearer ones.
        obtain ⟨first, second, rfl⟩ := List.append_of_mem hd
        refine hnot ⟨hconcerned, first, d, second ++ c :: further, ?_, howner, fun d' hd' => ?_⟩
        · rw [hlineage, List.append_assoc, List.cons_append]
        · exact hnearer d' (List.mem_append_left _ hd')

theorem takesOver (h : Extended now later change declares concerned owner b)
    (hconsistent : Consistent now.classes) {c : Class} (hc : now.classes.find? owner = some c)
    (hnew : concerned → ∀ old, ¬ declares c old) :
    now.TakesOver later declares concerned owner b := by
  refine fun name => ⟨fun ⟨hconcerned, hsight⟩ => ⟨?_, ?_⟩, fun hnot other old => ?_⟩
  · have hascent := (ascent_lineageFrom hconsistent (now.maxDepth + 1) [] name).1
    exact h.resolves_new hascent.nodup hconcerned hsight
  · rintro old ⟨nearer, d, further, hlineage, hd, hdeclares, -⟩
    have hmem : d ∈ now.lineage name := hlineage ▸ List.mem_append_right nearer List.mem_cons_self
    have hfound := find?_of_mem_lineage hconsistent hmem
    rw [hd, hc] at hfound
    obtain rfl := Option.some.inj hfound
    exact hnew hconcerned old hdeclares
  · exact h.resolves_iff hnot

end Extended

/-- A class that is changed in its members only has one declaration more. -/
theorem extended_putClass {f : Class → Class} (hconsistent : Consistent now.classes) {c : Class}
    (hc : now.classes.find? owner = some c)
    (hlater : ∀ name, later.lineage name = (now.putClass owner (f c)).lineage name)
    (hname : ∀ d, (f d).name = d.name) (hparent : ∀ d, (f d).parent = d.parent)
    (hdeclares : ∀ d other, declares (f d) other ↔ declares d other ∨ concerned ∧ other = b) :
    Extended now later (Class.changedAt owner f) declares concerned owner b where
  lineage name := by rw [hlater, lineage_putClass hconsistent hc hparent]
  name d := by
    unfold Class.changedAt
    split
    · exact hname d
    · rfl
  declares d other := by
    unfold Class.changedAt
    by_cases howner : d.name = owner
    · rw [if_pos howner, hdeclares]
      simp only [howner, true_and]
    · rw [if_neg howner]
      simp only [howner, false_and, and_false, or_false]

theorem addMethod_of_ok {k : Container} {owner : String} {m : Method}
    (h : (addMethod owner m k).1 = .ok ()) :
    ∃ c, k.classes.find? owner = some c ∧ c.method? m.name = none ∧
      (addMethod owner m k).2 =
        (k.putClass owner (c.declareMethod (m.ownedBy owner))).registerDoc
          (m.ownedBy owner).qualified (m.ownedBy owner).doc := by
  unfold addMethod at h ⊢
  cases hc : k.classes.find? owner with
  | none => simp [hc] at h
  | some c =>
      cases hm : c.method? m.name with
      | some old => simp [hc, hm] at h
      | none => exact ⟨c, rfl, hm, by simp [hm]⟩

theorem takesOver_addMethod {k : Container} (hconsistent : Consistent k.classes) {owner : String}
    {m : Method} (h : (addMethod owner m k).1 = .ok ()) (method : String) :
    k.TakesOver (addMethod owner m k).2 (·.DeclaresMethod method) (method = m.name) owner
      (m.ownedBy owner) := by
  obtain ⟨c, hc, hnone, hlater⟩ := addMethod_of_ok h
  have hextended : Extended k (addMethod owner m k).2
      (Class.changedAt owner (·.declareMethod (m.ownedBy owner))) (·.DeclaresMethod method)
      (method = m.name) owner (m.ownedBy owner) := by
    refine extended_putClass hconsistent hc (fun name => ?_) (fun _ => rfl) (fun _ => rfl)
      fun _ _ => Class.declaresMethod_declareMethod
    rw [hlater]
    rfl
  refine hextended.takesOver hconsistent hc ?_
  rintro rfl old hold
  rw [← (hconsistent.orderly owner c hc).method?_eq_some_iff, hnone] at hold
  cases hold

end Declaring

end Container

theorem Engine.addProperty_of_ok {e : Engine} {owner : String} {p : Property}
    (h : (Engine.addProperty owner p e).1 = .ok ()) :
    ∃ (c : Class) (statics : Class → Dict CellId),
      e.container.classes.find? owner = some c ∧ c.property? p.name = none ∧
      (Engine.addProperty owner p e).2.container =
        e.container.putClass owner { c.declareProperty p with statics := statics c } := by
  unfold Engine.addProperty at h ⊢
  cases hc : e.container.classes.find? owner with
  | none => simp [hc] at h
  | some c =>
      cases hp : c.property? p.name with
      | some old => simp [hc, hp] at h
      | none =>
          cases hstatic : p.isStatic with
          | true =>
              refine ⟨c, fun d => d.statics.insert (bareName p.name)
                (p.initialCell e.store.heap).1, rfl, hp, ?_⟩
              simp only [hc, hp, Option.isSome_none, Bool.false_eq_true, if_false, if_true]
              rfl
          | false =>
              refine ⟨c, Class.statics, rfl, hp, ?_⟩
              simp only [hc, hp, Option.isSome_none, Bool.false_eq_true, if_false]
              rfl

theorem Engine.takesOver_addProperty {e : Engine} (hconsistent : Consistent e.container.classes)
    {owner : String} {p : Property} (h : (Engine.addProperty owner p e).1 = .ok ())
    (property : String) :
    e.container.TakesOver (Engine.addProperty owner p e).2.container
      (·.DeclaresProperty property) (bareName property = bareName p.name) owner p := by
  obtain ⟨c, statics, hc, hnone, hlater⟩ := Engine.addProperty_of_ok h
  have hextended : Container.Extended e.container (Engine.addProperty owner p e).2.container
      (Class.changedAt owner fun d => { d.declareProperty p with statics := statics d })
      (·.DeclaresProperty property) (bareName property = bareName p.name) owner p := by
    refine Container.extended_putClass hconsistent hc (fun name => ?_) (fun _ => rfl)
      (fun _ => rfl) fun _ _ => Class.declaresProperty_declareProperty
    rw [hlater]
  refine hextended.takesOver hconsistent hc ?_
  intro hsame old hold
  have hold' : c.DeclaresProperty p.name old := ⟨hold.1, hold.2.trans hsame⟩
  rw [← (hconsistent.orderly owner c hc).property?_eq_some_iff, hnone] at hold'
  cases hold'

/-- After any run, all questions about a member of a class are answered by one declaration, that of
the nearest class of the lineage that declares the name, or by none if no class of it does.  A call
runs the native body of that declaration, and if it has none the call is refused, whatever classes
further up declare.  One more declaration in a class is what its name resolves to from exactly the
classes that have the class in sight; every other resolution stays. -/
theorem members_resolved (rootName : String) (hname : rootName ≠ "") (maxDepth : Nat)
    (s : Store) :
    ∃ k s', Container.build rootName maxDepth s = (.ok k, s') ∧ ∀ calls : List EngineCall,
      let e := Engine.run ⟨s', k⟩ calls
      let now := e.container
      let after := fun c => (Engine.run ⟨s', k⟩ (calls ++ [.registry c])).container
      (∀ name method,
        (∀ owner m, now.Resolves name (·.DeclaresMethod method) owner m →
          now.AnswersMethod name method m) ∧
        ((∀ owner m, ¬ now.Resolves name (·.DeclaresMethod method) owner m) →
          now.LacksMethod name method)) ∧
      (∀ name property,
        (∀ owner p, now.Resolves name (·.DeclaresProperty property) owner p →
          now.AnswersProperty name property p) ∧
        ((∀ owner p, ¬ now.Resolves name (·.DeclaresProperty property) owner p) →
          now.LacksProperty name property)) ∧
      (∀ owner m, (Container.addMethod owner m now).1 = .ok () → ∀ method,
        now.TakesOver (after (.addMethod owner m)) (·.DeclaresMethod method) (method = m.name)
          owner (m.ownedBy owner)) ∧
      (∀ owner p, (Engine.addProperty owner p e).1 = .ok () → ∀ property,
        now.TakesOver (after (.addProperty owner p)) (·.DeclaresProperty property)
          (bareName property = bareName p.name) owner p) := by
  refine ⟨_, _, build_of_ne_empty hname maxDepth s, fun calls => ?_⟩
  intro e now after
  have hconsistent : Consistent now.classes := consistent_run rootName maxDepth s calls
  refine ⟨fun name method => ⟨fun owner m h => ?_, fun h => ?_⟩,
    fun name property => ⟨fun owner p h => ?_, fun h => ?_⟩, fun owner m h method => ?_,
    fun owner p h property => ?_⟩
  · exact Container.answersMethod_of_method?
      ((Container.method?_eq_some_iff hconsistent).2 ⟨owner, h⟩)
  · refine Container.lacksMethod_of_method? (Option.eq_none_iff_forall_ne_some.2 fun m hm => ?_)
    obtain ⟨owner, hresolves⟩ := (Container.method?_eq_some_iff hconsistent).1 hm
    exact h owner m hresolves
  · exact Container.answersProperty_of_property?
      ((Container.property?_eq_some_iff hconsistent).2 ⟨owner, h⟩)
  · refine Container.lacksProperty_of_property?
      (Option.eq_none_iff_forall_ne_some.2 fun p hp => ?_)
    obtain ⟨owner, hresolves⟩ := (Container.property?_eq_some_iff hconsistent).1 hp
    exact h owner p hresolves
  · have hafter : after (.addMethod owner m) = (Container.addMethod owner m now).2 :=
      congrArg Engine.container (Engine.run_append_singleton _ calls _)
    rw [hafter]
    exact Container.takesOver_addMethod hconsistent h method
  · have hafter : after (.addProperty owner p) = (Engine.addProperty owner p e).2.container :=
      congrArg Engine.container (Engine.run_append_singleton _ calls _)
    rw [hafter]
    exact Engine.takesOver_addProperty hconsistent h property

/-- A native method with a scripted one of the same name below it, and a class below both. -/
def scriptOverNative : List EngineCall :=
  [.registry (.registerClass "A"), .registry (.registerSubclass "B" "A"),
    .registry (.registerSubclass "C" "B"),
    .registry (.addMethod "A" (.new "run" .int [] "" false (some (.perform .count)))),
    .registry (.addMethod "B" (.new "run" .string [] "" true none))]

/-- Lineages have at most two classes here.  The script hides the native method from the class
below, a method that is then added at the top is seen from the class next to it and no further, and
a property with a dollar sign is seen without it. -/
theorem script_hides_native :
    "main" ≠ "" ∧ ∃ k s', Container.build "main" 1 Store.empty = (.ok k, s') ∧
      let e := Engine.run ⟨s', k⟩ scriptOverNative
      let now := e.container
      let after := fun c => (Engine.run ⟨s', k⟩ (scriptOverNative ++ [.registry c])).container
      let stop := Method.new "stop" .int [] "" false (some (.perform .count))
      let size : Property := ⟨"$size", .int, none, false, false⟩
      now.AnswersMethod "C" "run" ((Method.new "run" .string [] "" true none).ownedBy "B") ∧
      (∀ args s, now.call (.method "C" "run") args s =
        (.error (Error.of (.unknownMethod "C" "run")), s)) ∧
      (Container.addMethod "A" stop now).1 = .ok () ∧
      (after (.addMethod "A" stop)).Resolves "B" (·.DeclaresMethod "stop") "A"
        (stop.ownedBy "A") ∧
      (∀ other old, (after (.addMethod "A" stop)).Resolves "C" (·.DeclaresMethod "stop") other old ↔
        now.Resolves "C" (·.DeclaresMethod "stop") other old) ∧
      (Engine.addProperty "B" size e).1 = .ok () ∧
      (after (.addProperty "B" size)).Resolves "C" (·.DeclaresProperty "size") "B" size := by
  have hname : "main" ≠ "" := by decide
  obtain ⟨k, s', hbuild, hrun⟩ := members_resolved "main" hname 1 Store.empty
  refine ⟨hname, k, s', hbuild, ?_⟩
  obtain ⟨hmethods, -, hadded, hproperty⟩ := hrun scriptOverNative
  cases hbuild
  intro e now after stop size
  have hconsistent : Consistent now.classes := consistent_run "main" 1 Store.empty _
  have hfound : now.method? "C" "run" =
      some ((Method.new "run" .string [] "" true none).ownedBy "B") := by decide +kernel
  obtain ⟨owner, hresolves⟩ := (Container.method?_eq_some_iff hconsistent).1 hfound
  have hanswers := (hmethods "C" "run").1 owner _ hresolves
  have hstop : (Container.addMethod "A" stop now).1 = .ok () := by rfl
  have hsize : (Engine.addProperty "B" size e).1 = .ok () := by rfl
  have hlineage : (now.lineage "C").map Class.name = ["C", "B"] := by decide +kernel
  have hsight : now.InSight "B" (·.DeclaresMethod "stop") "A" := by
    have hnames : (now.lineage "B").map Class.name = ["B"] ++ "A" :: [] := by decide +kernel
    have hnone : ∀ c ∈ now.lineage "B", ∀ m ∈ c.methods, m.name ≠ "stop" := by decide +kernel
    exact Container.inSight_of_names hnames fun c hc m hm => hnone c hc m hm.1 hm.2
  have hsight' : now.InSight "C" (·.DeclaresProperty "size") "B" := by
    have hnames : (now.lineage "C").map Class.name = ["C"] ++ "B" :: [] := hlineage
    have hnone : ∀ c ∈ now.lineage "C", c.properties = [] := by decide +kernel
    refine Container.inSight_of_names hnames fun c hc p hp => ?_
    rw [Class.DeclaresProperty, hnone c hc] at hp
    exact List.not_mem_nil hp.1
  have hhidden : ¬ now.InSight "C" (·.DeclaresMethod "stop") "A" := by
    rintro ⟨nearer, a, further, hsplit, ha, -⟩
    rw [hsplit, List.map_append, List.map_cons, ha] at hlineage
    have hmem : "A" ∈ ["C", "B"] :=
      hlineage ▸ List.mem_append_right _ List.mem_cons_self
    exact absurd hmem (by decide)
  refine ⟨hanswers, hanswers.call, hstop, ?_, ?_, hsize, ?_⟩
  · exact ((hadded "A" stop hstop "stop" "B").1 ⟨rfl, hsight⟩).1
  · exact (hadded "A" stop hstop "stop" "C").2 fun h => hhidden h.2
  · exact ((hproperty "B" size hsize "size" "C").1 ⟨by decide +kernel, hsight'⟩).1

end ScriptCore
