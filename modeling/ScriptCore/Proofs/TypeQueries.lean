import ScriptCore.Proofs.CallChains
import ScriptCore.Proofs.ClassDeclarations
import ScriptCore.Proofs.Reports
import ScriptCore.Registry.Builtin

/-!
# Asking for the type of a value

The built-in function `typeof` tells the name of a value's type, and with a text as its second
argument it tells whether the value has the type that the text names.  The second form does not
compare names.  It reads the text as a declaration is read, where a text that names no type stands
for `null`.  So a null has the type of any such text, and there the two forms disagree; they also do
on the second names that two types have.

**Bodies.**  `EngineCall.Redefines`: a call that gives a function another body.  Without such a call
`typeof` keeps its body in every run (`body_run`).

**Results.**
* `Tag.eq_ofName_iff`: which tag a text declares.
* `answers_name_iff`, `answers_test_iff`: the answers of the two forms.
* `typeof_forms_agree_but_for_null`: the two forms compared.
* `null_has_type_of_no_name`: where they disagree, at its smallest.
-/

namespace ScriptCore

namespace Tag

/-- The text is the name of a type. -/
def IsName (text : String) : Prop := ∃ t : Tag, t.name = text

theorem name_inj {t t' : Tag} (h : t.name = t'.name) : t = t' := by
  rw [← ofName_name t, h, ofName_name]

/-- A name that declares nothing is read as `null`. -/
theorem ofName_of_not_isName {text : String} (hname : ¬ IsName text) (hint : text ≠ "integer")
    (hbool : text ≠ "boolean") : ofName text = .null := by
  unfold ofName
  split
  · exact absurd ⟨.int, rfl⟩ hname
  · exact absurd rfl hint
  · exact absurd ⟨.double, rfl⟩ hname
  · exact absurd ⟨.float, rfl⟩ hname
  · exact absurd ⟨.string, rfl⟩ hname
  · exact absurd ⟨.bool, rfl⟩ hname
  · exact absurd rfl hbool
  · exact absurd ⟨.object, rfl⟩ hname
  · exact absurd ⟨.klass, rfl⟩ hname
  · exact absurd ⟨.enum, rfl⟩ hname
  · exact absurd ⟨.undefined, rfl⟩ hname
  · rfl

/-- Names that are no second names declare the type they name, or else null. -/
theorem eq_ofName_iff {t : Tag} {text : String} (hint : text ≠ "integer")
    (hbool : text ≠ "boolean") :
    t = ofName text ↔ t.name = text ∨ t = .null ∧ ¬ IsName text := by
  by_cases hname : IsName text
  · obtain ⟨t', rfl⟩ := hname
    have hnamed : IsName t'.name := ⟨t', rfl⟩
    rw [ofName_name]
    constructor
    · rintro rfl
      exact .inl rfl
    · rintro (hsame | ⟨-, hnot⟩)
      · exact name_inj hsame
      · exact absurd hnamed hnot
  · rw [ofName_of_not_isName hname hint hbool]
    constructor
    · intro hnull
      exact .inr ⟨hnull, hname⟩
    · rintro (hsame | ⟨hnull, -⟩)
      · exact absurd ⟨t, hsame⟩ hname
      · exact hnull

end Tag

/-- A call of a function or method answers with a cell that holds the value. -/
def Engine.Answers (e : Engine) (callee : Callee) (args : List CellId) (v : Value) : Prop :=
  ∃ c s, e.container.call callee args e.store = (.ok c, s) ∧ s.heap.read c = v

/-- A call that gives a function another body. -/
def EngineCall.Redefines (name : String) (native : Native) (c : EngineCall) : Prop :=
  ∃ other returns, c = .registry (.registerFunction name other returns) ∧ other ≠ native

section Bodies

variable {name : String} {native : Native}

theorem body_congr {k l : Container} (h : l.functions = k.functions) (name : String) :
    l.body (.function name) = k.body (.function name) := by
  rw [Container.body, Container.body, h]

/-- A function has the body that it was registered with last. -/
theorem body_registerFunction (k : Container) (name other : String) (native : Native)
    (returns : Tag) :
    (k.registerFunction other native returns).body (.function name) =
      if name = other then .ok native else k.body (.function name) := by
  have hfunctions : (k.registerFunction other native returns).functions =
      k.functions.insert other ⟨native, k.currentModule⟩ := rfl
  rw [Container.body, Container.body, hfunctions, Dict.find?_insert]
  by_cases hname : name = other
  · rw [if_pos hname, if_pos hname]
  · rw [if_neg hname, if_neg hname]

/-- A function keeps its body as long as it is given no other. -/
theorem body_perform {c : EngineCall} {e : Engine} (hc : ¬ c.Redefines name native)
    (h : e.container.body (.function name) = .ok native) :
    (c.perform e).container.body (.function name) = .ok native := by
  cases c with
  | scope c =>
      show (c.perform e).container.body (.function name) = .ok native
      rw [container_scopeCall]
      exact h
  | registry c =>
      obtain ⟨other, body, returns, rfl⟩ | hcore := sameCore_registry c e
      · show (e.container.registerFunction other body returns).body (.function name) = .ok native
        rw [body_registerFunction]
        by_cases hname : name = other
        · subst hname
          have hbody : body = native := by
            by_contra hne
            exact hc ⟨body, returns, rfl, hne⟩
          rw [if_pos rfl, hbody]
        · rw [if_neg hname, h]
      · exact (body_congr hcore.functions name).trans h
  | store c => exact h
  | add a id target => exact h
  | assign name c => exact h
  | call callee args => exact h

theorem body_run {calls : List EngineCall} (hcalls : ∀ c ∈ calls, ¬ c.Redefines name native)
    {e : Engine} (h : e.container.body (.function name) = .ok native) :
    (e.run calls).container.body (.function name) = .ok native := by
  induction calls generalizing e with
  | nil => exact h
  | cons c calls ih =>
      refine ih (fun d hd => hcalls d (List.mem_cons_of_mem c hd)) ?_
      exact body_perform (hcalls c List.mem_cons_self) h

end Bodies

section Registration

/-- The registration of a built-in module succeeds and leaves the functions that it installs. -/
theorem register_builtin (b : Builtin) (k : Container) :
    ∃ l, (b.register : Action Container Unit) k = (.ok (), l) ∧
      l.functions =
        (b.functions.foldl Builtin.installFunction (k.openModule b.info.name)).functions := by
  rw [Builtin.register, Container.registerModule_apply]
  exact ⟨_, rfl, rfl⟩

/-- With the built-in modules a container tells types. -/
theorem register_builtins (k : Container) :
    ∃ l, (Builtin.all.forM Builtin.register : Action Container Unit) k = (.ok (), l) ∧
      l.body (.function "typeof") = .ok (.perform .typeOf) := by
  obtain ⟨first, hfirst, -⟩ := register_builtin .moduleHelper k
  obtain ⟨l, hsecond, hfunctions⟩ := register_builtin .variableHelpers first
  refine ⟨l, ?_, ?_⟩
  · show (Builtin.moduleHelper.register >>= fun _ =>
      Builtin.variableHelpers.register >>= fun _ => pure () : Action Container Unit) k = _
    rw [Action.bind_apply, hfirst]
    dsimp only
    rw [Action.bind_apply, hsecond]
    rfl
  · rw [body_congr hfunctions]
    exact (body_registerFunction _ "typeof" "typeof" (.perform .typeOf) .string).trans (if_pos rfl)

end Registration

section Answers

variable {e : Engine} {args : List CellId}

theorem run_typeOf (k : Container) (args : List CellId) (s : Store) :
    Primitive.typeOf.run k args s =
      match Primitive.typeOfValue s.heap args with
      | .ok v => Primitive.answer v s
      | .error err => (.error err, s) := by
  have hrun : Primitive.typeOf.run k args s =
      (liftM (Primitive.typeOfValue s.heap args) >>= Primitive.answer : Action Store CellId) s :=
    rfl
  rw [hrun, Action.bind_apply]
  cases Primitive.typeOfValue s.heap args <;> rfl

/-- A `typeof` with its own body answers as that body does. -/
theorem answers_typeOf_iff
    (h : e.container.body (.function "typeof") = .ok (.perform .typeOf)) {v : Value} :
    e.Answers (.function "typeof") args v ↔
      Primitive.typeOfValue e.store.heap args = .ok v := by
  have hcall : e.container.call (.function "typeof") args e.store =
      Primitive.typeOf.run e.container args e.store := by
    rw [Container.call_eq, h]
    rfl
  rw [Engine.Answers, hcall, run_typeOf]
  cases Primitive.typeOfValue e.store.heap args with
  | error err =>
      constructor
      · rintro ⟨c, s, hrefused, -⟩
        cases hrefused
      · intro hvalue
        cases hvalue
  | ok w =>
      have hread := Heap.read_alloc_self w e.store.heap
      constructor
      · rintro ⟨c, s, hanswer, hv⟩
        cases hanswer
        rw [← hv]
        exact congrArg Except.ok hread.symm
      · intro hvalue
        cases hvalue
        exact ⟨_, _, rfl, hread⟩

variable {v t : CellId}

/-- With one argument the answer is the name of its type. -/
theorem answers_name_iff
    (h : e.container.body (.function "typeof") = .ok (.perform .typeOf)) {name : String} :
    e.Answers (.function "typeof") [v] (.string name) ↔
      (e.store.heap.read v).tag.name = name := by
  rw [answers_typeOf_iff h, Primitive.typeOfValue]
  simp [Value.string, Value.of, Payload.of]

/-- With a name as the second argument the answer is whether the first has the type that the name
declares. -/
theorem answers_test_iff
    (h : e.container.body (.function "typeof") = .ok (.perform .typeOf)) {text : String}
    (ht : e.store.heap.read t = .string text) {b : Bool} :
    e.Answers (.function "typeof") [v, t] (.bool b) ↔
      decide ((e.store.heap.read v).tag = Tag.ofName text) = b := by
  have htext : Primitive.textArgument "typeof" e.store.heap t = .ok text := by
    rw [Primitive.textArgument, ht]
    rfl
  rw [answers_typeOf_iff h, Primitive.typeOfValue, htext]
  simp [Value.bool, Value.of, Payload.of, bind, Except.bind, pure, Except.pure]

end Answers

/-- The built-in modules are registered in any container, and the container is used in any way in
which `typeof` is given no other body.  Both forms of `typeof` answer for every value and every
text.  For a text that is no second name of a type the forms agree, except that a null has the type
of every text that names no type. -/
theorem typeof_forms_agree_but_for_null (k : Container) (s : Store) (calls : List EngineCall)
    (hkept : ∀ c ∈ calls, ¬ c.Redefines "typeof" (.perform .typeOf)) :
    ∃ l, (Builtin.all.forM Builtin.register : Action Container Unit) k = (.ok (), l) ∧
      let e := Engine.run ⟨s, l⟩ calls
      ∀ v t text, e.store.heap.read t = .string text →
        (∃ name, e.Answers (.function "typeof") [v] (.string name)) ∧
        (∃ b, e.Answers (.function "typeof") [v, t] (.bool b)) ∧
        (text ≠ "integer" → text ≠ "boolean" →
          (e.Answers (.function "typeof") [v, t] (.bool true) ↔
            e.Answers (.function "typeof") [v] (.string text) ∨
              e.Answers (.function "typeof") [v] (.string "null") ∧ ¬ Tag.IsName text)) := by
  obtain ⟨l, hregister, hbody⟩ := register_builtins k
  refine ⟨l, hregister, ?_⟩
  intro e v t text ht
  have h : e.container.body (.function "typeof") = .ok (.perform .typeOf) := body_run hkept hbody
  refine ⟨⟨_, (answers_name_iff h).2 rfl⟩, ⟨_, (answers_test_iff h ht).2 rfl⟩, ?_⟩
  intro hint hbool
  have hnull : (e.store.heap.read v).tag.name = "null" ↔ (e.store.heap.read v).tag = .null :=
    ⟨fun hname => Tag.name_inj hname, fun htag => by rw [htag]; rfl⟩
  rw [answers_test_iff h ht, answers_name_iff h, answers_name_iff h, decide_eq_true_iff,
    Tag.eq_ofName_iff hint hbool, hnull]

/-- A null, an integer and two texts in cells, and the body of `typeof` under a second name. -/
def cellsToAsk : List EngineCall :=
  [.store (.changeCells fun _ => ⟨#[.null, .int 7, .string "int", .string "Point"]⟩),
    .registry (.registerFunction "type" (.perform .typeOf) .string)]

theorem cellsToAsk_kept : ∀ c ∈ cellsToAsk, ¬ c.Redefines "typeof" (.perform .typeOf) := by
  rintro c hc ⟨other, returns, rfl, -⟩
  simp [cellsToAsk] at hc

theorem integer_has_type_of_its_name :
    (∀ c ∈ cellsToAsk, ¬ c.Redefines "typeof" (.perform .typeOf)) ∧
    ∃ k s l, Container.build "main" defaultMaxDepth Store.empty = (.ok k, s) ∧
      (Builtin.all.forM Builtin.register : Action Container Unit) k = (.ok (), l) ∧
      let e := Engine.run ⟨s, l⟩ cellsToAsk
      e.store.heap.read ⟨2⟩ = .string "int" ∧ e.store.heap.read ⟨3⟩ = .string "Point" ∧
      e.Answers (.function "typeof") [⟨1⟩, ⟨2⟩] (.bool true) ∧
      ¬ e.Answers (.function "typeof") [⟨1⟩, ⟨3⟩] (.bool true) := by
  have hbuild := build_of_ne_empty (by decide : "main" ≠ "") defaultMaxDepth Store.empty
  obtain ⟨l, hregister, hforms⟩ := typeof_forms_agree_but_for_null
    (Container.withRoot ⟨"main", ⟨0⟩⟩ defaultMaxDepth) (Store.addTable none Store.empty).2
    cellsToAsk cellsToAsk_kept
  obtain ⟨l', hregister', hbody⟩ :=
    register_builtins (Container.withRoot ⟨"main", ⟨0⟩⟩ defaultMaxDepth)
  rw [hregister] at hregister'
  cases hregister'
  refine ⟨cellsToAsk_kept, _, _, l, hbuild, hregister, ?_⟩
  intro e
  have hname : ∀ name, e.Answers (.function "typeof") [⟨1⟩] (.string name) ↔ "int" = name :=
    fun name => answers_name_iff (body_run cellsToAsk_kept hbody)
  obtain ⟨-, -, hint⟩ := hforms ⟨1⟩ ⟨2⟩ "int" rfl
  obtain ⟨-, -, hpoint⟩ := hforms ⟨1⟩ ⟨3⟩ "Point" rfl
  refine ⟨rfl, rfl, ?_, ?_⟩
  · exact (hint (by decide) (by decide)).2 (.inl ((hname "int").2 rfl))
  · rw [hpoint (by decide) (by decide), hname, hname]
    rintro (hsame | ⟨hnull, -⟩)
    · exact absurd hsame (by decide)
    · exact absurd hnull (by decide)

/-- A null has the type that `Point` names, and the name of its type is not `Point`. -/
theorem null_has_type_of_no_name :
    ∃ k s l, Container.build "main" defaultMaxDepth Store.empty = (.ok k, s) ∧
      (Builtin.all.forM Builtin.register : Action Container Unit) k = (.ok (), l) ∧
      let e := Engine.run ⟨s, l⟩ cellsToAsk
      e.store.heap.read ⟨3⟩ = .string "Point" ∧
      e.Answers (.function "typeof") [⟨0⟩, ⟨3⟩] (.bool true) ∧
      e.Answers (.function "typeof") [⟨0⟩] (.string "null") ∧
      ¬ e.Answers (.function "typeof") [⟨0⟩] (.string "Point") := by
  have hbuild := build_of_ne_empty (by decide : "main" ≠ "") defaultMaxDepth Store.empty
  obtain ⟨l, hregister, hbody⟩ :=
    register_builtins (Container.withRoot ⟨"main", ⟨0⟩⟩ defaultMaxDepth)
  refine ⟨_, _, l, hbuild, hregister, ?_⟩
  intro e
  have h : e.container.body (.function "typeof") = .ok (.perform .typeOf) :=
    body_run cellsToAsk_kept hbody
  have ht : e.store.heap.read ⟨3⟩ = .string "Point" := rfl
  have hname : ∀ name, e.Answers (.function "typeof") [⟨0⟩] (.string name) ↔ "null" = name :=
    fun name => answers_name_iff h
  refine ⟨ht, ?_, (hname "null").2 rfl, ?_⟩
  · exact (answers_test_iff h ht).2 rfl
  · rw [hname]
    decide

end ScriptCore
