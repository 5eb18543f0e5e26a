import ScriptCore.Proofs.ClassDeclarations

/-!
# Trees of module registrations

The body of a module registers functions and classes and may register other modules, to any depth.
It may stop with an error of its own at any point, hand on an error that one of its steps gave, or
ignore it.  What was registered before an error stays.

**Recording.**  `Registration.run` runs a tree and records each step that was run: the modules whose
bodies were running, the current module right before and right after the step, and the result.  The
first of these is read off the tree and the others off the container.

**Attribution.**  A function is attributed to the module of its last registration in the record and
a class to that of its first one, so the two laws (`Registered.functions`, `Registered.classes`)
look through the record from opposite ends.

**Errors.**  `Traced`: an error that comes out of modules was raised by a step inside them, and the
modules are all that the record has after that step.

**Results.**
* `Registered.append`, `Registered.inModule`: the laws hold of a sequence and of a module if they
  hold of their parts.
* `meets_run`: recording changes nothing, and the laws hold of every tree.
* `Registration.exists_run`: what holds after every run of an engine holds after every tree.
* `registrations_attributed`: what a tree leaves behind, on success and on failure.
-/

namespace ScriptCore

/-- A step of the body of a module. -/
inductive Registration
  | function (name : String) (native : Native) (returns : Tag)
  | klass (name : String)
  | subclass (name parent : String)
  /-- Stop with an error. -/
  | fail (e : Error)
  /-- Run a step and ignore its error. -/
  | attempt (step : Registration)
  | inModule (info : ModuleInfo) (body : List Registration)

mutual

/-- Run a step. -/
def Registration.perform : Registration → Action Container Unit
  | .function name native returns => fun k => (.ok (), k.registerFunction name native returns)
  | .klass name => fun k => (.ok (), k.registerClass name)
  | .subclass name parent => Container.registerSubclass name parent
  | .fail e => throw e
  | .attempt step => fun k => (.ok (), (step.perform k).2)
  | .inModule info body => Container.registerModule info (Registration.performAll body)

/-- Run the steps of a body until one fails. -/
def Registration.performAll : List Registration → Action Container Unit
  | [] => pure ()
  | step :: rest => do
      step.perform
      Registration.performAll rest

end

/-- The record of a step that was run. -/
structure Entry where
  /-- The modules whose bodies were running, the innermost first. -/
  running : List String
  step : Registration
  /-- The current module right before the step. -/
  before : Option String
  result : Except Error Unit
  /-- The current module right after the step. -/
  after : Option String

/-- A registration that keeps a record. -/
abbrev Recorded : Type := ExceptT Error (StateT (List Entry) (StateM Container)) Unit

namespace Recorded

/-- Run an action on the container. -/
def onContainer (act : Action Container Unit) : Recorded := fun log k =>
  let (result, l) := act k
  ((result, log), l)

/-- Add a step to the record after it was run. -/
def record (running : List String) (step : Registration) (act : Recorded) : Recorded :=
  fun log k =>
    let ((result, log), l) := act log k
    ((result, log ++ [⟨running, step, k.currentModule, result, l.currentModule⟩]), l)

/-- Ignore an error. -/
def ignoring (act : Recorded) : Recorded := fun log k =>
  let ((_, log), l) := act log k
  ((.ok (), log), l)

end Recorded

mutual

/-- Run a step inside the bodies of modules, the innermost first, and record what is run. -/
def Registration.run (running : List String) : Registration → Recorded
  | .function name native returns =>
      .record running (.function name native returns)
        (.onContainer fun k => (.ok (), k.registerFunction name native returns))
  | .klass name =>
      .record running (.klass name) (.onContainer fun k => (.ok (), k.registerClass name))
  | .subclass name parent =>
      .record running (.subclass name parent)
        (.onContainer (Container.registerSubclass name parent))
  | .fail e => .record running (.fail e) (.onContainer (throw e))
  | .attempt step => .ignoring (step.run running)
  | .inModule info body =>
      .record running (.inModule info body)
        (Container.registerModule info (Registration.runAll (info.name :: running) body))

def Registration.runAll (running : List String) : List Registration → Recorded
  | [] => pure ()
  | step :: rest => do
      step.run running
      Registration.runAll running rest

end

namespace Entry

/-- The module that the step attributes a function to. -/
def functionOrigin? (name : String) (entry : Entry) : Option (Option String) :=
  match entry.step with
  | .function other _ _ => if other = name then some entry.running.head? else none
  | _ => none

/-- The module that the step attributes a class to, if it registers the class. -/
def classOrigin? (name : String) (entry : Entry) : Option (Option String) :=
  match entry.step, entry.result with
  | .klass other, .ok _ => if other = name then some entry.running.head? else none
  | .subclass other _, .ok _ => if other = name then some entry.running.head? else none
  | _, _ => none

/-- The module that the step registers. -/
def module? (entry : Entry) : Option String :=
  match entry.step with
  | .inModule info _ => some info.name
  | _ => none

end Entry

/-- An error came out of these modules, the innermost first. -/
def Error.outOf (e : Error) (modules : List String) : Error :=
  { e with notes := e.notes ++ modules.map moduleNote }

/-- An error that ends a record was raised by a step that is no module, and came out of the modules
that were running inside the given ones.  It got a note from each of them, and nothing else was run
after it was raised. -/
def Traced (entries : List Entry) (running : List String) (e : Error) : Prop :=
  ∃ earlier raised aborted cause inner, entries = earlier ++ raised :: aborted ∧
    raised.module? = none ∧ raised.result = .error cause ∧ raised.running = inner ++ running ∧
    aborted.map Entry.module? = inner.map some ∧ e = cause.outOf inner

/-- What is left after a registration with a record: the current module is as it was, and every step
saw the innermost running module.  Functions have the module of their last registration, classes
that of their first one, and the modules with a successful registration are listed.  Every error can
be traced, whether it is ignored later or not. -/
structure Registered (running : List String) (k : Container) (result : Except Error Unit)
    (entries : List Entry) (l : Container) : Prop where
  current : l.currentModule = k.currentModule
  observed : ∀ entry ∈ entries,
    entry.before = entry.running.head? ∧ entry.after = entry.running.head?
  functions : ∀ name, (l.functions.find? name).map FunctionEntry.origin =
    (entries.reverse.findSome? (Entry.functionOrigin? name)).or
      ((k.functions.find? name).map FunctionEntry.origin)
  classes : ∀ name, (l.classes.find? name).map Class.origin =
    ((k.classes.find? name).map Class.origin).or (entries.findSome? (Entry.classOrigin? name))
  modules : ∀ name, l.hasModule name = true ↔
    k.hasModule name = true ∨
      ∃ entry ∈ entries, entry.module? = some name ∧ entry.result = .ok ()
  raised : ∀ earlier entry rest e, entries = earlier ++ entry :: rest → entry.result = .error e →
    Traced (earlier ++ [entry]) entry.running e
  errors : ∀ e, result = .error e → Traced entries running e

/-- Whenever the current module is the innermost running one, a registration with a record does what
it does without one, and the laws hold. -/
def Meets (running : List String) (act : Recorded) (plain : Action Container Unit) : Prop :=
  ∀ log k, k.currentModule = running.head? →
    ∃ entries, act log k = (((plain k).1, log ++ entries), (plain k).2) ∧
      Registered running k (plain k).1 entries (plain k).2

/-- What the registration of a module does with the outcome of its body. -/
def concludeModule (info : ModuleInfo) :
    Except Error Unit → StateT (List Entry) (StateM Container) (Except Error Unit)
  | .ok _ => do
      modifyThe Container fun l =>
        { l with modules := l.modules.insert info.name ⟨info, info.description⟩ }
      return .ok ()
  | .error e => return .error (e.withNote (moduleNote info.name))

/-- A module that is registered under a record. -/
theorem registerModule_recorded (info : ModuleInfo) {body : Recorded} {log log' : List Entry}
    {k l : Container} {result : Except Error Unit}
    (hbody : body log (k.openModule info.name) = ((result, log'), l)) :
    (Container.registerModule info body : Recorded) log k =
      ((result.mapError (Error.withNote · (moduleNote info.name)), log'),
        l.closeModule k.currentModule (if result.isOk then some info else none)) := by
  -- The body has run and the marker is set back before its result is looked at.
  have hrun : (Container.registerModule info body : Recorded) log k =
      concludeModule info (body log (k.openModule info.name)).1.1
        (body log (k.openModule info.name)).1.2
        { (body log (k.openModule info.name)).2 with currentModule := k.currentModule } := rfl
  rw [hrun, hbody]
  cases result <;> rfl

namespace Container

variable (k : Container)

/-- Registering a class changes nothing but the classes. -/
theorem registerClass_eq (name : String) :
    k.registerClass name = { k with classes := (k.registerClass name).classes } := by
  unfold registerClass
  split <;> rfl

theorem registerSubclass_eq (name parent : String) :
    (registerSubclass name parent k).2 =
      { k with classes := (registerSubclass name parent k).2.classes } := by
  by_cases hparent : k.classes.contains parent = true
  · rw [registerSubclass_of_contains k name hparent, registerClass_eq k name]
  · rw [registerSubclass_of_not_contains k name hparent]

/-- A class keeps its origin when it is registered again. -/
theorem origin_registerClass (name other : String) :
    ((k.registerClass name).classes.find? other).map Class.origin =
      ((k.classes.find? other).map Class.origin).or
        (if name = other then some k.currentModule else none) := by
  rw [find?_registerClass]
  by_cases hother : other = name
  · subst hother
    rw [if_pos rfl, if_pos rfl]
    cases k.classes.find? other <;> rfl
  · rw [if_neg hother, if_neg (Ne.symm hother), Option.or_none]

/-- A parent does not change the origin. -/
theorem origin_registerSubclass {name parent : String} (h : k.classes.contains parent = true)
    (other : String) :
    ((registerSubclass name parent k).2.classes.find? other).map Class.origin =
      ((k.registerClass name).classes.find? other).map Class.origin := by
  rw [registerSubclass_of_contains k name h, Dict.find?_modify]
  by_cases hother : other = name
  · rw [if_pos hother, hother, Option.map_map]
    rfl
  · rw [if_neg hother]

theorem hasModule_closeModule (previous : Option String) (listed : Option ModuleInfo)
    (name : String) :
    (k.closeModule previous listed).hasModule name = true ↔
      k.hasModule name = true ∨ listed.map ModuleInfo.name = some name := by
  cases listed with
  | none => simp [closeModule, hasModule]
  | some info =>
      show (k.modules.insert info.name _).contains name = true ↔ _
      rw [Dict.contains_insert_iff, Option.map_some, Option.some.injEq, or_comm, @eq_comm _ name]
      rfl

end Container

/-- An entry of two records one after the other is in the first or in the second. -/
theorem mem_first_or_second {α : Type} {first second earlier rest : List α} {a : α}
    (h : first ++ second = earlier ++ a :: rest) :
    (∃ between, first = earlier ++ a :: between) ∨
      ∃ between, earlier = first ++ between ∧ second = between ++ a :: rest := by
  obtain ⟨between, hearlier, hsecond⟩ | ⟨between, hfirst, hrest⟩ := List.append_eq_append_iff.1 h
  · exact Or.inr ⟨between, hearlier, hsecond⟩
  · obtain ⟨rfl, hsecond⟩ | ⟨between, rfl, -⟩ := List.cons_eq_append_iff.1 hrest
    · exact Or.inr ⟨[], by simpa using hfirst.symm, hsecond⟩
    · exact Or.inl ⟨between, hfirst⟩

theorem eq_of_singleton_eq {α : Type} {earlier rest : List α} {a b : α}
    (h : [a] = earlier ++ b :: rest) : earlier = [] ∧ a = b ∧ rest = [] := by
  cases earlier with
  | nil => simpa [eq_comm] using h
  | cons c earlier => simp at h

namespace Traced

variable {running : List String} {entries : List Entry} {e : Error}

theorem single {entry : Entry} (hmodule : entry.module? = none) (he : entry.result = .error e) :
    Traced [entry] entry.running e :=
  ⟨[], entry, [], e, [], rfl, hmodule, he, rfl, rfl, by simp [Error.outOf]⟩

theorem after (h : Traced entries running e) (before : List Entry) :
    Traced (before ++ entries) running e := by
  obtain ⟨earlier, raised, aborted, cause, inner, hsplit, hrest⟩ := h
  refine ⟨before ++ earlier, raised, aborted, cause, inner, ?_, hrest⟩
  rw [hsplit, List.append_assoc]

/-- An error that comes out of one more module. -/
theorem inModule {name : String} {entry : Entry} (h : Traced entries (name :: running) e)
    (hentry : entry.module? = some name) :
    Traced (entries ++ [entry]) running (e.withNote (moduleNote name)) := by
  obtain ⟨earlier, raised, aborted, cause, inner, hsplit, hnone, hraised, hrunning, hmap, rfl⟩ := h
  refine ⟨earlier, raised, aborted ++ [entry], cause, inner ++ [name], ?_, hnone, hraised,
    ?_, ?_, ?_⟩
  · rw [hsplit, List.append_assoc, List.cons_append]
  · rw [hrunning, List.append_assoc]
    rfl
  · rw [List.map_append, List.map_append, hmap, List.map_singleton, List.map_singleton, hentry]
  · simp [Error.outOf, Error.withNote]

end Traced

namespace Registered

variable {running : List String} {k l m : Container} {result : Except Error Unit}
variable {entries later : List Entry}

theorem refl (running : List String) (k : Container) : Registered running k (.ok ()) [] k where
  current := rfl
  observed := by simp
  functions := by simp
  classes := by simp
  modules := by simp
  raised := by simp
  errors := by simp

/-- One step that is no module, and that leaves the list of modules alone. -/
theorem single {step : Registration} {entry : Entry}
    (hentry : entry = ⟨running, step, k.currentModule, result, l.currentModule⟩)
    (hk : k.currentModule = running.head?) (hmodule : entry.module? = none)
    (hcurrent : l.currentModule = k.currentModule) (hmodules : l.modules = k.modules)
    (hfunctions : ∀ name, (l.functions.find? name).map FunctionEntry.origin =
      (entry.functionOrigin? name).or ((k.functions.find? name).map FunctionEntry.origin))
    (hclasses : ∀ name, (l.classes.find? name).map Class.origin =
      ((k.classes.find? name).map Class.origin).or (entry.classOrigin? name)) :
    Registered running k result [entry] l where
  current := hcurrent
  observed := by
    intro other hother
    obtain rfl := List.mem_singleton.1 hother
    subst hentry
    exact ⟨hk, hcurrent.trans hk⟩
  functions := by simpa using hfunctions
  classes := by simpa using hclasses
  modules := by simp [Container.hasModule, hmodules, hmodule]
  raised := by
    intro earlier other rest e hsplit he
    obtain ⟨rfl, rfl, rfl⟩ := eq_of_singleton_eq hsplit
    exact .single hmodule he
  errors := by
    intro e he
    subst hentry
    exact .single hmodule he

/-- A step that registers classes, if anything. -/
theorem ofClasses {step : Registration} {entry : Entry}
    (hentry : entry = ⟨running, step, k.currentModule, result, l.currentModule⟩)
    (hk : k.currentModule = running.head?) (hmodule : entry.module? = none)
    (hfunction : ∀ name, entry.functionOrigin? name = none)
    (hframe : l = { k with classes := l.classes })
    (hclasses : ∀ name, (l.classes.find? name).map Class.origin =
      ((k.classes.find? name).map Class.origin).or (entry.classOrigin? name)) :
    Registered running k result [entry] l := by
  refine single hentry hk hmodule ?_ ?_ ?_ hclasses
  · rw [hframe]
  · rw [hframe]
  · intro name
    rw [hframe, hfunction, Option.none_or]

/-- What comes after a success adds its entries to the record. -/
theorem append (h : Registered running k (.ok ()) entries l)
    (h' : Registered running l result later m) :
    Registered running k result (entries ++ later) m where
  current := h'.current.trans h.current
  observed := by
    intro entry hentry
    obtain hentry | hentry := List.mem_append.1 hentry
    · exact h.observed entry hentry
    · exact h'.observed entry hentry
  functions := by
    intro name
    rw [h'.functions, h.functions, List.reverse_append, List.findSome?_append, Option.or_assoc]
  classes := by
    intro name
    rw [h'.classes, h.classes, List.findSome?_append, Option.or_assoc]
  modules := by
    intro name
    rw [h'.modules, h.modules, or_assoc]
    simp only [List.mem_append, or_and_right, exists_or]
  raised := by
    intro earlier entry rest e hsplit he
    obtain ⟨between, hentries⟩ | ⟨between, rfl, hlater⟩ := mem_first_or_second hsplit
    · exact h.raised earlier entry between e hentries he
    · rw [List.append_assoc]
      exact (h'.raised between entry rest e hlater he).after entries
  errors := by
    intro e he
    exact (h'.errors e he).after entries

theorem ignored (h : Registered running k result entries l) :
    Registered running k (.ok ()) entries l :=
  { h with errors := fun _ he => nomatch he }

theorem traced_inModule {name : String} {entry : Entry} {e : Error}
    (h : Registered (name :: running) k result entries l) (hentry : entry.module? = some name)
    (he : result.mapError (Error.withNote · (moduleNote name)) = .error e) :
    Traced (entries ++ [entry]) running e := by
  cases result with
  | ok _ => cases he
  | error e' =>
      obtain rfl := Except.error.inj he
      exact (h.errors e' rfl).inModule hentry

/-- The body of a module runs in the module.  If it succeeds the module is listed; its error gets a
note. -/
theorem inModule {info : ModuleInfo} {body : List Registration} {closed : Except Error Unit}
    {entry : Entry}
    (hentry : entry = ⟨running, .inModule info body, k.currentModule, closed, k.currentModule⟩)
    (hclosed : closed = result.mapError (Error.withNote · (moduleNote info.name)))
    (hk : k.currentModule = running.head?)
    (h : Registered (info.name :: running) (k.openModule info.name) result entries l) :
    Registered running k closed (entries ++ [entry])
      (l.closeModule k.currentModule (if result.isOk then some info else none)) where
  current := rfl
  observed := by
    intro other hother
    obtain hother | hother := List.mem_append.1 hother
    · exact h.observed other hother
    · obtain rfl := List.mem_singleton.1 hother
      subst hentry
      exact ⟨hk, hk⟩
  functions := by
    intro name
    subst hentry
    rw [List.reverse_append, List.findSome?_append]
    exact h.functions name
  classes := by
    intro name
    subst hentry
    rw [List.findSome?_append, ← Option.or_assoc]
    exact (h.classes name).trans Option.or_none.symm
  modules := by
    intro name
    subst hentry
    have hbody : l.hasModule name = true ↔ k.hasModule name = true ∨
        ∃ entry ∈ entries, entry.module? = some name ∧ entry.result = .ok () := h.modules name
    have hlisted : (if result.isOk then some info else none).map ModuleInfo.name = some name ↔
        info.name = name ∧ closed = .ok () := by
      cases result <;> simp [hclosed, Except.mapError, Except.isOk, Except.toBool]
    rw [Container.hasModule_closeModule, hbody, hlisted, or_assoc]
    simp only [List.mem_append, List.mem_singleton, or_and_right, exists_or, exists_eq_left,
      Entry.module?, Option.some.injEq]
  raised := by
    intro earlier other rest e hsplit he
    obtain ⟨between, hentries⟩ | ⟨between, rfl, hlast⟩ := mem_first_or_second hsplit
    · exact h.raised earlier other between e hentries he
    · obtain ⟨rfl, rfl, rfl⟩ := eq_of_singleton_eq hlast
      rw [List.append_nil]
      subst hentry
      exact h.traced_inModule rfl (hclosed.symm.trans he)
  errors := by
    intro e he
    subst hentry
    exact h.traced_inModule rfl (hclosed.symm.trans he)

end Registered

namespace Meets

variable {running : List String} {act next : Recorded} {plain plainNext : Action Container Unit}

theorem pure (running : List String) : Meets running (Pure.pure ()) (Pure.pure ()) := by
  intro log k _
  exact ⟨[], by rw [List.append_nil]; rfl, .refl running k⟩

theorem bind (h : Meets running act plain) (hnext : Meets running next plainNext) :
    Meets running (do act; next) (do plain; plainNext) := by
  intro log k hk
  obtain ⟨entries, hact, hfirst⟩ := h log k hk
  rcases hplain : plain k with ⟨e | _, l⟩
  · rw [hplain] at hact hfirst
    have hstop : (do act; next : Recorded) log k = ((.error e, log ++ entries), l) := by
      simp [Bind.bind, ExceptT.bind, ExceptT.mk, StateT.bind, hact, ExceptT.bindCont]
      rfl
    have hplainStop : (do plain; plainNext : Action Container Unit) k = (.error e, l) := by
      rw [Action.bind_apply, hplain]
    rw [hstop, hplainStop]
    exact ⟨entries, rfl, hfirst⟩
  · rw [hplain] at hact hfirst
    have hgo : (do act; next : Recorded) log k = next (log ++ entries) l := by
      simp [Bind.bind, ExceptT.bind, ExceptT.mk, StateT.bind, hact, ExceptT.bindCont]
    have hplainGo : (do plain; plainNext : Action Container Unit) k = plainNext l := by
      rw [Action.bind_apply, hplain]
    obtain ⟨later, hrest, hlater⟩ := hnext (log ++ entries) l (hfirst.current.trans hk)
    rw [hgo, hplainGo, hrest]
    exact ⟨entries ++ later, by rw [List.append_assoc], hfirst.append hlater⟩

theorem ignoring (h : Meets running act plain) :
    Meets running (.ignoring act) fun k => (.ok (), (plain k).2) := by
  intro log k hk
  obtain ⟨entries, hact, hentries⟩ := h log k hk
  refine ⟨entries, ?_, hentries.ignored⟩
  unfold Recorded.ignoring
  rw [hact]

/-- A step on the container is recorded by one entry. -/
theorem record {step : Registration}
    (h : ∀ k, k.currentModule = running.head? → Registered running k (plain k).1
      [⟨running, step, k.currentModule, (plain k).1, (plain k).2.currentModule⟩] (plain k).2) :
    Meets running (.record running step (.onContainer plain)) plain := by
  intro log k hk
  exact ⟨_, rfl, h k hk⟩

theorem registerModule {info : ModuleInfo} {body : List Registration}
    (h : Meets (info.name :: running) act plain) :
    Meets running (.record running (.inModule info body) (Container.registerModule info act))
      (Container.registerModule info plain) := by
  intro log k hk
  obtain ⟨entries, hact, hbody⟩ := h log (k.openModule info.name) rfl
  have hrecorded := registerModule_recorded info hact
  have hplain : Container.registerModule info plain k = _ :=
    Container.registerModule_of_body info rfl
  unfold Recorded.record
  rw [hrecorded, hplain]
  refine ⟨entries ++ [⟨running, .inModule info body, k.currentModule, _, k.currentModule⟩], ?_,
    .inModule rfl rfl hk hbody⟩
  rw [← List.append_assoc]
  rfl

end Meets

mutual

theorem meets_run : ∀ (step : Registration) (running : List String),
    Meets running (step.run running) step.perform
  | .function name native returns, running => by
      rw [Registration.run, Registration.perform]
      refine .record fun k hk => .single rfl hk rfl rfl rfl ?_ fun _ => Option.or_none.symm
      intro other
      show ((k.functions.insert name ⟨native, k.currentModule⟩).find? other).map _ =
        (if name = other then some running.head? else none).or _
      rw [Dict.find?_insert, ← hk]
      by_cases hother : name = other
      · rw [if_pos hother, if_pos hother.symm]
        rfl
      · rw [if_neg hother, if_neg (Ne.symm hother), Option.none_or]
  | .klass name, running => by
      rw [Registration.run, Registration.perform]
      refine .record fun k hk => .ofClasses rfl hk rfl (fun _ => rfl) (k.registerClass_eq name) ?_
      intro other
      show ((k.registerClass name).classes.find? other).map _ =
        Option.or _ (if name = other then some running.head? else none)
      rw [k.origin_registerClass, hk]
  | .subclass name parent, running => by
      rw [Registration.run, Registration.perform]
      refine .record fun k hk =>
        .ofClasses rfl hk rfl (fun _ => rfl) (k.registerSubclass_eq name parent) ?_
      intro other
      by_cases hparent : k.classes.contains parent = true
      · rw [k.origin_registerSubclass hparent, k.origin_registerClass, hk,
          k.registerSubclass_of_contains name hparent]
        rfl
      · rw [k.registerSubclass_of_not_contains name hparent]
        exact Option.or_none.symm
  | .fail e, running => by
      rw [Registration.run, Registration.perform]
      exact .record fun k hk =>
        .ofClasses rfl hk rfl (fun _ => rfl) rfl fun _ => Option.or_none.symm
  | .attempt step, running => by
      rw [Registration.run, Registration.perform]
      exact (meets_run step running).ignoring
  | .inModule info body, running => by
      rw [Registration.run, Registration.perform]
      exact (meets_runAll body (info.name :: running)).registerModule

theorem meets_runAll : ∀ (steps : List Registration) (running : List String),
    Meets running (Registration.runAll running steps) (Registration.performAll steps)
  | [], running => by
      rw [Registration.runAll, Registration.performAll]
      exact .pure running
  | step :: rest, running => by
      rw [Registration.runAll, Registration.performAll]
      exact (meets_run step running).bind (meets_runAll rest running)

end

mutual

/-- What a step does to the container of an engine, a run of calls does. -/
theorem Registration.exists_run : ∀ (step : Registration) (e : Engine),
    ∃ calls, e.run calls = { e with container := (step.perform e.container).2 }
  | .function name native returns, e => ⟨[.registry (.registerFunction name native returns)], rfl⟩
  | .klass name, e => ⟨[.registry (.registerClass name)], rfl⟩
  | .subclass name parent, e => ⟨[.registry (.registerSubclass name parent)], rfl⟩
  | .fail err, e => ⟨[], rfl⟩
  | .attempt step, e => step.exists_run e
  | .inModule info body, e => by
      obtain ⟨calls, hcalls⟩ := Registration.exists_runAll body
        { e with container := e.container.openModule info.name }
      exact Engine.exists_run_registerModule info hcalls

theorem Registration.exists_runAll : ∀ (steps : List Registration) (e : Engine),
    ∃ calls, e.run calls = { e with container := (Registration.performAll steps e.container).2 }
  | [], e => ⟨[], rfl⟩
  | step :: rest, e => by
      obtain ⟨first, hfirst⟩ := step.exists_run e
      rw [Registration.performAll, Action.bind_apply]
      rcases hstep : step.perform e.container with ⟨err | _, l⟩
      · rw [hstep] at hfirst
        exact ⟨first, hfirst⟩
      · rw [hstep] at hfirst
        obtain ⟨others, hothers⟩ := Registration.exists_runAll rest { e with container := l }
        refine ⟨first ++ others, ?_⟩
        rw [Engine.run_append, hfirst, hothers]

end

/-- Steps that are run in a container, with their modules, can be recorded so that the laws hold:
the current module is as before at the end and was the innermost running module at every step,
functions and classes have the modules of their last and first registrations, the modules with a
successful registration are listed, and errors have a note from each module they came out of. -/
theorem registrations_attributed (steps : List Registration) (k : Container) :
    ∃ entries,
      Registration.runAll k.currentModule.toList steps [] k =
        (((Registration.performAll steps k).1, entries), (Registration.performAll steps k).2) ∧
      Registered k.currentModule.toList k (Registration.performAll steps k).1 entries
        (Registration.performAll steps k).2 := by
  have hcurrent : k.currentModule = k.currentModule.toList.head? := by
    cases k.currentModule <;> rfl
  exact meets_runAll steps k.currentModule.toList [] k hcurrent

/-- The inner module fails after it has registered a class, and the outer one hands its error on. -/
example :
    let run := Registration.performAll
      [.inModule ⟨"outer", ""⟩
        [.inModule ⟨"inner", ""⟩ [.klass "A", .fail (Error.of (.custom "stop"))], .klass "B"]]
      (Container.withRoot ⟨"main", ⟨0⟩⟩ defaultMaxDepth)
    run.1 = .error ⟨.custom "stop",
        ["while registering module inner", "while registering module outer"]⟩ ∧
      (run.2.classes.find? "A").map Class.origin = some (some "inner") ∧
      run.2.classNames = ["A"] ∧ run.2.moduleNames = [] ∧ run.2.currentModule = none := by
  decide +kernel

end ScriptCore
