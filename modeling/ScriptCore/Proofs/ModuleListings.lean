import ScriptCore.Proofs.Refusals
import ScriptCore.Proofs.Reports

/-!
# Listings of modules and their members

A script can list the modules with their members, the functions and the classes.  Nothing is lost
and nothing is listed twice: a function or class stands in the list of the module that it is
attributed to, once, and in no other list; if it is attributed to no module, or to one that is not
registered, it stands in none.

**Results.**
* `Dict.enumerates_keys`: a dictionary lists each of its names once.
* `enumerates_functionNamesOf`, `enumerates_classNamesOf`: the members of one module.
* `count_flatMap_moduleNames`: the members of all modules together.
* `listings_complete`: what the listings show.
-/

namespace ScriptCore

/-- The list has exactly the names that pass a test, in ascending order and each once. -/
structure Enumerates (names : List String) (test : String → Bool) : Prop where
  ascending : names.Pairwise (· < ·)
  count : ∀ name, names.count name = if test name then 1 else 0

theorem Enumerates.congr {names : List String} {test test' : String → Bool}
    (h : Enumerates names test) (htest : ∀ name, test name = test' name) :
    Enumerates names test' where
  ascending := h.ascending
  count name := by rw [h.count, htest]

namespace Dict

variable {α : Type}

theorem contains_filter (d : Dict α) (keep : String → α → Bool) (name : String) :
    (d.filter keep).contains name = (d.find? name).any (keep name) := by
  have hfound : ∀ a, (d.filter keep).find? name = some a ↔
      d.find? name = some a ∧ keep name a = true := by
    intro a
    rw [find?_eq_some_iff, find?_eq_some_iff]
    exact List.mem_filter
  cases hname : d.find? name with
  | none =>
      rw [contains, Option.any_none, Option.isSome_eq_false_iff, Option.isNone_iff_eq_none,
        Option.eq_none_iff_forall_ne_some]
      intro a ha
      rw [hfound, hname] at ha
      cases ha.1
  | some a =>
      rw [Option.any_some, Bool.eq_iff_iff, contains, Option.isSome_iff_exists]
      constructor
      · rintro ⟨b, hb⟩
        obtain ⟨hb, hkeep⟩ := (hfound b).1 hb
        rw [hname] at hb
        cases hb
        exact hkeep
      · intro hkeep
        exact ⟨a, (hfound a).2 ⟨hname, hkeep⟩⟩

theorem enumerates_keys (d : Dict α) : Enumerates d.keys d.contains where
  ascending := d.keys_ascending
  count := by
    intro name
    have hnodup : d.keys.Nodup := d.keys_ascending.imp fun h => String.ne_of_lt h
    by_cases hname : name ∈ d.keys
    · rw [List.count_eq_one_of_mem hnodup hname]
      exact (if_pos (mem_keys_iff.1 hname)).symm
    · rw [List.count_eq_zero_of_not_mem hname]
      exact (if_neg fun h => hname (mem_keys_iff.2 h)).symm

end Dict

namespace Container

variable (k : Container)

/-- The module that a class is attributed to. -/
def classOrigin? (name : String) : Option String := (k.class? name).bind Class.origin

theorem enumerates_functionNamesOf (origin : String) :
    Enumerates (k.functionNamesOf origin) fun name => k.functionOrigin? name == some origin := by
  refine (Dict.enumerates_keys _).congr fun name => ?_
  rw [Dict.contains_filter, functionOrigin?]
  cases k.functions.find? name <;> rfl

theorem enumerates_classNamesOf (origin : String) :
    Enumerates (k.classNamesOf origin) fun name => k.classOrigin? name == some origin := by
  refine (Dict.enumerates_keys _).congr fun name => ?_
  rw [Dict.contains_filter, classOrigin?, class?]
  cases k.classes.find? name <;> rfl

/-- What is attributed to one module at most stands in one list at most. -/
theorem count_flatMap_of_origin {members : String → List String} {origin : Option String}
    {name : String} (h : ∀ m, (members m).count name = if origin == some m then 1 else 0)
    (modules : List String) :
    (modules.flatMap members).count name = origin.elim 0 modules.count := by
  induction modules with
  | nil => cases origin <;> rfl
  | cons m modules ih =>
      rw [List.flatMap_cons, List.count_append, ih, h]
      cases origin with
      | none => rfl
      | some o =>
          by_cases hm : o = m
          · simp [hm, Nat.add_comm]
          · have hm' : m ≠ o := fun e => hm e.symm
            simp [hm, hm']

/-- Over all registered modules a member is listed once if its module is registered. -/
theorem count_flatMap_moduleNames {members : String → List String} {origin : Option String}
    {name : String} (h : ∀ m, (members m).count name = if origin == some m then 1 else 0) :
    (k.moduleNames.flatMap members).count name = if origin.any k.hasModule then 1 else 0 := by
  rw [count_flatMap_of_origin h]
  cases origin with
  | none => rfl
  | some m => exact k.modules.enumerates_keys.count m

theorem hasModule_removeModule (name : String) :
    (removeModule name k).2.hasModule name = false := by
  cases hname : k.modules.contains name with
  | true => simp [removeModule, hname, hasModule, Dict.contains_erase_self]
  | false => simp [removeModule, hname, hasModule]

end Container

/-- The cell shows the name and description of a module and the names of its members, and is equal
to the report on the module. -/
structure ShowsModule (k : Container) (h : Heap) (name : String) (c : CellId) : Prop where
  named : ∃ d, h.lookup? c "name" = some d ∧ h.read d = .string name
  described : ∃ d text, h.lookup? c "description" = some d ∧
    k.moduleDescription? name = some text ∧ h.read d = .string text
  functions : ∃ d, h.lookup? c "functions" = some d ∧ h.ListsTexts d (k.functionNamesOf name)
  classes : ∃ d, h.lookup? c "classes" = some d ∧ h.ListsTexts d (k.classNamesOf name)
  reported : (Report.ofModule k name h).2.equal c (Report.ofModule k name h).1 = true

open Account (Shows)

theorem showsModule_of_shows {k : Container} {h : Heap} {name : String} {c : CellId}
    (hname : k.hasModule name = true) (hs : Shows h c (.ofModule k name)) :
    ShowsModule k h name c := by
  have hreported : (Report.ofModule k name h).2.equal c (Report.ofModule k name h).1 = true := by
    rw [Account.ofModule_eq_write]
    obtain ⟨hext, hwritten⟩ := Account.write_shows h (.ofModule k name)
    exact Account.equal_of_shows (hs.extends hext) hwritten
  obtain ⟨entry, hentry⟩ := Option.isSome_iff_exists.1 hname
  have hdescription : k.moduleDescription? name = some entry.description := by
    rw [Container.moduleDescription?, hentry]
    rfl
  unfold Account.ofModule at hs
  rw [hdescription] at hs
  obtain ⟨n, hn, hnamed⟩ := hs.entry (i := 0) rfl rfl
  obtain ⟨d, hd, hdescribed⟩ := hs.entry (i := 1) rfl rfl
  obtain ⟨cs, hcs, hclasses⟩ := hs.entry (i := 2) rfl rfl
  obtain ⟨fs, hfs, hfunctions⟩ := hs.entry (i := 3) rfl rfl
  exact ⟨⟨n, hn, hnamed.read_text⟩, ⟨d, _, hd, hdescription, hdescribed.read_text⟩,
    ⟨fs, hfs, hfunctions.texts⟩, ⟨cs, hcs, hclasses.texts⟩, hreported⟩

/-- The listing of the modules is the list of the reports on the registered modules. -/
theorem modules_listed (k : Container) (h : Heap) :
    ∃ cells, (Report.modules k h).2.Lists (Report.modules k h).1 cells ∧
      List.Forall₂ (ShowsModule k (Report.modules k h).2) k.moduleNames cells := by
  have hreport : Report.modules k = (Account.list (k.moduleNames.map (.ofModule k))).write :=
    Account.list_eq_write (Account.ofModule_eq_write k) k.moduleNames
  rw [hreport]
  obtain ⟨cells, hlists, hcells⟩ := (Account.write_shows h _).2.list
  refine ⟨cells, hlists, ?_⟩
  rw [List.forall₂_map_right_iff] at hcells
  have hregistered : ∀ name ∈ k.moduleNames, k.hasModule name = true :=
    fun _ hname => Dict.mem_keys_iff.1 hname
  have hboth := (List.forall₂_and_left _ _).2 ⟨hregistered, hcells.flip⟩
  exact hboth.imp fun _ _ hname => showsModule_of_shows hname.1 hname.2

theorem names_listed (names : List String) (h : Heap) :
    (Report.list Report.text names h).2.ListsTexts (Report.list Report.text names h).1 names := by
  rw [Account.texts_eq_write]
  exact (Account.write_shows h _).2.texts

/-- The listing of the modules is the list of the reports on the registered modules, in ascending
order of their names, and the listings of functions and classes list the registered names.  A
function or class stands once in the list of the module that it is attributed to and in no other
one; over all registered modules it is listed once if its module is registered, and otherwise not at
all.  A module that was removed is not registered, and a registration that fails registers nothing
beyond what its body did. -/
theorem listings_complete (k : Container) (h : Heap) :
    (∃ cells, (Report.modules k h).2.Lists (Report.modules k h).1 cells ∧
      List.Forall₂ (ShowsModule k (Report.modules k h).2) k.moduleNames cells) ∧
    (∀ name, k.hasModule name = true →
      ShowsModule k (Report.ofModule k name h).2 name (Report.ofModule k name h).1) ∧
    (Report.functions k h).2.ListsTexts (Report.functions k h).1 k.functionNames ∧
    (Report.classes k h).2.ListsTexts (Report.classes k h).1 k.classNames ∧
    Enumerates k.moduleNames k.hasModule ∧
    Enumerates k.functionNames k.hasFunction ∧
    Enumerates k.classNames k.hasClass ∧
    (∀ origin,
      Enumerates (k.functionNamesOf origin) (fun f => k.functionOrigin? f == some origin) ∧
      Enumerates (k.classNamesOf origin) fun c => k.classOrigin? c == some origin) ∧
    (∀ name,
      (k.moduleNames.flatMap k.functionNamesOf).count name =
        (if (k.functionOrigin? name).any k.hasModule then 1 else 0) ∧
      (k.moduleNames.flatMap k.classNamesOf).count name =
        if (k.classOrigin? name).any k.hasModule then 1 else 0) ∧
    (∀ name, (Container.removeModule name k).2.hasModule name = false) ∧
    ∀ info (body : Action Container Unit) e, (Container.registerModule info body k).1 = .error e →
      (Container.registerModule info body k).2.modules =
        (body (k.openModule info.name)).2.modules := by
  refine ⟨modules_listed k h, ?_, names_listed _ h, names_listed _ h, k.modules.enumerates_keys,
    k.functions.enumerates_keys, k.classes.enumerates_keys, ?_, ?_, k.hasModule_removeModule, ?_⟩
  · intro name hname
    have hwritten := (Account.write_shows h (.ofModule k name)).2
    rw [← Account.ofModule_eq_write] at hwritten
    exact showsModule_of_shows hname hwritten
  · intro origin
    exact ⟨k.enumerates_functionNamesOf origin, k.enumerates_classNamesOf origin⟩
  · intro name
    exact ⟨k.count_flatMap_moduleNames fun m => (k.enumerates_functionNamesOf m).count name,
      k.count_flatMap_moduleNames fun m => (k.enumerates_classNamesOf m).count name⟩
  · intro info body e he
    rw [Container.registerModule_of_refused he]

end ScriptCore
