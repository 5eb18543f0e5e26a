import ScriptCore.Proofs.ClassDeclarations
import ScriptCore.Registry.Static

/-!
# Walking up a hierarchy

Whatever is inherited is looked for along the lineage of a class.  The walk goes from parent to
parent, is cut off at the depth limit and stops before a class that it has met, so it is the course
of the parents that decides which classes are asked, and what the classes have decides which of them
answers.

**Changes.**  A change of one class that leaves its parent alone changes that class wherever it
stands in a lineage and nothing else (`lineage_putClass`).

**Results.**
* `lineageFrom_map`, `lineage_putClass`: lineages after a change.
* `find?_of_mem_lineage`: the classes of a lineage are registered classes.
* `lineage_of_find?`, `lineage_of_not_hasClass`: where a lineage starts.
-/

namespace ScriptCore

/-- The class changed, if it is the one with the given name. -/
def Class.changedAt (owner : String) (f : Class → Class) (c : Class) : Class :=
  if c.name = owner then f c else c

/-- Classes are under their own names, so a registry with one class changed has it changed wherever
that class is found. -/
theorem Consistent.find?_insert_change {classes : Dict Class} (h : Consistent classes)
    {owner : String} {c : Class} (hc : classes.find? owner = some c) (f : Class → Class)
    (name : String) :
    (classes.insert owner (f c)).find? name =
      (classes.find? name).map (Class.changedAt owner f) := by
  rw [Dict.find?_insert]
  by_cases hname : name = owner
  · subst hname
    have hown : c.name = name := h.named name c hc
    rw [if_pos rfl, hc, Option.map_some, Class.changedAt, if_pos hown]
  · rw [if_neg hname]
    cases hd : classes.find? name with
    | none => rfl
    | some d =>
        have hother : d.name ≠ owner := by
          rw [h.named name d hd]
          exact hname
        rw [Option.map_some, Class.changedAt, if_neg hother]

namespace Container

section Walk

variable {classes later : Dict Class} {change : Class → Class}

/-- A walk through changed classes takes the same course if the parents are the same. -/
theorem lineageFrom_map (hfind : ∀ name, later.find? name = (classes.find? name).map change)
    (hparent : ∀ c, (change c).parent = c.parent) (n : Nat) (met : List String) (name : String) :
    lineageFrom later n met name = (lineageFrom classes n met name).map change := by
  induction n generalizing met name with
  | zero => rfl
  | succ n ih =>
      rw [lineageFrom, lineageFrom]
      by_cases hmet : name ∈ met
      · rw [if_pos hmet, if_pos hmet]
        rfl
      · rw [if_neg hmet, if_neg hmet, hfind]
        cases classes.find? name with
        | none => rfl
        | some c =>
            simp only [Option.map_some, hparent]
            cases c.parent with
            | none => rfl
            | some parent => simp only [List.map_cons, ih]

theorem find?_of_mem_lineageFrom (h : Consistent classes) {c : Class} {n : Nat}
    {met : List String} {name : String} (hc : c ∈ lineageFrom classes n met name) :
    classes.find? c.name = some c := by
  induction n generalizing met name with
  | zero => cases hc
  | succ n ih =>
      rw [lineageFrom] at hc
      split at hc
      · cases hc
      · split at hc
        · cases hc
        · next d hd =>
            have hfound : classes.find? d.name = some d := by rwa [h.named name d hd]
            split at hc
            · obtain rfl := List.mem_singleton.1 hc
              exact hfound
            · rcases List.mem_cons.1 hc with rfl | hc
              · exact hfound
              · exact ih hc

end Walk

variable {k : Container} {name : String}

theorem find?_of_mem_lineage (h : Consistent k.classes) {c : Class} (hc : c ∈ k.lineage name) :
    k.classes.find? c.name = some c :=
  find?_of_mem_lineageFrom h hc

/-- The lineage of a registered class starts with the class. -/
theorem lineage_of_find? {c : Class} (hc : k.classes.find? name = some c) :
    ∃ further, k.lineage name = c :: further := by
  rw [lineage, lineageFrom, if_neg List.not_mem_nil, hc]
  cases hparent : c.parent with
  | none => exact ⟨[], by simp only [hparent]⟩
  | some parent => exact ⟨_, by simp only [hparent]; rfl⟩

theorem lineage_of_not_hasClass (h : k.hasClass name = false) : k.lineage name = [] := by
  have hnone : k.classes.find? name = none := by simpa [hasClass, Dict.contains] using h
  rw [lineage, lineageFrom, if_neg List.not_mem_nil, hnone]

/-- A class is changed and keeps its parent. -/
theorem lineage_putClass (h : Consistent k.classes) {owner : String} {c : Class}
    (hc : k.classes.find? owner = some c) {f : Class → Class}
    (hf : ∀ d, (f d).parent = d.parent) (name : String) :
    (k.putClass owner (f c)).lineage name =
      (k.lineage name).map (Class.changedAt owner f) := by
  refine lineageFrom_map (h.find?_insert_change hc f) (fun d => ?_) _ _ _
  unfold Class.changedAt
  split
  · exact hf d
  · rfl

end Container
end ScriptCore
