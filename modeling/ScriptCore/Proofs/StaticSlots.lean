import ScriptCore.Proofs.Lineages

/-!
# Static properties and their slots

The cell of a static property is in a slot of one class, and that class and its descendants share
it.  A write goes to the nearest slot that the class sees, and a read by another class to the
nearest slot that this one sees.  Whether the two are the same slot depends on slots in between,
on circles in the hierarchy and on the depth limit, which cuts off the lineages of two classes at
different places.

**Slots.**  `SeesSlot`: which class has the nearest slot for a name.  `WriteSlot`: the slot that a
write goes to.  Both are about lineages, and a write leaves all lineages as they are.

**Results.**
* `static?_eq_some_iff`: a read answers with what is in the nearest slot.
* `setStatic_of_hasClass`: a write changes one slot.
* `Written.static?_of_seesSlot`, `Written.static?_of_not_seesSlot`: what every read answers after a
  write.
* `static_writes_reach_slot`: the same after every run.
-/

namespace ScriptCore

/-- The class has a slot for the property. -/
def Class.HasSlot (c : Class) (property : String) : Prop :=
  (c.statics.find? (bareName property)).isSome

instance (c : Class) (property : String) : Decidable (c.HasSlot property) :=
  inferInstanceAs (Decidable (Option.isSome _ = true))

namespace Container

/-- The nearest slot that a class sees for a property belongs to the named class. -/
def SeesSlot (k : Container) (name property owner : String) : Prop :=
  ∃ nearer c further, k.lineage name = nearer ++ c :: further ∧ c.name = owner ∧
    c.HasSlot property ∧ ∀ d ∈ nearer, ¬ d.HasSlot property

/-- The class whose slot a write goes to: the nearest one that has a slot, or the class itself. -/
def WriteSlot (k : Container) (name property owner : String) : Prop :=
  k.SeesSlot name property owner ∨
    owner = name ∧ ∀ d ∈ k.lineage name, ¬ d.HasSlot property

section Reading

variable {k : Container} {name property : String}

theorem not_hasSlot_iff {c : Class} :
    ¬ c.HasSlot property ↔ c.statics.find? (bareName property) = none := by
  rw [Class.HasSlot, Option.not_isSome_iff_eq_none]

/-- A read answers with what is in the nearest slot. -/
theorem static?_eq_some_iff {cell : CellId} :
    k.static? name property = some cell ↔
      ∃ nearer c further, k.lineage name = nearer ++ c :: further ∧
        c.statics.find? (bareName property) = some cell ∧
        ∀ d ∈ nearer, ¬ d.HasSlot property := by
  rw [static?, List.findSome?_eq_some_iff]
  simp only [not_hasSlot_iff]

/-- The walk that asks for a slot and the walk that reads one find the same. -/
theorem hasStatic_eq_isSome_static? :
    k.hasStatic name property = (k.static? name property).isSome := by
  rw [hasStatic, static?]
  induction k.lineage name with
  | nil => rfl
  | cons c rest ih =>
      rw [List.any_cons, List.findSome?_cons, ih, Dict.contains]
      cases c.statics.find? (bareName property) <;> rfl

theorem hasStatic_iff :
    k.hasStatic name property = true ↔ ∃ cell, k.getStatic name property = .ok cell := by
  rw [hasStatic_eq_isSome_static?, getStatic]
  cases k.static? name property with
  | none => simp
  | some cell => simp

theorem staticOwner_of_seesSlot {owner : String} (h : k.SeesSlot name property owner) :
    k.staticOwner name property = owner := by
  obtain ⟨nearer, c, further, hlineage, rfl, hslot, hnearer⟩ := h
  have hfirst : (k.lineage name).find? (fun c => c.statics.contains (bareName property)) =
      some c := by
    rw [List.find?_eq_some_iff_append]
    refine ⟨hslot, nearer, further, hlineage, fun d hd => ?_⟩
    rw [Dict.contains, not_hasSlot_iff.1 (hnearer d hd)]
    rfl
  rw [staticOwner, hfirst]

theorem staticOwner_of_none (h : ∀ d ∈ k.lineage name, ¬ d.HasSlot property) :
    k.staticOwner name property = name := by
  have hnone : (k.lineage name).find? (fun c => c.statics.contains (bareName property)) =
      none := by
    rw [List.find?_eq_none]
    exact h
  rw [staticOwner, hnone]

/-- Some class sees the slot first, or no class of the lineage has one. -/
theorem writeSlot_staticOwner (k : Container) (name property : String) :
    k.WriteSlot name property (k.staticOwner name property) := by
  cases hcell : k.static? name property with
  | some cell =>
      obtain ⟨nearer, c, further, hlineage, hc, hnearer⟩ := static?_eq_some_iff.1 hcell
      have hslot : c.HasSlot property := by
        rw [Class.HasSlot, hc]
        rfl
      have hsees : k.SeesSlot name property c.name :=
        ⟨nearer, c, further, hlineage, rfl, hslot, hnearer⟩
      rw [staticOwner_of_seesSlot hsees]
      exact .inl hsees
  | none =>
      rw [static?, List.findSome?_eq_none_iff] at hcell
      have hnone : ∀ d ∈ k.lineage name, ¬ d.HasSlot property :=
        fun d hd => not_hasSlot_iff.2 (hcell d hd)
      exact .inr ⟨staticOwner_of_none hnone, hnone⟩

theorem WriteSlot.owner_eq {owner : String} (h : k.WriteSlot name property owner) :
    owner = k.staticOwner name property := by
  obtain h | ⟨rfl, h⟩ := h
  · exact (staticOwner_of_seesSlot h).symm
  · exact (staticOwner_of_none h).symm

/-- The class that a write goes to stands in the lineage of the class that is written through, and
the classes before it are others and have no slot. -/
theorem WriteSlot.exists_mem_lineage {owner : String} (h : k.WriteSlot name property owner)
    (hconsistent : Consistent k.classes) (hname : k.hasClass name = true) :
    ∃ nearer c further, k.lineage name = nearer ++ c :: further ∧ c.name = owner ∧
      k.classes.find? owner = some c ∧ ∀ d ∈ nearer, d.name ≠ owner ∧ ¬ d.HasSlot property := by
  obtain ⟨nearer, c, further, hlineage, rfl, hslot, hnearer⟩ | ⟨rfl, -⟩ := h
  · have hfind : ∀ d ∈ k.lineage name, k.classes.find? d.name = some d :=
      fun d => find?_of_mem_lineage hconsistent
    rw [hlineage] at hfind
    have hc := hfind c (List.mem_append_right nearer List.mem_cons_self)
    refine ⟨nearer, c, further, hlineage, rfl, hc, fun d hd => ⟨fun hsame => ?_, hnearer d hd⟩⟩
    -- A class before it with the same name would be the same class, which has a slot.
    have hd' := hfind d (List.mem_append_left _ hd)
    rw [hsame, hc] at hd'
    obtain rfl := Option.some.inj hd'
    exact hnearer c hd hslot
  · obtain ⟨c, hc⟩ := Option.isSome_iff_exists.1 hname
    obtain ⟨further, hlineage⟩ := lineage_of_find? hc
    exact ⟨[], c, further, hlineage, hconsistent.named _ c hc, hc, by simp⟩

end Reading

section Writing

variable {k later : Container} {property owner : String} {cell : CellId}

/-- The second container has the cell in the slot of a class and is otherwise like the first. -/
structure Written (k later : Container) (owner property : String) (cell : CellId) : Prop where
  lineage : ∀ name, later.lineage name =
    (k.lineage name).map (Class.changedAt owner (·.setStatic property cell))
  hasClass : ∀ name, later.hasClass name = k.hasClass name

theorem setStatic_of_not_hasClass {name : String} (h : k.hasClass name = false) :
    setStatic name property cell k = (.error (Error.of (.unknownClass name)), k) := by
  have hnone : k.classes.find? name = none := by simpa [hasClass, Dict.contains] using h
  have howner : k.staticOwner name property = name := by
    refine staticOwner_of_none fun d hd => ?_
    rw [lineage_of_not_hasClass h] at hd
    cases hd
  simp only [setStatic, howner, updateClass, hnone]

/-- A write through a registered class succeeds and changes the slot that it goes to. -/
theorem setStatic_of_hasClass (hconsistent : Consistent k.classes) {name : String}
    (h : k.hasClass name = true) (property : String) (cell : CellId) :
    ∃ later, setStatic name property cell k = (.ok (), later) ∧
      Written k later (k.staticOwner name property) property cell := by
  obtain ⟨_, c, _, -, -, hc, -⟩ :=
    (writeSlot_staticOwner k name property).exists_mem_lineage hconsistent h
  have hset : setStatic name property cell k =
      (.ok (), k.putClass (k.staticOwner name property) (c.setStatic property cell)) :=
    updateClass_of_find? hc _
  refine ⟨_, hset, ?_, ?_⟩
  · exact lineage_putClass (f := (·.setStatic property cell)) hconsistent hc fun _ => rfl
  intro other
  rw [Bool.eq_iff_iff, hasClass, hasClass, putClass, Dict.contains_insert_iff]
  refine or_iff_right_of_imp ?_
  rintro rfl
  rw [Dict.contains, hc]
  rfl

/-- The slots of a class after a write. -/
theorem find?_statics_changedAt (c : Class) (other : String) :
    (c.changedAt owner (·.setStatic property cell)).statics.find? (bareName other) =
      if c.name = owner ∧ bareName other = bareName property then some cell
      else c.statics.find? (bareName other) := by
  unfold Class.changedAt
  by_cases hname : c.name = owner
  · simp only [hname, if_true, true_and, Class.setStatic, Dict.find?_insert]
  · simp only [hname, if_false, false_and]

theorem name_changedAt (c : Class) :
    (c.changedAt owner (·.setStatic property cell)).name = c.name := by
  unfold Class.changedAt
  split <;> rfl

/-- Whoever sees the slot that was written first reads the cell. -/
theorem Written.static?_of_seesSlot (h : Written k later owner property cell) {name other : String}
    (hother : bareName other = bareName property) (hsees : later.SeesSlot name other owner) :
    later.static? name other = some cell := by
  obtain ⟨nearer, c, further, hlineage, hname, -, hnearer⟩ := hsees
  refine static?_eq_some_iff.2 ⟨nearer, c, further, hlineage, ?_, hnearer⟩
  have hmem : c ∈ later.lineage name := hlineage ▸ List.mem_append_right nearer List.mem_cons_self
  rw [h.lineage] at hmem
  obtain ⟨d, -, rfl⟩ := List.mem_map.1 hmem
  rw [name_changedAt] at hname
  rw [find?_statics_changedAt, if_pos ⟨hname, hother⟩]

/-- The class that is written through sees the slot that was written. -/
theorem Written.seesSlot (h : Written k later owner property cell) {name : String}
    (hslot : k.WriteSlot name property owner) (hconsistent : Consistent k.classes)
    (hname : k.hasClass name = true) : later.SeesSlot name property owner := by
  obtain ⟨nearer, c, further, hlineage, hc, -, hnearer⟩ :=
    hslot.exists_mem_lineage hconsistent hname
  have hlater := h.lineage name
  rw [hlineage, List.map_append, List.map_cons] at hlater
  refine ⟨_, _, _, hlater, ?_, ?_, ?_⟩
  · rw [name_changedAt, hc]
  · rw [Class.HasSlot, find?_statics_changedAt, if_pos ⟨hc, rfl⟩]
    rfl
  · intro _ hmem
    obtain ⟨d, hd, rfl⟩ := List.mem_map.1 hmem
    obtain ⟨hother, hnone⟩ := hnearer d hd
    rw [Class.HasSlot, find?_statics_changedAt, if_neg (hother ·.1)]
    exact hnone

/-- Every other read is what it was: up to the slot that it sees first, no slot was written. -/
theorem Written.static?_of_not_seesSlot (h : Written k later owner property cell)
    {name other : String}
    (hnot : ¬ (bareName other = bareName property ∧ later.SeesSlot name other owner)) :
    later.static? name other = k.static? name other := by
  have hread : later.static? name other = (k.lineage name).findSome? fun c =>
      (c.changedAt owner (·.setStatic property cell)).statics.find? (bareName other) := by
    rw [static?, h.lineage, List.findSome?_map]
    rfl
  cases hlater : later.static? name other with
  | none =>
      -- No class has a slot now, so the owner is not in the lineage and none had one before.
      rw [hread, List.findSome?_eq_none_iff] at hlater
      refine ((List.findSome?_eq_none_iff).2 fun c hc => ?_).symm
      have hnone := hlater c hc
      rw [find?_statics_changedAt] at hnone
      split at hnone
      · cases hnone
      · exact hnone
  | some answer =>
      rw [hread, List.findSome?_eq_some_iff] at hlater
      obtain ⟨nearer, c, further, hlineage, hc, hnearer⟩ := hlater
      have hkept : ∀ d : Class, ¬ (d.name = owner ∧ bareName other = bareName property) →
          (d.changedAt owner (·.setStatic property cell)).statics.find? (bareName other) =
            d.statics.find? (bareName other) := by
        intro d hd
        rw [find?_statics_changedAt, if_neg hd]
      have hwritten : ¬ (c.name = owner ∧ bareName other = bareName property) := by
        rintro ⟨hname, hother⟩
        have hcourse := h.lineage name
        rw [hlineage, List.map_append, List.map_cons] at hcourse
        refine hnot ⟨hother, _, _, _, hcourse, ?_, ?_, ?_⟩
        · rw [name_changedAt, hname]
        · rw [Class.HasSlot, hc]
          rfl
        · intro _ hmem
          obtain ⟨d, hd, rfl⟩ := List.mem_map.1 hmem
          exact not_hasSlot_iff.2 (hnearer d hd)
      refine (List.findSome?_eq_some_iff.2 ⟨nearer, c, further, hlineage, ?_, fun d hd => ?_⟩).symm
      · rw [← hkept c hwritten]
        exact hc
      · have hnone := hnearer d hd
        rw [find?_statics_changedAt] at hnone
        split at hnone
        · cases hnone
        · exact hnone

end Writing

/-- The same classes are registered and the same cell is found, so a read has the same answer. -/
theorem getStatic_congr {k later : Container} {name property : String}
    (hclass : later.hasClass name = k.hasClass name)
    (hstatic : later.static? name property = k.static? name property) :
    later.getStatic name property = k.getStatic name property := by
  rw [getStatic, getStatic, hstatic, missingProperty, missingProperty, hclass]

theorem getStatic_of_static? {k : Container} {name property : String} {cell : CellId}
    (h : k.static? name property = some cell) : k.getStatic name property = .ok cell := by
  rw [getStatic, h]

end Container

/-- After any run, whether a class has a static property is whether it can be read.  A write
through a class that is not registered is refused and changes nothing.  A write through a
registered class succeeds: it goes to the nearest slot that the class sees, or to a slot of its
own, and from then on exactly the reads that see this slot first answer with the cell, reads
through the class itself among them; all others answer as before. -/
theorem static_writes_reach_slot (rootName : String) (hname : rootName ≠ "") (maxDepth : Nat)
    (s : Store) :
    ∃ k s', Container.build rootName maxDepth s = (.ok k, s') ∧ ∀ calls : List EngineCall,
      let now := (Engine.run ⟨s', k⟩ calls).container
      (∀ name property, now.hasStatic name property = true ↔
        ∃ cell, now.getStatic name property = .ok cell) ∧
      ∀ name property cell,
        (now.hasClass name = false → Container.setStatic name property cell now =
          (.error (Error.of (.unknownClass name)), now)) ∧
        (now.hasClass name = true → ∃ later owner,
          Container.setStatic name property cell now = (.ok (), later) ∧
          now.WriteSlot name property owner ∧
          later.getStatic name property = .ok cell ∧
          ∀ reader other,
            (bareName other = bareName property ∧ later.SeesSlot reader other owner →
              later.getStatic reader other = .ok cell) ∧
            (¬ (bareName other = bareName property ∧ later.SeesSlot reader other owner) →
              later.getStatic reader other = now.getStatic reader other)) := by
  refine ⟨_, _, build_of_ne_empty hname maxDepth s, fun calls => ?_⟩
  intro now
  have hconsistent : Consistent now.classes :=
    consistent_run rootName maxDepth s calls
  refine ⟨fun name property => Container.hasStatic_iff, fun name property cell => ⟨?_, ?_⟩⟩
  · exact Container.setStatic_of_not_hasClass
  · intro hclass
    obtain ⟨later, hset, hwritten⟩ :=
      Container.setStatic_of_hasClass hconsistent hclass property cell
    have hslot := now.writeSlot_staticOwner name property
    refine ⟨later, _, hset, hslot, ?_, fun reader other => ⟨?_, ?_⟩⟩
    · exact Container.getStatic_of_static?
        (hwritten.static?_of_seesSlot rfl (hwritten.seesSlot hslot hconsistent hclass))
    · rintro ⟨hother, hsees⟩
      exact Container.getStatic_of_static? (hwritten.static?_of_seesSlot hother hsees)
    · intro hnot
      exact Container.getStatic_congr (hwritten.hasClass reader)
        (hwritten.static?_of_not_seesSlot hnot)

/-- Three classes in a line, of which the first has a slot. -/
def slotOfGrandparent : List EngineCall :=
  [.registry (.registerClass "A"), .registry (.registerSubclass "B" "A"),
    .registry (.registerSubclass "C" "B"), .registry (.setStatic "A" "$x" ⟨0⟩)]

/-- With a depth limit of one, a write through the second class reaches the slot of the first, which
the third does not see. -/
theorem slot_beyond_depth_written :
    "main" ≠ "" ∧
    ∃ k s', Container.build "main" 1 Store.empty = (.ok k, s') ∧
      let now := (Engine.run ⟨s', k⟩ slotOfGrandparent).container
      now.hasClass "B" = true ∧ ∃ later,
        Container.setStatic "B" "x" ⟨1⟩ now = (.ok (), later) ∧ now.WriteSlot "B" "x" "A" ∧
        later.getStatic "B" "x" = .ok ⟨1⟩ ∧ later.getStatic "A" "$x" = .ok ⟨1⟩ ∧
        now.hasStatic "C" "x" = false ∧ later.getStatic "C" "x" = now.getStatic "C" "x" := by
  have hname : "main" ≠ "" := by decide
  obtain ⟨k, s', hbuild, hrun⟩ := static_writes_reach_slot "main" hname 1 Store.empty
  refine ⟨hname, k, s', hbuild, ?_⟩
  cases hbuild
  intro now
  have hclass : now.hasClass "B" = true := by decide +kernel
  have howner : now.staticOwner "B" "x" = "A" := by decide +kernel
  obtain ⟨later, owner, hset, hslot, hown, hread⟩ :=
    ((hrun slotOfGrandparent).2 "B" "x" ⟨1⟩).2 hclass
  obtain rfl : owner = "A" := hslot.owner_eq.trans howner
  refine ⟨hclass, later, hset, hslot, hown, (hread "A" "$x").1 ⟨by decide, ?_⟩, by decide +kernel,
    (hread "C" "x").2 ?_⟩
  · cases hset
    exact ⟨[], _, [], rfl, rfl, by decide +kernel, by simp⟩
  · rintro ⟨-, hsees⟩
    cases hset
    exact absurd (Container.staticOwner_of_seesSlot hsees) (by decide +kernel)

end ScriptCore
