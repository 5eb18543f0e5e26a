import Mathlib.Data.List.Permutation
import ScriptCore.Proofs.ValueShape

/-!
# Copies are isolated

A copy and its original have no cell in common, so a program that holds one of them should
never notice what another program does to the other one.  The graph below the copy changes its
shape on the way: cycles are made and broken, entries are moved, new cells come in and old ones
are cut off.

**Programs.**  A program works within a root if it changes only cells that it finds from the root
or from cells made since the start, and stores only such cells (`WorksWithin`).  Making a copy is
always allowed, since all of its cells are new.

**Changes.**  `ChangesWithin`: all that a call can do whose cells have some property.  Every fact
about runs below comes from it.

**Separation.**  `Guarded` protects a set of cells: they keep their values, and no cell outside the
set refers into it.  Whatever is found from outside the set is outside the set, so a program whose
root is outside never gets hold of a protected cell.  The cells of the original are protected
against programs that hold the copy, and the cells of the copy against all others.

**Results.**
* `ChangesWithin.perform`: what one call can do.
* `Closed.run`: programs that use the cells of a heap make no reference out of it.
* `Guarded.run`: a protected set stays protected.
* `copies_isolated`: what is done to the copy does not show in the original, and conversely.
-/

namespace ScriptCore

namespace Value

variable {v w : Value} {m : Dict CellId} {d : CellId}

theorem children_eq_of_map? (h : v.map? = some m) : v.children = m.values := by
  obtain ⟨t, payload, mark⟩ := v
  cases payload with
  | none => cases h
  | some p =>
      cases p with
      | map n =>
          cases mark with
          | true => cases h
          | false =>
              cases h
              rfl
      | _ => cases h

theorem children_setTag {t : Tag} (h : v.setTag t = .ok w) : w.children = v.children := by
  unfold setTag at h
  split at h
  · cases h
    rfl
  · cases h

theorem children_put {k : Kind} {data : k.Data} (h : v.put k data = .ok w) :
    w.children = (of k data).children := by
  unfold put at h
  cases hget : v.get k with
  | error e =>
      rw [hget] at h
      cases h
  | ok old =>
      rw [hget] at h
      cases h
      rfl

theorem exists_map?_of_updateMap {f : Dict CellId → Dict CellId} (h : v.updateMap f = .ok w) :
    ∃ m, v.map? = some m ∧ w.children = (f m).values := by
  unfold updateMap map at h
  split at h
  · split at h
    · next m hm =>
        cases h
        exact ⟨m, hm, rfl⟩
    · cases h
  · cases h

theorem mem_children_editMap {f : Dict CellId → Dict CellId} (h : d ∈ (v.editMap f).children) :
    d ∈ v.children ∨ ∃ m, v.map? = some m ∧ d ∈ (f m).values := by
  unfold editMap at h
  split at h
  · next m hm => exact Or.inr ⟨m, hm, h⟩
  · exact Or.inl h

theorem mem_children_insert {key : String} {c : CellId} (h : d ∈ (v.insert key c).children) :
    d ∈ v.children ∨ d = c := by
  unfold insert at h
  split at h
  · next m hm =>
      rw [children_eq_of_map? hm]
      exact Dict.mem_values_insert h
  · refine (Dict.mem_values_insert h).imp_left fun hempty => ?_
    cases hempty

theorem mem_children_erase {key : String} (h : d ∈ (v.erase key).children) : d ∈ v.children := by
  unfold erase at h
  split at h
  · next m hm =>
      rw [children_eq_of_map? hm]
      exact Dict.mem_values_erase h
  · exact h

@[simp] theorem children_asClass (v : Value) : v.asClass.children = v.children := by
  unfold asClass
  split <;> rfl

end Value

/-- The cells that a change puts into a cell. -/
def CellChange.stored : CellChange → CellId → Heap → List CellId
  | .set k d, _, _ => (Value.of k d).children
  | .put k d, _, _ => (Value.of k d).children
  | .setTag _, _, _ => []
  | .clear, _, _ => []
  | .editMap f, c, h => ((h.read c).map?.map fun m => (f m).values).getD []
  | .updateMap f, c, h => ((h.read c).map?.map fun m => (f m).values).getD []
  | .assign source, _, h => (h.read source).children
  | .setEntry _ entry, _, _ => [entry]
  | .eraseEntry _, _, _ => []

namespace Heap

@[simp] theorem write_read (h : Heap) (c : CellId) : h.write c (h.read c) = h := by
  obtain ⟨cells⟩ := h
  obtain ⟨i⟩ := c
  simp only [write, read, mk.injEq]
  by_cases hi : i < cells.size
  · simp [Array.setIfInBounds, hi]
  · simp [Array.setIfInBounds, hi]

/-- A change that may be refused writes its result, or the value that is there. -/
theorem update_eq_write (c : CellId) (f : Value → Except Error Value) (h : Heap) :
    ∃ v, (update c f h).2 = h.write c v ∧ (v = h.read c ∨ f (h.read c) = .ok v) := by
  unfold update
  split
  · next v hv => exact ⟨v, rfl, Or.inr hv⟩
  · exact ⟨h.read c, (h.write_read c).symm, Or.inl rfl⟩

end Heap

/-- A change writes to one cell.  What the cell refers to afterwards, it referred to before or the
change stored. -/
theorem CellChange.perform_eq_write (x : CellChange) (c : CellId) (h : Heap) :
    ∃ v, x.perform c h = h.write c v ∧
      ∀ d ∈ v.children, h.Refers c d ∨ d ∈ x.stored c h := by
  cases x with
  | set k data => exact ⟨_, rfl, fun d hd => Or.inr hd⟩
  | put k data =>
      obtain ⟨v, hwrite, rfl | hput⟩ := Heap.update_eq_write c (·.put k data) h
      · exact ⟨_, hwrite, fun d hd => Or.inl hd⟩
      · refine ⟨v, hwrite, fun d hd => Or.inr ?_⟩
        rwa [Value.children_put hput] at hd
  | setTag t =>
      obtain ⟨v, hwrite, rfl | htag⟩ := Heap.update_eq_write c (·.setTag t) h
      · exact ⟨_, hwrite, fun d hd => Or.inl hd⟩
      · refine ⟨v, hwrite, fun d hd => Or.inl ?_⟩
        rwa [Value.children_setTag htag] at hd
  | clear => exact ⟨_, rfl, fun d hd => by cases hd⟩
  | editMap f =>
      refine ⟨_, rfl, fun d hd => ?_⟩
      obtain hold | ⟨m, hm, hnew⟩ := Value.mem_children_editMap hd
      · exact Or.inl hold
      · right
        simpa [stored, hm] using hnew
  | updateMap f =>
      obtain ⟨v, hwrite, rfl | hmap⟩ := Heap.update_eq_write c (·.updateMap f) h
      · exact ⟨_, hwrite, fun d hd => Or.inl hd⟩
      · obtain ⟨m, hm, hchildren⟩ := Value.exists_map?_of_updateMap hmap
        refine ⟨v, hwrite, fun d hd => Or.inr ?_⟩
        rw [hchildren] at hd
        simpa [stored, hm] using hd
  | assign source => exact ⟨_, rfl, fun d hd => Or.inr hd⟩
  | setEntry key entry =>
      refine ⟨_, rfl, fun d hd => ?_⟩
      exact (Value.mem_children_insert hd).imp_right fun hentry => List.mem_singleton.2 hentry
  | eraseEntry key => exact ⟨_, rfl, fun d hd => Or.inl (Value.mem_children_erase hd)⟩

/-- The call changes only cells with a property, and stores only such cells. -/
def CellCall.Within (own : CellId → Prop) (h : Heap) : CellCall → Prop
  | .make o => ∀ d ∈ o.value.children, own d
  | .copy _ => True
  | .copyAsClass _ => True
  | .copyValue _ => True
  | .change c x => own c ∧ ∀ d ∈ x.stored c h, own d

namespace Heap

/-- Cells stay, and all but some of them keep their values.  A cell that is referred to was referred
to before from the same place, or is one of these, or is new. -/
structure ChangesWithin (own : CellId → Prop) (now later : Heap) : Prop where
  has : ∀ x, now.Has x → later.Has x
  kept : ∀ x, now.Has x → ¬ own x → later.read x = now.read x
  refers : ∀ x y, later.Refers x y → now.Refers x y ∨ own y ∨ (¬ now.Has y ∧ later.Has y)

namespace ChangesWithin

variable {own : CellId → Prop} {now later : Heap} {c : CellId} {v : Value}

theorem refl (own : CellId → Prop) (now : Heap) : ChangesWithin own now now :=
  ⟨fun _ hx => hx, fun _ _ _ => rfl, fun _ _ hxy => Or.inl hxy⟩

theorem write (h : ChangesWithin own now later) (hc : own c ∨ ¬ now.Has c)
    (hv : ∀ d ∈ v.children, later.Refers c d ∨ own d) :
    ChangesWithin own now (later.write c v) := by
  refine ⟨fun x hx => has_write.2 (h.has x hx), fun x hx hown => ?_, fun x y hxy => ?_⟩
  · have hne : x ≠ c := by
      rintro rfl
      exact hc.elim hown fun hnew => hnew hx
    rw [read_write, if_neg fun hxc => hne hxc.1]
    exact h.kept x hx hown
  · have hbefore : later.Refers x y ∨ own y := by
      unfold Refers at hxy
      rw [read_write] at hxy
      split at hxy
      · next hxc => exact hxc.1 ▸ hv y hxy
      · exact Or.inl hxy
    rcases hbefore with hbefore | hown
    · exact (h.refers x y hbefore).imp_right (Or.imp_right (And.imp_right has_write.2))
    · exact Or.inr (Or.inl hown)

theorem alloc (h : ChangesWithin own now later)
    (hv : ∀ d ∈ v.children, own d ∨ (¬ now.Has d ∧ later.Has d)) :
    ChangesWithin own now (alloc v later).2 := by
  have hsize : ∀ x, later.Has x → (Heap.alloc v later).2.Has x := by
    intro x hx
    have hlt : x.index < later.cells.size := hx
    show x.index < (later.cells.push v).size
    rw [Array.size_push]
    omega
  have hread : ∀ x, (Heap.alloc v later).2.read x = if x = later.next then v else later.read x :=
    read_alloc later v
  refine ⟨fun x hx => hsize x (h.has x hx), fun x hx hown => ?_, fun x y hxy => ?_⟩
  · have hne : x ≠ later.next := by
      rintro rfl
      exact Nat.lt_irrefl _ (h.has _ hx)
    rw [hread, if_neg hne]
    exact h.kept x hx hown
  · have hgrown : now.Refers x y ∨ own y ∨ (¬ now.Has y ∧ later.Has y) := by
      unfold Refers at hxy
      rw [hread] at hxy
      split at hxy
      · exact Or.inr (hv y hxy)
      · exact h.refers x y hxy
    exact hgrown.imp_right (Or.imp_right (And.imp_right (hsize y)))

/-- Copies refer to copies, and those are new. -/
theorem of_copiesBelow (own : CellId → Prop) {roots : List CellId} {f : CellId → CellId}
    (hcopy : CopiesBelow now later roots f) : ChangesWithin own now later where
  has x hx := (hcopy.kept x hx).1
  kept x hx _ := (hcopy.kept x hx).2
  refers := by
    intro x y hxy
    by_cases hold : now.Has x
    · unfold Refers at hxy
      rw [(hcopy.kept x hold).2] at hxy
      exact Or.inl hxy
    · have hnew : later.Has x := has_of_children_ne_nil (List.ne_nil_of_mem hxy)
      obtain ⟨r, hr, z, hz, rfl⟩ := hcopy.only x hnew hold
      obtain ⟨w, hw, rfl⟩ := (hcopy.refers_iff hr hz).1 hxy
      exact Or.inr (Or.inr (hcopy.fresh r hr w (hz.tail hw)))

theorem copy (own : CellId → Prop) (now : Heap) (c : CellId) :
    ChangesWithin own now (copy c now).2 := by
  obtain ⟨f, hcopy, -⟩ := copy_copiesBelow now c
  exact of_copiesBelow own hcopy

theorem copyAsClass (own : CellId → Prop) (now : Heap) (c : CellId) :
    ChangesWithin own now (copyAsClass c now).2 := by
  unfold Heap.copyAsClass
  dsimp only
  split
  · refine (copy own now c).write (Or.inr (copy_fresh now c).1) fun d hd => Or.inl ?_
    rwa [Value.children_asClass] at hd
  · exact refl own now

theorem copyValue (own : CellId → Prop) (now : Heap) (c : CellId) :
    ChangesWithin own now ((CellCall.copyValue c).perform now) := by
  obtain ⟨f, hcopy, hvalue⟩ := copyValue_copiesBelow now (now.read c)
  refine (of_copiesBelow own hcopy).alloc fun d hd => Or.inr ?_
  change d ∈ (Heap.copyValue (now.read c) now).1.children at hd
  rw [hvalue, Value.children_rename] at hd
  obtain ⟨e, he, rfl⟩ := List.mem_map.1 hd
  exact hcopy.fresh e he e .refl

theorem perform {call : CellCall} (hcall : call.Within own now) :
    ChangesWithin own now (call.perform now) := by
  cases call with
  | make o => exact (refl own now).alloc fun d hd => Or.inl (hcall d hd)
  | copy c => exact copy own now c
  | copyAsClass c => exact copyAsClass own now c
  | copyValue c => exact copyValue own now c
  | change c x =>
      obtain ⟨v, hwrite, hchildren⟩ := x.perform_eq_write c now
      show ChangesWithin own now (x.perform c now)
      rw [hwrite]
      refine (refl own now).write (Or.inl hcall.1) fun d hd => ?_
      exact (hchildren d hd).imp_right (hcall.2 d)

end ChangesWithin

/-- Every call of a run works on cells that have a property at the moment of the call. -/
def RunsWithin (own : Heap → CellId → Prop) : Heap → List CellCall → Prop
  | _, [] => True
  | now, call :: calls => call.Within (own now) now ∧ RunsWithin own (call.perform now) calls

theorem runsWithin_of_append {own : Heap → CellId → Prop} {earlier later : List CellCall} :
    ∀ {now : Heap}, RunsWithin own now (earlier ++ later) → RunsWithin own now earlier := by
  induction earlier with
  | nil =>
      intro now _
      trivial
  | cons call earlier ih =>
      intro now h
      exact ⟨h.1, ih h.2⟩

theorem Closed.perform {now : Heap} (h : now.Closed) {call : CellCall}
    (hcall : call.Within now.Has now) : (call.perform now).Closed := by
  have hstep := ChangesWithin.perform hcall
  intro x y hxy
  rcases hstep.refers x y hxy with hold | hhas | hnew
  · exact hstep.has y (h x y hold)
  · exact hstep.has y hhas
  · exact hnew.2

/-- Programs that use cells of the heap only make no reference out of it. -/
theorem Closed.run {calls : List CellCall} :
    ∀ {now : Heap}, now.Closed → RunsWithin Has now calls → (now.run calls).Closed := by
  induction calls with
  | nil => exact fun h _ => h
  | cons call calls ih =>
      intro now h hcalls
      exact ih (h.perform hcalls.1) hcalls.2

/-- The cell is found from the root, or from a cell that was not there at the start. -/
def Owned (start : Heap) (root : CellId) (now : Heap) (x : CellId) : Prop :=
  ∃ r, (r = root ∨ ¬ start.Has r) ∧ now.Reaches r x

/-- Every call of a run works on what is found from the root, and on what is new since the start,
at the moment of the call. -/
abbrev WorksWithin (start : Heap) (root : CellId) : Heap → List CellCall → Prop :=
  RunsWithin (Owned start root)

/-- Protected cells have the values that they had, and no other cell refers to one of them. -/
structure Guarded (protect : CellId → Prop) (start now : Heap) : Prop where
  has : ∀ x, protect x → now.Has x
  kept : ∀ x, protect x → now.read x = start.read x
  apart : ∀ x y, ¬ protect x → now.Refers x y → ¬ protect y

namespace Guarded

variable {protect own : CellId → Prop} {start now later : Heap} {root x : CellId}

/-- From outside the protected cells none of them is found. -/
theorem not_protect_of_reaches (h : Guarded protect start now) (hroot : ¬ protect root)
    (hx : now.Reaches root x) : ¬ protect x := by
  induction hx with
  | refl => exact hroot
  | tail _ hstep ih => exact h.apart _ _ ih hstep

theorem not_protect_of_owned (h : Guarded protect start now)
    (hstart : ∀ x, protect x → start.Has x) (hroot : ¬ protect root)
    (hx : Owned start root now x) : ¬ protect x := by
  obtain ⟨r, hr, hrx⟩ := hx
  refine h.not_protect_of_reaches ?_ hrx
  rcases hr with rfl | hnew
  · exact hroot
  · exact fun hprotect => hnew (hstart r hprotect)

/-- Changes outside the protected cells leave them protected. -/
theorem step (h : Guarded protect start now) (hown : ∀ x, own x → ¬ protect x)
    (hstep : ChangesWithin own now later) : Guarded protect start later where
  has x hx := hstep.has x (h.has x hx)
  kept x hx := (hstep.kept x (h.has x hx) fun hx' => hown x hx' hx).trans (h.kept x hx)
  apart := by
    intro x y hx hxy
    rcases hstep.refers x y hxy with hold | hy | hnew
    · exact h.apart x y hx hold
    · exact hown y hy
    · exact fun hprotect => hnew.1 (h.has y hprotect)

theorem run (hstart : ∀ x, protect x → start.Has x) (hroot : ¬ protect root)
    {calls : List CellCall} :
    ∀ {now : Heap}, Guarded protect start now → WorksWithin start root now calls →
      Guarded protect start (now.run calls) := by
  induction calls with
  | nil => exact fun h _ => h
  | cons call calls ih =>
      intro now h hcalls
      have hown : ∀ x, Owned start root now x → ¬ protect x :=
        fun x => h.not_protect_of_owned hstart hroot
      exact ih (h.step hown (.perform hcalls.1)) hcalls.2

end Guarded

section Copy

variable (h : Heap) (c : CellId)

/-- Right after a copy the old cells are protected: copies refer to copies. -/
theorem guarded_originals : Guarded h.Has (copy c h).2 (copy c h).2 where
  has _ hx := (copy_kept h c hx).1
  kept _ _ := rfl
  apart := by
    intro x y hx hxy
    rcases (ChangesWithin.copy (fun _ => False) h c).refers x y hxy with hold | hnone | hnew
    · exact absurd (has_of_children_ne_nil (List.ne_nil_of_mem hold)) hx
    · exact hnone.elim
    · exact hnew.1

/-- The cells of a copy. -/
def IsCopy (x : CellId) : Prop := (copy c h).2.Has x ∧ ¬ h.Has x

/-- Right after a copy its cells are protected: old cells refer to old cells. -/
theorem guarded_copies (hclosed : h.Closed) :
    Guarded (IsCopy h c) (copy c h).2 (copy c h).2 where
  has x hx := hx.1
  kept _ _ := rfl
  apart := by
    rintro x y hx hxy ⟨-, hy⟩
    have hnew : (copy c h).2.Has x := has_of_children_ne_nil (List.ne_nil_of_mem hxy)
    have hold : h.Has x := by
      by_contra hnot
      exact hx ⟨hnew, hnot⟩
    unfold Refers at hxy
    rw [(copy_kept h c hold).2] at hxy
    exact hy (hclosed x y hxy)

theorem isCopy_of_reaches {y : CellId} (hy : (copy c h).2.Reaches (copy c h).1 y) :
    IsCopy h c y := by
  obtain ⟨f, hcopy, hroot⟩ := copy_copiesBelow h c
  have hc : c ∈ [c] := List.mem_singleton_self c
  rw [← hroot] at hy
  obtain ⟨x, hx, rfl⟩ := (hcopy.reaches_iff hc).1 hy
  exact (hcopy.fresh c hc x hx).symm

end Copy

/-- A cell of a closed heap is copied.  A program that works within the copy leaves all that the
original reaches as it was, at every moment, and a program that works within the original leaves all
that the copy reaches as it was. -/
theorem copies_isolated (h : Heap) (hclosed : h.Closed) (c : CellId) (hc : h.Has c)
    (calls : List CellCall) :
    let copied := (copy c h).1
    let start := (copy c h).2
    (WorksWithin start copied start calls →
      ∀ earlier, earlier <+: calls → SameBelow c h (start.run earlier)) ∧
    (WorksWithin start c start calls →
      ∀ earlier, earlier <+: calls → SameBelow copied start (start.run earlier)) := by
  intro copied start
  have hroot : IsCopy h c copied := isCopy_of_reaches h c .refl
  constructor
  · rintro hcalls earlier ⟨later, rfl⟩
    have hrun : Guarded h.Has start (start.run earlier) :=
      .run (guarded_originals h c).has hroot.2 (guarded_originals h c)
        (runsWithin_of_append hcalls)
    refine sameBelow_of_read fun x hx => ?_
    have hhas : h.Has x := hclosed.has_of_reaches hc hx
    exact (hrun.kept x hhas).trans (copy_kept h c hhas).2
  · rintro hcalls earlier ⟨later, rfl⟩
    have hrun : Guarded (IsCopy h c) start (start.run earlier) :=
      .run (fun x hx => hx.1) (fun hcopy => hcopy.2 hc) (guarded_copies h c hclosed)
        (runsWithin_of_append hcalls)
    exact sameBelow_of_read fun x hx => hrun.kept x (isCopy_of_reaches h c hx)

/-- Two objects that refer to each other, the first also to itself. -/
def ring : Heap :=
  ⟨#[.object (.ofList [("next", ⟨1⟩), ("self", ⟨0⟩)]), .object (.ofList [("back", ⟨0⟩)])]⟩

/-- The ring with its copy. -/
def ringAndCopy : Heap :=
  ⟨#[.object (.ofList [("next", ⟨1⟩), ("self", ⟨0⟩)]), .object (.ofList [("back", ⟨0⟩)]),
    .object (.ofList [("next", ⟨3⟩), ("self", ⟨2⟩)]), .object (.ofList [("back", ⟨2⟩)])]⟩

open Copying in
theorem copy_ring : copy ⟨0⟩ ring = (⟨2⟩, ringAndCopy) := by
  -- The second object is copied while the copy of the first one is pending.
  let one := (start ring).meet ⟨0⟩
  let both := one.meet ⟨1⟩
  let filled := both.fill ⟨3⟩ (.object (.ofList [("back", ⟨2⟩)]))
  have hmet : ⟨0⟩ ∈ both.copies := mem_meet.2 (.inr (mem_meet.2 (.inl rfl)))
  have hcopy : both.copyOf ⟨0⟩ = ⟨2⟩ := by
    rw [copyOf_meet, if_neg (by decide), copyOf_meet_self]
    rfl
  have hback : (value 2 (both.heap.read ⟨1⟩) both).1 =
      (.object (.ofList [("back", ⟨2⟩)]), both) := by
    refine (value_map 2 _ ⟨[("back", ⟨0⟩)], List.pairwise_singleton ..⟩ _ both).trans ?_
    rw [entries_cons, entries_nil, cell_of_mem hmet, hcopy]
    rfl
  have hsecond : (cell 2 ⟨1⟩ one).1 = (⟨3⟩, filled) := by
    rw [cell_of_not_mem (by simp [one, mem_meet, start]) (by decide), hback]
    rfl
  have hfirst : (value 2 (one.heap.read ⟨0⟩) one).1 =
      (.object (.ofList [("next", ⟨3⟩), ("self", ⟨2⟩)]), filled) := by
    refine (value_map 2 _ ⟨[("next", ⟨1⟩), ("self", ⟨0⟩)], by unfold Ascending; decide⟩ _
      one).trans ?_
    rw [entries_cons, hsecond, entries_cons, entries_nil, cell_of_mem (s := filled) hmet]
    rw [show filled.copyOf ⟨0⟩ = ⟨2⟩ from hcopy]
    rfl
  show ((cell 2 ⟨0⟩ (start ring)).1.1, (cell 2 ⟨0⟩ (start ring)).1.2.heap) = _
  rw [cell_of_not_mem (by simp [start]) (by decide), hfirst]
  rfl

/-- Open the ring at one cell, put a new cell that refers to it into the other one, and then
replace all that is there by a text. -/
def breakRing (first second new : CellId) : List CellCall :=
  [.change second (.eraseEntry "back"), .make (.data .map (.ofList [("up", first)])),
    .change first (.setEntry "new" new), .change first (.set .string "gone")]

theorem broken_ring_isolated :
    ring.Closed ∧ ring.Has ⟨0⟩ ∧
    (copy ⟨0⟩ ring).2.WorksWithin ⟨2⟩ (copy ⟨0⟩ ring).2 (breakRing ⟨2⟩ ⟨3⟩ ⟨4⟩) ∧
    (copy ⟨0⟩ ring).2.WorksWithin ⟨0⟩ (copy ⟨0⟩ ring).2 (breakRing ⟨0⟩ ⟨1⟩ ⟨4⟩) ∧
    ((copy ⟨0⟩ ring).2.run (breakRing ⟨2⟩ ⟨3⟩ ⟨4⟩)).read ⟨2⟩ = .string "gone" ∧
    SameBelow ⟨0⟩ ring ((copy ⟨0⟩ ring).2.run (breakRing ⟨2⟩ ⟨3⟩ ⟨4⟩)) ∧
    SameBelow ⟨2⟩ (copy ⟨0⟩ ring).2 ((copy ⟨0⟩ ring).2.run (breakRing ⟨0⟩ ⟨1⟩ ⟨4⟩)) := by
  have hclosed : ring.Closed := by decide
  have hhas : ring.Has ⟨0⟩ := by decide
  have hcopied := (copies_isolated ring hclosed ⟨0⟩ hhas (breakRing ⟨2⟩ ⟨3⟩ ⟨4⟩)).1
  have horiginal := (copies_isolated ring hclosed ⟨0⟩ hhas (breakRing ⟨0⟩ ⟨1⟩ ⟨4⟩)).2
  rw [copy_ring] at hcopied horiginal ⊢
  -- The second cell is found from the first, and the cell that is made is new.
  have hroot : ∀ first now, Owned ringAndCopy first now first :=
    fun first now => ⟨first, Or.inl rfl, .refl⟩
  have hnew : ∀ first now, Owned ringAndCopy first now ⟨4⟩ :=
    fun first now => ⟨⟨4⟩, Or.inr (by decide), .refl⟩
  have hworks : ∀ first second, ringAndCopy.Refers first second →
      ringAndCopy.WorksWithin first ringAndCopy (breakRing first second ⟨4⟩) := by
    intro first second hsecond
    have howned : Owned ringAndCopy first ringAndCopy second :=
      ⟨first, Or.inl rfl, .single hsecond⟩
    refine ⟨⟨howned, by simp [CellChange.stored]⟩, ?_, ?_, ?_, trivial⟩
    · intro d hd
      obtain rfl : d = first := List.mem_singleton.1 hd
      exact hroot d _
    · refine ⟨hroot first _, fun d hd => ?_⟩
      obtain rfl : d = ⟨4⟩ := List.mem_singleton.1 hd
      exact hnew first _
    · refine ⟨hroot first _, fun d hd => ?_⟩
      cases hd
  have hfirst := hworks ⟨2⟩ ⟨3⟩ (by decide)
  have hsecond := hworks ⟨0⟩ ⟨1⟩ (by decide)
  exact ⟨hclosed, hhas, hfirst, hsecond, by decide, hcopied hfirst _ List.prefix_rfl,
    horiginal hsecond _ List.prefix_rfl⟩

end Heap
end ScriptCore
