import ScriptCore.Heap.Copy
import ScriptCore.Proofs.Dictionaries
import ScriptCore.Proofs.Reachability

/-!
# Copies that are half built

While a copy is being made there are cells that have been met and whose copies are still null:
those on the way from the start to the cell that is being copied now.  They are pending.  A
pending cell that is met again is not copied again, so entries refer to copies that have no value
yet.

**Invariant.**  `Copying.HalfBuilt` says what holds of the copies at every moment: they are the new
cells, one for each cell met, and those that are not pending have their values, with copies for
entries.  Meeting a cell makes it pending (`HalfBuilt.meet`), and filling its copy ends that
(`HalfBuilt.fill`).  The originals keep their values, so it does not matter that they are read in
the heap that the copies are written to.

**Runs.**  `Copying.Builds`: a stage keeps the invariant with the same cells pending, meets its
roots and only cells below them, and leaves the copies alone that were there.  One lemma for each
way that a stage can go shows this, and `stages_build` puts them together by induction on the
stages (`stages_induction`).
-/

namespace ScriptCore

theorem Value.rename_congr {f f' : CellId → CellId} {v : Value}
    (h : ∀ d ∈ v.children, f d = f' d) : v.rename f = v.rename f' := by
  obtain ⟨tag, payload, mark⟩ := v
  cases payload with
  | none => rfl
  | some p =>
      cases p with
      | map m => simp only [rename, Option.map_some, Payload.rename, Dict.map_congr h]
      | _ => rfl

/-- A value without a map refers to nothing. -/
theorem Value.rename_of_data {v : Value} (hv : ∀ tag m mark, v ≠ ⟨tag, some (.map m), mark⟩)
    (f : CellId → CellId) : v.rename f = v ∧ v.children = [] := by
  obtain ⟨tag, payload, mark⟩ := v
  cases payload with
  | none => exact ⟨rfl, rfl⟩
  | some p =>
      cases p with
      | map m => exact absurd rfl (hv tag m mark)
      | _ => exact ⟨rfl, rfl⟩

namespace Copying

section Stages

variable {bound : Nat} {s : Copying} {c : CellId}

/-- Where the copy of a cell is. -/
def copyOf (s : Copying) (c : CellId) : CellId := s.copies.getD c c

theorem mem_meet {x : CellId} : x ∈ (s.meet c).copies ↔ x = c ∨ x ∈ s.copies := by
  rw [meet, Std.HashMap.mem_insert, beq_iff_eq, eq_comm]

theorem copyOf_meet (s : Copying) (c x : CellId) :
    (s.meet c).copyOf x = if x = c then s.heap.next else s.copyOf x := by
  by_cases hx : x = c
  · subst hx
    simp [copyOf, meet, Heap.alloc]
  · have hne : ¬ c = x := fun heq => hx heq.symm
    simp [copyOf, meet, Std.HashMap.getD_insert, hx, hne]

theorem copyOf_meet_self (s : Copying) (c : CellId) : (s.meet c).copyOf c = s.heap.next := by
  rw [copyOf_meet, if_pos rfl]

theorem copyOf_meet_of_mem {x : CellId} (hc : c ∉ s.copies) (hx : x ∈ s.copies) :
    (s.meet c).copyOf x = s.copyOf x := by
  rw [copyOf_meet, if_neg]
  rintro rfl
  exact hc hx

theorem has_meet {x : CellId} : (s.meet c).heap.Has x ↔ s.heap.Has x ∨ x = s.heap.next := by
  obtain ⟨i⟩ := x
  show i < (s.heap.cells.push .null).size ↔ i < s.heap.cells.size ∨ CellId.mk i = s.heap.next
  rw [Array.size_push, Heap.next, CellId.mk.injEq]
  exact Nat.lt_succ_iff_lt_or_eq

theorem read_meet (s : Copying) (c x : CellId) :
    (s.meet c).heap.read x = if x = s.heap.next then .null else s.heap.read x :=
  Heap.read_alloc s.heap .null x

theorem has_fill {d x : CellId} {v : Value} : (s.fill d v).heap.Has x ↔ s.heap.Has x :=
  Heap.has_write

theorem cell_of_mem (hc : c ∈ s.copies) : (cell bound c s).1 = (s.copyOf c, s) := by
  rw [cell, dif_pos hc, copyOf, Std.HashMap.getD_eq_getD_getElem?,
    Std.HashMap.getElem?_eq_some_getElem hc]
  rfl

theorem cell_of_not_mem (hc : c ∉ s.copies) (hlt : c.index < bound) :
    (cell bound c s).1 =
      (s.heap.next, (value bound ((s.meet c).heap.read c) (s.meet c)).1.2.fill s.heap.next
        (value bound ((s.meet c).heap.read c) (s.meet c)).1.1) := by
  rw [cell, dif_neg hc]
  simp only [dif_pos hlt]

theorem cell_of_outside (hc : c ∉ s.copies) (hlt : ¬ c.index < bound) :
    (cell bound c s).1 = (s.heap.next, s.meet c) := by
  rw [cell, dif_neg hc]
  simp only [dif_neg hlt]

theorem value_map (bound : Nat) (tag : Tag) (m : Dict CellId) (mark : Bool) (s : Copying) :
    (value bound ⟨tag, some (.map m), mark⟩ s).1 =
      (⟨tag, some (.map (entries bound m.entries s).1.1), mark⟩,
        (entries bound m.entries s).1.2) := by
  rw [value]

theorem value_of_data {v : Value} (hv : ∀ tag m mark, v ≠ ⟨tag, some (.map m), mark⟩) :
    (value bound v s).1 = (v, s) := by
  rw [value]
  exact hv

theorem entries_nil (bound : Nat) (s : Copying) : (entries bound [] s).1 = (.empty, s) := by
  rw [entries]

theorem entries_cons (bound : Nat) (key : String) (c : CellId) (rest : List (String × CellId))
    (s : Copying) :
    (entries bound ((key, c) :: rest) s).1 =
      ((entries bound rest (cell bound c s).1.2).1.1.insert key (cell bound c s).1.1,
        (entries bound rest (cell bound c s).1.2).1.2) := by
  rw [entries]

/-- One rule for each way that a stage can go, for properties of its result. -/
theorem stages_induction (bound : Nat) {P : CellId → Copying → CellId × Copying → Prop}
    {Q : Value → Copying → Value × Copying → Prop}
    {R : List (String × CellId) → Copying → Dict CellId × Copying → Prop}
    (again : ∀ c s, c ∈ s.copies → P c s (s.copyOf c, s))
    (first : ∀ c s v t, c ∉ s.copies → c.index < bound →
      Q ((s.meet c).heap.read c) (s.meet c) (v, t) → P c s (s.heap.next, t.fill s.heap.next v))
    (outside : ∀ c s, c ∉ s.copies → ¬ c.index < bound → P c s (s.heap.next, s.meet c))
    (map : ∀ tag m mark s n t, R m.entries s (n, t) →
      Q ⟨tag, some (.map m), mark⟩ s (⟨tag, some (.map n), mark⟩, t))
    (data : ∀ v s, (∀ tag m mark, v ≠ ⟨tag, some (.map m), mark⟩) → Q v s (v, s))
    (nil : ∀ s, R [] s (.empty, s))
    (cons : ∀ key c rest s d t n u, P c s (d, t) → R rest t (n, u) →
      R ((key, c) :: rest) s (n.insert key d, u)) :
    (∀ c s, P c s (cell bound c s).1) ∧ (∀ v s, Q v s (value bound v s).1) ∧
      ∀ l s, R l s (entries bound l s).1 := by
  refine cell.mutual_induct bound (fun c s => P c s (cell bound c s).1)
    (fun v s => Q v s (value bound v s).1) (fun l s => R l s (entries bound l s).1)
    ?_ ?_ ?_ ?_ ?_ ?_ ?_
  · intro c s hc
    rw [cell_of_mem hc]
    exact again c s hc
  · intro c s hc _ hlt _ _ _ _ ih
    rw [cell_of_not_mem hc hlt]
    exact first c s _ _ hc hlt ih
  · intro c s hc hlt
    rw [cell_of_outside hc hlt]
    exact outside c s hc hlt
  · intro s tag m mark _ _ _ _ ih
    rw [value_map]
    exact map tag m mark s _ _ ih
  · intro s v hv
    rw [value_of_data hv]
    exact data v s hv
  · intro s
    rw [entries_nil]
    exact nil s
  · intro s key c rest d t _ hcell n u _ hentries ihcell ihrest
    rw [entries_cons, hcell, hentries]
    rw [hcell] at ihcell
    rw [hentries] at ihrest
    exact cons key c rest s d t n u ihcell ihrest

end Stages

/-- A copy of cells of a heap `h` that is half built.  The copies are the new cells, one for each
cell met.  Those of pending cells are null.  All others are filled: they have the values of their
originals, with copies for entries. -/
structure HalfBuilt (h : Heap) (pending : CellId → Prop) (s : Copying) : Prop where
  kept : ∀ d, h.Has d → s.heap.Has d ∧ s.heap.read d = h.read d
  fresh : ∀ c ∈ s.copies, ¬ h.Has (s.copyOf c) ∧ s.heap.Has (s.copyOf c)
  only : ∀ d, s.heap.Has d → ¬ h.Has d → ∃ c ∈ s.copies, s.copyOf c = d
  inj : ∀ c ∈ s.copies, ∀ d ∈ s.copies, s.copyOf c = s.copyOf d → c = d
  blank : ∀ c, pending c → c ∈ s.copies ∧ s.heap.read (s.copyOf c) = .null
  filled : ∀ c ∈ s.copies, ¬ pending c →
    (∀ d ∈ (h.read c).children, d ∈ s.copies) ∧
      s.heap.read (s.copyOf c) = (h.read c).rename s.copyOf

/-- The second state comes later in a copy of what is below the roots. -/
structure Continues (h : Heap) (roots : List CellId) (s t : Copying) : Prop where
  kept : ∀ c ∈ s.copies, c ∈ t.copies ∧ t.copyOf c = s.copyOf c
  met : ∀ r ∈ roots, r ∈ t.copies
  below : ∀ c ∈ t.copies, c ∈ s.copies ∨ h.Below roots c

namespace HalfBuilt

variable {h : Heap} {pending : CellId → Prop} {s : Copying} {c : CellId}

theorem start (h : Heap) : HalfBuilt h (fun _ => False) (start h) where
  kept d hd := ⟨hd, rfl⟩
  fresh c hc := by simp [Copying.start] at hc
  only d hd hnot := absurd hd hnot
  inj c hc := by simp [Copying.start] at hc
  blank c := False.elim
  filled c hc := by simp [Copying.start] at hc

theorem not_has_next (hs : HalfBuilt h pending s) : ¬ h.Has s.heap.next :=
  fun hnext => Nat.lt_irrefl _ (hs.kept _ hnext).1

theorem copyOf_ne_next (hs : HalfBuilt h pending s) {x : CellId} (hx : x ∈ s.copies) :
    s.copyOf x ≠ s.heap.next := by
  intro heq
  have hhas := (hs.fresh x hx).2
  rw [heq] at hhas
  exact Nat.lt_irrefl _ hhas

/-- A cell that is met for the first time becomes pending. -/
theorem meet (hs : HalfBuilt h pending s) (hc : c ∉ s.copies) :
    HalfBuilt h (fun x => x = c ∨ pending x) (s.meet c) := by
  have hread : ∀ x ∈ s.copies,
      (s.meet c).heap.read ((s.meet c).copyOf x) = s.heap.read (s.copyOf x) := by
    intro x hx
    rw [copyOf_meet_of_mem hc hx, read_meet, if_neg (hs.copyOf_ne_next hx)]
  refine ⟨fun d hd => ?_, fun x hx => ?_, fun d hd hnot => ?_, fun x hx y hy heq => ?_,
    fun x hx => ?_, fun x hx hfilled => ?_⟩
  · obtain ⟨hhas, heq⟩ := hs.kept d hd
    refine ⟨has_meet.2 (.inl hhas), ?_⟩
    rw [read_meet, if_neg, heq]
    rintro rfl
    exact hs.not_has_next hd
  · rcases mem_meet.1 hx with rfl | hx
    · rw [copyOf_meet_self]
      exact ⟨hs.not_has_next, has_meet.2 (.inr rfl)⟩
    · rw [copyOf_meet_of_mem hc hx]
      exact ⟨(hs.fresh x hx).1, has_meet.2 (.inl (hs.fresh x hx).2)⟩
  · rcases has_meet.1 hd with hd | rfl
    · obtain ⟨x, hx, rfl⟩ := hs.only d hd hnot
      exact ⟨x, mem_meet.2 (.inr hx), copyOf_meet_of_mem hc hx⟩
    · exact ⟨c, mem_meet.2 (.inl rfl), copyOf_meet_self s c⟩
  · rcases mem_meet.1 hx with hxc | hx' <;> rcases mem_meet.1 hy with hyc | hy'
    · exact hxc.trans hyc.symm
    · rw [hxc, copyOf_meet_self, copyOf_meet_of_mem hc hy'] at heq
      exact absurd heq.symm (hs.copyOf_ne_next hy')
    · rw [hyc, copyOf_meet_self, copyOf_meet_of_mem hc hx'] at heq
      exact absurd heq (hs.copyOf_ne_next hx')
    · rw [copyOf_meet_of_mem hc hx', copyOf_meet_of_mem hc hy'] at heq
      exact hs.inj x hx' y hy' heq
  · rcases hx with rfl | hx
    · refine ⟨mem_meet.2 (.inl rfl), ?_⟩
      rw [copyOf_meet_self, read_meet, if_pos rfl]
    · obtain ⟨hmem, hnull⟩ := hs.blank x hx
      exact ⟨mem_meet.2 (.inr hmem), (hread x hmem).trans hnull⟩
  · obtain ⟨hne, hfilled⟩ := not_or.1 hfilled
    have hmem : x ∈ s.copies := (mem_meet.1 hx).resolve_left hne
    obtain ⟨hmet, heq⟩ := hs.filled x hmem hfilled
    refine ⟨fun d hd => mem_meet.2 (.inr (hmet d hd)), ?_⟩
    rw [hread x hmem, heq]
    exact Value.rename_congr fun d hd => (copyOf_meet_of_mem hc (hmet d hd)).symm

/-- A pending copy is filled when the entries of its original have been met. -/
theorem fill (hs : HalfBuilt h (fun x => x = c ∨ pending x) s) (hc : ¬ pending c)
    (hmet : ∀ d ∈ (h.read c).children, d ∈ s.copies) :
    HalfBuilt h pending (s.fill (s.copyOf c) ((h.read c).rename s.copyOf)) := by
  obtain ⟨hmem, -⟩ := hs.blank c (.inl rfl)
  obtain ⟨hnew, hhas⟩ := hs.fresh c hmem
  have hread : ∀ x, x ≠ s.copyOf c →
      (s.fill (s.copyOf c) ((h.read c).rename s.copyOf)).heap.read x = s.heap.read x :=
    fun x hx => (Heap.read_write ..).trans (if_neg fun hxc => hx hxc.1)
  have hother : ∀ x ∈ s.copies, x ≠ c → s.copyOf x ≠ s.copyOf c :=
    fun x hx hne heq => hne (hs.inj x hx c hmem heq)
  refine ⟨fun d hd => ?_, fun x hx => ?_, fun d hd => hs.only d (has_fill.1 hd), hs.inj,
    fun x hx => ?_, fun x hx hfilled => ?_⟩
  · refine ⟨has_fill.2 (hs.kept d hd).1, (hread d ?_).trans (hs.kept d hd).2⟩
    rintro rfl
    exact hnew hd
  · exact ⟨(hs.fresh x hx).1, has_fill.2 (hs.fresh x hx).2⟩
  · obtain ⟨hx', hnull⟩ := hs.blank x (.inr hx)
    refine ⟨hx', (hread _ (hother x hx' ?_)).trans hnull⟩
    rintro rfl
    exact hc hx
  · by_cases hxc : x = c
    · subst hxc
      exact ⟨hmet, (Heap.read_write ..).trans (if_pos ⟨rfl, hhas⟩)⟩
    · obtain ⟨hchildren, heq⟩ := hs.filled x hx (not_or.2 ⟨hxc, hfilled⟩)
      exact ⟨hchildren, (hread _ (hother x hx hxc)).trans heq⟩

/-- A name outside the heap is read as null, and so its copy need not be filled. -/
theorem meet_outside (hs : HalfBuilt h pending s) (hc : c ∉ s.copies) (hnot : ¬ h.Has c) :
    HalfBuilt h pending (s.meet c) := by
  have hmet := hs.meet hc
  refine ⟨hmet.kept, hmet.fresh, hmet.only, hmet.inj, fun x hx => hmet.blank x (.inr hx),
    fun x hx hfilled => ?_⟩
  by_cases hxc : x = c
  · subst hxc
    rw [Heap.read_of_not_has hnot]
    exact ⟨nofun, (hmet.blank x (.inl rfl)).2⟩
  · exact hmet.filled x hx (not_or.2 ⟨hxc, hfilled⟩)

end HalfBuilt

namespace Continues

variable {h : Heap} {roots : List CellId} {s t u : Copying} {c : CellId}

theorem refl (h : Heap) (s : Copying) : Continues h [] s s :=
  ⟨fun _ hc => ⟨hc, rfl⟩, nofun, fun _ hc => .inl hc⟩

theorem again (h : Heap) (hc : c ∈ s.copies) : Continues h [c] s s :=
  ⟨fun _ hd => ⟨hd, rfl⟩, fun _ hr => List.mem_singleton.1 hr ▸ hc, fun _ hd => .inl hd⟩

theorem meet (h : Heap) (hc : c ∉ s.copies) : Continues h [c] s (s.meet c) where
  kept x hx := ⟨mem_meet.2 (.inr hx), copyOf_meet_of_mem hc hx⟩
  met r hr := mem_meet.2 (.inl (List.mem_singleton.1 hr))
  below x hx := by
    rcases mem_meet.1 hx with rfl | hx
    · exact .inr ⟨x, List.mem_singleton_self x, .refl⟩
    · exact .inl hx

/-- One stage after the other.  The roots of both are met, and what is met is below them. -/
theorem trans {roots₁ roots₂ : List CellId} (hst : Continues h roots₁ s t)
    (htu : Continues h roots₂ t u) (hmet : ∀ r ∈ roots, r ∈ roots₁ ∨ r ∈ roots₂)
    (hbelow : ∀ x, h.Below roots₁ x ∨ h.Below roots₂ x → h.Below roots x) :
    Continues h roots s u where
  kept x hx := by
    obtain ⟨hx', heq⟩ := hst.kept x hx
    exact ⟨(htu.kept x hx').1, (htu.kept x hx').2.trans heq⟩
  met r hr := (hmet r hr).elim (fun hr => (htu.kept r (hst.met r hr)).1) (htu.met r)
  below x hx := by
    rcases htu.below x hx with hx | hx
    · exact (hst.below x hx).imp_right fun hx => hbelow x (.inl hx)
    · exact .inr (hbelow x (.inr hx))

/-- One root after the others. -/
theorem cons (hst : Continues h [c] s t) (htu : Continues h roots t u) :
    Continues h (c :: roots) s u := by
  refine hst.trans htu (fun r hr => ?_) ?_
  · exact (List.mem_cons.1 hr).imp_left List.mem_singleton.2
  · rintro x (⟨r, hr, hrx⟩ | ⟨r, hr, hrx⟩)
    · exact ⟨r, List.mem_cons.2 (.inl (List.mem_singleton.1 hr)), hrx⟩
    · exact ⟨r, List.mem_cons_of_mem c hr, hrx⟩

/-- A cell is met first and what it refers to afterwards. -/
theorem entered (hst : Continues h [c] s t) (htu : Continues h (h.read c).children t u) :
    Continues h [c] s u := by
  refine hst.trans htu (fun r hr => .inl hr) ?_
  rintro x (hx | ⟨d, hd, hdx⟩)
  · exact hx
  · exact ⟨c, List.mem_singleton_self c, .head hd hdx⟩

end Continues

/-- A stage takes a half-built copy to a half-built copy with the same cells pending.  It meets its
roots and cells below them, and its result is as it should be. -/
def Builds (h : Heap) (roots : List CellId) (s t : Copying) (result : Prop) : Prop :=
  ∀ pending, HalfBuilt h pending s → HalfBuilt h pending t ∧ Continues h roots s t ∧ result

namespace Builds

variable {h : Heap} {s t u : Copying} {c : CellId}

/-- A cell that is met for the first time is pending while its value is copied. -/
theorem first {v : Value} (hc : c ∉ s.copies) (hhas : h.Has c)
    (hvalue : Builds h ((s.meet c).heap.read c).children (s.meet c) t
      (v = ((s.meet c).heap.read c).rename t.copyOf)) :
    Builds h [c] s (t.fill s.heap.next v) (t.copyOf c = s.heap.next) := by
  intro pending hs
  have hmet := hs.meet hc
  rw [(hmet.kept c hhas).2] at hvalue
  obtain ⟨ht, hcontinues, rfl⟩ := hvalue _ hmet
  obtain ⟨-, hcopy⟩ := hcontinues.kept c (mem_meet.2 (.inl rfl))
  rw [copyOf_meet_self] at hcopy
  have hfilled := ht.fill (fun hpending => hc (hs.blank c hpending).1) hcontinues.met
  rw [hcopy] at hfilled
  have hentered := (Continues.meet h hc).entered hcontinues
  exact ⟨hfilled, ⟨hentered.kept, hentered.met, hentered.below⟩, hcopy⟩

theorem map {m n : Dict CellId} (tag : Tag) (mark : Bool)
    (hentries : Builds h (m.entries.map Prod.snd) s t
      (∀ key, n.find? key = (Dict.findEntry key m.entries).map t.copyOf)) :
    Builds h (Value.mk tag (some (.map m)) mark).children s t
      (⟨tag, some (.map n), mark⟩ = (Value.mk tag (some (.map m)) mark).rename t.copyOf) := by
  intro pending hs
  obtain ⟨ht, hcontinues, hfind⟩ := hentries pending hs
  have hn : n = m.map t.copyOf := Dict.ext_find? fun key => by
    rw [hfind, Dict.find?_map]
    rfl
  exact ⟨ht, hcontinues, hn ▸ rfl⟩

theorem data {v : Value} (hv : ∀ tag m mark, v ≠ ⟨tag, some (.map m), mark⟩) :
    Builds h v.children s s (v = v.rename s.copyOf) := by
  obtain ⟨hrename, hchildren⟩ := Value.rename_of_data hv s.copyOf
  exact fun pending hs => ⟨hs, hchildren ▸ .refl h s, hrename.symm⟩

/-- The copy of the first entry stays what it is while the others are copied. -/
theorem cons {key : String} {rest : List (String × CellId)} {d : CellId} {n : Dict CellId}
    (hcell : Builds h [c] s t (t.copyOf c = d))
    (hrest : Builds h (rest.map Prod.snd) t u
      (∀ other, n.find? other = (Dict.findEntry other rest).map u.copyOf)) :
    Builds h (((key, c) :: rest).map Prod.snd) s u (∀ other, (n.insert key d).find? other =
      (Dict.findEntry other ((key, c) :: rest)).map u.copyOf) := by
  intro pending hs
  obtain ⟨ht, hfirst, rfl⟩ := hcell pending hs
  obtain ⟨hu, hothers, hfind⟩ := hrest pending ht
  refine ⟨hu, hfirst.cons hothers, fun other => ?_⟩
  rw [Dict.find?_insert, Dict.findEntry]
  split
  · rw [Option.map_some, (hothers.kept c (hfirst.met c (List.mem_singleton_self c))).2]
  · exact hfind other

end Builds

/-- A whole copy, by what each of its stages does. -/
theorem stages_build (h : Heap) :
    (∀ c s, Builds h [c] s (cell h.size c s).1.2
      ((cell h.size c s).1.2.copyOf c = (cell h.size c s).1.1)) ∧
    (∀ v s, Builds h v.children s (value h.size v s).1.2
      ((value h.size v s).1.1 = v.rename (value h.size v s).1.2.copyOf)) ∧
    ∀ l s, Builds h (l.map Prod.snd) s (entries h.size l s).1.2
      (∀ key, (entries h.size l s).1.1.find? key =
        (Dict.findEntry key l).map (entries h.size l s).1.2.copyOf) := by
  refine stages_induction h.size
    (P := fun c s r => Builds h [c] s r.2 (r.2.copyOf c = r.1))
    (Q := fun v s r => Builds h v.children s r.2 (r.1 = v.rename r.2.copyOf))
    (R := fun l s r => Builds h (l.map Prod.snd) s r.2
      (∀ key, r.1.find? key = (Dict.findEntry key l).map r.2.copyOf)) ?_ ?_ ?_ ?_ ?_ ?_ ?_
  · exact fun c s hc pending hs => ⟨hs, .again h hc, rfl⟩
  · exact fun c s v t hc hlt hvalue => .first hc hlt hvalue
  · intro c s hc hlt pending hs
    exact ⟨hs.meet_outside hc hlt, .meet h hc, copyOf_meet_self s c⟩
  · exact fun tag m mark s n t hentries => .map tag mark hentries
  · exact fun v s hv => .data hv
  · exact fun s pending hs => ⟨hs, .refl h s, fun key => rfl⟩
  · exact fun key c rest s d t n u hcell hrest => .cons hcell hrest

end Copying

end ScriptCore
