import ScriptCore.Proofs.HeldCells
import ScriptCore.Proofs.Lineages
import ScriptCore.Proofs.Renamings

/-!
# What instances are filled with

An instance is made out of the entries of a map.  If these name a class, the properties that its
lineage declares come to them, each under its name with one dollar sign, unless there is an entry
already.  Static properties do not count, and they do not hide the property of an ancestor either.

**Declarations.**  `Container.Declares`: the nearest declaration of an instance property under a
bare name.  In a consistent registry a class declares a bare name once, so there is one at most.

**Values.**  `Property.StartsAs`: what the new entry is, a copy of the whole graph below the default
(`Heap.DeepCopied`) or the zero of the type.  It is stated about the heap before the instance was
made and the heap after it, although the copy was made in between.

**Results.**
* `fill_kept`, `fill_at`, `fill_only`: what filling does to the entries, at a place of the list.
* `instantiate_eq_error_iff`: which entries are refused.
* `instances_filled`: both, after every run.
-/

namespace ScriptCore

open Heap (Added Grows)

/-- A string that is not null. -/
theorem Value.eq_string {v : Value} {s : String} (htag : v.tag = .string)
    (hdata : v.payload = some (.of .string s)) (hnull : v.isNull = false) : v = .string s := by
  obtain ⟨tag, payload, mark⟩ := v
  obtain rfl : tag = .string := htag
  obtain rfl : payload = some (.string s) := hdata
  obtain rfl : mark = false := (Bool.or_eq_false_iff.1 hnull).1
  rfl

/-- The cell has the first value of a property, made out of the cells of the first heap. -/
def Property.StartsAs (p : Property) (h h' : Heap) (d : CellId) : Prop :=
  match p.default with
  | some c => h.DeepCopied h' c d
  | none => h'.read d = Value.zeroOf p.tag

namespace Property

variable {p : Property} {h h' g : Heap} {d : CellId}

theorem startsAs_initialCell (p : Property) (h : Heap) :
    p.StartsAs h (p.initialCell h).2 (p.initialCell h).1 := by
  unfold StartsAs initialCell
  cases p.default with
  | some c => exact Heap.deepCopied_copy h c
  | none => exact Heap.read_alloc_self _ h

/-- Later cells do not change what an entry starts as. -/
theorem StartsAs.extends (hp : p.StartsAs h h' d) (hd : h'.Has d) (hclosed : h'.Closed)
    (hg : h'.Extends g) : p.StartsAs h g d := by
  unfold StartsAs at hp ⊢
  cases hdefault : p.default with
  | some c =>
      rw [hdefault] at hp
      exact Heap.DeepCopied.to_sameBelow hp (hg.sameBelow hclosed hd)
  | none =>
      rw [hdefault] at hp
      exact (hg.read d hd).trans hp

/-- The default was there, with all that it reaches, before other cells were added. -/
theorem StartsAs.of_extends (hp : p.StartsAs h h' d) (hdefault : ∀ c ∈ p.default, g.Has c)
    (hclosed : g.Closed) (hg : g.Extends h) : p.StartsAs g h' d := by
  unfold StartsAs at hp ⊢
  cases hc : p.default with
  | some c =>
      rw [hc] at hp
      exact Heap.DeepCopied.of_sameBelow hp (hg.sameBelow hclosed (hdefault c hc))
  | none =>
      rw [hc] at hp
      exact hp

end Property

namespace Container

section Filling

variable {h : Heap} {p : Property} {m : Dict CellId} {key : String} {c d : CellId}

theorem not_contains_iff : ¬ m.contains key = true ↔ m.find? key = none := by
  rw [Dict.contains, Option.not_isSome_iff_eq_none]

theorem fill_kept (ps : List Property) (h : Heap) (hkey : m.find? key = some c) :
    (fill ps m h).1.find? key = some c := by
  induction ps generalizing m h with
  | nil => exact hkey
  | cons p rest ih =>
      by_cases hp : m.contains (dollarName p.name) = true
      · rw [fill_cons_of_contains hp]
        exact ih h hkey
      · rw [fill_cons_of_not_contains hp]
        refine ih _ ?_
        rw [Dict.find?_insert, if_neg, hkey]
        rintro rfl
        rw [not_contains_iff.1 hp] at hkey
        cases hkey

/-- An entry that is not among those given is that of a property of the list. -/
theorem fill_only (ps : List Property) (h : Heap) (hkey : (fill ps m h).1.find? key = some d) :
    m.find? key = some d ∨ m.find? key = none ∧ ∃ p ∈ ps, dollarName p.name = key := by
  induction ps generalizing m h with
  | nil => exact .inl hkey
  | cons p rest ih =>
      by_cases hp : m.contains (dollarName p.name) = true
      · rw [fill_cons_of_contains hp] at hkey
        refine (ih h hkey).imp_right (And.imp_right ?_)
        rintro ⟨q, hq, hname⟩
        exact ⟨q, List.mem_cons_of_mem p hq, hname⟩
      · rw [fill_cons_of_not_contains hp] at hkey
        by_cases hname : key = dollarName p.name
        · subst hname
          exact .inr ⟨not_contains_iff.1 hp, p, List.mem_cons_self, rfl⟩
        · have hrest := ih _ hkey
          rw [Dict.find?_insert, if_neg hname] at hrest
          refine hrest.imp_right (And.imp_right ?_)
          rintro ⟨q, hq, hq'⟩
          exact ⟨q, List.mem_cons_of_mem p hq, hq'⟩

/-- The first property of the list with a name that has no entry gets one. -/
theorem fill_at {nearer further : List Property} (hclosed : h.Closed)
    (hdefaults : ∀ q ∈ nearer ++ p :: further, ∀ c ∈ q.default, h.Has c)
    (hkey : m.find? key = none) (hp : dollarName p.name = key)
    (hnearer : ∀ q ∈ nearer, dollarName q.name ≠ key) :
    ∃ d, (fill (nearer ++ p :: further) m h).1.find? key = some d ∧
      p.StartsAs h (fill (nearer ++ p :: further) m h).2 d ∧
      Added h (fill (nearer ++ p :: further) m h).2 d := by
  induction nearer generalizing m h with
  | nil =>
      rw [List.nil_append, fill_cons_of_not_contains (not_contains_iff.2 (hp ▸ hkey))]
      obtain ⟨hgrows, hadded⟩ := initialCell_grows p h
      have hclosed' := hgrows.closed (fun _ => False.elim) hclosed
      obtain ⟨hrest, -⟩ := fill_grows further
        (m.insert (dollarName p.name) (p.initialCell h).1) (p.initialCell h).2
      refine ⟨(p.initialCell h).1, fill_kept _ _ ?_, ?_, hadded.1, hrest.kept.has _ hadded.2⟩
      · rw [← hp, Dict.find?_insert_self]
      · exact (p.startsAs_initialCell h).extends hadded.2 hclosed' hrest.kept
  | cons q nearer ih =>
      have hq : dollarName q.name ≠ key := hnearer q List.mem_cons_self
      have hothers : ∀ r ∈ nearer, dollarName r.name ≠ key :=
        fun r hr => hnearer r (List.mem_cons_of_mem q hr)
      have hlater : ∀ r ∈ nearer ++ p :: further, ∀ c ∈ r.default, h.Has c :=
        fun r hr => hdefaults r (List.mem_cons_of_mem q hr)
      rw [List.cons_append]
      by_cases hcontains : m.contains (dollarName q.name) = true
      · rw [fill_cons_of_contains hcontains]
        exact ih hclosed hlater hkey hothers
      · rw [fill_cons_of_not_contains hcontains]
        obtain ⟨hgrows, -⟩ := initialCell_grows q h
        have hclosed' := hgrows.closed (fun _ => False.elim) hclosed
        have hkey' : (m.insert (dollarName q.name) (q.initialCell h).1).find? key = none := by
          rw [Dict.find?_insert, if_neg (Ne.symm hq), hkey]
        obtain ⟨d, hd, hstarts, hadded⟩ := ih hclosed'
          (fun r hr c hc => hgrows.kept.has c (hlater r hr c hc)) hkey' hothers
        refine ⟨d, hd, hstarts.of_extends ?_ hclosed hgrows.kept, hadded.of_extends hgrows.kept⟩
        exact hlater p (List.mem_append_right nearer List.mem_cons_self)

end Filling

/-- The nearest declaration of an instance property under a bare name. -/
def Declares (k : Container) (name bare : String) (p : Property) : Prop :=
  ∃ nearer c further, k.lineage name = nearer ++ c :: further ∧
    p ∈ c.properties ∧ p.isStatic = false ∧ bareName p.name = bare ∧
    ∀ d ∈ nearer, ∀ q ∈ d.properties, q.isStatic = false → bareName q.name ≠ bare

section Declarations

variable {k : Container} {name bare : String} {p : Property}

theorem mem_instanceProperties_iff :
    p ∈ k.instanceProperties name ↔
      ∃ c ∈ k.lineage name, p ∈ c.properties ∧ p.isStatic = false := by
  simp only [instanceProperties, List.mem_filter, List.mem_flatMap, Bool.not_eq_eq_eq_not,
    Bool.not_true]
  constructor
  · rintro ⟨⟨c, hc, hp⟩, hstatic⟩
    exact ⟨c, hc, hp, hstatic⟩
  · rintro ⟨c, hc, hp, hstatic⟩
    exact ⟨⟨c, hc, hp⟩, hstatic⟩

/-- Whatever is declared is declared by a nearest class. -/
theorem exists_declares {q : Property} (hq : q ∈ k.instanceProperties name) :
    ∃ p, k.Declares name (bareName q.name) p := by
  obtain ⟨c, hc, hmem, hstatic⟩ := mem_instanceProperties_iff.1 hq
  let declares : Class → Bool := fun d =>
    d.properties.any fun r => !r.isStatic && bareName r.name == bareName q.name
  have hdeclares : ∀ d, declares d = true ↔
      ∃ r ∈ d.properties, r.isStatic = false ∧ bareName r.name = bareName q.name := by
    intro d
    simp [declares]
  obtain ⟨first, hfirst⟩ : ∃ first, (k.lineage name).find? declares = some first :=
    Option.isSome_iff_exists.1
      (List.find?_isSome.2 ⟨c, hc, (hdeclares c).2 ⟨q, hmem, hstatic, rfl⟩⟩)
  obtain ⟨hdeclared, nearer, further, hlineage, hnearer⟩ := List.find?_eq_some_iff_append.1 hfirst
  obtain ⟨p, hp, hinstance, hname⟩ := (hdeclares first).1 hdeclared
  refine ⟨p, nearer, first, further, hlineage, hp, hinstance, hname, fun d hd r hr hr' hsame => ?_⟩
  have hnot := hnearer d hd
  rw [(hdeclares d).2 ⟨r, hr, hr', hsame⟩] at hnot
  cases hnot

/-- The nearest declaration comes first among the properties of instances: within a class a bare
name is declared once. -/
theorem Declares.exists_split (h : k.Declares name bare p) (hconsistent : Consistent k.classes) :
    ∃ nearer further, k.instanceProperties name = nearer ++ p :: further ∧
      ∀ q ∈ nearer, bareName q.name ≠ bare := by
  obtain ⟨nearer, c, further, hlineage, hmem, hstatic, hname, hnearer⟩ := h
  obtain ⟨before, after, hsplit⟩ := List.append_of_mem hmem
  have hc : c ∈ k.lineage name := hlineage ▸ List.mem_append_right nearer List.mem_cons_self
  have horderly := (hconsistent.orderly _ c (find?_of_mem_lineage hconsistent hc)).properties
  rw [hsplit, List.map_append, List.map_cons, List.nodup_append] at horderly
  refine ⟨(nearer.flatMap Class.properties ++ before).filter fun q => !q.isStatic,
    (after ++ further.flatMap Class.properties).filter fun q => !q.isStatic, ?_, fun q hq => ?_⟩
  · simp [instanceProperties, hlineage, hsplit, hstatic]
  · obtain ⟨hq, hinstance⟩ := List.mem_filter.1 hq
    rcases List.mem_append.1 hq with hq | hq
    · obtain ⟨d, hd, hqd⟩ := List.mem_flatMap.1 hq
      exact hnearer d hd q hqd (by simpa using hinstance)
    · rw [← hname]
      exact horderly.2.2 _ (List.mem_map_of_mem hq) _ List.mem_cons_self

theorem dollarName_eq_iff : dollarName p.name = "$" ++ bare ↔ bareName p.name = bare :=
  String.append_right_inj "$"

end Declarations

/-- The entries that no instance is made of. -/
inductive Refuses (k : Container) (h : Heap) (m : Dict CellId) : Error → Prop
  | mismatch {c : CellId} (hc : m.find? classKey = some c) (htag : (h.read c).tag ≠ .string) :
      Refuses k h m (Error.of (.typeMismatch .string (h.read c).tag))
  | null {c : CellId} (hc : m.find? classKey = some c) (htag : (h.read c).tag = .string)
      (hnull : (h.read c).isNull = true) : Refuses k h m (Error.of (.nullValue .string))
  | unknown {c : CellId} {name : String} (hc : m.find? classKey = some c)
      (hname : h.read c = .string name) (hclass : k.hasClass name = false) :
      Refuses k h m (Error.of (.unknownClass name))

/-- The entries name the class. -/
def NamesClass (h : Heap) (m : Dict CellId) (name : String) : Prop :=
  ∃ c, m.find? classKey = some c ∧ h.read c = .string name

section Naming

variable {k : Container} {h : Heap} {m : Dict CellId} {c : CellId}

theorem classNameIn_cases (hwf : (h.read c).WellFormed) :
    ((h.read c).tag ≠ .string ∧
        classNameIn h c = .error (Error.of (.typeMismatch .string (h.read c).tag))) ∨
      ((h.read c).tag = .string ∧ (h.read c).isNull = true ∧
        classNameIn h c = .error (Error.of (.nullValue .string))) ∨
      ∃ name, h.read c = .string name ∧ classNameIn h c = .ok name := by
  unfold classNameIn
  by_cases htag : (h.read c).tag = .string
  · rw [if_pos htag]
    rcases hwf.get_cases .string with
      ⟨hstorage, -⟩ | ⟨-, hnull, hget⟩ | ⟨-, hnull, name, hdata, hget⟩
    · exact absurd (by rw [htag]; rfl) hstorage
    · rw [hget, htag]
      exact .inr (.inl ⟨rfl, hnull, rfl⟩)
    · exact .inr (.inr ⟨name, Value.eq_string htag hdata hnull, hget⟩)
  · rw [if_neg htag]
    exact .inl ⟨htag, rfl⟩

theorem instanceClass?_cases (hwf : h.WellFormed) (k : Container) (m : Dict CellId) :
    (m.find? classKey = none ∧ k.instanceClass? h m = .ok none) ∨
      (∃ err, k.Refuses h m err ∧ k.instanceClass? h m = .error err) ∨
      ∃ name, NamesClass h m name ∧ k.hasClass name = true ∧
        k.instanceClass? h m = .ok (some name) := by
  cases hc : m.find? classKey with
  | none =>
      refine .inl ⟨rfl, ?_⟩
      simp only [instanceClass?, hc]
  | some c =>
      right
      rcases classNameIn_cases (hwf c) with
        ⟨htag, hname⟩ | ⟨htag, hnull, hname⟩ | ⟨name, hread, hname⟩
      · refine .inl ⟨_, .mismatch hc htag, ?_⟩
        simp only [instanceClass?, hc, hname]
      · refine .inl ⟨_, .null hc htag hnull, ?_⟩
        simp only [instanceClass?, hc, hname]
      · cases hclass : k.hasClass name with
        | false =>
            refine .inl ⟨_, .unknown hc hread hclass, ?_⟩
            simp [instanceClass?, hc, hname, hclass]
        | true =>
            refine .inr ⟨name, ⟨c, hc, hread⟩, hclass, ?_⟩
            simp [instanceClass?, hc, hname, hclass]

theorem instanceClass?_of_refuses (hwf : h.WellFormed) {err : Error} (herr : k.Refuses h m err) :
    k.instanceClass? h m = .error err := by
  cases herr with
  | mismatch hc htag => simp [instanceClass?, hc, classNameIn, htag]
  | @null c hc htag hnull =>
      rcases classNameIn_cases (hwf c) with ⟨hne, -⟩ | ⟨-, -, hname⟩ | ⟨name, hread, -⟩
      · exact absurd htag hne
      · simp [instanceClass?, hc, hname]
      · rw [hread] at hnull
        cases hnull
  | @unknown c name hc hname hclass =>
      have hread : classNameIn h c = .ok name := by
        rw [classNameIn, hname]
        rfl
      simp [instanceClass?, hc, hread, hclass]

theorem NamesClass.unique {name other : String} (hname : NamesClass h m name)
    (hother : NamesClass h m other) : name = other := by
  obtain ⟨c, hc, hread⟩ := hname
  obtain ⟨d, hd, hread'⟩ := hother
  obtain rfl : c = d := Option.some.inj (hc.symm.trans hd)
  cases hread.symm.trans hread'
  rfl

end Naming

/-- The second map has the entries of the first and those of the properties that the class they name
has for instances, with first values in new cells. -/
structure Fills (k : Container) (h h' : Heap) (m filled : Dict CellId) : Prop where
  kept : ∀ key c, m.find? key = some c → filled.find? key = some c
  added : ∀ name, NamesClass h m name → ∀ bare p, k.Declares name bare p →
    m.find? ("$" ++ bare) = none →
    ∃ d, filled.find? ("$" ++ bare) = some d ∧ p.StartsAs h h' d ∧
      ∀ x, h'.Reaches d x → Added h h' x
  only : ∀ key d, filled.find? key = some d → m.find? key = some d ∨
    m.find? key = none ∧ ∃ name bare p, NamesClass h m name ∧ k.Declares name bare p ∧
      key = "$" ++ bare

section Instances

variable {k : Container} {h : Heap} {m : Dict CellId}

/-- The defaults of the properties that instances have are cells of the heap. -/
theorem has_of_mem_instanceProperties (hconsistent : Consistent k.classes)
    (hclasses : ClassesKeep h.Has k.classes) {name : String} {p : Property}
    (hp : p ∈ k.instanceProperties name) : ∀ c ∈ p.default, h.Has c := by
  intro c hc
  obtain ⟨d, hd, hpd, -⟩ := mem_instanceProperties_iff.1 hp
  refine hclasses _ d (find?_of_mem_lineage hconsistent hd) c (List.mem_append_left _ ?_)
  exact List.mem_filterMap.2 ⟨p, hpd, hc⟩

/-- Filling the entries that name a class, and putting them into a cell. -/
theorem fills_fill (hclosed : h.Closed) (hconsistent : Consistent k.classes)
    (hclasses : ClassesKeep h.Has k.classes) {name : String} (hname : NamesClass h m name) :
    let filled := fill (k.instanceProperties name) m h
    k.Fills h (Heap.alloc (.klass filled.1) filled.2).2 m filled.1 := by
  intro filled
  obtain ⟨hgrows, -⟩ := fill_grows (k.instanceProperties name) m h
  have hlast : filled.2.Extends (Heap.alloc (.klass filled.1) filled.2).2 := .alloc _ _
  have hfilled : filled.2.Closed := hgrows.closed (fun _ => False.elim) hclosed
  refine ⟨fun key c => fill_kept _ _, ?_, ?_⟩
  · intro other hother bare p hp hkey
    obtain rfl : name = other := NamesClass.unique hname hother
    obtain ⟨nearer, further, hsplit, hnearer⟩ := hp.exists_split hconsistent
    have hdefaults : ∀ q ∈ nearer ++ p :: further, ∀ c ∈ q.default, h.Has c :=
      hsplit ▸ fun q hq => has_of_mem_instanceProperties hconsistent hclasses hq
    obtain ⟨-, -, -, -, -, -, hbare, -⟩ := hp
    obtain ⟨d, hd, hstarts, hadded⟩ := fill_at hclosed hdefaults hkey (dollarName_eq_iff.2 hbare)
      fun q hq => mt dollarName_eq_iff.1 (hnearer q hq)
    rw [← hsplit] at hd hstarts hadded
    refine ⟨d, hd, hstarts.extends hadded.2 hfilled hlast, fun x hx => ?_⟩
    have hx' : filled.2.Reaches d x :=
      ((hlast.sameBelow hfilled hadded.2).reaches x).1 hx
    exact ⟨hgrows.not_has_of_reaches hadded.1 hx',
      hlast.has x (hfilled.has_of_reaches hadded.2 hx')⟩
  · intro key d hd
    refine (fill_only _ _ hd).imp_right (And.imp_right ?_)
    rintro ⟨q, hq, rfl⟩
    obtain ⟨p, hp⟩ := exists_declares hq
    exact ⟨name, bareName q.name, p, hname, hp, rfl⟩

theorem instantiate_eq_error_iff (hwf : h.WellFormed) {err : Error} :
    (k.instantiate m h).1 = .error err ↔ k.Refuses h m err := by
  constructor
  · intro herr
    rcases instanceClass?_cases hwf k m with
      ⟨-, hclass⟩ | ⟨other, hother, hclass⟩ | ⟨name, -, -, hclass⟩
    · rw [instantiate_of_none hclass] at herr
      cases herr
    · rw [instantiate_of_error hclass] at herr
      cases herr
      exact hother
    · rw [instantiate_of_some hclass] at herr
      cases herr
  · intro herr
    rw [instantiate_of_error (instanceClass?_of_refuses hwf herr)]

/-- An instance is made of entries that are not refused. -/
theorem instantiate_of_not_refuses (hclosed : h.Closed) (hwf : h.WellFormed)
    (hconsistent : Consistent k.classes) (hclasses : ClassesKeep h.Has k.classes)
    (hrefuses : ∀ err, ¬ k.Refuses h m err) :
    ∃ c filled h', k.instantiate m h = (.ok c, h') ∧ Added h h' c ∧ h.Extends h' ∧
      h'.read c = .klass filled ∧ k.Fills h h' m filled := by
  obtain ⟨hgrows, hadded⟩ := instantiate_grows k m h
  rcases instanceClass?_cases hwf k m with
    ⟨hnone, hclass⟩ | ⟨err, herr, -⟩ | ⟨name, hname, -, hclass⟩
  · have hmake := instantiate_of_none hclass
    rw [hmake] at hgrows hadded
    refine ⟨_, m, _, hmake, hadded _ rfl, hgrows.kept, Heap.read_alloc_self _ h, ?_⟩
    refine ⟨fun key c hc => hc, fun name hname => ?_, fun key d hd => .inl hd⟩
    obtain ⟨c, hc, -⟩ := hname
    rw [hnone] at hc
    cases hc
  · exact absurd herr (hrefuses err)
  · have hmake := instantiate_of_some hclass
    rw [hmake] at hgrows hadded
    exact ⟨_, _, _, hmake, hadded _ rfl, hgrows.kept, Heap.read_alloc_self _ _,
      fills_fill hclosed hconsistent hclasses hname⟩

end Instances

end Container

/-- After any run of a container that was built on a sound store, entries are refused if and only
if they have a class entry that is no string, is a null string or names no class.  Of other
entries an instance is made in a new cell: it has them all, and beside them, if they name a class,
one entry for each bare name that the lineage of the class declares for instances, which starts as
the nearest declaration says and reaches new cells only. -/
theorem instances_filled (rootName : String) (hname : rootName ≠ "") (maxDepth : Nat) (s : Store)
    (hs : s.Sound) :
    ∃ k s', Container.build rootName maxDepth s = (.ok k, s') ∧
      ∀ calls : List EngineCall, Engine.RunsSoundly ⟨s', k⟩ calls →
        let e := Engine.run ⟨s', k⟩ calls
        let h := e.store.heap
        ∀ m : Dict CellId,
          (∀ err, (e.container.instantiate m h).1 = .error err ↔ e.container.Refuses h m err) ∧
          ((∀ err, ¬ e.container.Refuses h m err) → ∃ c filled h',
            e.container.instantiate m h = (.ok c, h') ∧ Added h h' c ∧ h.Extends h' ∧
            h'.read c = .klass filled ∧ e.container.Fills h h' m filled) := by
  refine ⟨_, _, build_of_ne_empty hname maxDepth s, fun calls hcalls => ?_⟩
  intro e h m
  have hsound : e.Sound := (sound_build hs rootName maxDepth).run hcalls
  have hconsistent : Consistent e.container.classes :=
    consistent_run rootName maxDepth s calls
  exact ⟨fun err => Container.instantiate_eq_error_iff hsound.store.wellFormed,
    Container.instantiate_of_not_refuses hsound.store.closed hsound.store.wellFormed hconsistent
      hsound.classes⟩

/-- The name of a class, and an object that contains itself. -/
def nameAndCycle : List CellCall :=
  [.make (.data .string "B"), .make (.data .map .empty), .change ⟨1⟩ (.setEntry "self" ⟨1⟩)]

/-- A default that contains itself, and a static property of a subclass with the same bare name. -/
def cyclicDefault : List EngineCall :=
  [.store (.changeCells (·.run nameAndCycle)),
    .registry (.registerClass "A"),
    .registry (.addProperty "A" ⟨"x", .object, some ⟨1⟩, false, false⟩),
    .registry (.registerSubclass "B" "A"),
    .registry (.addProperty "B" ⟨"$x", .int, none, false, true⟩),
    .registry (.addProperty "B" ⟨"$$y", .int, none, false, false⟩)]

theorem cyclic_default_copied :
    "main" ≠ "" ∧ Store.empty.Sound ∧
    ∃ k s', Container.build "main" defaultMaxDepth Store.empty = (.ok k, s') ∧
      Engine.RunsSoundly ⟨s', k⟩ cyclicDefault ∧
      let e := Engine.run ⟨s', k⟩ cyclicDefault
      let h := e.store.heap
      let m := Dict.ofList [(classKey, ⟨0⟩)]
      (∀ err, ¬ e.container.Refuses h m err) ∧ ∃ c filled h',
        e.container.instantiate m h = (.ok c, h') ∧ h'.read c = .klass filled ∧
        filled.find? classKey = some ⟨0⟩ ∧
        (∃ d, filled.find? "$x" = some d ∧ h.DeepCopied h' ⟨1⟩ d ∧ Added h h' d) ∧
        ∃ d, filled.find? "$$y" = some d ∧ h'.read d = .int 0 := by
  have hname : "main" ≠ "" := by decide
  obtain ⟨k, s', hbuild, hrun⟩ :=
    instances_filled "main" hname defaultMaxDepth Store.empty Store.sound_empty
  refine ⟨hname, Store.sound_empty, k, s', hbuild, ?_⟩
  cases hbuild
  have hcalls : Engine.RunsSoundly ⟨(Store.addTable none Store.empty).2,
      Container.withRoot ⟨"main", Store.empty.tables.next⟩ defaultMaxDepth⟩ cyclicDefault := by
    have hnone : ∀ {has : CellId → Prop}, ∀ d ∈ ([] : List CellId), has d := by simp
    refine ⟨⟨nameAndCycle, ⟨hnone, hnone, ⟨by decide, fun d hd => ?_⟩, trivial⟩, rfl⟩, hnone,
      fun d hd => ?_, hnone, hnone, hnone, trivial⟩
    · obtain rfl := List.mem_singleton.1 hd
      decide
    · obtain rfl := List.mem_singleton.1 hd
      decide +kernel
  obtain ⟨-, hmade⟩ := hrun cyclicDefault hcalls (Dict.ofList [(classKey, ⟨0⟩)])
  refine ⟨hcalls, ?_⟩
  intro e h m
  have hread : h.read ⟨0⟩ = .string "B" := by decide +kernel
  have hrefuses : ∀ err, ¬ e.container.Refuses h m err := by
    intro err herr
    have hclass : m.find? classKey = some ⟨0⟩ := by decide
    cases herr with
    | mismatch hc htag =>
        obtain rfl := Option.some.inj (hclass.symm.trans hc)
        rw [hread] at htag
        exact htag rfl
    | null hc htag hnull =>
        obtain rfl := Option.some.inj (hclass.symm.trans hc)
        rw [hread] at hnull
        cases hnull
    | unknown hc hname hunknown =>
        obtain rfl := Option.some.inj (hclass.symm.trans hc)
        cases hread.symm.trans hname
        exact absurd hunknown (by decide +kernel)
  obtain ⟨c, filled, h', hinstance, -, -, hvalue, hfills⟩ := hmade hrefuses
  have hB : Container.NamesClass h m "B" := ⟨⟨0⟩, by decide, hread⟩
  have hx : e.container.Declares "B" "x" ⟨"x", .object, some ⟨1⟩, false, false⟩ := by
    refine ⟨[_], _, [], rfl, ?_⟩
    decide +kernel
  have hy : e.container.Declares "B" "$y" ⟨"$$y", .int, none, false, false⟩ := by
    refine ⟨[], _, [_], rfl, ?_⟩
    decide +kernel
  obtain ⟨d, hd, hcopied, hadded⟩ := hfills.added "B" hB "x" _ hx (by decide)
  obtain ⟨d', hd', hzero, -⟩ := hfills.added "B" hB "$y" _ hy (by decide)
  exact ⟨hrefuses, c, filled, h', hinstance, hvalue, hfills.kept _ _ (by decide),
    ⟨d, hd, hcopied, hadded d .refl⟩, d', hd', hzero⟩

end ScriptCore
