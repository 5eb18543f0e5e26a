import ScriptCore.Heap.Handle
import ScriptCore.Proofs.ContentCopies
import ScriptCore.Proofs.NewCells

/-!
# Handles kept in values

A handle is written as an object of three integers, and an instance keeps it under the handle key.
Reading goes through the entries of the object, which may have been changed by a script to anything.

**Reading.**  `Handle.Stored` says that the three entries of a cell hold the three words of a
handle.  A handle is read exactly where one is stored (`Handle.ofCell_eq_ok_iff`).  In a well-formed
heap this is a condition on the data of the entries (`Handle.stored_iff`).

**Writing.**  `Handle.WrittenAt` names the four cells of a written handle.  They are new, so a
change of an old cell leaves them as they are (`Handle.WrittenAt.congr`).

**Copies.**  A copy has the integers of its original under the same keys.  So a copy is read as its
original is read, and is refused as its original is refused (`Handle.attached_copy`).

**Results.**
* `Handle.handles_kept_in_values`: a written handle is read back, also from an instance that keeps
  it and from a copy of the instance; and from which values a handle is read at all.
-/

namespace ScriptCore

namespace Value

variable {v : Value} {k : Kind}

/-- The value holds data and is not null. -/
def Holds (v : Value) (k : Kind) (d : k.Data) : Prop :=
  v.isNull = false ∧ v.tag.storage = k.tag ∧ v.payload = some (.of k d)

instance (v : Value) (k : Kind) (d : k.Data) : Decidable (v.Holds k d) :=
  inferInstanceAs (Decidable (_ ∧ _ ∧ _))

theorem WellFormed.get_eq_ok_iff (hv : v.WellFormed) {d : k.Data} :
    v.get k = .ok d ↔ v.Holds k d := by
  unfold Holds
  rcases hv.get_cases k with ⟨hk, hget⟩ | ⟨-, hnull, hget⟩ | ⟨hk, hnull, e, he, hget⟩
  · simp [hget, hk]
  · simp [hget, hnull]
  · rw [hget, he]
    constructor
    · intro h
      cases h
      exact ⟨hnull, hk, rfl⟩
    · rintro ⟨-, -, h⟩
      have hdata : (Payload.of k e).as? k = (Payload.of k d).as? k := by
        rw [Option.some.inj h]
      rw [Payload.as?_of, Payload.as?_of] at hdata
      rw [Option.some.inj hdata]

theorem WellFormed.holds_map_iff (hv : v.WellFormed) {m : Dict CellId} :
    v.Holds .map m ↔ v.map? = some m :=
  hv.get_eq_ok_iff.symm.trans (hv.map?_eq_some_iff m).symm

/-- Data other than a map is copied as it is. -/
theorem get_rename (f : CellId → CellId) (v : Value) (hk : k ≠ .map) :
    (v.rename f).get k = v.get k := by
  have hdata : ∀ p : Payload, (p.rename f).as? k = p.as? k := by
    intro p
    cases p with
    | map m =>
        cases k with
        | map => exact absurd rfl hk
        | _ => rfl
    | _ => rfl
  have hpayload : (v.rename f).payload.bind (·.as? k) = v.payload.bind (·.as? k) := by
    cases hp : v.payload with
    | none => simp [rename, hp]
    | some p => simp [rename, hp, hdata]
  unfold get
  rw [hpayload]
  rfl

theorem map?_insert (key : String) (c : CellId) (v : Value) :
    (v.insert key c).map? = some ((v.map?.getD .empty).insert key c) := by
  obtain ⟨tag, payload, mark⟩ := v
  cases payload with
  | none => rfl
  | some p =>
      cases p with
      | map m => cases mark <;> rfl
      | _ => rfl

theorem tag_insert {m : Dict CellId} (key : String) (c : CellId) (h : v.map? = some m) :
    (v.insert key c).tag = v.tag := by
  unfold insert
  rw [h]

theorem insert_of_map?_none (key : String) (c : CellId) (h : v.map? = none) :
    v.insert key c = object (Dict.empty.insert key c) := by
  unfold insert
  rw [h]

end Value

namespace Handle

variable {heap g : Heap} {c d x : CellId} {h : Handle} {key : String} {w : UInt32}

section Reading

/-- The entry under a key holds a word as an integer. -/
def HasWord (heap : Heap) (c : CellId) (key : String) (w : UInt32) : Prop :=
  ∃ d n, heap.lookup? c key = some d ∧ (heap.read d).get .int = .ok n ∧ n.toInt = w.toNat

/-- The entries of a cell hold the words of a handle. -/
structure Stored (heap : Heap) (c : CellId) (h : Handle) : Prop where
  arena : HasWord heap c "arena" h.arena
  index : HasWord heap c "index" h.index
  generation : HasWord heap c "generation" h.generation

theorem wordOf_eq_ok_iff {n : Int64} : wordOf n = .ok w ↔ n.toInt = w.toNat := by
  have hw := w.toNat_lt
  have hsize : UInt32.size = 2 ^ 32 := rfl
  unfold wordOf
  constructor
  · intro hok
    split at hok
    · next hrange =>
        cases hok
        rw [UInt32.toNat_ofNat']
        omega
    · cases hok
  · intro hn
    rw [if_pos ⟨by omega, by omega⟩, hn, Int.toNat_natCast, UInt32.ofNat_toNat]

theorem readField_eq_ok_iff : readField heap c key = .ok w ↔ HasWord heap c key w := by
  unfold readField HasWord
  cases hlookup : heap.lookup? c key with
  | none => simp
  | some d =>
      cases hget : (heap.read d).get .int with
      | error e => simp [hget, bind, Except.bind]
      | ok n => simp [hget, bind, Except.bind, wordOf_eq_ok_iff]

theorem ofCell_eq_ok_iff : ofCell heap c = .ok h ↔ Stored heap c h := by
  have hfields : Stored heap c h ↔ readField heap c "arena" = .ok h.arena ∧
      readField heap c "index" = .ok h.index ∧
      readField heap c "generation" = .ok h.generation := by
    simp only [readField_eq_ok_iff]
    exact ⟨fun hs => ⟨hs.arena, hs.index, hs.generation⟩, fun ⟨ha, hi, hg⟩ => ⟨ha, hi, hg⟩⟩
  rw [hfields]
  unfold ofCell
  cases readField heap c "arena" with
  | error e => simp [bind, Except.bind]
  | ok arena =>
      cases readField heap c "index" with
      | error e => simp [bind, Except.bind]
      | ok index =>
          cases readField heap c "generation" with
          | error e => simp [bind, Except.bind]
          | ok generation =>
              obtain ⟨a, i, n⟩ := h
              simp [bind, Except.bind, pure, Except.pure]

theorem attached_of_lookup? (hd : heap.lookup? c handleKey = some d) :
    attached heap c = ofCell heap d := by
  unfold attached
  rw [hd]

end Reading

section Writing

variable {a i n : CellId}

/-- The cells of a handle that was written as an object. -/
structure WrittenAt (g : Heap) (h : Handle) (d a i n : CellId) : Prop where
  object : g.read d = .object (.ofList [("arena", a), ("index", i), ("generation", n)])
  arena : g.read a = fieldValue h.arena
  index : g.read i = fieldValue h.index
  generation : g.read n = fieldValue h.generation

theorem WrittenAt.congr {g' : Heap} (hw : WrittenAt g h d a i n)
    (hsame : ∀ x ∈ [d, a, i, n], g'.read x = g.read x) : WrittenAt g' h d a i n where
  object := (hsame d (by simp)).trans hw.object
  arena := (hsame a (by simp)).trans hw.arena
  index := (hsame i (by simp)).trans hw.index
  generation := (hsame n (by simp)).trans hw.generation

theorem hasWord_of_fieldValue (hlookup : g.lookup? c key = some d)
    (hread : g.read d = fieldValue w) : HasWord g c key w := by
  refine ⟨d, Int64.ofNat w.toNat, hlookup, by rw [hread]; rfl, ?_⟩
  have hw := w.toNat_lt
  exact Int64.toInt_ofNat_of_lt (by omega)

theorem WrittenAt.stored (hw : WrittenAt g h d a i n) : Stored g d h := by
  have hlookup : ∀ key, g.lookup? d key =
      (Dict.ofList [("arena", a), ("index", i), ("generation", n)]).find? key := by
    intro key
    unfold Heap.lookup?
    rw [hw.object]
    rfl
  refine ⟨hasWord_of_fieldValue ?_ hw.arena, hasWord_of_fieldValue ?_ hw.index,
    hasWord_of_fieldValue ?_ hw.generation⟩
  all_goals
    rw [hlookup]
    simp [Dict.ofList, Dict.find?_insert]

/-- A handle is written into four new cells. -/
theorem toCell_written (h : Handle) (heap : Heap) :
    heap.Extends (h.toCell heap).2 ∧
      ∃ a i n, WrittenAt (h.toCell heap).2 h (h.toCell heap).1 a i n ∧
        ∀ x ∈ [(h.toCell heap).1, a, i, n], ¬ heap.Has x := by
  let r₁ := Heap.alloc (fieldValue h.arena) heap
  let r₂ := Heap.alloc (fieldValue h.index) r₁.2
  let r₃ := Heap.alloc (fieldValue h.generation) r₂.2
  let r₄ := Heap.allocObject [("arena", r₁.1), ("index", r₂.1), ("generation", r₃.1)] r₃.2
  have h₁ : heap.Extends r₁.2 := .alloc _ _
  have h₂ : r₁.2.Extends r₂.2 := .alloc _ _
  have h₃ : r₂.2.Extends r₃.2 := .alloc _ _
  have h₄ : r₃.2.Extends r₄.2 := .alloc _ _
  show heap.Extends r₄.2 ∧ ∃ a i n, WrittenAt r₄.2 h r₄.1 a i n ∧
    ∀ x ∈ [r₄.1, a, i, n], ¬ heap.Has x
  refine ⟨h₁.trans (h₂.trans (h₃.trans h₄)), r₁.1, r₂.1, r₃.1,
    ⟨Heap.read_alloc_self _ _, ?_, ?_, ?_⟩, ?_⟩
  · rw [(h₂.trans (h₃.trans h₄)).read _ (Heap.has_alloc_self _ _)]
    exact Heap.read_alloc_self _ _
  · rw [(h₃.trans h₄).read _ (Heap.has_alloc_self _ _)]
    exact Heap.read_alloc_self _ _
  · rw [h₄.read _ (Heap.has_alloc_self _ _)]
    exact Heap.read_alloc_self _ _
  · -- Each cell is outside the heap that it was added to, and that heap has all earlier cells.
    intro x hx
    simp only [List.mem_cons, List.not_mem_nil, or_false] at hx
    rcases hx with rfl | rfl | rfl | rfl
    · exact ((Heap.added_alloc _ _).of_extends (h₁.trans (h₂.trans h₃))).1
    · exact (Heap.added_alloc _ _).1
    · exact ((Heap.added_alloc _ _).of_extends h₁).1
    · exact ((Heap.added_alloc _ _).of_extends (h₁.trans h₂)).1

theorem ofCell_toCell (h : Handle) (heap : Heap) :
    ofCell (h.toCell heap).2 (h.toCell heap).1 = .ok h := by
  obtain ⟨-, a, i, n, hw, -⟩ := toCell_written h heap
  exact ofCell_eq_ok_iff.2 hw.stored

theorem attach_eq_write (h : Handle) (c : CellId) (heap : Heap) :
    (h.attach c heap).2 = (h.toCell heap).2.write c
      (((h.toCell heap).2.read c).insert handleKey (h.toCell heap).1) := rfl

theorem read_attach_self (h : Handle) (hc : heap.Has c) :
    (h.attach c heap).2.read c = (heap.read c).insert handleKey (h.toCell heap).1 := by
  obtain ⟨hext, -⟩ := toCell_written h heap
  rw [attach_eq_write, Heap.read_write, if_pos ⟨rfl, hext.has c hc⟩, hext.read c hc]

theorem read_attach_of_ne (h : Handle) (hx : x ≠ c) :
    (h.attach c heap).2.read x = (h.toCell heap).2.read x := by
  rw [attach_eq_write, Heap.read_write, if_neg fun hxc => hx hxc.1]

/-- A handle is read from the instance that keeps it. -/
theorem attached_attach (h : Handle) (hc : heap.Has c) :
    attached (h.attach c heap).2 c = .ok h := by
  obtain ⟨-, a, i, n, hw, hnew⟩ := toCell_written h heap
  have hlookup : (h.attach c heap).2.lookup? c handleKey = some (h.toCell heap).1 := by
    unfold Heap.lookup? Value.lookup?
    rw [read_attach_self h hc, Value.map?_insert]
    exact Dict.find?_insert_self _ _ _
  have hkept : WrittenAt (h.attach c heap).2 h (h.toCell heap).1 a i n := by
    refine hw.congr fun x hx => read_attach_of_ne h ?_
    rintro rfl
    exact hnew _ hx hc
  rw [attached_of_lookup? hlookup, ofCell_eq_ok_iff]
  exact hkept.stored

end Writing

section Copying

variable {f : CellId → CellId} {roots : List CellId}

theorem refers_of_lookup? (hd : heap.lookup? x key = some d) : heap.Refers x d := by
  obtain ⟨m, hm, hfind⟩ := Option.bind_eq_some_iff.1 hd
  unfold Heap.Refers
  rw [Value.children_eq_of_map? hm]
  exact Dict.mem_values_iff.2 ⟨key, hfind⟩

theorem lookup?_renamed (hf : Heap.Renames f heap g roots) (hx : heap.Below roots x) :
    g.lookup? (f x) key = (heap.lookup? x key).map f := by
  unfold Heap.lookup? Value.lookup?
  rw [hf.read x hx, Value.map?_rename]
  cases (heap.read x).map? with
  | none => rfl
  | some m => exact Dict.find?_map f m key

/-- The integers of a handle are copied with their keys, and so is all that can be wrong about
them. -/
theorem readField_renamed (hf : Heap.Renames f heap g roots) (hx : heap.Below roots x) :
    readField g (f x) key = readField heap x key := by
  unfold readField
  rw [lookup?_renamed hf hx]
  cases hd : heap.lookup? x key with
  | none => rfl
  | some d =>
      show (g.read (f d)).get .int >>= wordOf = _
      rw [hf.read d (hx.refers (refers_of_lookup? hd)), Value.get_rename f _ (by decide)]

theorem ofCell_renamed (hf : Heap.Renames f heap g roots) (hx : heap.Below roots x) :
    ofCell g (f x) = ofCell heap x := by
  unfold ofCell
  simp only [readField_renamed hf hx]

/-- A copy of an instance is read as the instance is read. -/
theorem attached_copy (heap : Heap) (c : CellId) :
    attached (Heap.copy c heap).2 (Heap.copy c heap).1 = attached heap c := by
  obtain ⟨f, hc, hf⟩ := Heap.deepCopied_iff.1 (Heap.deepCopied_copy heap c)
  have hroot : heap.Below [c] c := .root (List.mem_singleton_self c)
  unfold attached
  rw [← hc, lookup?_renamed hf hroot]
  cases hd : heap.lookup? c handleKey with
  | none => rfl
  | some d => exact ofCell_renamed hf (hroot.refers (refers_of_lookup? hd))

end Copying

section Acceptance

/-- The entry of a map under a key has an integer as its data, and it is this one. -/
def HasInteger (heap : Heap) (m : Dict CellId) (key : String) (k : Int) : Prop :=
  ∃ d n, m.find? key = some d ∧ (heap.read d).Holds .int n ∧ n.toInt = k

theorem hasWord_iff (hwf : heap.WellFormed) {m : Dict CellId} (hm : (heap.read c).map? = some m) :
    HasWord heap c key w ↔ HasInteger heap m key w.toNat := by
  have hlookup : heap.lookup? c key = m.find? key := by
    unfold Heap.lookup? Value.lookup?
    rw [hm]
    rfl
  unfold HasWord HasInteger
  rw [hlookup]
  simp only [(hwf _).get_eq_ok_iff]

theorem stored_iff (hwf : heap.WellFormed) :
    Stored heap c h ↔ ∃ m, (heap.read c).Holds .map m ∧ HasInteger heap m "arena" h.arena.toNat ∧
      HasInteger heap m "index" h.index.toNat ∧
      HasInteger heap m "generation" h.generation.toNat := by
  constructor
  · intro hstored
    obtain ⟨d, n, hlookup, -⟩ := hstored.1
    obtain ⟨m, hm, -⟩ := Option.bind_eq_some_iff.1 hlookup
    obtain ⟨harena, hindex, hgeneration⟩ := hstored
    rw [hasWord_iff hwf hm] at harena hindex hgeneration
    exact ⟨m, (hwf c).holds_map_iff.2 hm, harena, hindex, hgeneration⟩
  · rintro ⟨m, hm, harena, hindex, hgeneration⟩
    rw [← hasWord_iff hwf ((hwf c).holds_map_iff.1 hm)] at harena hindex hgeneration
    exact ⟨harena, hindex, hgeneration⟩

theorem exists_word_iff {m : Dict CellId} :
    (∃ w : UInt32, HasInteger heap m key w.toNat) ↔
      ∃ k, HasInteger heap m key k ∧ 0 ≤ k ∧ k ≤ 2 ^ 32 - 1 := by
  constructor
  · rintro ⟨w, hw⟩
    have hlt := w.toNat_lt
    exact ⟨w.toNat, hw, by omega, by omega⟩
  · rintro ⟨k, hk, hlow, hhigh⟩
    refine ⟨.ofNat k.toNat, ?_⟩
    have hword : ((UInt32.ofNat k.toNat).toNat : Int) = k := by
      rw [UInt32.toNat_ofNat']
      omega
    rwa [hword]

/-- A handle is read from an object or a class with three integers that are words. -/
theorem exists_ofCell_eq_ok_iff (hwf : heap.WellFormed) :
    (∃ h, ofCell heap c = .ok h) ↔ ∃ m, (heap.read c).Holds .map m ∧
      ∀ key ∈ ["arena", "index", "generation"],
        ∃ k, HasInteger heap m key k ∧ 0 ≤ k ∧ k ≤ 2 ^ 32 - 1 := by
  simp only [ofCell_eq_ok_iff, stored_iff hwf, List.forall_mem_cons, List.not_mem_nil,
    false_implies, implies_true, and_true, ← exists_word_iff]
  constructor
  · rintro ⟨h, m, hm, harena, hindex, hgeneration⟩
    exact ⟨m, hm, ⟨_, harena⟩, ⟨_, hindex⟩, ⟨_, hgeneration⟩⟩
  · rintro ⟨m, hm, ⟨arena, harena⟩, ⟨index, hindex⟩, ⟨generation, hgeneration⟩⟩
    exact ⟨⟨arena, index, generation⟩, m, hm, harena, hindex, hgeneration⟩

end Acceptance

/-- The heap is well formed, as it is after every run of calls (`Heap.wellFormed_run`).  A handle
that was written as a value is read back.  Whatever a cell has, once it keeps a handle the handle is
read from it and from a copy of it; a map that is not null keeps its tag and all other entries, any
other value becomes an object with this entry only, and no other cell changes.  A handle is read
exactly from the maps that are not null and have three integers from `0` to `2 ^ 32 - 1`, which are
then its words. -/
theorem handles_kept_in_values (heap : Heap) (hwf : heap.WellFormed) (h : Handle) (c : CellId)
    (hc : heap.Has c) :
    ofCell (h.toCell heap).2 (h.toCell heap).1 = .ok h ∧
    (attached (h.attach c heap).2 c = .ok h ∧
      attached (Heap.copy c (h.attach c heap).2).2 (Heap.copy c (h.attach c heap).2).1 = .ok h ∧
      (∀ m, (heap.read c).Holds .map m → ∃ d,
        ((h.attach c heap).2.read c).Holds .map (m.insert handleKey d) ∧
          ((h.attach c heap).2.read c).tag = (heap.read c).tag) ∧
      ((¬ ∃ m, (heap.read c).Holds .map m) → ∃ d,
        (h.attach c heap).2.read c = .object (Dict.empty.insert handleKey d)) ∧
      ∀ x, heap.Has x → x ≠ c → (h.attach c heap).2.read x = heap.read x) ∧
    ∀ x,
      ((∃ k, ofCell heap x = .ok k) ↔ ∃ m, (heap.read x).Holds .map m ∧
        ∀ key ∈ ["arena", "index", "generation"],
          ∃ n, HasInteger heap m key n ∧ 0 ≤ n ∧ n ≤ 2 ^ 32 - 1) ∧
      ∀ k, ofCell heap x = .ok k ↔ ∃ m, (heap.read x).Holds .map m ∧
        HasInteger heap m "arena" k.arena.toNat ∧ HasInteger heap m "index" k.index.toNat ∧
        HasInteger heap m "generation" k.generation.toNat := by
  refine ⟨ofCell_toCell h heap, ⟨attached_attach h hc, ?_, ?_, ?_, ?_⟩,
    fun x => ⟨exists_ofCell_eq_ok_iff hwf, fun k => ofCell_eq_ok_iff.trans (stored_iff hwf)⟩⟩
  · rw [attached_copy, attached_attach h hc]
  · intro m hm
    rw [(hwf c).holds_map_iff] at hm
    rw [read_attach_self h hc]
    refine ⟨(h.toCell heap).1, ?_, Value.tag_insert _ _ hm⟩
    rw [((hwf c).insert handleKey _).holds_map_iff, Value.map?_insert, hm]
    rfl
  · intro hnone
    have hm : (heap.read c).map? = none := by
      rw [Option.eq_none_iff_forall_ne_some]
      exact fun m hm => hnone ⟨m, (hwf c).holds_map_iff.2 hm⟩
    exact ⟨_, by rw [read_attach_self h hc, Value.insert_of_map?_none _ _ hm]⟩
  · intro x hx hne
    obtain ⟨hext, -⟩ := toCell_written h heap
    rw [read_attach_of_ne h hne, hext.read x hx]

/-- An object with three words, one of them an enumerator, an object with a number that is one too
large, and a class that holds itself. -/
def scriptedHandles : List CellCall :=
  [.make (.data .int 7), .make (.enumerator 4294967295), .make (.data .int 4294967296),
    .make (.data .map (.ofList [("arena", ⟨0⟩), ("index", ⟨1⟩), ("generation", ⟨0⟩)])),
    .make (.data .map (.ofList [("arena", ⟨0⟩), ("index", ⟨1⟩), ("generation", ⟨2⟩)])),
    .make (.klass (.ofList [("name", ⟨0⟩)])), .change ⟨5⟩ (.setEntry "self" ⟨5⟩)]

theorem handle_kept_in_ring :
    let heap := Heap.empty.run scriptedHandles
    let h : Handle := ⟨1, 0, 4294967295⟩
    let kept := (h.attach ⟨5⟩ heap).2
    (heap.WellFormed ∧ heap.Has ⟨5⟩) ∧
    (attached kept ⟨5⟩ = .ok h ∧
      attached (Heap.copy ⟨5⟩ kept).2 (Heap.copy ⟨5⟩ kept).1 = .ok h ∧
      (kept.read ⟨5⟩).tag = .klass) ∧
    ofCell heap ⟨3⟩ = .ok ⟨7, 4294967295, 7⟩ ∧ ¬ ∃ k, ofCell heap ⟨4⟩ = .ok k := by
  intro heap h kept
  have hwf : heap.WellFormed := Heap.wellFormed_run Heap.wellFormed_empty _
  have hc : heap.Has ⟨5⟩ := by decide
  obtain ⟨-, ⟨hread, hcopy, hmap, -, -⟩, haccept⟩ := handles_kept_in_values heap hwf h ⟨5⟩ hc
  obtain ⟨d, -, htag⟩ := hmap (.ofList [("name", ⟨0⟩), ("self", ⟨5⟩)]) (by decide)
  refine ⟨⟨hwf, hc⟩, ⟨hread, hcopy, htag⟩, ?_, ?_⟩
  · refine ((haccept ⟨3⟩).2 _).2 ⟨.ofList [("arena", ⟨0⟩), ("index", ⟨1⟩), ("generation", ⟨0⟩)],
      by decide, ⟨⟨0⟩, 7, by decide⟩, ⟨⟨1⟩, 4294967295, by decide⟩, ⟨⟨0⟩, 7, by decide⟩⟩
  · intro hok
    obtain ⟨m, ⟨-, -, hm⟩, hfields⟩ := (haccept ⟨4⟩).1.1 hok
    obtain ⟨n, ⟨d, i, hd, ⟨-, -, hi⟩, rfl⟩, -, hle⟩ := hfields "generation" (by decide)
    cases hm
    cases hd
    cases hi
    exact absurd hle (by decide)

end Handle
end ScriptCore
