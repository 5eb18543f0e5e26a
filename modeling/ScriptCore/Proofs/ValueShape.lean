import ScriptCore.Proofs.DeepCopy

/-!
# The shape of values

A value has three independent fields, and the operations that read it look at different ones:
`Value.get` at the tag and the payload, `Value.map?` at the payload and the null mark,
`Value.isNull` at all but the tag.  They agree because no operation leaves a value that is not
well formed.

**Shape.**  A well-formed value is bare or carries data of its tag's storage
(`Value.wellFormed_iff`).  Every operation on one value is followed through these two shapes.

**Runs.**  `CellCall` lists the ways to make a cell and to change the value in it.  A value that
is in no cell yet is treated as one in a cell that nothing refers to.

**Results.**
* `Heap.wellFormed_run`: all values of a heap are well formed after every run.
* `Value.WellFormed.accessorsAgree`: what the accessors answer is then decided by the storage of
  the tag and by being null.
* `Heap.values_keep_shape`: both of these of every value after every run.
-/

namespace ScriptCore

theorem Kind.tag_inj {k l : Kind} (h : k.tag = l.tag) : k = l := by
  cases k <;> cases l <;> first | rfl | exact absurd h (by decide)

/-- The tag that a kind of data is stored under is its own storage. -/
theorem Kind.storage_tag (k : Kind) : k.tag.storage = k.tag := by
  cases k <;> rfl

namespace Payload

theorem eq_of_kind {k : Kind} {p : Payload} (h : p.kind = k) : ∃ d, p = of k d := by
  subst h
  cases p with
  | int n => exact ⟨n, rfl⟩
  | double x => exact ⟨x, rfl⟩
  | float x => exact ⟨x, rfl⟩
  | string s => exact ⟨s, rfl⟩
  | bool b => exact ⟨b, rfl⟩
  | map m => exact ⟨m, rfl⟩

theorem kind_rename (f : CellId → CellId) (p : Payload) : (p.rename f).kind = p.kind := by
  cases p <;> rfl

end Payload

namespace Value

/-- Change the map of a value that has one and is not null, whatever its tag. -/
def editMap (f : Dict CellId → Dict CellId) (v : Value) : Value :=
  match v.map? with
  | some m => { v with payload := some (.map (f m)) }
  | none => v

theorem erase_eq_editMap (key : String) (v : Value) : v.erase key = v.editMap (·.erase key) := rfl

section Shape

variable {v : Value} {t : Tag} {p : Payload}

/-- A value that carries data, not marked null. -/
def carrying (t : Tag) (p : Payload) : Value := ⟨t, some p, false⟩

theorem wellFormed_bare (t : Tag) : (bare t).WellFormed := by
  simp [WellFormed, bare]

theorem wellFormed_carrying (h : p.kind.tag = t.storage) : (carrying t p).WellFormed := by
  simp [WellFormed, carrying, h]

/-- The two shapes of a well-formed value. -/
theorem wellFormed_iff :
    v.WellFormed ↔ v = bare v.tag ∨ ∃ p, p.kind.tag = v.tag.storage ∧ v = carrying v.tag p := by
  constructor
  · rintro ⟨hmark, hkind⟩
    obtain ⟨t, payload, mark⟩ := v
    cases payload with
    | none =>
        obtain rfl : mark = true := hmark.2 rfl
        exact Or.inl rfl
    | some p =>
        have hfalse : mark = false := by
          cases mark with
          | false => rfl
          | true => exact absurd (hmark.1 rfl) (by simp)
        subst hfalse
        exact Or.inr ⟨p, hkind p rfl, rfl⟩
  · rintro (hv | ⟨p, hp, hv⟩)
    · rw [hv]
      exact wellFormed_bare v.tag
    · rw [hv]
      exact wellFormed_carrying hp

/-- To follow a property through the well-formed values, follow it through the two shapes. -/
@[elab_as_elim]
theorem WellFormed.shapeCases {motive : (v : Value) → v.WellFormed → Prop}
    (bare : ∀ t, motive (bare t) (wellFormed_bare t))
    (carrying : ∀ t p (hp : p.kind.tag = t.storage),
      motive (carrying t p) (wellFormed_carrying hp))
    (v : Value) (hv : v.WellFormed) : motive v hv := by
  rcases wellFormed_iff.1 hv with h | ⟨p, hp, h⟩
  · generalize v.tag = t at h
    subst h
    exact bare t
  · generalize v.tag = t at hp h
    subst h
    exact carrying t p hp

theorem wellFormed_of (k : Kind) (d : k.Data) : (of k d).WellFormed := by
  apply wellFormed_carrying
  rw [Payload.kind_of, Kind.storage_tag]

theorem wellFormed_klass (m : Dict CellId) : (klass m).WellFormed :=
  wellFormed_carrying (t := .klass) (p := .map m) rfl

theorem wellFormed_enumerator (n : Int64) : (enumerator n).WellFormed :=
  wellFormed_carrying (t := .enum) (p := .int n) rfl

theorem wellFormed_nullOf (t : Tag) : (nullOf t).WellFormed := by
  cases t with
  | string => exact wellFormed_of .string ""
  | object => exact wellFormed_of .map .empty
  | klass => exact wellFormed_klass .empty
  | _ => exact wellFormed_bare _

end Shape

section Access

variable {t : Tag} {p : Payload}

theorem get_bare (k : Kind) (t : Tag) :
    (bare t).get k =
      if t.storage = k.tag then .error (Error.of (.nullValue t))
      else .error (Error.of (.typeMismatch k.tag t)) := rfl

theorem get_carrying_of (k : Kind) (d : k.Data) (h : t.storage = k.tag) :
    (carrying t (.of k d)).get k = .ok d := by
  simp [get, carrying, h]

theorem get_carrying_of_ne (k : Kind) (h : t.storage ≠ k.tag) :
    (carrying t p).get k = .error (Error.of (.typeMismatch k.tag t)) := by
  simp [get, carrying, h]

/-- Data whose storage is asked for is data of the kind asked for. -/
theorem eq_of_storage (k : Kind) (hp : p.kind.tag = t.storage) (ht : t.storage = k.tag) :
    ∃ d, p = .of k d :=
  Payload.eq_of_kind (Kind.tag_inj (hp.trans ht))

@[simp] theorem map?_bare (t : Tag) : (bare t).map? = none := rfl

@[simp] theorem map?_carrying (t : Tag) (p : Payload) :
    (carrying t p).map? = p.as? .map := by
  cases p <;> rfl

end Access

namespace WellFormed

variable {v w : Value}

theorem put {k : Kind} {d : k.Data} (hv : v.WellFormed) (h : v.put k d = .ok w) :
    w.WellFormed := by
  cases v, hv using shapeCases with
  | bare t =>
      rw [Value.put, get_bare] at h
      split at h <;> cases h
  | carrying t p hp =>
      by_cases ht : t.storage = k.tag
      · obtain ⟨old, rfl⟩ := eq_of_storage k hp ht
        rw [Value.put, get_carrying_of k old ht] at h
        cases h
        exact wellFormed_carrying (t := t) (by rw [Payload.kind_of, ht])
      · rw [Value.put, get_carrying_of_ne k ht] at h
        cases h

/-- Only a bare value is retagged, and it stays bare. -/
theorem setTag {t : Tag} (hv : v.WellFormed) (h : v.setTag t = .ok w) : w.WellFormed := by
  cases v, hv using shapeCases with
  | bare s =>
      cases h
      exact wellFormed_bare t
  | carrying s p hp => cases h

theorem clear (v : Value) : v.clear.WellFormed := wellFormed_bare v.tag

/-- A class has the storage of an object. -/
theorem asClass (hv : v.WellFormed) : v.asClass.WellFormed := by
  unfold Value.asClass
  split
  · next htag =>
      obtain ⟨hmark, hkind⟩ := hv
      rw [htag] at hkind
      exact ⟨hmark, hkind⟩
  · exact hv

/-- A map may be replaced by another one. -/
theorem withMap {m : Dict CellId} (hv : v.WellFormed) (h : v.map? = some m)
    (m' : Dict CellId) : { v with payload := some (.map m') : Value }.WellFormed := by
  cases v, hv using shapeCases with
  | bare t => cases h
  | carrying t p hp =>
      rw [map?_carrying] at h
      have hkind : p.kind = .map := by
        rw [← Payload.as?_isSome_iff, h]
        rfl
      rw [hkind] at hp
      exact wellFormed_carrying (p := .map m') hp

theorem editMap (hv : v.WellFormed) (f : Dict CellId → Dict CellId) :
    (v.editMap f).WellFormed := by
  unfold Value.editMap
  split
  · next m hm => exact hv.withMap hm (f m)
  · exact hv

theorem insert (hv : v.WellFormed) (key : String) (c : CellId) :
    (v.insert key c).WellFormed := by
  unfold Value.insert
  split
  · next m hm => exact hv.withMap hm _
  · exact wellFormed_of .map _

theorem updateMap {f : Dict CellId → Dict CellId} (hv : v.WellFormed)
    (h : v.updateMap f = .ok w) : w.WellFormed := by
  unfold Value.updateMap Value.map at h
  split at h
  · split at h
    · next m hm =>
        cases h
        exact hv.withMap hm (f m)
    · cases h
  · cases h

theorem rename (hv : v.WellFormed) (f : CellId → CellId) : (v.rename f).WellFormed := by
  cases v, hv using shapeCases with
  | bare t => exact wellFormed_bare t
  | carrying t p hp =>
      exact wellFormed_carrying (t := t) (by rw [Payload.kind_rename, hp])

/-- Storage is compared first, then data is looked for; data that is there has the kind asked
for. -/
theorem get_cases (hv : v.WellFormed) (k : Kind) :
    (v.tag.storage ≠ k.tag ∧ v.get k = .error (Error.of (.typeMismatch k.tag v.tag))) ∨
      (v.tag.storage = k.tag ∧ v.isNull = true ∧
        v.get k = .error (Error.of (.nullValue v.tag))) ∨
      (v.tag.storage = k.tag ∧ v.isNull = false ∧
        ∃ d, v.payload = some (.of k d) ∧ v.get k = .ok d) := by
  cases v, hv using shapeCases with
  | bare t =>
      by_cases ht : t.storage = k.tag
      · exact Or.inr (Or.inl ⟨ht, rfl, by rw [get_bare, if_pos ht]; rfl⟩)
      · exact Or.inl ⟨ht, by rw [get_bare, if_neg ht]; rfl⟩
  | carrying t p hp =>
      by_cases ht : t.storage = k.tag
      · obtain ⟨d, rfl⟩ := eq_of_storage k hp ht
        exact Or.inr (Or.inr ⟨ht, rfl, d, rfl, get_carrying_of k d ht⟩)
      · exact Or.inl ⟨ht, get_carrying_of_ne k ht⟩

/-- Data is a map exactly when its tag is a compound one. -/
theorem map?_eq_some_iff (hv : v.WellFormed) (m : Dict CellId) :
    v.map? = some m ↔ v.get .map = .ok m := by
  cases v, hv using shapeCases with
  | bare t =>
      rw [map?_bare, get_bare]
      split <;> simp
  | carrying t p hp =>
      by_cases ht : t.storage = Kind.map.tag
      · obtain ⟨d, rfl⟩ := eq_of_storage .map hp ht
        rw [get_carrying_of .map d ht, map?_carrying, Payload.as?_of]
        simp
      · have hnone : p.as? .map = none := by
          rw [← Option.not_isSome_iff_eq_none, Payload.as?_isSome_iff]
          intro hkind
          exact ht (by rw [← hp, hkind])
        rw [get_carrying_of_ne .map ht, map?_carrying, hnone]
        simp

/-- The two ways to the map of a compound value give the same answer and the same errors. -/
theorem map_eq_get (hv : v.WellFormed) : v.map = v.get .map := by
  have hcompound : v.tag.isCompound = true ↔ v.tag.storage = Kind.map.tag := decide_eq_true_iff
  unfold Value.map
  rcases hv.get_cases .map with ⟨hk, hget⟩ | ⟨hk, -, hget⟩ | ⟨hk, -, m, -, hget⟩
  · rw [hget, if_neg (mt hcompound.1 hk)]
    rfl
  · have hnone : v.map? = none := by
      rw [Option.eq_none_iff_forall_ne_some]
      intro m hm
      rw [(hv.map?_eq_some_iff m).1 hm] at hget
      cases hget
    rw [hget, if_pos (hcompound.2 hk), hnone]
  · rw [hget, if_pos (hcompound.2 hk), (hv.map?_eq_some_iff m).2 hget]

end WellFormed

/-- What the accessors answer, by the storage of the tag and by being null. -/
structure AccessorsAgree (v : Value) : Prop where
  mismatch : ∀ k : Kind,
    v.get k = .error (Error.of (.typeMismatch k.tag v.tag)) ↔ v.tag.storage ≠ k.tag.storage
  null : ∀ k : Kind,
    v.get k = .error (Error.of (.nullValue v.tag)) ↔
      v.tag.storage = k.tag.storage ∧ v.isNull = true
  stored : ∀ k : Kind, v.tag.storage = k.tag.storage → v.isNull = false →
    ∃ d, v.payload = some (.of k d) ∧ v.get k = .ok d
  map? : ∀ m, v.map? = some m ↔ v.get .map = .ok m
  map : v.map = v.get .map

theorem WellFormed.accessorsAgree {v : Value} (hv : v.WellFormed) : v.AccessorsAgree where
  mismatch k := by
    rw [Kind.storage_tag]
    rcases hv.get_cases k with ⟨hk, hget⟩ | ⟨hk, -, hget⟩ | ⟨hk, -, d, -, hget⟩ <;>
      simp [hget, hk, Error.of]
  null k := by
    rw [Kind.storage_tag]
    rcases hv.get_cases k with ⟨hk, hget⟩ | ⟨hk, hnull, hget⟩ | ⟨hk, hnull, d, -, hget⟩
    · simp [hget, hk, Error.of]
    · simp [hget, hk, hnull]
    · simp [hget, hnull]
  stored k hstorage hnull := by
    rw [Kind.storage_tag] at hstorage
    rcases hv.get_cases k with ⟨hk, -⟩ | ⟨-, hnull', -⟩ | ⟨-, -, hdata⟩
    · exact absurd hstorage hk
    · rw [hnull] at hnull'
      cases hnull'
    · exact hdata
  map? := hv.map?_eq_some_iff
  map := hv.map_eq_get

/-- No kind of data is stored under these two tags. -/
theorem WellFormed.payload_eq_none {v : Value} (hv : v.WellFormed)
    (ht : v.tag = .null ∨ v.tag = .undefined) : v.payload = none := by
  cases v, hv using WellFormed.shapeCases with
  | bare t => rfl
  | carrying t p hp =>
      rcases ht with rfl | rfl <;> cases p <;> cases hp

end Value

namespace Heap

/-- Every value in the heap is well formed. -/
def WellFormed (h : Heap) : Prop := ∀ c, (h.read c).WellFormed

theorem wellFormed_empty : empty.WellFormed := by
  intro c
  rw [read_of_not_has (Nat.not_lt_zero _)]
  exact Value.wellFormed_bare .null

namespace WellFormed

variable {h : Heap}

theorem write (hh : h.WellFormed) (c : CellId) {v : Value} (hv : v.WellFormed) :
    (h.write c v).WellFormed := by
  intro d
  rw [read_write]
  split
  · exact hv
  · exact hh d

theorem modify (hh : h.WellFormed) (c : CellId) {f : Value → Value}
    (hf : ∀ v, v.WellFormed → (f v).WellFormed) : (h.modify c f).WellFormed :=
  hh.write c (hf _ (hh c))

theorem update (hh : h.WellFormed) (c : CellId) {f : Value → Except Error Value}
    (hf : ∀ v w, v.WellFormed → f v = .ok w → w.WellFormed) :
    (update c f h).2.WellFormed := by
  unfold Heap.update
  split
  · next w hw => exact hh.write c (hf _ w (hh c) hw)
  · exact hh

theorem alloc (hh : h.WellFormed) {v : Value} (hv : v.WellFormed) :
    (alloc v h).2.WellFormed := by
  intro d
  have hread := read_alloc h v d
  rw [StateT.run] at hread
  rw [hread]
  split
  · exact hv
  · exact hh d

/-- A cell is old, or it is a copy, or it is outside the heap. -/
theorem of_copiesBelow {h' : Heap} {roots : List CellId} {f : CellId → CellId}
    (hh : h.WellFormed) (hcopy : CopiesBelow h h' roots f) : h'.WellFormed := by
  intro d
  by_cases hold : h.Has d
  · rw [(hcopy.kept d hold).2]
    exact hh d
  · by_cases hnew : h'.Has d
    · obtain ⟨r, hr, x, hx, rfl⟩ := hcopy.only d hnew hold
      rw [hcopy.read r hr x hx]
      exact (hh x).rename _
    · rw [read_of_not_has hnew]
      exact Value.wellFormed_bare .null

theorem copy (hh : h.WellFormed) (c : CellId) : (copy c h).2.WellFormed := by
  obtain ⟨f, hcopy, -⟩ := copy_copiesBelow h c
  exact hh.of_copiesBelow hcopy

theorem copyValue (hh : h.WellFormed) {v : Value} (hv : v.WellFormed) :
    (copyValue v h).1.WellFormed ∧ (copyValue v h).2.WellFormed := by
  obtain ⟨f, hcopy, hvalue⟩ := copyValue_copiesBelow h v
  exact ⟨hvalue ▸ hv.rename f, hh.of_copiesBelow hcopy⟩

theorem copyAsClass (hh : h.WellFormed) (c : CellId) : (copyAsClass c h).2.WellFormed := by
  unfold Heap.copyAsClass
  dsimp only
  split
  · exact (hh.copy c).modify _ fun _ hv => hv.asClass
  · exact hh

end WellFormed
end Heap

/-- How a value is made that is not a copy. -/
inductive Origin
  | data (k : Kind) (d : k.Data)
  | null
  | undefined
  | nullOf (t : Tag)
  | klass (m : Dict CellId)
  | enumerator (n : Int64)

def Origin.value : Origin → Value
  | .data k d => .of k d
  | .null => .null
  | .undefined => .undefined
  | .nullOf t => .nullOf t
  | .klass m => .klass m
  | .enumerator n => .enumerator n

theorem Origin.wellFormed_value (o : Origin) : o.value.WellFormed := by
  cases o with
  | data k d => exact Value.wellFormed_of k d
  | null => exact Value.wellFormed_bare .null
  | undefined => exact Value.wellFormed_bare .undefined
  | nullOf t => exact Value.wellFormed_nullOf t
  | klass m => exact Value.wellFormed_klass m
  | enumerator n => exact Value.wellFormed_enumerator n

/-- A change of the value in a cell. -/
inductive CellChange
  | set (k : Kind) (d : k.Data)
  /-- Write through a reference to the data. -/
  | put (k : Kind) (d : k.Data)
  | setTag (t : Tag)
  | clear
  /-- Write through a reference to the map. -/
  | editMap (f : Dict CellId → Dict CellId)
  | updateMap (f : Dict CellId → Dict CellId)
  /-- Take over the value of a cell. -/
  | assign (source : CellId)
  | setEntry (key : String) (entry : CellId)
  | eraseEntry (key : String)

/-- The heap after a change, whether the change is refused or not. -/
def CellChange.perform : CellChange → CellId → Heap → Heap
  | .set k d, c, h => h.modify c (·.set k d)
  | .put k d, c, h => (Heap.update c (·.put k d) h).2
  | .setTag t, c, h => (Heap.update c (·.setTag t) h).2
  | .clear, c, h => h.modify c Value.clear
  | .editMap f, c, h => h.modify c (·.editMap f)
  | .updateMap f, c, h => (Heap.update c (·.updateMap f) h).2
  | .assign source, c, h => h.write c (h.read source)
  | .setEntry key entry, c, h => h.setEntry c key entry
  | .eraseEntry key, c, h => h.eraseEntry c key

theorem CellChange.wellFormed_perform (x : CellChange) (c : CellId) {h : Heap}
    (hh : h.WellFormed) : (x.perform c h).WellFormed := by
  cases x with
  | set k d => exact hh.modify c fun _ _ => Value.wellFormed_of k d
  | put k d => exact hh.update c fun _ _ hv hw => hv.put hw
  | setTag t => exact hh.update c fun _ _ hv hw => hv.setTag hw
  | clear => exact hh.modify c fun v _ => .clear v
  | editMap f => exact hh.modify c fun _ hv => hv.editMap f
  | updateMap f => exact hh.update c fun _ _ hv hw => hv.updateMap hw
  | assign source => exact hh.write c (hh source)
  | setEntry key entry => exact hh.modify c fun _ hv => hv.insert key entry
  | eraseEntry key =>
      refine hh.modify c fun v hv => ?_
      rw [Value.erase_eq_editMap]
      exact hv.editMap _

/-- A call that makes a cell or changes the value in one. -/
inductive CellCall
  | make (o : Origin)
  | copy (c : CellId)
  | copyAsClass (c : CellId)
  /-- A new cell with a copy of the value in a cell. -/
  | copyValue (c : CellId)
  | change (c : CellId) (x : CellChange)

def CellCall.perform : CellCall → Heap → Heap
  | .make o, h => (Heap.alloc o.value h).2
  | .copy c, h => (Heap.copy c h).2
  | .copyAsClass c, h => (Heap.copyAsClass c h).2
  | .copyValue c, h =>
      let (v, h) := Heap.copyValue (h.read c) h
      (Heap.alloc v h).2
  | .change c x, h => x.perform c h

theorem CellCall.wellFormed_perform (call : CellCall) {h : Heap} (hh : h.WellFormed) :
    (call.perform h).WellFormed := by
  cases call with
  | make o => exact hh.alloc o.wellFormed_value
  | copy c => exact hh.copy c
  | copyAsClass c => exact hh.copyAsClass c
  | copyValue c =>
      obtain ⟨hvalue, hheap⟩ := hh.copyValue (hh c)
      exact hheap.alloc hvalue
  | change c x => exact x.wellFormed_perform c hh

namespace Heap

/-- The heap after a run of calls. -/
def run (h : Heap) (calls : List CellCall) : Heap :=
  calls.foldl (fun h call => call.perform h) h

theorem wellFormed_run {h : Heap} (hh : h.WellFormed) (calls : List CellCall) :
    (h.run calls).WellFormed := by
  induction calls generalizing h with
  | nil => exact hh
  | cons call calls ih => exact ih (call.wellFormed_perform hh)

/-- After every run every value is well formed, the tags of null and undefined carry no data,
and the accessors agree. -/
theorem values_keep_shape (calls : List CellCall) (c : CellId) :
    ((empty.run calls).read c).WellFormed ∧
      (((empty.run calls).read c).tag = .null ∨ ((empty.run calls).read c).tag = .undefined →
        ((empty.run calls).read c).payload = none) ∧
      ((empty.run calls).read c).AccessorsAgree := by
  have hv := wellFormed_run wellFormed_empty calls c
  exact ⟨hv, hv.payload_eq_none, hv.accessorsAgree⟩

end Heap
end ScriptCore
