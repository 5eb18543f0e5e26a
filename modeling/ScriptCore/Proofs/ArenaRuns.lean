import Mathlib.Data.List.Induction
import Mathlib.Logic.Function.Basic
import ScriptCore.Proofs.ArenaSlots

/-!
# Arenas as maps from handles to items

Any number of arenas with different identities serve requests in any order.  Each arena keeps
a log of its requests and answers.  Three readings of a log say what a map from handles to
items would hold: the handles given out (`issued`), the handles taken back (`removed`) and the
item last stored through a handle (`stored`).  None of them looks at slots or generations.

**Invariant.**  `Tracks` ties a log to an arena.  A slot has given out the handles of the
generations below `issuedAt`, and those below `vacatedAt` were taken back; so the handle of the
next insertion is new, and a handle names an item exactly while it is given out and not taken
back.  A generation must not wrap around for this: no slot is vacated `2 ^ 32` times.

**Results.**
* `tracks_call`: one request keeps the invariant.
* `injective_id_made`: the counter gives different identities to the first `2 ^ 32` arenas.
* `arenas_act_as_maps`: after every run each arena behaves as the map that its log describes,
  and an insertion gives out a handle that no arena gave out before.
-/

namespace ScriptCore
namespace Arena

/-- A request to an arena. -/
inductive Request (α : Type)
  | insert (x : α)
  | get (h : Handle)
  | modify (h : Handle) (f : α → α)
  | remove (h : Handle)
  | contains (h : Handle)

/-- The answer to a request. -/
inductive Answer (α : Type)
  | handle (result : Except Error Handle)
  | item (result : Except Error α)
  | found (b : Bool)

/-- Requests with their answers, the latest first. -/
abbrev Log (α : Type) : Type := List (Request α × Answer α)

/-- An arena and its log. -/
structure Traced (α : Type) where
  arena : Arena α
  log : Log α

section Serving

variable {α : Type}

/-- Serve a request. -/
def serve : Request α → Arena α → Answer α × Arena α
  | .insert x, a => ((.handle (insert x a).1), (insert x a).2)
  | .get h, a => (.item (a.get h), a)
  | .modify h f, a => ((.item (modify h f a).1), (modify h f a).2)
  | .remove h, a => ((.item (remove h a).1), (remove h a).2)
  | .contains h, a => (.found (a.contains h), a)

/-- Serve a request and record it. -/
def Traced.call (t : Traced α) (request : Request α) : Traced α :=
  ⟨(serve request t.arena).2, (request, (serve request t.arena).1) :: t.log⟩

/-- The handles that were given out. -/
def issued : Log α → List Handle
  | [] => []
  | (.insert _, .handle (.ok h)) :: log => h :: issued log
  | _ :: log => issued log

/-- The handles that were taken back. -/
def removed : Log α → List Handle
  | [] => []
  | (.remove h, .item (.ok _)) :: log => h :: removed log
  | _ :: log => removed log

/-- The number of times that a slot was vacated. -/
def removals (log : Log α) (k : UInt32) : Nat := (removed log).countP fun h => h.index = k

/-- The item last stored through a handle, unless the handle was taken back. -/
def stored : Log α → Handle → Option α
  | [], _ => none
  | (.insert x, .handle (.ok g)) :: log, h => if h = g then some x else stored log h
  | (.modify g f, .item (.ok _)) :: log, h =>
      if h = g then (stored log h).map f else stored log h
  | (.remove g, .item (.ok _)) :: log, h => if h = g then none else stored log h
  | _ :: log, h => stored log h

/-- The arena has given out and taken back what the log says, and holds the items that the log
says. -/
structure Tracks (a : Arena α) (log : Log α) : Prop where
  tidy : a.Tidy
  mem_issued_iff : ∀ h, h ∈ issued log ↔
    h.arena = a.id ∧ h.generation.toNat < a.issuedAt h.index
  mem_removed_iff : ∀ h, h ∈ removed log ↔
    h.arena = a.id ∧ h.generation.toNat < a.vacatedAt h.index
  removals_eq : ∀ k, removals log k = a.vacatedAt k
  stored_eq : ∀ h, stored log h = a.item? h
  balance : a.free.length + (issued log).length = a.slots.size + (removed log).length

theorem tracks_new (id : UInt32) : Tracks (new id : Arena α) [] where
  tidy := tidy_new id
  mem_issued_iff := by simp [issued, issuedAt, slot?, new]
  mem_removed_iff := by simp [removed, vacatedAt, slot?, new]
  removals_eq := by simp [removals, removed, vacatedAt, slot?, new]
  stored_eq := by
    intro h
    simp [stored, item?, new]
  balance := by simp [issued, removed, new]

/-- Entries that give out, store and take back nothing leave the invariant alone. -/
theorem Tracks.congr {a : Arena α} {log log' : Log α} (ht : Tracks a log)
    (hissued : issued log' = issued log) (hremoved : removed log' = removed log)
    (hstored : ∀ h, stored log' h = stored log h) : Tracks a log' where
  tidy := ht.tidy
  mem_issued_iff := by rw [hissued]; exact ht.mem_issued_iff
  mem_removed_iff := by rw [hremoved]; exact ht.mem_removed_iff
  removals_eq := by unfold removals; rw [hremoved]; exact ht.removals_eq
  stored_eq := fun h => (hstored h).trans (ht.stored_eq h)
  balance := by rw [hissued, hremoved]; exact ht.balance

/-- A slot that is put back with the count it had leaves all counts alone. -/
theorem count_eq_of_put {count count' : UInt32 → Nat} {k : UInt32} {n : Nat}
    (hput : ∀ j, count' j = if j = k then n else count j) (hsame : count k = n) (j : UInt32) :
    count' j = count j := by
  rw [hput]
  by_cases hj : j = k
  · rw [if_pos hj, hj, hsame]
  · rw [if_neg hj]

/-- When a slot's count goes up by one, the handle of that generation joins the handles below
the count. -/
theorem lt_count_iff {id : UInt32} {count count' : UInt32 → Nat} {h : Handle}
    (harena : h.arena = id) (hcount : count h.index = h.generation.toNat)
    (hcount' : ∀ j, count' j = if j = h.index then h.generation.toNat + 1 else count j)
    (g : Handle) :
    (g.arena = id ∧ g.generation.toNat < count' g.index) ↔
      g = h ∨ (g.arena = id ∧ g.generation.toNat < count g.index) := by
  rw [hcount']
  by_cases hindex : g.index = h.index
  · have heq : g = h ↔ g.arena = id ∧ g.generation.toNat = h.generation.toNat := by
      rw [UInt32.toNat_inj]
      constructor
      · rintro rfl
        exact ⟨harena, rfl⟩
      · rintro ⟨ha, hg⟩
        cases g
        cases h
        simp_all
    rw [if_pos hindex, heq, hindex, hcount, ← and_or_left, ← Nat.le_iff_lt_or_eq.trans or_comm,
      Nat.lt_succ_iff]
  · have hne : g ≠ h := fun e => hindex (e ▸ rfl)
    rw [if_neg hindex]
    simp [hne]

section Steps

variable {a b : Arena α} {log : Log α} {h : Handle} {x : α}

theorem Tracks.insert (ht : Tracks a log) (hin : Inserted a b x h) :
    Tracks b ((.insert x, .handle (.ok h)) :: log) := by
  have hissuedAt : ∀ j, b.issuedAt j =
      if j = h.index then h.generation.toNat + 1 else a.issuedAt j := by
    simpa using hin.puts.issuedAt_eq
  have hvacatedAt : ∀ j, b.vacatedAt j = a.vacatedAt j :=
    count_eq_of_put hin.puts.vacatedAt_eq hin.vacatedAt_eq
  refine ⟨hin.tidy, ?_, ?_, ?_, ?_, ?_⟩
  · intro g
    show g ∈ h :: issued log ↔ _
    rw [List.mem_cons, ht.mem_issued_iff, hin.puts.id_eq,
      lt_count_iff hin.arena_eq hin.issuedAt_eq hissuedAt]
  · intro g
    rw [hvacatedAt, hin.puts.id_eq]
    exact ht.mem_removed_iff g
  · intro k
    rw [hvacatedAt]
    exact ht.removals_eq k
  · intro g
    by_cases hg : g = h
    · rw [hg, hin.puts.item?_self hin.arena_eq]
      simp [stored]
    · rw [hin.item?_of_ne hg, ← ht.stored_eq g]
      simp [stored, hg]
  · have hbalance := hin.balance
    have hold := ht.balance
    show b.free.length + (h :: issued log).length = b.slots.size + (removed log).length
    rw [List.length_cons]
    omega

/-- The slot of a handle that names an item: the handle is the one given out last. -/
theorem counts_of_item? (hx : a.item? h = some x) :
    a.issuedAt h.index = h.generation.toNat + 1 ∧ a.vacatedAt h.index = h.generation.toNat := by
  obtain ⟨-, hslot⟩ := item?_eq_some_iff.1 hx
  simp [issuedAt, vacatedAt, hslot]

theorem generation_of_item? (hx : a.item? h = some x) :
    ∀ s, a.slot? h.index = some s → s.item.isSome → s.generation = h.generation := by
  obtain ⟨-, hslot⟩ := item?_eq_some_iff.1 hx
  intro s hs _
  rw [hslot] at hs
  exact Option.some.inj hs ▸ rfl

theorem Tracks.modify (ht : Tracks a log) (hx : a.item? h = some x) (f : α → α) :
    Tracks (modify h f a).2 ((.modify h f, .item (modify h f a).1) :: log) := by
  obtain ⟨b, heq, hput, htidy, hsize, hfree⟩ := modify_spec ht.tidy hx f
  obtain ⟨hissued, hvacated⟩ := counts_of_item? hx
  obtain ⟨harena, -⟩ := item?_eq_some_iff.1 hx
  rw [heq]
  have hissuedAt : ∀ j, b.issuedAt j = a.issuedAt j :=
    count_eq_of_put hput.issuedAt_eq hissued
  have hvacatedAt : ∀ j, b.vacatedAt j = a.vacatedAt j :=
    count_eq_of_put hput.vacatedAt_eq hvacated
  refine ⟨htidy, ?_, ?_, ?_, ?_, ?_⟩
  · intro g
    rw [hissuedAt, hput.id_eq]
    exact ht.mem_issued_iff g
  · intro g
    rw [hvacatedAt, hput.id_eq]
    exact ht.mem_removed_iff g
  · intro k
    rw [hvacatedAt]
    exact ht.removals_eq k
  · intro g
    by_cases hg : g = h
    · rw [hg, hput.item?_self harena]
      simp [stored, ht.stored_eq, hx]
    · rw [hput.item?_of_ne harena (generation_of_item? hx) (fun _ => rfl) hg, ← ht.stored_eq g]
      simp [stored, hg]
  · rw [hfree, hsize]
    exact ht.balance

/-- A removal keeps the invariant unless the generation wraps around. -/
theorem Tracks.remove (ht : Tracks a log) (hx : a.item? h = some x)
    (hbound : h.generation.toNat + 1 < 2 ^ 32) :
    Tracks (remove h a).2 ((.remove h, .item (remove h a).1) :: log) := by
  obtain ⟨b, heq, hput, htidy, hsize, hfree⟩ := remove_spec ht.tidy hx
  obtain ⟨hissued, hvacated⟩ := counts_of_item? hx
  obtain ⟨harena, -⟩ := item?_eq_some_iff.1 hx
  rw [heq]
  have hnext : (h.generation + 1).toNat = h.generation.toNat + 1 := by
    rw [UInt32.toNat_add]
    exact Nat.mod_eq_of_lt hbound
  have hissuedAt : ∀ j, b.issuedAt j = a.issuedAt j :=
    count_eq_of_put hput.issuedAt_eq (hissued.trans hnext.symm)
  have hvacatedAt : ∀ j, b.vacatedAt j =
      if j = h.index then h.generation.toNat + 1 else a.vacatedAt j := by
    intro j
    rw [hput.vacatedAt_eq, hnext]
  refine ⟨htidy, ?_, ?_, ?_, ?_, ?_⟩
  · intro g
    rw [hissuedAt, hput.id_eq]
    exact ht.mem_issued_iff g
  · intro g
    show g ∈ h :: removed log ↔ _
    rw [List.mem_cons, ht.mem_removed_iff, hput.id_eq, lt_count_iff harena hvacated hvacatedAt]
  · intro k
    show (h :: removed log).countP _ = _
    have hold : (removed log).countP (fun g => g.index = k) = a.vacatedAt k := ht.removals_eq k
    rw [List.countP_cons, hold, hvacatedAt]
    by_cases hk : h.index = k
    · subst hk
      simp [hvacated]
    · have hk' : k ≠ h.index := fun e => hk e.symm
      simp [hk, hk']
  · intro g
    by_cases hg : g = h
    · have hnone : b.item? h = none := by
        rw [← Option.not_isSome_iff_eq_none, item?_isSome_iff, hvacatedAt, if_pos rfl]
        omega
      rw [hg, hnone]
      simp [stored]
    · rw [hput.item?_of_ne harena (generation_of_item? hx) (by simp) hg, ← ht.stored_eq g]
      simp [stored, hg]
  · have hold := ht.balance
    show b.free.length + (issued log).length = b.slots.size + (h :: removed log).length
    rw [hfree, hsize, List.length_cons]
    omega

end Steps

theorem removals_le_cons (log : Log α) (entry : Request α × Answer α) (k : UInt32) :
    removals log k ≤ removals (entry :: log) k := by
  have hsub : (removed log).Sublist (removed (entry :: log)) := by
    obtain ⟨request, answer⟩ := entry
    cases request with
    | remove h =>
        cases answer with
        | item result =>
            cases result with
            | ok x => exact List.sublist_cons_self h _
            | error e => exact List.Sublist.refl _
        | _ => exact List.Sublist.refl _
    | _ => exact List.Sublist.refl _
  exact hsub.countP_le

/-- Serving a request keeps the invariant as long as no slot was vacated too often. -/
theorem tracks_call {t : Traced α} (ht : Tracks t.arena t.log) (request : Request α)
    (hbound : ∀ k, removals (t.call request).log k < 2 ^ 32) :
    Tracks (t.call request).arena (t.call request).log := by
  obtain ⟨a, log⟩ := t
  cases request with
  | insert x =>
      rcases insert_spec ht.tidy x with ⟨h, b, heq, hin⟩ | ⟨-, heq⟩
      · show Tracks (insert x a).2 ((.insert x, .handle (insert x a).1) :: log)
        rw [heq]
        exact ht.insert hin
      · show Tracks (insert x a).2 ((.insert x, .handle (insert x a).1) :: log)
        rw [heq]
        exact ht.congr rfl rfl fun _ => rfl
  | get h => exact ht.congr rfl rfl fun _ => rfl
  | contains h => exact ht.congr rfl rfl fun _ => rfl
  | modify h f =>
      show Tracks (modify h f a).2 ((.modify h f, .item (modify h f a).1) :: log)
      cases hx : a.item? h with
      | some x => exact ht.modify hx f
      | none =>
          rw [modify_of_none hx]
          exact ht.congr rfl rfl fun _ => rfl
  | remove h =>
      show Tracks (remove h a).2 ((.remove h, .item (remove h a).1) :: log)
      cases hx : a.item? h with
      | some x =>
          refine ht.remove hx ?_
          -- The log counts one removal more than the generation of the slot says.
          have hlog : removals ((.remove h, .item (remove h a).1) :: log) h.index < 2 ^ 32 :=
            hbound h.index
          obtain ⟨b, heq, -⟩ := remove_spec ht.tidy hx
          have hcount : removals log h.index = h.generation.toNat :=
            (ht.removals_eq h.index).trans (counts_of_item? hx).2
          simp only [heq, removals, removed, List.countP_cons_of_pos, decide_true] at hlog
          unfold removals at hcount
          omega
      | none =>
          rw [remove_of_none hx]
          exact ht.congr rfl rfl fun _ => rfl

theorem id_serve (request : Request α) (a : Arena α) : (serve request a).2.id = a.id := by
  cases request with
  | insert x =>
      show (insert x a).2.id = a.id
      unfold insert insertFresh
      repeat' split
      all_goals rfl
  | modify h f =>
      show (modify h f a).2.id = a.id
      unfold modify
      split <;> rfl
  | remove h =>
      show (remove h a).2.id = a.id
      unfold remove
      split <;> rfl
  | _ => rfl

/-- Requests keep an arena tidy, also when a generation wraps around. -/
theorem tidy_serve {a : Arena α} (ha : a.Tidy) (request : Request α) :
    (serve request a).2.Tidy := by
  cases request with
  | insert x =>
      show (insert x a).2.Tidy
      rcases insert_spec ha x with ⟨h, b, heq, hin⟩ | ⟨-, heq⟩
      · rw [heq]
        exact hin.tidy
      · rw [heq]
        exact ha
  | modify h f =>
      show (modify h f a).2.Tidy
      cases hx : a.item? h with
      | none =>
          rw [modify_of_none hx]
          exact ha
      | some x =>
          obtain ⟨b, heq, -, htidy, -⟩ := modify_spec ha hx f
          rw [heq]
          exact htidy
  | remove h =>
      show (remove h a).2.Tidy
      cases hx : a.item? h with
      | none =>
          rw [remove_of_none hx]
          exact ha
      | some x =>
          obtain ⟨b, heq, -, htidy, -⟩ := remove_spec ha hx
          rw [heq]
          exact htidy
  | _ => exact ha

/-- The arena behaves as the map from handles to items that the log describes.  A handle that
the map does not have is refused and changes nothing; no request touches the item of another
handle; the number of items is the number of insertions that were not undone. -/
structure ActsAsMap (a : Arena α) (log : Log α) : Prop where
  live_iff : ∀ h, (stored log h).isSome ↔ h ∈ issued log ∧ h ∉ removed log
  get_iff : ∀ h x, a.get h = .ok x ↔ stored log h = some x
  contains_iff : ∀ h, a.contains h = true ↔ (stored log h).isSome
  modify_live : ∀ h f x, stored log h = some x → (modify h f a).1 = .ok (f x)
  remove_live : ∀ h x, stored log h = some x → (remove h a).1 = .ok x
  stale : ∀ h, stored log h = none →
    a.get h = .error (Error.of .staleHandle) ∧
      (∀ f, modify h f a = (.error (Error.of .staleHandle), a)) ∧
      remove h a = (.error (Error.of .staleHandle), a)
  insert_frame : ∀ x g, (insert x a).1 ≠ .ok g → (insert x a).2.get g = a.get g
  modify_frame : ∀ h f g, g ≠ h → (modify h f a).2.get g = a.get g
  remove_frame : ∀ h g, g ≠ h → (remove h a).2.get g = a.get g
  no_underflow : a.free.length ≤ a.slots.size
  size_eq : a.size + (removed log).length = (issued log).length

theorem get_eq_of_item? {a b : Arena α} {h : Handle} (heq : b.item? h = a.item? h) :
    b.get h = a.get h := by
  unfold get
  rw [heq]

theorem Tidy.get_insert {a : Arena α} (ha : a.Tidy) {x : α} {g : Handle}
    (hg : (insert x a).1 ≠ .ok g) : (insert x a).2.get g = a.get g := by
  rcases insert_spec ha x with ⟨h, b, heq, hin⟩ | ⟨-, heq⟩
  · rw [heq] at hg ⊢
    have hne : g ≠ h := fun e => hg (e ▸ rfl)
    exact get_eq_of_item? (hin.item?_of_ne hne)
  · rw [heq]

theorem Tidy.get_modify {a : Arena α} (ha : a.Tidy) {h g : Handle} (f : α → α) (hne : g ≠ h) :
    (modify h f a).2.get g = a.get g := by
  cases hx : a.item? h with
  | none => rw [modify_of_none hx]
  | some x =>
      obtain ⟨b, heq, hput, -⟩ := modify_spec ha hx f
      rw [heq]
      exact get_eq_of_item? (hput.item?_of_ne (item?_eq_some_iff.1 hx).1
        (generation_of_item? hx) (fun _ => rfl) hne)

theorem Tidy.get_remove {a : Arena α} (ha : a.Tidy) {h g : Handle} (hne : g ≠ h) :
    (remove h a).2.get g = a.get g := by
  cases hx : a.item? h with
  | none => rw [remove_of_none hx]
  | some x =>
      obtain ⟨b, heq, hput, -⟩ := remove_spec ha hx
      rw [heq]
      exact get_eq_of_item? (hput.item?_of_ne (item?_eq_some_iff.1 hx).1
        (generation_of_item? hx) (by simp) hne)

theorem Tracks.actsAsMap {a : Arena α} {log : Log α} (ht : Tracks a log) : ActsAsMap a log where
  live_iff := by
    intro h
    rw [ht.stored_eq, item?_isSome_iff, ht.mem_issued_iff, ht.mem_removed_iff]
    constructor
    · rintro ⟨harena, hle, hlt⟩
      exact ⟨⟨harena, hlt⟩, fun hgone => Nat.not_lt.2 hle hgone.2⟩
    · rintro ⟨⟨harena, hlt⟩, hgone⟩
      exact ⟨harena, Nat.not_lt.1 fun hlt' => hgone ⟨harena, hlt'⟩, hlt⟩
  get_iff := by
    intro h x
    rw [ht.stored_eq]
    unfold get
    cases a.item? h <;> simp
  contains_iff := by
    intro h
    rw [ht.stored_eq]
    rfl
  modify_live := by
    intro h f x hx
    rw [ht.stored_eq] at hx
    obtain ⟨b, heq, -⟩ := modify_spec ht.tidy hx f
    rw [heq]
  remove_live := by
    intro h x hx
    rw [ht.stored_eq] at hx
    obtain ⟨b, heq, -⟩ := remove_spec ht.tidy hx
    rw [heq]
  stale := by
    intro h hnone
    rw [ht.stored_eq] at hnone
    refine ⟨?_, modify_of_none hnone, remove_of_none hnone⟩
    unfold get
    rw [hnone]
  insert_frame := fun _ _ hg => ht.tidy.get_insert hg
  modify_frame := fun _ f _ hne => ht.tidy.get_modify f hne
  remove_frame := fun _ _ hne => ht.tidy.get_remove hne
  no_underflow := ht.tidy.free_length_le
  size_eq := by
    have hle := ht.tidy.free_length_le
    have hbalance := ht.balance
    unfold size
    omega

/-- The handle of an insertion is the next one of its slot, so it was not given out before. -/
theorem Tracks.insert_fresh {a b : Arena α} {log : Log α} {x : α} {h : Handle}
    (ht : Tracks a log) (hin : Inserted a b x h) : h ∉ issued log := by
  rw [ht.mem_issued_iff, hin.issuedAt_eq]
  exact fun hlt => Nat.lt_irrefl _ hlt.2

end Serving

section Identities

/-- The counter after some arenas were made. -/
def counterAfter : Nat → UInt32
  | 0 => firstId
  | n + 1 => (takeId (counterAfter n)).2

theorem counterAfter_eq (n : Nat) : counterAfter n = firstId + UInt32.ofNat n := by
  induction n with
  | zero => rfl
  | succ n ih =>
      show counterAfter n + 1 = firstId + UInt32.ofNat (n + 1)
      rw [ih, UInt32.ofNat_add, UInt32.add_assoc]
      rfl

/-- The arena that is made after `n` others. -/
def made (α : Type) (n : Nat) : Arena α := (create (counterAfter n)).1

/-- An identity comes back after `2 ^ 32` arenas and not before. -/
theorem id_made_eq_iff {α β : Type} {m n : Nat} :
    (made α m).id = (made β n).id ↔ m % 2 ^ 32 = n % 2 ^ 32 := by
  show counterAfter m = counterAfter n ↔ _
  rw [counterAfter_eq, counterAfter_eq, UInt32.add_right_inj, ← UInt32.toNat_inj,
    UInt32.toNat_ofNat', UInt32.toNat_ofNat']

/-- Any of the first `2 ^ 32` arenas have different identities. -/
theorem injective_id_made {ι : Type} {α : ι → Type} {number : ι → Nat}
    (hnumber : Function.Injective number) (hlt : ∀ i, number i < 2 ^ 32) :
    Function.Injective fun i => (made (α i) (number i)).id := by
  intro i j hid
  have hmod := id_made_eq_iff.1 hid
  rw [Nat.mod_eq_of_lt (hlt i), Nat.mod_eq_of_lt (hlt j)] at hmod
  exact hnumber hmod

end Identities

section Runs

variable {ι : Type} [DecidableEq ι] {α : ι → Type}

/-- Arenas with given identities after a run of requests, each addressed to one of them.  Every
arena has items of its own type. -/
def run (ids : ι → UInt32) (calls : List ((i : ι) × Request (α i))) : (i : ι) → Traced (α i) :=
  calls.foldl (fun pool c => Function.update pool c.1 ((pool c.1).call c.2))
    fun i => ⟨new (ids i), []⟩

theorem run_append_self (ids : ι → UInt32) (calls : List ((i : ι) × Request (α i))) (i : ι)
    (request : Request (α i)) :
    run ids (calls ++ [⟨i, request⟩]) i = (run ids calls i).call request := by
  simp [run]

/-- A request to one arena leaves the others alone. -/
theorem run_append_of_ne (ids : ι → UInt32) (calls : List ((i : ι) × Request (α i))) {i j : ι}
    (request : Request (α i)) (hne : j ≠ i) :
    run ids (calls ++ [⟨i, request⟩]) j = run ids calls j := by
  simp [run, hne]

/-- What holds of new arenas and is kept by every request holds after every run. -/
theorem run_induction {P : (i : ι) → Traced (α i) → Prop} {ids : ι → UInt32}
    (hnew : ∀ i, P i ⟨new (ids i), []⟩)
    (hcall : ∀ i t request, P i t → P i (t.call request))
    (calls : List ((i : ι) × Request (α i))) (i : ι) : P i (run ids calls i) := by
  induction calls using List.reverseRecOn with
  | nil => exact hnew i
  | append_singleton calls c ih =>
      obtain ⟨j, request⟩ := c
      by_cases hij : i = j
      · subst hij
        rw [run_append_self]
        exact hcall i _ request ih
      · rw [run_append_of_ne ids calls request hij]
        exact ih

theorem id_run (ids : ι → UInt32) (calls : List ((i : ι) × Request (α i))) (i : ι) :
    (run ids calls i).arena.id = ids i := by
  refine run_induction (P := fun i t => t.arena.id = ids i) (fun _ => rfl) ?_ calls i
  intro i t request hid
  exact (id_serve request t.arena).trans hid

theorem tidy_run (ids : ι → UInt32) (calls : List ((i : ι) × Request (α i))) (i : ι) :
    (run ids calls i).arena.Tidy := by
  refine run_induction (P := fun _ t => t.arena.Tidy) (fun i => tidy_new (ids i)) ?_ calls i
  intro i t request htidy
  exact tidy_serve htidy request

theorem tracks_run (ids : ι → UInt32) (calls : List ((i : ι) × Request (α i))) (i : ι)
    (hremovals : ∀ k, removals (run ids calls i).log k < 2 ^ 32) :
    Tracks (run ids calls i).arena (run ids calls i).log := by
  revert hremovals
  refine run_induction
    (P := fun _ t => (∀ k, removals t.log k < 2 ^ 32) → Tracks t.arena t.log)
    (fun i _ => tracks_new (ids i)) ?_ calls i
  intro i t request ih hbound
  refine tracks_call (ih fun k => ?_) request hbound
  exact Nat.lt_of_le_of_lt (removals_le_cons t.log _ k) (hbound k)

/-- After every run in which no slot is vacated `2 ^ 32` times, each arena behaves as the map
that its log describes, an insertion into an arena with fewer than `2 ^ 32` slots gives out a
handle that no arena ever gave out, and a request to one arena leaves the others alone. -/
theorem arenas_act_as_maps (ids : ι → UInt32) (hids : Function.Injective ids)
    (calls : List ((i : ι) × Request (α i)))
    (hremovals : ∀ i k, removals (run ids calls i).log k < 2 ^ 32) :
    (∀ i, ActsAsMap (run ids calls i).arena (run ids calls i).log) ∧
    (∀ i x, (run ids calls i).arena.slots.size < 2 ^ 32 →
      ∃ h b, insert x (run ids calls i).arena = (.ok h, b) ∧
        ∀ j, h ∉ issued (run ids calls j).log) ∧
    ∀ i request j, j ≠ i → run ids (calls ++ [⟨i, request⟩]) j = run ids calls j := by
  have htracks : ∀ i, Tracks (run ids calls i).arena (run ids calls i).log :=
    fun i => tracks_run ids calls i (hremovals i)
  refine ⟨fun i => (htracks i).actsAsMap, ?_, ?_⟩
  · intro i x hfull
    rcases insert_spec (htracks i).tidy x with ⟨h, b, heq, hin⟩ | ⟨hle, -⟩
    · refine ⟨h, b, heq, fun j hj => ?_⟩
      have hid : h.arena = ids j := by
        rw [← id_run ids calls j]
        exact (((htracks j).mem_issued_iff h).1 hj).1
      have hij : i = j := hids (by rw [← hid, hin.arena_eq, id_run])
      subst hij
      exact (htracks i).insert_fresh hin hj
    · exact absurd hfull (Nat.not_lt.2 hle)
  · intro i request j hne
    exact run_append_of_ne ids calls request hne

/-- Two identities, and a run in which a slot is given out a second time, after an attempt to
vacate it twice. -/
def twoIds (b : Bool) : UInt32 := if b then 1 else 2

def reuse : List ((_ : Bool) × Request String) :=
  [⟨true, .insert "a"⟩, ⟨false, .insert "b"⟩, ⟨true, .remove ⟨1, 0, 0⟩⟩,
    ⟨true, .remove ⟨1, 0, 0⟩⟩, ⟨true, .insert "c"⟩, ⟨false, .modify ⟨2, 0, 0⟩ (· ++ "d")⟩]

theorem reused_slot_acts_as_map :
    Function.Injective twoIds ∧
    (∀ i k, removals (run twoIds reuse i).log k < 2 ^ 32) ∧
    (run twoIds reuse true).arena.get ⟨1, 0, 0⟩ = .error (Error.of .staleHandle) ∧
    (run twoIds reuse true).arena.get ⟨1, 0, 1⟩ = .ok "c" ∧
    (run twoIds reuse false).arena.get ⟨2, 0, 0⟩ = .ok "bd" ∧
    ∃ h b, insert "e" (run twoIds reuse true).arena = (.ok h, b) ∧
      ∀ j, h ∉ issued (run twoIds reuse j).log := by
  -- The two arenas are the first ones that the counter numbers.
  have hmade : twoIds = fun b => (made String (if b then 0 else 1)).id := by
    funext b
    cases b <;> rfl
  have hids : Function.Injective twoIds := by
    rw [hmade]
    refine injective_id_made ?_ (by decide)
    unfold Function.Injective
    decide
  have hlength : ∀ i, (removed (run twoIds reuse i).log).length < 2 ^ 32 := by decide
  have hremovals : ∀ i k, removals (run twoIds reuse i).log k < 2 ^ 32 :=
    fun i _ => Nat.lt_of_le_of_lt List.countP_le_length (hlength i)
  obtain ⟨hmap, hfresh, -⟩ := arenas_act_as_maps twoIds hids reuse hremovals
  refine ⟨hids, hremovals, ((hmap true).stale _ (by decide)).1, ?_, ?_, ?_⟩
  · exact ((hmap true).get_iff _ _).2 (by decide)
  · exact ((hmap false).get_iff _ _).2 (by decide)
  · exact hfresh true "e" (by decide)

end Runs

end Arena
end ScriptCore
