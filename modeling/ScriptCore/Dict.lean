/-!
# Dictionaries

A dictionary is a finite map from names to entries, kept as a list in strictly increasing
order of names.  Names are ordered by code points, which is also the order of their UTF-8
bytes.

**View.**  `find?` reads a dictionary as a partial function.  Since the list is strictly
increasing, two dictionaries with the same view are the same dictionary (`Dict.ext_find?`),
so every listing depends on the contents alone and not on the order of the insertions.
-/

namespace ScriptCore

universe u v

/-- Strictly increasing names. -/
def Ascending {α : Type u} (entries : List (String × α)) : Prop :=
  entries.Pairwise (fun p q => p.1 < q.1)

/-- A finite map from names, listed in increasing order. -/
structure Dict (α : Type u) where
  entries : List (String × α)
  ascending : Ascending entries

namespace Dict

variable {α : Type u} {β : Type v}

instance [DecidableEq α] : DecidableEq (Dict α) := fun d e =>
  decidable_of_iff (d.entries = e.entries) <| by
    cases d; cases e; simp

instance [Repr α] : Repr (Dict α) := ⟨fun d n => reprPrec d.entries n⟩

/-- The dictionary without entries. -/
def empty : Dict α := ⟨[], List.Pairwise.nil⟩

instance : Inhabited (Dict α) := ⟨empty⟩

/-- The first entry under a name in a list of entries. -/
def findEntry (name : String) : List (String × α) → Option α
  | [] => none
  | (n, a) :: rest => if name = n then some a else findEntry name rest

/-- The entry under a name. -/
def find? (d : Dict α) (name : String) : Option α :=
  findEntry name d.entries

/-- There is an entry under the name. -/
def contains (d : Dict α) (name : String) : Bool :=
  (d.find? name).isSome

/-- The number of entries. -/
def size (d : Dict α) : Nat := d.entries.length

/-- The names, in increasing order. -/
def keys (d : Dict α) : List String := d.entries.map Prod.fst

/-- The entries in the order of their names. -/
def values (d : Dict α) : List α := d.entries.map Prod.snd

/-- No entry at all. -/
def isEmpty (d : Dict α) : Bool := d.entries.isEmpty

/-- Put an entry at its place, over an entry of the same name. -/
def insertEntry (name : String) (a : α) : List (String × α) → List (String × α)
  | [] => [(name, a)]
  | (n, b) :: rest =>
      if name < n then (name, a) :: (n, b) :: rest
      else if name = n then (name, a) :: rest
      else (n, b) :: insertEntry name a rest

theorem mem_insertEntry {name : String} {a : α} {p : String × α} :
    ∀ {l : List (String × α)}, p ∈ insertEntry name a l → p = (name, a) ∨ p ∈ l
  | [], h => by simpa [insertEntry] using h
  | (n, b) :: rest, h => by
      unfold insertEntry at h
      split at h
      · simpa using h
      · split at h
        · rcases List.mem_cons.1 h with rfl | h
          · exact Or.inl rfl
          · exact Or.inr (List.mem_cons_of_mem _ h)
        · rcases List.mem_cons.1 h with rfl | h
          · exact Or.inr List.mem_cons_self
          · exact (mem_insertEntry h).imp_right (List.mem_cons_of_mem _)

theorem ascending_insertEntry (name : String) (a : α) :
    ∀ {l : List (String × α)}, Ascending l → Ascending (insertEntry name a l)
  | [], _ => List.pairwise_singleton _ _
  | (n, b) :: rest, h => by
      have hrest : Ascending rest := (List.pairwise_cons.1 h).2
      have hhead : ∀ q ∈ rest, n < q.1 := (List.pairwise_cons.1 h).1
      unfold insertEntry
      split
      · rename_i hlt
        refine List.pairwise_cons.2 ⟨?_, h⟩
        intro q hq
        rcases List.mem_cons.1 hq with rfl | hq
        · exact hlt
        · exact String.lt_trans hlt (hhead q hq)
      · split
        · rename_i heq
          exact List.pairwise_cons.2 ⟨fun q hq => heq ▸ hhead q hq, hrest⟩
        · rename_i hlt hne
          refine List.pairwise_cons.2 ⟨?_, ascending_insertEntry name a hrest⟩
          intro q hq
          rcases mem_insertEntry hq with rfl | hq
          · have hle : n ≤ name := String.not_lt.1 hlt
            by_cases h' : n < name
            · exact h'
            · exact absurd (String.le_antisymm (String.not_lt.1 h') hle) hne
          · exact hhead q hq

/-- Set the entry under a name. -/
def insert (d : Dict α) (name : String) (a : α) : Dict α :=
  ⟨insertEntry name a d.entries, ascending_insertEntry name a d.ascending⟩

/-- Keep the entries that satisfy a test. -/
def filter (d : Dict α) (keep : String → α → Bool) : Dict α :=
  ⟨d.entries.filter fun p => keep p.1 p.2, List.Pairwise.filter _ d.ascending⟩

/-- Drop the entry under a name. -/
def erase (d : Dict α) (name : String) : Dict α :=
  d.filter fun n _ => n != name

/-- Change every entry and keep the names. -/
def map (f : α → β) (d : Dict α) : Dict β :=
  ⟨d.entries.map fun p => (p.1, f p.2), by
    have h := d.ascending
    unfold Ascending at h ⊢
    rw [List.pairwise_map]
    exact h⟩

/-- Insert the pairs from left to right, so that the last of several entries of one name
stays. -/
def ofList (pairs : List (String × α)) : Dict α :=
  pairs.foldl (fun d p => d.insert p.1 p.2) empty

/-- Change the entry under a name, if there is one. -/
def modify (d : Dict α) (name : String) (f : α → α) : Dict α :=
  match d.find? name with
  | some a => d.insert name (f a)
  | none => d

theorem findEntry_insertEntry (name other : String) (a : α) :
    ∀ l : List (String × α),
      findEntry other (insertEntry name a l) =
        if other = name then some a else findEntry other l
  | [] => rfl
  | (n, b) :: rest => by
      have ih := findEntry_insertEntry name other a rest
      unfold insertEntry
      split
      · rfl
      · split
        · rename_i heq
          subst heq
          by_cases h : other = name <;> simp [findEntry, h]
        · rename_i hne
          by_cases h : other = n
          · subst h
            have hne' : other ≠ name := fun h' => hne h'.symm
            simp [findEntry, hne']
          · simp [findEntry, h, ih]

@[simp] theorem find?_empty (name : String) : (empty : Dict α).find? name = none := rfl

/-- After an insertion the name has the new entry and every other name is as before. -/
theorem find?_insert (d : Dict α) (name other : String) (a : α) :
    (d.insert name a).find? other = if other = name then some a else d.find? other :=
  findEntry_insertEntry name other a d.entries

@[simp] theorem find?_insert_self (d : Dict α) (name : String) (a : α) :
    (d.insert name a).find? name = some a := by
  simp [find?_insert]

theorem findEntry_filter_ne (name other : String) :
    ∀ l : List (String × α),
      findEntry other (l.filter fun p => p.1 != name) =
        if other = name then none else findEntry other l
  | [] => by simp [findEntry]
  | (n, b) :: rest => by
      have ih := findEntry_filter_ne name other rest
      by_cases hn : n = name
      · subst hn
        by_cases h : other = n
        · subst h
          simpa using ih
        · simp [findEntry, h, ih]
      · by_cases h : other = n
        · subst h
          simp [findEntry, hn]
        · simp [findEntry, hn, h, ih]

/-- After a removal the name has no entry and every other name is as before. -/
theorem find?_erase (d : Dict α) (name other : String) :
    (d.erase name).find? other = if other = name then none else d.find? other :=
  findEntry_filter_ne name other d.entries

theorem findEntry_eq_some_iff :
    ∀ {l : List (String × α)}, Ascending l → ∀ (name : String) (a : α),
      findEntry name l = some a ↔ (name, a) ∈ l
  | [], _, _, _ => by simp [findEntry]
  | (n, b) :: rest, h, name, a => by
      have hrest : Ascending rest := (List.pairwise_cons.1 h).2
      have hhead : ∀ q ∈ rest, n < q.1 := (List.pairwise_cons.1 h).1
      have ih := findEntry_eq_some_iff hrest name a
      by_cases hn : name = n
      · subst hn
        have hnot : (name, a) ∉ rest := fun hm => String.lt_irrefl _ (hhead _ hm)
        simp [findEntry, hnot, eq_comm]
      · simp [findEntry, hn, ih]

/-- The view of a dictionary lists exactly its pairs. -/
theorem find?_eq_some_iff (d : Dict α) (name : String) (a : α) :
    d.find? name = some a ↔ (name, a) ∈ d.entries :=
  findEntry_eq_some_iff d.ascending name a

theorem ascending_ext :
    ∀ {l m : List (String × α)}, Ascending l → Ascending m →
      (∀ p, p ∈ l ↔ p ∈ m) → l = m
  | [], [], _, _, _ => rfl
  | [], q :: m, _, _, h => by simpa using (h q).2 List.mem_cons_self
  | p :: l, [], _, _, h => by simpa using (h p).1 List.mem_cons_self
  | p :: l, q :: m, hl, hm, h => by
      obtain ⟨hpl, hl'⟩ := List.pairwise_cons.1 hl
      obtain ⟨hqm, hm'⟩ := List.pairwise_cons.1 hm
      have hpq : p = q := by
        rcases List.mem_cons.1 ((h p).1 List.mem_cons_self) with hp | hp
        · exact hp
        · rcases List.mem_cons.1 ((h q).2 List.mem_cons_self) with hq | hq
          · exact hq.symm
          · exact absurd (hpl q hq) (String.lt_asymm (hqm p hp))
      subst hpq
      congr 1
      refine ascending_ext hl' hm' fun r => ⟨fun hr => ?_, fun hr => ?_⟩
      · rcases List.mem_cons.1 ((h r).1 (List.mem_cons_of_mem _ hr)) with rfl | hr'
        · exact absurd (hpl _ hr) (String.lt_irrefl _)
        · exact hr'
      · rcases List.mem_cons.1 ((h r).2 (List.mem_cons_of_mem _ hr)) with rfl | hr'
        · exact absurd (hqm _ hr) (String.lt_irrefl _)
        · exact hr'

/-- Dictionaries with the same view are the same dictionary. -/
theorem ext_find? {d e : Dict α} (h : ∀ name, d.find? name = e.find? name) : d = e := by
  have hentries : d.entries = e.entries := by
    refine ascending_ext d.ascending e.ascending fun p => ?_
    rw [← find?_eq_some_iff d p.1 p.2, ← find?_eq_some_iff e p.1 p.2, h]
  cases d; cases e
  simpa using hentries

end Dict
end ScriptCore
