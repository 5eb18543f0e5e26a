import ScriptCore.Dict

/-!
# Dictionaries through their view

`Dict.find?` reads a dictionary as a partial function.  This module says what the listings of
a dictionary are in terms of that view: its keys, its values, and the values of two
dictionaries side by side.

**Results.**
* `find?_map`: changing every entry changes the view entry by entry.
* `keys_eq_iff`: two dictionaries list the same keys exactly when their views are defined at
  the same names.
* `mem_zip_values_iff`: side by side stand the values under equal keys and no others.
-/

namespace ScriptCore
namespace Dict

universe u v

variable {α : Type u} {β : Type v}

theorem findEntry_map (f : α → β) (name : String) :
    ∀ l : List (String × α),
      findEntry name (l.map fun p => (p.1, f p.2)) = (findEntry name l).map f
  | [] => rfl
  | (n, a) :: rest => by
      have ih := findEntry_map f name rest
      by_cases hn : name = n
      · simp [findEntry, hn]
      · simp [findEntry, hn, ih]

@[simp] theorem find?_map (f : α → β) (d : Dict α) (name : String) :
    (d.map f).find? name = (d.find? name).map f :=
  findEntry_map f name d.entries

@[simp] theorem values_map (f : α → β) (d : Dict α) : (d.map f).values = d.values.map f := by
  simp [values, map]

@[simp] theorem keys_map (f : α → β) (d : Dict α) : (d.map f).keys = d.keys := by
  simp [keys, map, Function.comp_def]

theorem map_insert (f : α → β) (d : Dict α) (name : String) (a : α) :
    (d.insert name a).map f = (d.map f).insert name (f a) := by
  refine ext_find? fun other => ?_
  rw [find?_map, find?_insert, find?_insert, find?_map]
  split <;> rfl

theorem map_ofList (f : α → β) (pairs : List (String × α)) :
    (ofList pairs).map f = ofList (pairs.map fun p => (p.1, f p.2)) := by
  have hfold : ∀ d : Dict α,
      (pairs.foldl (fun d p => d.insert p.1 p.2) d).map f =
        (pairs.map fun p => (p.1, f p.2)).foldl (fun d p => d.insert p.1 p.2) (d.map f) := by
    induction pairs with
    | nil => exact fun d => rfl
    | cons p pairs ih =>
        intro d
        rw [List.foldl_cons, ih, map_insert]
        rfl
  exact hfold empty

theorem find?_modify (d : Dict α) (name other : String) (f : α → α) :
    (d.modify name f).find? other =
      if other = name then (d.find? name).map f else d.find? other := by
  unfold modify
  cases hname : d.find? name with
  | some a => exact find?_insert d name other (f a)
  | none =>
      by_cases hother : other = name
      · rw [if_pos hother, hother, hname, Option.map_none]
      · rw [if_neg hother]

theorem modify_of_find? {d : Dict α} {name : String} {a : α} (h : d.find? name = some a)
    (f : α → α) : d.modify name f = d.insert name (f a) := by
  unfold modify
  rw [h]

theorem insert_insert (d : Dict α) (name : String) (a b : α) :
    (d.insert name a).insert name b = d.insert name b := by
  apply ext_find?
  intro other
  simp only [find?_insert]
  by_cases hother : other = name <;> simp [hother]

theorem erase_of_not_contains {d : Dict α} {name : String} (h : d.contains name = false) :
    d.erase name = d := by
  apply ext_find?
  intro other
  rw [find?_erase]
  by_cases hother : other = name
  · subst hother
    have hnone : d.find? other = none := by simpa [contains] using h
    simp [hnone]
  · simp [hother]

theorem contains_erase_self (d : Dict α) (name : String) :
    (d.erase name).contains name = false := by
  rw [contains, find?_erase, if_pos rfl]
  rfl

theorem contains_insert_iff {d : Dict α} {name other : String} {a : α} :
    (d.insert name a).contains other = true ↔ other = name ∨ d.contains other = true := by
  unfold contains
  rw [find?_insert]
  by_cases hother : other = name
  · simp [hother]
  · simp [hother]

theorem mem_keys_iff {d : Dict α} {name : String} :
    name ∈ d.keys ↔ (d.find? name).isSome := by
  rw [Option.isSome_iff_exists]
  constructor
  · intro hname
    obtain ⟨⟨n, a⟩, hmem, rfl⟩ := List.mem_map.1 hname
    exact ⟨a, (find?_eq_some_iff d n a).2 hmem⟩
  · rintro ⟨a, ha⟩
    exact List.mem_map.2 ⟨(name, a), (find?_eq_some_iff d name a).1 ha, rfl⟩

theorem mem_values_iff {d : Dict α} {a : α} : a ∈ d.values ↔ ∃ name, d.find? name = some a := by
  constructor
  · intro ha
    obtain ⟨⟨name, _⟩, hmem, rfl⟩ := List.mem_map.1 ha
    exact ⟨name, (find?_eq_some_iff d name _).2 hmem⟩
  · rintro ⟨name, hname⟩
    exact List.mem_map.2 ⟨(name, a), (find?_eq_some_iff d name a).1 hname, rfl⟩

theorem map_congr {f f' : α → β} {d : Dict α} (h : ∀ a ∈ d.values, f a = f' a) :
    d.map f = d.map f' := by
  refine ext_find? fun name => ?_
  rw [find?_map, find?_map]
  exact Option.map_congr fun a ha => h a (mem_values_iff.2 ⟨name, ha⟩)

theorem map_id (d : Dict α) : d.map id = d := by
  refine ext_find? fun name => ?_
  rw [find?_map, Option.map_id]
  rfl

theorem mem_values_insert {d : Dict α} {name : String} {a b : α}
    (h : b ∈ (d.insert name a).values) : b ∈ d.values ∨ b = a := by
  obtain ⟨other, hother⟩ := mem_values_iff.1 h
  rw [find?_insert] at hother
  split at hother
  · exact Or.inr (Option.some.inj hother).symm
  · exact Or.inl (mem_values_iff.2 ⟨other, hother⟩)

theorem mem_values_erase {d : Dict α} {name : String} {b : α} (h : b ∈ (d.erase name).values) :
    b ∈ d.values := by
  obtain ⟨other, hother⟩ := mem_values_iff.1 h
  rw [find?_erase] at hother
  split at hother
  · cases hother
  · exact mem_values_iff.2 ⟨other, hother⟩

theorem keys_ascending (d : Dict α) : d.keys.Pairwise (· < ·) := by
  unfold keys
  rw [List.pairwise_map]
  exact d.ascending

theorem keys_eq_iff {d : Dict α} {e : Dict β} :
    d.keys = e.keys ↔ ∀ name, (d.find? name).isSome = (e.find? name).isSome := by
  constructor
  · intro hkeys name
    rw [Bool.eq_iff_iff, ← mem_keys_iff, ← mem_keys_iff, hkeys]
  · intro hfind
    -- Without their entries the dictionaries have the same view, so they are the same.
    have hbare : (d.map fun _ => ()) = e.map fun _ => () := by
      refine ext_find? fun name => ?_
      have hname := hfind name
      rw [find?_map, find?_map]
      cases hd : d.find? name <;> cases he : e.find? name <;> simp_all
    rw [← keys_map (fun _ => ()) d, hbare, keys_map]

theorem mem_zip_snd_iff {a : α} {b : β} :
    ∀ {l : List (String × α)} {m : List (String × β)}, Ascending l →
      l.map Prod.fst = m.map Prod.fst →
        ((a, b) ∈ (l.map Prod.snd).zip (m.map Prod.snd) ↔
          ∃ name, (name, a) ∈ l ∧ (name, b) ∈ m)
  | [], [], _, _ => by simp
  | [], q :: m, _, hkeys => by simp at hkeys
  | p :: l, [], _, hkeys => by simp at hkeys
  | (n, x) :: l, (k, y) :: m, hasc, hkeys => by
      simp only [List.map_cons, List.cons.injEq] at hkeys
      obtain ⟨rfl, hrest⟩ := hkeys
      obtain ⟨hhead, hl⟩ := List.pairwise_cons.1 hasc
      have ih := mem_zip_snd_iff (a := a) (b := b) hl hrest
      -- The first key is below all others, so it pairs with itself only.
      have hnl : ∀ c, (n, c) ∉ l := fun c hc => String.lt_irrefl n (hhead (n, c) hc)
      have hnm : ∀ c, (n, c) ∉ m := by
        intro c hc
        have hn : n ∈ l.map Prod.fst := hrest ▸ List.mem_map_of_mem (f := Prod.fst) hc
        obtain ⟨⟨_, c'⟩, hc', rfl⟩ := List.mem_map.1 hn
        exact hnl c' hc'
      simp only [List.map_cons, List.zip_cons_cons, List.mem_cons, ih, Prod.mk.injEq]
      constructor
      · rintro (⟨rfl, rfl⟩ | ⟨name, ha, hb⟩)
        · exact ⟨n, Or.inl ⟨rfl, rfl⟩, Or.inl ⟨rfl, rfl⟩⟩
        · exact ⟨name, Or.inr ha, Or.inr hb⟩
      · rintro ⟨name, ⟨rfl, rfl⟩ | ha, ⟨hb, rfl⟩ | hb⟩
        · exact Or.inl ⟨rfl, rfl⟩
        · exact absurd hb (hnm b)
        · exact absurd (hb ▸ ha) (hnl a)
        · exact Or.inr ⟨name, ha, hb⟩

theorem mem_zip_values_iff {d : Dict α} {e : Dict β} (hkeys : d.keys = e.keys) {a : α} {b : β} :
    (a, b) ∈ d.values.zip e.values ↔ ∃ name, d.find? name = some a ∧ e.find? name = some b := by
  unfold values
  rw [mem_zip_snd_iff d.ascending hkeys]
  simp only [find?_eq_some_iff]

end Dict
end ScriptCore
