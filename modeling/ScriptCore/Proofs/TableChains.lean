import ScriptCore.Symbol.Store

/-!
# Collections of tables

What the operations on a collection of tables do, read through `Tables.get?`, and what a
look-up along the parents of a table depends on.

**Change.**  A collection grows at its end, and a table that is in it may get other symbols but
never another parent.  `Tables.KeepsParents` says this of two collections.  `Tables.KeepsExcept`
says more: of the tables that were there only the given ones may have other symbols.

**Look-up.**  Parents are older, so a look-up that starts in the collection stays in it
(`Tables.has_parent`) and does not notice what is added later (`Tables.lookup?_congr`).

**Layers.**  `Tables.layers` is what the tables of a chain have, from the table outwards.  A look-up
depends on the layers alone (`Tables.lookup?_eq_findSome?`), so two tables with equal layers find
the same symbols, whatever their identities are.
-/

namespace ScriptCore

theorem Spaces.find?_define (s : Spaces) (space name : String) (id : SymbolId)
    (other key : String) :
    (s.define space name id).find? other key =
      if other = space ∧ key = name then some id else s.find? other key := by
  unfold find? define
  rw [Dict.find?_insert]
  by_cases hspace : other = space
  · subst hspace
    rw [if_pos rfl, Option.bind_some, Dict.find?_insert]
    by_cases hkey : key = name
    · rw [if_pos hkey, if_pos ⟨rfl, hkey⟩]
    · rw [if_neg hkey, if_neg fun h => hkey h.2]
      cases Dict.find? s other <;> rfl
  · rw [if_neg hspace, if_neg fun h => hspace h.1]

/-- What a table has under a namespace and a name. -/
abbrev Layer : Type := String → String → Option SymbolId

def Layer.empty : Layer := fun _ _ => none

namespace Tables

/-- The table is in the collection. -/
def Has (ts : Tables) (t : TableId) : Prop := t.index < ts.size

instance (ts : Tables) (t : TableId) : Decidable (ts.Has t) :=
  inferInstanceAs (Decidable (t.index < ts.size))

section Operations

variable (ts : Tables) (parent : Option TableId) (f : Spaces → Spaces) (t u : TableId)

theorem not_has_next : ¬ ts.Has ts.next := Nat.lt_irrefl _

@[simp] theorem size_add : (ts.add parent).size = ts.size + 1 := by
  simp [add, size]

@[simp] theorem size_modify : (ts.modify t f).size = ts.size := by
  simp [modify, size]

theorem has_next_add : (ts.add parent).Has ts.next := by
  unfold Has
  rw [size_add]
  exact Nat.lt_succ_self _

theorem get?_add :
    (ts.add parent).get? t =
      if t = ts.next then some ⟨parent.filter fun p => p.index < ts.size, .empty⟩
      else ts.get? t := by
  obtain ⟨i⟩ := t
  by_cases hi : i = ts.all.size <;> simp [get?, add, next, size, Array.getElem?_push, hi]

theorem get?_modify :
    (ts.modify t f).get? u =
      if u = t then (ts.get? u).map fun table => { table with spaces := f table.spaces }
      else ts.get? u := by
  obtain ⟨i⟩ := t
  obtain ⟨j⟩ := u
  by_cases hij : j = i
  · simp [get?, modify, Array.getElem?_modify, hij]
  · simp [get?, modify, Array.getElem?_modify, hij, Ne.symm hij]

theorem parent?_modify : (ts.modify t f).parent? u = ts.parent? u := by
  unfold parent?
  rw [get?_modify]
  by_cases hu : u = t
  · rw [if_pos hu]
    cases ts.get? u <;> rfl
  · rw [if_neg hu]

end Operations

variable {ts us vs : Tables} {t p : TableId}

theorem ne_next_of_has (ht : ts.Has t) : t ≠ ts.next := by
  rintro rfl
  exact ts.not_has_next ht

theorem get?_add_of_has (parent : Option TableId) (ht : ts.Has t) :
    (ts.add parent).get? t = ts.get? t := by
  rw [get?_add, if_neg (ne_next_of_has ht)]

theorem has_parent (ht : ts.Has t) (hp : ts.parent? t = some p) : ts.Has p :=
  Nat.lt_trans (parent?_lt hp) ht

/-- Nothing is lost, and every table keeps its parent. -/
structure KeepsParents (ts us : Tables) : Prop where
  size_le : ts.size ≤ us.size
  parent?_eq : ∀ t, ts.Has t → us.parent? t = ts.parent? t

namespace KeepsParents

theorem refl (ts : Tables) : KeepsParents ts ts := ⟨Nat.le_refl _, fun _ _ => rfl⟩

theorem has (h : KeepsParents ts us) (ht : ts.Has t) : us.Has t := Nat.lt_of_lt_of_le ht h.size_le

theorem add (ts : Tables) (parent : Option TableId) : KeepsParents ts (ts.add parent) where
  size_le := by simp
  parent?_eq := by
    intro t ht
    unfold parent?
    rw [get?_add_of_has parent ht]

theorem modify (ts : Tables) (t : TableId) (f : Spaces → Spaces) :
    KeepsParents ts (ts.modify t f) where
  size_le := by simp
  parent?_eq u _ := parent?_modify ts f t u

end KeepsParents

/-- Nothing is lost, and every table is as it was, the written ones apart. -/
structure KeepsExcept (written : TableId → Prop) (ts us : Tables) : Prop where
  size_le : ts.size ≤ us.size
  get?_eq : ∀ t, ts.Has t → ¬ written t → us.get? t = ts.get? t

namespace KeepsExcept

variable {written : TableId → Prop}

theorem refl (written : TableId → Prop) (ts : Tables) : KeepsExcept written ts ts :=
  ⟨Nat.le_refl _, fun _ _ _ => rfl⟩

theorem has (h : KeepsExcept written ts us) (ht : ts.Has t) : us.Has t :=
  Nat.lt_of_lt_of_le ht h.size_le

theorem trans (h₁ : KeepsExcept written ts us) (h₂ : KeepsExcept written us vs) :
    KeepsExcept written ts vs where
  size_le := Nat.le_trans h₁.size_le h₂.size_le
  get?_eq := by
    intro t ht hw
    rw [h₂.get?_eq t (h₁.has ht) hw, h₁.get?_eq t ht hw]

theorem weaken {other : TableId → Prop} (h : KeepsExcept written ts us)
    (hother : ∀ t, ts.Has t → written t → other t) : KeepsExcept other ts us where
  size_le := h.size_le
  get?_eq := by
    intro t ht hw
    exact h.get?_eq t ht fun hwritten => hw (hother t ht hwritten)

theorem add (written : TableId → Prop) (ts : Tables) (parent : Option TableId) :
    KeepsExcept written ts (ts.add parent) where
  size_le := by simp
  get?_eq _ ht _ := get?_add_of_has parent ht

theorem modify (ts : Tables) (t : TableId) (f : Spaces → Spaces) :
    KeepsExcept (· = t) ts (ts.modify t f) where
  size_le := by simp
  get?_eq := by
    intro u _ hu
    rw [get?_modify, if_neg hu]

end KeepsExcept

section Lookup

variable (space name : String)

/-- A look-up is a look into the table and, failing that, a look-up from its parent. -/
theorem lookup?_eq (ts : Tables) (t : TableId) :
    ts.lookup? t space name =
      (ts.local? t space name).or ((ts.parent? t).bind (ts.lookup? · space name)) := by
  rw [lookup?]
  split
  · next id hlocal =>
      rw [hlocal]
      rfl
  · next hlocal =>
      rw [hlocal]
      split
      · next p hp =>
          rw [hp]
          rfl
      · next hp =>
          rw [hp]
          rfl

theorem local?_congr (h : us.get? t = ts.get? t) :
    us.local? t space name = ts.local? t space name := by
  unfold local? spacesOf
  rw [h]

theorem local?_next_add (ts : Tables) (parent : Option TableId) :
    (ts.add parent).local? ts.next space name = none := by
  unfold local? spacesOf
  rw [get?_add, if_pos rfl]
  rfl

theorem parent?_next_add (ts : Tables) (parent : Option TableId) :
    (ts.add parent).parent? ts.next = parent.filter fun p => p.index < ts.size := by
  unfold parent?
  rw [get?_add, if_pos rfl]
  rfl

theorem parent?_next_add_some (hp : ts.Has p) :
    (ts.add (some p)).parent? ts.next = some p := by
  have hlt : p.index < ts.size := hp
  rw [parent?_next_add]
  simp [Option.filter, hlt]

/-- Collections that agree on the tables of one of them give the same answers from there. -/
theorem lookup?_congr (h : KeepsExcept (fun _ => False) ts us) (ht : ts.Has t) :
    us.lookup? t space name = ts.lookup? t space name := by
  have hlocal_eq : ∀ t, ts.Has t → us.local? t space name = ts.local? t space name := by
    intro t ht
    exact local?_congr space name (h.get?_eq t ht not_false)
  have hparent_eq : ∀ t, ts.Has t → us.parent? t = ts.parent? t := by
    intro t ht
    unfold parent?
    rw [h.get?_eq t ht not_false]
  fun_induction ts.lookup? t space name with
  | case1 t id hlocal =>
      rw [lookup?_eq, hlocal_eq t ht, hlocal]
      rfl
  | case2 t hlocal p hp ih =>
      rw [lookup?_eq, hlocal_eq t ht, hlocal, hparent_eq t ht, hp]
      exact ih (has_parent ht hp)
  | case3 t hlocal hp =>
      rw [lookup?_eq, hlocal_eq t ht, hlocal, hparent_eq t ht, hp]
      rfl

/-- A new table without a parent finds nothing. -/
theorem lookup?_next_add_none (ts : Tables) :
    (ts.add none).lookup? ts.next space name = none := by
  rw [lookup?_eq, local?_next_add, parent?_next_add]
  rfl

/-- A new table finds what its parent finds. -/
theorem lookup?_next_add_some (hp : ts.Has p) :
    (ts.add (some p)).lookup? ts.next space name = ts.lookup? p space name := by
  rw [lookup?_eq, local?_next_add, parent?_next_add_some hp]
  exact lookup?_congr space name (KeepsExcept.add _ ts (some p)) hp

/-- A table without a parent finds what it has itself. -/
theorem lookup?_of_parent?_none (hp : ts.parent? t = none) :
    ts.lookup? t space name = ts.local? t space name := by
  rw [lookup?_eq, hp]
  cases ts.local? t space name <;> rfl

end Lookup

section Layers

/-- A chain is the table and the chain of its parent. -/
theorem chain_eq (ts : Tables) (t : TableId) :
    ts.chain t = t :: ((ts.parent? t).map ts.chain).getD [] := by
  rw [chain]
  split
  · next p hp =>
      rw [hp]
      rfl
  · next hp =>
      rw [hp]
      rfl

/-- What the tables of a chain have themselves, from the table outwards. -/
def layers (ts : Tables) (t : TableId) : List Layer :=
  (ts.chain t).map ts.local?

theorem layers_eq (ts : Tables) (t : TableId) :
    ts.layers t = ts.local? t :: ((ts.parent? t).map ts.layers).getD [] := by
  unfold layers
  rw [chain_eq, List.map_cons]
  cases ts.parent? t <;> rfl

/-- A look-up answers with the first layer that has the name. -/
theorem lookup?_eq_findSome? (ts : Tables) (t : TableId) (space name : String) :
    ts.lookup? t space name = (ts.layers t).findSome? fun layer => layer space name := by
  fun_induction ts.lookup? t space name with
  | case1 t id hlocal =>
      rw [layers_eq, List.findSome?_cons, hlocal]
  | case2 t hlocal p hp ih =>
      rw [layers_eq, List.findSome?_cons, hlocal, hp, ih]
      rfl
  | case3 t hlocal hp =>
      rw [layers_eq, List.findSome?_cons, hlocal, hp]
      rfl

/-- The layers depend on no table that is newer than the first of them. -/
theorem layers_congr (h : ∀ u : TableId, u.index ≤ t.index → us.get? u = ts.get? u) :
    us.layers t = ts.layers t := by
  have hparent : ∀ u : TableId, u.index ≤ t.index → us.parent? u = ts.parent? u := by
    intro u hu
    unfold parent?
    rw [h u hu]
  have hlocal : ∀ u : TableId, u.index ≤ t.index → us.local? u = ts.local? u := by
    intro u hu
    funext space name
    exact local?_congr space name (h u hu)
  clear h
  fun_induction ts.chain t with
  | case1 t p hp ih =>
      have hlt : p.index < t.index := parent?_lt hp
      have hrest : us.layers p = ts.layers p :=
        ih (fun u hu => hparent u (by omega)) (fun u hu => hlocal u (by omega))
      rw [layers_eq us, layers_eq ts, hparent t (Nat.le_refl _), hlocal t (Nat.le_refl _), hp,
        Option.map_some, Option.map_some, hrest]
  | case2 t hp =>
      rw [layers_eq us, layers_eq ts, hparent t (Nat.le_refl _), hlocal t (Nat.le_refl _), hp]
      rfl

theorem layers_of_keepsExcept (h : KeepsExcept (fun _ => False) ts us) (ht : ts.Has t) :
    us.layers t = ts.layers t :=
  layers_congr fun u hu => h.get?_eq u (Nat.lt_of_le_of_lt hu ht) not_false

theorem local?_next_add_eq (ts : Tables) (parent : Option TableId) :
    (ts.add parent).local? ts.next = Layer.empty := by
  funext space name
  exact local?_next_add space name ts parent

theorem layers_next_add_none (ts : Tables) :
    (ts.add none).layers ts.next = [Layer.empty] := by
  rw [layers_eq, local?_next_add_eq, parent?_next_add]
  rfl

theorem layers_next_add_some (hp : ts.Has p) :
    (ts.add (some p)).layers ts.next = Layer.empty :: ts.layers p := by
  rw [layers_eq, local?_next_add_eq, parent?_next_add_some hp, Option.map_some, Option.getD_some,
    layers_of_keepsExcept (KeepsExcept.add _ ts (some p)) hp]

/-- A table without a parent has one layer. -/
theorem layers_of_parent?_none (hp : ts.parent? t = none) : ts.layers t = [ts.local? t] := by
  rw [layers_eq, hp]
  rfl

theorem local?_modify (f : Spaces → Spaces) (ht : ts.Has t) :
    (ts.modify t f).local? t = (f (ts.spacesOf t)).find? := by
  funext space name
  have hlt : t.index < ts.all.size := ht
  unfold local? spacesOf
  rw [get?_modify, if_pos rfl]
  simp [get?, hlt]

/-- A change of a table concerns the first of its layers. -/
theorem layers_modify (f : Spaces → Spaces) (ht : ts.Has t) :
    (ts.modify t f).layers t = (f (ts.spacesOf t)).find? :: (ts.layers t).tail := by
  rw [layers_eq, layers_eq ts, local?_modify f ht, parent?_modify, List.tail_cons]
  cases hp : ts.parent? t with
  | none => rfl
  | some p =>
      -- The parent is older, so no table of its chain is the one that was changed.
      have hrest : (ts.modify t f).layers p = ts.layers p := by
        refine layers_congr fun u hu => ?_
        have hlt : p.index < t.index := parent?_lt hp
        have hne : u ≠ t := by
          rintro rfl
          omega
        rw [get?_modify, if_neg hne]
      rw [Option.map_some, hrest]
      rfl

end Layers

end Tables
end ScriptCore
