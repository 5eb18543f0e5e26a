import ScriptCore.Error

/-!
# Arenas

An arena keeps items in numbered slots and gives out a handle for each item.  A handle
records the arena, the slot and the generation of the slot.  Removing an item raises the
generation of its slot before the slot is used again, so a handle of a removed item never
reaches the item that follows it.

**Slots.**  A vacant slot is on the list of free slots, the one vacated last in front; an
insertion takes the front of that list and makes a new slot only when the list is empty.

**Identities.**  All arenas are numbered from one counter, in the order in which they are made.
-/

namespace ScriptCore

/-- The name of an item: arena, slot and generation. -/
structure Handle where
  arena : UInt32
  index : UInt32
  generation : UInt32
  deriving DecidableEq, Repr, Inhabited

/-- A slot and the number of times it was vacated. -/
structure Slot (α : Type) where
  generation : UInt32
  item : Option α
  deriving DecidableEq, Repr

/-- Items in slots, with the free slots. -/
structure Arena (α : Type) where
  id : UInt32
  slots : Array (Slot α)
  free : List UInt32
  deriving DecidableEq, Repr

namespace Arena

variable {α : Type}

/-- An arena without slots. -/
def new (id : UInt32) : Arena α := ⟨id, #[], []⟩

/-- Where the counter of arenas starts. -/
def firstId : UInt32 := 1

/-- Take the next identity from the counter, which wraps around. -/
def takeId : StateM UInt32 UInt32 := fun next => (next, next + 1)

/-- Make an arena under the next identity. -/
def create : StateM UInt32 (Arena α) := return new (← takeId)

/-- The number of items. -/
def size (a : Arena α) : Nat := a.slots.size - a.free.length

/-- The handle of a slot in its current generation. -/
def handleOf (a : Arena α) (index generation : UInt32) : Handle :=
  ⟨a.id, index, generation⟩

/-- The item that a handle names, if the handle is of this arena and generation. -/
def item? (a : Arena α) (h : Handle) : Option α :=
  if h.arena = a.id then
    match a.slots[h.index.toNat]? with
    | some slot => if slot.generation = h.generation then slot.item else none
    | none => none
  else none

/-- The handle names an item. -/
def contains (a : Arena α) (h : Handle) : Bool := (a.item? h).isSome

/-- The item that a handle names. -/
def get (a : Arena α) (h : Handle) : Except Error α :=
  match a.item? h with
  | some x => .ok x
  | none => .error (Error.of .staleHandle)

/-- Put a slot at an index that is in use. -/
def setSlot (a : Arena α) (index : UInt32) (slot : Slot α) : Arena α :=
  { a with slots := a.slots.setIfInBounds index.toNat slot }

/-- Put an item into a new slot. -/
def insertFresh (x : α) : Action (Arena α) Handle := fun a =>
  if a.slots.size < UInt32.size then
    (.ok (a.handleOf a.slots.size.toUInt32 0), { a with slots := a.slots.push ⟨0, some x⟩ })
  else (.error (Error.of (.custom "native handle arena is full")), a)

/-- Put an item into the slot vacated last, or else into a new slot. -/
def insert (x : α) : Action (Arena α) Handle := fun a =>
  match a.free with
  | [] => insertFresh x a
  | index :: free =>
      match a.slots[index.toNat]? with
      | some slot =>
          (.ok (a.handleOf index slot.generation),
            { a.setSlot index { slot with item := some x } with free })
      | none => insertFresh x { a with free }

/-- Change the item that a handle names. -/
def modify (h : Handle) (f : α → α) : Action (Arena α) α := fun a =>
  match a.item? h with
  | some x => (.ok (f x), a.setSlot h.index ⟨h.generation, some (f x)⟩)
  | none => (.error (Error.of .staleHandle), a)

/-- Take out the item that a handle names.  Every copy of the handle is stale from then
on. -/
def remove (h : Handle) : Action (Arena α) α := fun a =>
  match a.item? h with
  | some x =>
      (.ok x,
        { a.setSlot h.index ⟨h.generation + 1, none⟩ with free := h.index :: a.free })
  | none => (.error (Error.of .staleHandle), a)

end Arena
end ScriptCore
