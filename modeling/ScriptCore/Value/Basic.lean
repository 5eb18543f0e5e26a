import ScriptCore.Dict
import ScriptCore.Error
import ScriptCore.Numeric.Integer

/-!
# Values

A value has a tag, possibly a payload, and a null mark.  The three parts are independent:
a value keeps its tag when its payload is dropped, so a null string differs from an empty
one.  Maps hold the identities of cells and not values, so values that are stored in a heap
may share entries and contain themselves.

**Kinds.**  `Kind` lists the six kinds of data that a payload can hold.  Every operation
that asks for data of one kind goes through `Value.get`, which compares storages first and
looks for the payload second.

**Invariant.**  `Value.WellFormed` says that the null mark is set exactly when there is no
payload, and that a payload has the kind of the tag's storage.
-/

namespace ScriptCore

/-- The identity of a cell in a heap. -/
structure CellId where
  index : Nat
  deriving DecidableEq, Repr, Hashable, Inhabited

/-- The kinds of data that a value can hold. -/
inductive Kind
  | int
  | double
  | float
  | string
  | bool
  | map
  deriving DecidableEq, Repr

namespace Kind

def all : List Kind := [int, double, float, string, bool, map]

/-- The tag that data of this kind is stored under. -/
def tag : Kind → Tag
  | int => .int
  | double => .double
  | float => .float
  | string => .string
  | bool => .bool
  | map => .object

/-- The data of a kind. -/
abbrev Data : Kind → Type
  | int => Int64
  | double => Double
  | float => Single
  | string => String
  | bool => Bool
  | map => Dict CellId

/-- The kind with a name, by the tag it is stored under. -/
def ofName? (name : String) : Option Kind :=
  all.find? fun k => k.tag.name == name

end Kind

/-- Stored data, of any kind. -/
inductive Payload
  | int (n : Int64)
  | double (x : Double)
  | float (x : Single)
  | string (s : String)
  | bool (b : Bool)
  | map (m : Dict CellId)
  deriving DecidableEq, Repr

namespace Payload

def kind : Payload → Kind
  | int _ => .int
  | double _ => .double
  | float _ => .float
  | string _ => .string
  | bool _ => .bool
  | map _ => .map

/-- Data of a kind, as a payload. -/
def of : (k : Kind) → k.Data → Payload
  | .int, n => int n
  | .double, x => double x
  | .float, x => float x
  | .string, s => string s
  | .bool, b => bool b
  | .map, m => map m

/-- The data, if it has the kind asked for. -/
def as? : (k : Kind) → Payload → Option k.Data
  | .int, int n => some n
  | .double, double x => some x
  | .float, float x => some x
  | .string, string s => some s
  | .bool, bool b => some b
  | .map, map m => some m
  | _, _ => none

@[simp] theorem as?_of (k : Kind) (d : k.Data) : (of k d).as? k = some d := by
  cases k <;> rfl

@[simp] theorem kind_of (k : Kind) (d : k.Data) : (of k d).kind = k := by
  cases k <;> rfl

theorem as?_isSome_iff (k : Kind) (p : Payload) : (p.as? k).isSome ↔ p.kind = k := by
  cases k <;> cases p <;> simp [as?, kind]

/-- The cells that a payload refers to, in the order of their keys. -/
def children : Payload → List CellId
  | map m => m.values
  | _ => []

/-- Refer to other cells under the same keys. -/
def rename (f : CellId → CellId) : Payload → Payload
  | map m => map (m.map f)
  | p => p

/-- Data that counts as true: numbers other than zero, texts and maps that are not empty. -/
def truth : Payload → Bool
  | int n => n != 0
  | double x => !x.isZero
  | float x => !x.isZero
  | string s => !s.isEmpty
  | bool b => b
  | map m => !m.isEmpty

end Payload

/-- A dynamically typed value. -/
structure Value where
  tag : Tag
  payload : Option Payload
  nullMark : Bool
  deriving DecidableEq, Repr

namespace Value

/-- A value that holds data, under the tag of its kind. -/
def of (k : Kind) (d : k.Data) : Value := ⟨k.tag, some (.of k d), false⟩

/-- A value without data under a tag. -/
def bare (tag : Tag) : Value := ⟨tag, none, true⟩

/-- The untyped null. -/
def null : Value := bare .null

instance : Inhabited Value := ⟨null⟩

/-- The value of a slot that was declared and never assigned. -/
def undefined : Value := bare .undefined

def int (n : Int64) : Value := of .int n

def double (x : Double) : Value := of .double x

def float (x : Single) : Value := of .float x

def string (s : String) : Value := of .string s

def bool (b : Bool) : Value := of .bool b

def object (m : Dict CellId) : Value := of .map m

/-- A map under the class tag. -/
def klass (m : Dict CellId) : Value := ⟨.klass, some (.map m), false⟩

/-- An enumerator with its ordinal. -/
def enumerator (n : Int64) : Value := ⟨.enum, some (.int n), false⟩

/-- The initial value of a typed slot.  Strings, objects and classes start out empty and
not null. -/
def nullOf : Tag → Value
  | .string => string ""
  | .object => object .empty
  | .klass => klass .empty
  | t => bare t

/-- The zero of a type: numbers and booleans have one of their own, all others start out as
in `nullOf`. -/
def zeroOf : Tag → Value
  | .int => int 0
  | .double => double (.zero false)
  | .float => float (.zero false)
  | .bool => bool false
  | t => nullOf t

/-- Marked null, or without a payload. -/
def isNull (v : Value) : Bool := v.nullMark || v.payload.isNone

/-- The null mark agrees with the payload, and the payload with the tag's storage. -/
def WellFormed (v : Value) : Prop :=
  (v.nullMark = true ↔ v.payload = none) ∧
    ∀ p ∈ v.payload, p.kind.tag = v.tag.storage

/-- Read data of a kind. -/
def get (k : Kind) (v : Value) : Except Error k.Data :=
  if v.tag.storage = k.tag then
    match v.payload.bind (·.as? k) with
    | some d => .ok d
    | none => .error (Error.of (.nullValue v.tag))
  else .error (Error.of (.typeMismatch k.tag v.tag))

/-- Store data under the tag of its kind, which clears the null mark. -/
def set (k : Kind) (d : k.Data) (_ : Value) : Value := of k d

/-- Change stored data in place; tag and null mark stay. -/
def put (k : Kind) (d : k.Data) (v : Value) : Except Error Value :=
  (v.get k).map fun _ => { v with payload := some (.of k d) }

/-- Give a null value another tag. -/
def setTag (t : Tag) (v : Value) : Except Error Value :=
  if v.isNull then .ok { v with tag := t }
  else .error (Error.of (.custom s!"cannot retag a non-null {v.tag} value as {t}"))

/-- Drop the payload and keep the tag. -/
def clear (v : Value) : Value := { v with payload := none, nullMark := true }

/-- Turn an object into a class. -/
def asClass (v : Value) : Value :=
  if v.tag = .object then { v with tag := .klass } else v

/-- The map of a value that has one and is not null. -/
def map? (v : Value) : Option (Dict CellId) :=
  match v.payload with
  | some (.map m) => if v.nullMark then none else some m
  | _ => none

/-- The map of an object or a class. -/
def map (v : Value) : Except Error (Dict CellId) :=
  if v.tag.isCompound then
    match v.map? with
    | some m => .ok m
    | none => .error (Error.of (.nullValue v.tag))
  else .error (Error.of (.typeMismatch .object v.tag))

/-- Change the map of an object or a class in place. -/
def updateMap (f : Dict CellId → Dict CellId) (v : Value) : Except Error Value :=
  v.map.map fun m => { v with payload := some (.map (f m)) }

/-- Set an entry.  A value without a map is made an empty object first. -/
def insert (key : String) (c : CellId) (v : Value) : Value :=
  match v.map? with
  | some m => { v with payload := some (.map (m.insert key c)) }
  | none => object (Dict.empty.insert key c)

/-- Drop an entry. -/
def erase (key : String) (v : Value) : Value :=
  match v.map? with
  | some m => { v with payload := some (.map (m.erase key)) }
  | none => v

/-- The entry under a key, if there is a map and it has one. -/
def lookup? (key : String) (v : Value) : Option CellId :=
  v.map?.bind (·.find? key)

/-- The truth of a value in a condition. -/
def truth (v : Value) : Except Error Bool :=
  if v.isNull then .error (Error.of (.nullValue v.tag))
  else
    match v.payload with
    | some p => .ok p.truth
    | none => .error (Error.of (.nullValue v.tag))

/-- The cells that a value refers to, in the order of their keys. -/
def children (v : Value) : List CellId :=
  match v.payload with
  | some p => p.children
  | none => []

/-- Refer to other cells under the same keys. -/
def rename (f : CellId → CellId) (v : Value) : Value :=
  { v with payload := v.payload.map (·.rename f) }

end Value
end ScriptCore
