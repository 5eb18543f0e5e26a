/-!
# Type tags

Every script value carries one of ten tags.  A tag has a name that scripts see, a
storage tag that says which representation its data has, and a label used in
structural listings.

**Storage.**  Class values are stored as object maps and enumerators as integers;
every other tag is its own storage.
-/

namespace ScriptCore

/-- The type tag of a value. -/
inductive Tag
  | int
  | double
  | float
  | string
  | bool
  | object
  | klass
  | null
  | enum
  | undefined
  deriving DecidableEq, Repr, Inhabited

namespace Tag

/-- Every tag, in the order in which listings show them. -/
def all : List Tag :=
  [int, double, float, string, bool, object, klass, null, enum, undefined]

/-- The tag of a value of which nothing is known. -/
def unspecified : Tag := null

/-- The name that scripts use. -/
def name : Tag → String
  | int => "int"
  | double => "double"
  | float => "float"
  | string => "string"
  | bool => "bool"
  | object => "object"
  | klass => "class"
  | null => "null"
  | enum => "enum"
  | undefined => "undefined"

/-- The tag that a name declares.  `integer` and `boolean` are second names, and a name
that declares nothing else is read as `null`. -/
def ofName : String → Tag
  | "int" | "integer" => int
  | "double" => double
  | "float" => float
  | "string" => string
  | "bool" | "boolean" => bool
  | "object" => object
  | "class" => klass
  | "enum" => enum
  | "undefined" => undefined
  | _ => null

/-- The label of the tag in structural listings. -/
def label : Tag → String
  | int => "Integer"
  | double => "Double"
  | float => "Float"
  | string => "String"
  | bool => "Boolean"
  | object => "Object"
  | klass => "Class"
  | null => "Null"
  | enum => "Enum"
  | undefined => "Undefined"

/-- The tag whose representation this tag shares. -/
def storage : Tag → Tag
  | klass => object
  | enum => int
  | t => t

/-- Values with this tag are backed by an object map. -/
def isCompound (t : Tag) : Bool :=
  t.storage = object

/-- The three tags of plain numbers. -/
def isNumeric : Tag → Bool
  | int | double | float => true
  | _ => false

instance : ToString Tag := ⟨name⟩

@[simp] theorem storage_storage (t : Tag) : t.storage.storage = t.storage := by
  cases t <;> rfl

@[simp] theorem ofName_name (t : Tag) : ofName t.name = t := by
  cases t <;> rfl

end Tag
end ScriptCore
