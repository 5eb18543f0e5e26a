import ScriptCore.Registry.Lineage

/-!
# Instances

An instance is a class value made out of the entries of a map.  If the entries name a class,
each property of its lineage that is not static gets an entry under its dollar name, unless
there is one; what the nearest class declares comes first.
-/

namespace ScriptCore
namespace Container

/-- Add the entries of the properties that have none yet, in order. -/
def fill : List Property → Dict CellId → StateM Heap (Dict CellId)
  | [], m, h => (m, h)
  | p :: rest, m, h =>
      if m.contains (dollarName p.name) then fill rest m h
      else
        let (cell, h) := p.initialCell h
        fill rest (m.insert (dollarName p.name) cell) h

/-- The properties that instances of a class have, nearest class first. -/
def instanceProperties (k : Container) (name : String) : List Property :=
  ((k.lineage name).flatMap Class.properties).filter fun p => !p.isStatic

/-- The name of the class that a cell names. -/
def classNameIn (heap : Heap) (c : CellId) : Except Error String :=
  let v := heap.read c
  if v.tag = .string then v.get .string else .error (Error.of (.typeMismatch .string v.tag))

/-- The class that the entries of an instance name, if they name one. -/
def instanceClass? (k : Container) (heap : Heap) (m : Dict CellId) :
    Except Error (Option String) :=
  match m.find? classKey with
  | none => .ok none
  | some c =>
      match classNameIn heap c with
      | .ok name =>
          if k.hasClass name then .ok (some name) else .error (Error.of (.unknownClass name))
      | .error e => .error e

/-- Make an instance out of entries. -/
def instantiate (k : Container) (m : Dict CellId) : Action Heap CellId := fun h =>
  match k.instanceClass? h m with
  | .error e => (.error e, h)
  | .ok none => Action.always (Heap.alloc (.klass m)) h
  | .ok (some name) =>
      let (filled, h) := fill (k.instanceProperties name) m h
      Action.always (Heap.alloc (.klass filled)) h

end Container
end ScriptCore
