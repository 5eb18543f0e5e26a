import ScriptCore.Tag

/-!
# Errors

An error has a cause and a list of notes added by the callers it passed through.
The wording of every cause is in `Cause.message`; the full text shows the notes
below the message, one per line.
-/

namespace ScriptCore

/-- Why an operation was refused. -/
inductive Cause
  /-- Data of one type was requested from a value that stores another. -/
  | typeMismatch (expected got : Tag)
  /-- Data was requested from a value that stores none. -/
  | nullValue (tag : Tag)
  /-- A text does not denote a value of the requested type. -/
  | invalidConversion (input : String) (target : Tag)
  | undefinedSymbol (name : String)
  | immutableAssignment (name : String)
  | wrongSymbolKind (name expected got : String)
  | unknownScope (name : String)
  | unknownFunction (name : String)
  | unknownClass (name : String)
  | unknownMethod (owner method : String)
  | unknownModule (name : String)
  /-- A class or an enum already has a member of that name. -/
  | duplicateMember (owner member : String)
  | arityMismatch (name : String) (expected got : Nat)
  | argumentType (name expected : String) (got : Tag)
  /-- A handle was removed, belongs to another arena, or was never issued. -/
  | staleHandle
  /-- Any other refusal, with its own wording. -/
  | custom (message : String)
  deriving DecidableEq, Repr

/-- The wording of a cause. -/
def Cause.message : Cause → String
  | .typeMismatch expected got => s!"bad cast: expected {expected}, got {got}"
  | .nullValue tag => s!"attempted to read a null {tag} value"
  | .invalidConversion input target => s!"cannot convert '{input}' to {target}"
  | .undefinedSymbol name => s!"undefined symbol: {name}"
  | .immutableAssignment name => s!"cannot assign to constant: {name}"
  | .wrongSymbolKind name expected got => s!"symbol {name} is a {got}, expected a {expected}"
  | .unknownScope name => s!"scope does not exist: {name}"
  | .unknownFunction name => s!"function not found: {name}"
  | .unknownClass name => s!"class not found: {name}"
  | .unknownMethod owner method => s!"method not found: {owner}::{method}"
  | .unknownModule name => s!"module not found: {name}"
  | .duplicateMember owner member => s!"{owner} already declares {member}"
  | .arityMismatch name expected got =>
      let noun := if expected = 1 then "argument" else "arguments"
      s!"{name} expects {expected} {noun}, got {got}"
  | .argumentType name expected got => s!"{name} expects a {expected} argument, got {got}"
  | .staleHandle => "native handle is stale or foreign"
  | .custom message => message

/-- A cause with the notes collected on the way out, the first added first. -/
structure Error where
  cause : Cause
  notes : List String
  deriving DecidableEq, Repr

namespace Error

/-- An error without notes. -/
def of (cause : Cause) : Error := ⟨cause, []⟩

instance : Coe Cause Error := ⟨of⟩

/-- The error with one more note. -/
def withNote (e : Error) (note : String) : Error :=
  { e with notes := e.notes ++ [note] }

/-- The wording of the cause, without notes. -/
def message (e : Error) : String := e.cause.message

/-- The message followed by the notes. -/
def text (e : Error) : String :=
  e.notes.foldl (fun acc note => s!"{acc}\n  note: {note}") e.message

end Error

/-- A computation over a state that may be refused: a function from a state to an outcome
and a state.  The state is handed on in either case, so a refused action may have changed
it. -/
abbrev Action (σ : Type) (α : Type) : Type := ExceptT Error (StateM σ) α

namespace Action

variable {σ τ α β : Type}

/-- Refuse with a cause and leave the state alone. -/
def refuse (cause : Cause) : Action σ α := fun s => (.error (Error.of cause), s)

/-- Run a computation that is never refused. -/
def always (act : StateM σ α) : Action σ α := fun s =>
  let (a, s) := act s
  (.ok a, s)

/-- Run an action on a part of the state. -/
def onPart (get : σ → τ) (put : σ → τ → σ) (act : Action τ α) : Action σ α := fun s =>
  let (result, part) := act (get s)
  (result, put s part)

/-- A refusal ends a sequence of actions. -/
theorem bind_apply (act : Action σ α) (next : α → Action σ β) (s : σ) :
    (act >>= next) s =
      match act s with
      | (.ok a, t) => next a t
      | (.error e, t) => (.error e, t) := by
  have hrun : (act >>= next) s = ExceptT.bindCont next (act s).1 (act s).2 := rfl
  rw [hrun]
  rcases act s with ⟨_ | a, t⟩ <;> rfl

end Action
end ScriptCore
