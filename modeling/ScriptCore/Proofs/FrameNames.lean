import Mathlib.Data.List.Nodup
import ScriptCore.Proofs.EngineRuns
import ScriptCore.Proofs.MethodDocs

/-!
# Names of call frames

The name of a call frame is a base, a mark and the number of the call.  The base is any text and may
have marks and digits of its own, so that names cannot be told apart from the left.  From the right
they can: the number has digits only, and the mark ends in a character that is no digit.

**Numbers.**  `Engine.frames` lists the names that the calls of a run answered.  They are numbered
from the counter on, in the order of the calls (`frames_eq`).  The counter has 64 bits and wraps
around, so fewer than `2 ^ 64` frames have different numbers, from wherever it starts.

**Results.**
* `frameName_inj`: the base and the number can be read off a name.
* `frames_eq`: the names that a run answers.
* `frame_names_distinct`: no two of them are the same.
-/

namespace ScriptCore

/-- The base of the call frame that a call enters. -/
def EngineCall.base? : EngineCall → Option String
  | .scope (.enterCall base) => some base
  | _ => none

/-- The names that the calls of a run answer for the frames they enter, in order. -/
def Engine.frames (e : Engine) : List EngineCall → List String
  | [] => []
  | c :: calls =>
      let rest := Engine.frames (c.perform e) calls
      match c.base? with
      | some base => (Engine.enterCall base e).1 :: rest
      | none => rest

section Decoding

/-- A name up to the last character of the mark, and the number behind it. -/
theorem toList_frameName (base : String) (number : UInt64) :
    (Engine.frameName base number).toList =
      (base.toList ++ "::call".toList) ++ '_' :: (toString number.toNat).toList := by
  have hmark : callMark.toList = "::call".toList ++ ['_'] := by decide
  have hnumber : toString number = toString number.toNat := rfl
  rw [Engine.frameName, String.toList_append, String.toList_append, hmark, hnumber]
  simp only [List.append_assoc, List.cons_append, List.nil_append]

theorem underscore_not_mem_toString (n : Nat) : '_' ∉ (toString n).toList := by
  rw [Nat.toString_eq_repr, Nat.toList_repr]
  intro hmem
  have hdigit : '_'.isDigit = true := Nat.isDigit_of_mem_toDigits (by decide) (by decide) hmem
  exact absurd hdigit (by decide)

/-- The base and the number can be read off the name of a frame. -/
theorem frameName_inj {base base' : String} {m n : UInt64}
    (h : Engine.frameName base m = Engine.frameName base' n) : base = base' ∧ m = n := by
  have hlists := congrArg String.toList h
  rw [toList_frameName, toList_frameName] at hlists
  -- The underscore of the mark is the last one, whatever the base has.
  obtain ⟨hfront, hnumbers⟩ := eq_of_append_cons_eq (underscore_not_mem_toString _)
    (underscore_not_mem_toString _) hlists
  constructor
  · exact String.toList_inj.1 (List.append_cancel_right hfront)
  · exact UInt64.toNat_inj.1 (toString_inj (String.toList_inj.1 hnumbers))

end Decoding

section Counting

variable {c : EngineCall} {base : String}

theorem base?_eq_some_iff : c.base? = some base ↔ c = .scope (.enterCall base) := by
  cases c with
  | scope c => cases c <;> simp [EngineCall.base?]
  | _ => simp [EngineCall.base?]

/-- A call that enters no frame leaves the counter alone. -/
theorem nextFrame_of_base?_none (h : c.base? = none) (e : Engine) :
    (c.perform e).container.nextFrame = e.container.nextFrame := by
  cases c with
  | scope c =>
      cases c with
      | create name => rfl
      | enterBlock name => rfl
      | enterCall base => cases h
      | enter name =>
          cases htable : e.container.scopes.find? name <;>
            simp [EngineCall.perform, ScopeCall.perform, Engine.onContainer, Action.onPart,
              Container.enter, htable]
      | leave =>
          cases hpop : e.container.stack.pop? <;>
            simp [EngineCall.perform, ScopeCall.perform, Engine.leave, Container.leave, hpop]
      | stepOut =>
          cases hpop : e.container.stack.pop? <;>
            simp [EngineCall.perform, ScopeCall.perform, Container.stepOut, hpop]
  | registry c => exact (keepsScopes_registry c e).container.nextFrame
  | store c => rfl
  | add a id target => rfl
  | assign name c => rfl
  | call callee args => rfl

/-- The frames of a run have the bases that were given, numbered from the counter on. -/
theorem frames_eq (e : Engine) (calls : List EngineCall) :
    e.frames calls = (calls.filterMap EngineCall.base?).mapIdx fun i base =>
      Engine.frameName base (e.container.nextFrame + UInt64.ofNat i) := by
  induction calls generalizing e with
  | nil => rfl
  | cons c calls ih =>
      rw [Engine.frames, ih]
      cases hbase : c.base? with
      | none => rw [List.filterMap_cons_none hbase, nextFrame_of_base?_none hbase]
      | some base =>
          obtain rfl := base?_eq_some_iff.1 hbase
          have hname : (Engine.enterCall base e).1 =
              Engine.frameName base (e.container.nextFrame + UInt64.ofNat 0) :=
            congrArg (Engine.frameName base) (UInt64.add_zero _).symm
          have hnext : ((EngineCall.scope (.enterCall base)).perform e).container.nextFrame =
              e.container.nextFrame + UInt64.ofNat 1 := rfl
          -- The place of each later frame is one more than among the frames behind this call.
          have hplace : ∀ i, e.container.nextFrame + UInt64.ofNat 1 + UInt64.ofNat i =
              e.container.nextFrame + UInt64.ofNat (i + 1) := by
            intro i
            rw [UInt64.add_assoc, ← UInt64.ofNat_add, Nat.add_comm]
          rw [List.filterMap_cons_some hbase, List.mapIdx_cons, ← hname, hnext]
          simp only [hplace]

end Counting

/-- Numbers below `2 ^ 64` are different in 64 bits, from wherever they are counted. -/
theorem eq_of_add_ofNat_eq {start : UInt64} {i j : Nat} (hi : i < 2 ^ 64) (hj : j < 2 ^ 64)
    (h : start + UInt64.ofNat i = start + UInt64.ofNat j) : i = j := by
  have hcancel : UInt64.ofNat i = UInt64.ofNat j := (UInt64.add_right_inj start).1 h
  have hnat := congrArg UInt64.toNat hcancel
  rwa [UInt64.toNat_ofNat_of_lt' hi, UInt64.toNat_ofNat_of_lt' hj] at hnat

/-- Fewer than `2 ^ 64` calls of a run enter frames, from any bases and with any calls between
them.  Each of them answers with a name, and no two of the names are the same. -/
theorem frame_names_distinct (e : Engine) (calls : List EngineCall)
    (hfew : (calls.filterMap EngineCall.base?).length < 2 ^ 64) :
    (e.frames calls).length = (calls.filterMap EngineCall.base?).length ∧
      (e.frames calls).Nodup := by
  rw [frames_eq]
  refine ⟨List.length_mapIdx, ?_⟩
  rw [List.nodup_iff_getElem?_ne_getElem?]
  intro i j hij hj heq
  rw [List.length_mapIdx] at hj
  have hi : i < (calls.filterMap EngineCall.base?).length := hij.trans hj
  rw [List.getElem?_mapIdx, List.getElem?_mapIdx, List.getElem?_eq_getElem hi,
    List.getElem?_eq_getElem hj] at heq
  obtain ⟨-, hnumbers⟩ := frameName_inj (Option.some.inj heq)
  have hsame := eq_of_add_ofNat_eq (hi.trans hfew) (hj.trans hfew) hnumbers
  omega

/-- Calls from bases that look like names of frames, with a scope left and one stepped out of. -/
def callsFromFrames : List EngineCall :=
  [.scope (.enterCall "f"), .scope (.enterCall "f::call_0"), .scope .leave,
    .scope (.enterCall "f::call_0::call_"), .scope .stepOut, .scope (.enterBlock "f::call_4"),
    .scope (.enterCall "f"), .scope (.enterCall "")]

theorem frames_from_frames_distinct :
    (callsFromFrames.filterMap EngineCall.base?).length < 2 ^ 64 ∧
    ∃ k s', Container.build "main" defaultMaxDepth Store.empty = (.ok k, s') ∧
      Engine.frames ⟨s', k⟩ callsFromFrames =
        ["f::call_0", "f::call_0::call_1", "f::call_0::call_::call_2", "f::call_3", "::call_4"] ∧
      (Engine.frames ⟨s', k⟩ callsFromFrames).Nodup := by
  have hfew : (callsFromFrames.filterMap EngineCall.base?).length < 2 ^ 64 := by decide
  refine ⟨hfew, _, _, build_of_ne_empty (by decide) _ _, ?_, (frame_names_distinct _ _ hfew).2⟩
  decide +kernel

end ScriptCore
