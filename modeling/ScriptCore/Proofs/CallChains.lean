import Mathlib.Data.List.Nodup
import Mathlib.Data.List.Perm.Subperm
import ScriptCore.Proofs.Dictionaries
import ScriptCore.Registry.Call

/-!
# Calls that are handed on

A body may hand its arguments to another function or method, whose body may hand them on again.  A
call follows such a chain as often as there are bodies and then takes it for a circle.  Since one
method answers for many classes, a chain can pass through many more callees than there are bodies,
so it has to be shown that this gives no chain up too early.

**Chains.**  `handedTo?`: the callees that a call comes to, one by one.  `targets`: the callees that
any registered body hands on to.  There are no more of them than bodies, so a chain that goes on for
longer comes to one of them twice, and from there it goes round for ever.

**Results.**
* `handedTo?_add`, `endless_of_repeat`: chains in parts, and chains that go round.
* `follow_succ_of_mem_targets`: a chain is followed for long enough.
* `call_eq`: a call runs the body of its callee, and a body that hands on calls.
-/

namespace ScriptCore

/-- What the body of a function or method does with its arguments. -/
def Native.run (k : Container) (args : List CellId) : Native → Action Store CellId
  | .forward callee => k.call callee args
  | .perform p => p.run k args

/-- The callee that a body hands its arguments to. -/
def Native.target? : Native → Option Callee
  | .forward callee => some callee
  | .perform _ => none

namespace Container

/-- The callee that is called next, if the body of this one hands on. -/
def next? (k : Container) (callee : Callee) : Option Callee :=
  match k.body callee with
  | .ok native => native.target?
  | .error _ => none

/-- The callee that a call comes to after so many bodies that hand on. -/
def handedTo? (k : Container) : Callee → Nat → Option Callee
  | callee, 0 => some callee
  | callee, n + 1 => (k.next? callee).bind (k.handedTo? · n)

/-- The callees that registered bodies hand on to. -/
def targets (k : Container) : List Callee :=
  k.functions.values.filterMap (fun f => f.native.target?) ++
    (k.classes.values.flatMap Class.methods).filterMap fun m => m.native.bind Native.target?

section Targets

variable {k : Container} {callee next : Callee}

theorem next?_eq_some_iff :
    k.next? callee = some next ↔ k.body callee = .ok (.forward next) := by
  unfold next?
  cases k.body callee with
  | error e => simp
  | ok native => cases native <;> simp [Native.target?]

theorem length_targets_le (k : Container) : k.targets.length ≤ k.bodyCount := by
  have hfunctions := List.length_filterMap_le (fun f : FunctionEntry => f.native.target?)
    k.functions.values
  have hmethods := List.length_filterMap_le (fun m : Method => m.native.bind Native.target?)
    (k.classes.values.flatMap Class.methods)
  have hsize : k.functions.values.length = k.functions.size := List.length_map _
  rw [targets, List.length_append, bodyCount]
  omega

theorem mem_values_of_mem_lineageFrom {classes : Dict Class} {c : Class} {n : Nat}
    {met : List String} {name : String} (hc : c ∈ lineageFrom classes n met name) :
    c ∈ classes.values := by
  induction n generalizing met name with
  | zero => cases hc
  | succ n ih =>
      rw [lineageFrom] at hc
      split at hc
      · cases hc
      · split at hc
        · cases hc
        · next d hd =>
            have hd' : d ∈ classes.values := Dict.mem_values_iff.2 ⟨name, hd⟩
            split at hc
            · obtain rfl := List.mem_singleton.1 hc
              exact hd'
            · rcases List.mem_cons.1 hc with rfl | hc
              · exact hd'
              · exact ih hc

theorem mem_targets_of_next? (h : k.next? callee = some next) : next ∈ k.targets := by
  have hbody := next?_eq_some_iff.1 h
  cases callee with
  | function name =>
      refine List.mem_append_left _ (List.mem_filterMap.2 ?_)
      cases hf : k.functions.find? name with
      | none => simp [body, hf] at hbody
      | some f =>
          have hnative : f.native = .forward next := by simpa [body, hf] using hbody
          refine ⟨f, Dict.mem_values_iff.2 ⟨name, hf⟩, ?_⟩
          rw [hnative]
          rfl
  | method owner name =>
      refine List.mem_append_right _ (List.mem_filterMap.2 ?_)
      have hmethod : (k.method? owner name).bind Method.native = some (.forward next) := by
        rw [body] at hbody
        split at hbody
        · split at hbody
          · next hnative =>
              cases hbody
              exact hnative
          · cases hbody
        · cases hbody
      obtain ⟨m, hm, hnative⟩ := Option.bind_eq_some_iff.1 hmethod
      obtain ⟨c, hc, hcm⟩ := List.exists_of_findSome?_eq_some hm
      have hc' : c ∈ k.classes.values := mem_values_of_mem_lineageFrom hc
      refine ⟨m, List.mem_flatMap.2 ⟨c, hc', List.mem_of_find?_eq_some hcm⟩, ?_⟩
      rw [hnative]
      rfl

end Targets

section Chains

variable {k : Container} {callee : Callee}

/-- A chain may be taken apart anywhere. -/
theorem handedTo?_add (k : Container) (callee : Callee) (m n : Nat) :
    k.handedTo? callee (m + n) = (k.handedTo? callee m).bind (k.handedTo? · n) := by
  induction m generalizing callee with
  | zero => rw [Nat.zero_add, handedTo?, Option.bind_some]
  | succ m ih =>
      rw [Nat.succ_add, handedTo?, handedTo?]
      cases k.next? callee with
      | none => rfl
      | some next => exact ih next

theorem isSome_handedTo?_of_le {m n : Nat} (hmn : m ≤ n)
    (h : (k.handedTo? callee n).isSome = true) : (k.handedTo? callee m).isSome = true := by
  obtain ⟨rest, rfl⟩ := Nat.exists_eq_add_of_le hmn
  rw [handedTo?_add] at h
  cases hm : k.handedTo? callee m with
  | none =>
      rw [hm] at h
      cases h
  | some reached => rfl

theorem mem_targets_of_handedTo? (hcallee : callee ∈ k.targets) {n : Nat} {reached : Callee}
    (h : k.handedTo? callee n = some reached) : reached ∈ k.targets := by
  induction n generalizing callee with
  | zero =>
      obtain rfl := Option.some.inj h
      exact hcallee
  | succ n ih =>
      rw [handedTo?] at h
      obtain ⟨next, hnext, hrest⟩ := Option.bind_eq_some_iff.1 h
      exact ih (mem_targets_of_next? hnext) hrest

/-- A chain that comes back to where it was goes round for ever. -/
theorem endless_of_return {steps : Nat} (hsteps : 0 < steps)
    (h : k.handedTo? callee steps = some callee) (n : Nat) :
    (k.handedTo? callee n).isSome = true := by
  have hround : ∀ rounds, k.handedTo? callee (rounds * steps) = some callee := by
    intro rounds
    induction rounds with
    | zero => rw [Nat.zero_mul, handedTo?]
    | succ rounds ih => rw [Nat.succ_mul, handedTo?_add, ih, Option.bind_some, h]
  refine isSome_handedTo?_of_le (Nat.le_mul_of_pos_right n hsteps) ?_
  rw [hround n]
  rfl

/-- A chain that comes to one callee twice does not end. -/
theorem endless_of_repeat {i j : Nat} (hij : i < j) (hi : (k.handedTo? callee i).isSome = true)
    (h : k.handedTo? callee i = k.handedTo? callee j) (n : Nat) :
    (k.handedTo? callee n).isSome = true := by
  obtain ⟨reached, hreached⟩ := Option.isSome_iff_exists.1 hi
  have hback : k.handedTo? reached (j - i) = some reached := by
    have hj : k.handedTo? callee (i + (j - i)) = some reached := by
      rw [Nat.add_sub_cancel' (Nat.le_of_lt hij), ← h, hreached]
    rwa [handedTo?_add, hreached, Option.bind_some] at hj
  refine isSome_handedTo?_of_le (Nat.le_add_left n i) ?_
  rw [handedTo?_add, hreached, Option.bind_some]
  exact endless_of_return (Nat.sub_pos_of_lt hij) hback n

/-- A chain of targets that is as long as there are bodies does not end. -/
theorem endless_of_mem_targets (hcallee : callee ∈ k.targets)
    (h : (k.handedTo? callee k.bodyCount).isSome = true) (n : Nat) :
    (k.handedTo? callee n).isSome = true := by
  have hsome : ∀ i ∈ List.range (k.bodyCount + 1), (k.handedTo? callee i).isSome = true :=
    fun i hi => isSome_handedTo?_of_le (Nat.le_of_lt_succ (List.mem_range.1 hi)) h
  -- There are more places in the chain than targets, so two places have the same callee.
  have hnot : ¬ ((List.range (k.bodyCount + 1)).map (k.handedTo? callee)).Nodup := by
    intro hnodup
    have hsubset : (List.range (k.bodyCount + 1)).map (k.handedTo? callee) ⊆
        k.targets.map some := by
      intro reached hreached
      obtain ⟨i, hi, rfl⟩ := List.mem_map.1 hreached
      obtain ⟨other, hother⟩ := Option.isSome_iff_exists.1 (hsome i hi)
      rw [hother]
      exact List.mem_map_of_mem (mem_targets_of_handedTo? hcallee hother)
    have hle := (hnodup.subperm hsubset).length_le
    have htargets := length_targets_le k
    rw [List.length_map, List.length_map, List.length_range] at hle
    omega
  rw [List.nodup_map_iff_inj_on List.nodup_range] at hnot
  push Not at hnot
  obtain ⟨i, hi, j, hj, heq, hne⟩ := hnot
  rcases Nat.lt_or_gt_of_ne hne with hij | hji
  · exact endless_of_repeat hij (hsome i hi) heq n
  · exact endless_of_repeat hji (hsome j hj) heq.symm n

end Chains

section Following

variable {k : Container} {callee : Callee}

/-- A chain that has not ended is given up. -/
theorem follow_of_isSome {n : Nat} (h : (k.handedTo? callee n).isSome = true) :
    k.follow n callee = .error (Error.of (.custom "calls are handed on without end")) := by
  induction n generalizing callee with
  | zero => rfl
  | succ n ih =>
      rw [handedTo?] at h
      cases hnext : k.next? callee with
      | none =>
          rw [hnext] at h
          cases h
      | some next =>
          rw [hnext, Option.bind_some] at h
          rw [follow, next?_eq_some_iff.1 hnext]
          exact ih h

/-- A chain that has ended is not followed any further. -/
theorem follow_succ_of_none {n : Nat} (h : k.handedTo? callee n = none) :
    k.follow (n + 1) callee = k.follow n callee := by
  induction n generalizing callee with
  | zero => cases h
  | succ n ih =>
      rw [follow, follow]
      cases hbody : k.body callee with
      | error e => rfl
      | ok native =>
          cases native with
          | perform p => rfl
          | forward next =>
              refine ih ?_
              rwa [handedTo?, next?_eq_some_iff.2 hbody, Option.bind_some] at h

/-- A chain of targets is followed for long enough. -/
theorem follow_succ_of_mem_targets (hcallee : callee ∈ k.targets) :
    k.follow (k.bodyCount + 1) callee = k.follow k.bodyCount callee := by
  cases h : k.handedTo? callee k.bodyCount with
  | none => exact follow_succ_of_none h
  | some reached =>
      have hsome : (k.handedTo? callee k.bodyCount).isSome = true := by
        rw [h]
        rfl
      rw [follow_of_isSome hsome, follow_of_isSome (endless_of_mem_targets hcallee hsome _)]

theorem worker_of_forward {next : Callee} (h : k.body callee = .ok (.forward next)) :
    k.worker callee = k.worker next := by
  have hnext : k.next? callee = some next := next?_eq_some_iff.2 h
  have hstep : k.worker callee = k.follow k.bodyCount next := by
    rw [worker, follow, h]
  rw [hstep, worker, follow_succ_of_mem_targets (mem_targets_of_next? hnext)]

end Following

/-- A call runs the body of its callee, or is refused as the search for the body is. -/
theorem call_eq (k : Container) (callee : Callee) (args : List CellId) (s : Store) :
    k.call callee args s =
      match k.body callee with
      | .ok native => native.run k args s
      | .error e => (.error e, s) := by
  cases hbody : k.body callee with
  | error e =>
      have hworker : k.worker callee = .error e := by
        rw [worker, follow, hbody]
      rw [call, hworker]
      rfl
  | ok native =>
      cases native with
      | perform p =>
          have hworker : k.worker callee = .ok p := by
            rw [worker, follow, hbody]
          rw [call, hworker]
          rfl
      | forward next =>
          show k.call callee args s = k.call next args s
          rw [call, call, worker_of_forward hbody]

end Container
end ScriptCore
