import Mathlib.Tactic

namespace Uesi.Library

variable {State Op : Type*}

/-- A counted loop applies its body to the indices below the bound, in order. -/
def countedLoop (body : Nat → State → State) : Nat → State → State
  | 0, state => state
  | count + 1, state => body count (countedLoop body count state)

@[simp] theorem countedLoop_zero (body : Nat → State → State) (state : State) :
    countedLoop body 0 state = state := rfl

@[simp] theorem countedLoop_succ (body : Nat → State → State) (count : Nat) (state : State) :
    countedLoop body (count + 1) state = body count (countedLoop body count state) := rfl

/-- Bodies that agree on the indices of a loop make the same loop. -/
theorem countedLoop_congr {first second : Nat → State → State} {count : Nat} {state : State}
    (same : ∀ index, index < count → ∀ state, first index state = second index state) :
    countedLoop first count state = countedLoop second count state := by
  induction count with
  | zero => rfl
  | succ count ih =>
      rw [countedLoop_succ, countedLoop_succ, ih fun index below => same index (by omega)]
      exact same count (Nat.lt_succ_self count) _

/-- A loop invariant holds at the bound when each iteration advances it. -/
theorem countedLoop_invariant (body : Nat → State → State) (invariant : Nat → State → Prop)
    (count : Nat) (state : State) (initial : invariant 0 state)
    (preserved : ∀ index current, index < count → invariant index current →
      invariant (index + 1) (body index current)) :
    invariant count (countedLoop body count state) := by
  induction count with
  | zero => exact initial
  | succ count ih =>
      apply preserved count _ (Nat.lt_succ_self count)
      apply ih
      intro index current inside held
      exact preserved index current (Nat.lt_succ_of_lt inside) held

/-- A run applies a finite list of operations from left to right. -/
def run (step : State → Op → State) (state : State) (ops : List Op) : State :=
  ops.foldl step state

@[simp] theorem run_cons (step : State → Op → State) (state : State) (op : Op) (rest : List Op) :
    run step state (op :: rest) = run step (step state op) rest := rfl

/-- A run is guarded when each operation meets the guard in the state before it. -/
def Guarded (step : State → Op → State) (guard : State → Op → Prop) : State → List Op → Prop
  | _, [] => True
  | state, op :: rest => guard state op ∧ Guarded step guard (step state op) rest

instance Guarded.decidable (step : State → Op → State) (guard : State → Op → Prop)
    [∀ state op, Decidable (guard state op)] :
    (state : State) → (ops : List Op) → Decidable (Guarded step guard state ops)
  | _, [] => inferInstanceAs (Decidable True)
  | state, op :: rest =>
      have := Guarded.decidable step guard (step state op) rest
      inferInstanceAs (Decidable (guard state op ∧ _))

/-- An invariant of every guarded step holds after every guarded run. -/
theorem run_guarded_invariant (step : State → Op → State) (guard : State → Op → Prop)
    (invariant : State → Prop)
    (preserved : ∀ state op, invariant state → guard state op → invariant (step state op))
    (state : State) (ops : List Op) (initial : invariant state)
    (guarded : Guarded step guard state ops) : invariant (run step state ops) := by
  induction ops generalizing state with
  | nil => exact initial
  | cons op rest ih =>
      obtain ⟨allowed, tail⟩ := guarded
      exact ih (step state op) (preserved state op initial allowed) tail

/-- An invariant of every step holds after every run. -/
theorem run_invariant (step : State → Op → State) (invariant : State → Prop)
    (preserved : ∀ state op, invariant state → invariant (step state op))
    (state : State) (ops : List Op) (initial : invariant state) :
    invariant (run step state ops) := by
  induction ops generalizing state with
  | nil => exact initial
  | cons op rest ih => exact ih (step state op) (preserved state op initial)

/-- A search with a single possible answer finds it. -/
theorem findSome?_eq_of_unique {α β : Type*} {search : α → Option β} {items : List α} {answer : β}
    (only : ∀ item ∈ items, search item = none ∨ search item = some answer)
    (hit : ∃ item ∈ items, search item = some answer) : items.findSome? search = some answer := by
  cases found : items.findSome? search with
  | none =>
      obtain ⟨item, member, value⟩ := hit
      rw [List.findSome?_eq_none_iff.mp found item member] at value
      exact absurd value (by simp)
  | some other =>
      obtain ⟨item, member, value⟩ := List.exists_of_findSome?_eq_some found
      obtain none | same := only item member
      · rw [none] at value
        exact absurd value (by simp)
      · rw [← value, same]

section Trace

variable {Abstract Result : Type*}

/-- The trace of a machine is the list of the results of its operations. -/
def trace (step : State → Op → State × Result) : State → List Op → List Result
  | _, [] => []
  | state, op :: rest => (step state op).2 :: trace step (step state op).1 rest

end Trace

end Uesi.Library
