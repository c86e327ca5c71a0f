import Mathlib.Tactic

namespace Uesi.Library

variable {State : Type*}

/-- A loop with a test before each round. It has no result when the fuel does not last. -/
def whileLoop (test : State → Bool) (body : State → State) : Nat → State → Option State
  | 0, state => if test state then none else some state
  | fuel + 1, state => if test state then whileLoop test body fuel (body state) else some state

variable {test : State → Bool} {body : State → State}

theorem whileLoop_done (fuel : Nat) {state : State} (done : test state = false) :
    whileLoop test body fuel state = some state := by
  cases fuel with
  | zero => simp [whileLoop, done]
  | succ fuel => simp [whileLoop, done]

theorem whileLoop_step (fuel : Nat) {state : State} (goes : test state = true) :
    whileLoop test body (fuel + 1) state = whileLoop test body fuel (body state) := by
  simp [whileLoop, goes]

/-- A loop that ends keeps what each round keeps, and its test fails in the end. -/
theorem whileLoop_invariant (invariant : State → Prop)
    (preserved : ∀ state, invariant state → test state = true → invariant (body state))
    {fuel : Nat} {state last : State} (initial : invariant state)
    (ran : whileLoop test body fuel state = some last) : invariant last ∧ test last = false := by
  induction fuel generalizing state with
  | zero =>
      cases check : test state with
      | true => simp [whileLoop, check] at ran
      | false =>
          rw [whileLoop_done 0 check] at ran
          obtain rfl := Option.some.inj ran
          exact ⟨initial, check⟩
  | succ fuel ih =>
      cases check : test state with
      | true =>
          rw [whileLoop_step fuel check] at ran
          exact ih (preserved state initial check) ran
      | false =>
          rw [whileLoop_done _ check] at ran
          obtain rfl := Option.some.inj ran
          exact ⟨initial, check⟩

/-- A loop ends when a measure falls with each round, and the fuel is at least the measure. -/
theorem whileLoop_ends (invariant : State → Prop) (measure : State → Nat)
    (preserved : ∀ state, invariant state → test state = true → invariant (body state))
    (falls : ∀ state, invariant state → test state = true → measure (body state) < measure state)
    {fuel : Nat} {state : State} (initial : invariant state) (enough : measure state ≤ fuel) :
    ∃ last, whileLoop test body fuel state = some last := by
  induction fuel generalizing state with
  | zero =>
      cases check : test state with
      | true =>
          have less := falls state initial check
          omega
      | false => exact ⟨state, whileLoop_done 0 check⟩
  | succ fuel ih =>
      cases check : test state with
      | true =>
          have less := falls state initial check
          rw [whileLoop_step fuel check]
          exact ih (preserved state initial check) (by omega)
      | false => exact ⟨state, whileLoop_done _ check⟩

/-- A loop that ends makes no use of more fuel. -/
theorem whileLoop_mono {fuel more : Nat} {state last : State}
    (ran : whileLoop test body fuel state = some last) (enough : fuel ≤ more) :
    whileLoop test body more state = some last := by
  induction fuel generalizing state more with
  | zero =>
      cases check : test state with
      | true => simp [whileLoop, check] at ran
      | false =>
          rw [whileLoop_done 0 check] at ran
          rw [whileLoop_done more check]
          exact ran
  | succ fuel ih =>
      cases check : test state with
      | true =>
          obtain ⟨rest, rfl⟩ : ∃ rest, more = rest + 1 := ⟨more - 1, by omega⟩
          rw [whileLoop_step fuel check] at ran
          rw [whileLoop_step rest check]
          exact ih ran (by omega)
      | false =>
          rw [whileLoop_done _ check] at ran ⊢
          exact ran

/-- A loop with a falling measure has one result for all fuel that is large enough. -/
theorem whileLoop_settles (invariant : State → Prop) (measure : State → Nat)
    (preserved : ∀ state, invariant state → test state = true → invariant (body state))
    (falls : ∀ state, invariant state → test state = true → measure (body state) < measure state)
    {state : State} (initial : invariant state) :
    ∃ last, (∀ fuel, measure state ≤ fuel → whileLoop test body fuel state = some last) ∧
      invariant last ∧ test last = false := by
  obtain ⟨last, ran⟩ := whileLoop_ends invariant measure preserved falls initial le_rfl
  exact ⟨last, fun _ enough => whileLoop_mono ran enough, whileLoop_invariant invariant preserved initial ran⟩

end Uesi.Library
