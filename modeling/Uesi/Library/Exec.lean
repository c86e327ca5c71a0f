import Mathlib.Tactic

namespace Uesi.Library

variable {ε σ α β : Type}

/-- A run of `action` from `start` returns with `after`, or stops with a fault that `stop` allows. -/
def Post (stop : ε → Prop) (action : EStateM ε σ α) (after : α → σ → Prop) (start : σ) : Prop :=
  match action start with
  | .ok value final => after value final
  | .error fault _ => stop fault

section Rules

variable {stop : ε → Prop} {after : α → σ → Prop} {start : σ}

theorem Post.of_ok {action : EStateM ε σ α} {value : α} {final : σ} (ran : action start = .ok value final)
    (holds : after value final) : Post stop action after start := by
  unfold Post
  rw [ran]
  exact holds

@[simp] theorem post_pure (value : α) :
    Post stop (pure value : EStateM ε σ α) after start ↔ after value start := Iff.rfl

@[simp] theorem post_throw (fault : ε) :
    Post stop (throw fault : EStateM ε σ α) after start ↔ stop fault := Iff.rfl

@[simp] theorem post_get {after : σ → σ → Prop} :
    Post stop (get : EStateM ε σ σ) after start ↔ after start start := Iff.rfl

@[simp] theorem post_set {after : PUnit → σ → Prop} (next : σ) :
    Post stop (set next : EStateM ε σ PUnit) after start ↔ after ⟨⟩ next := Iff.rfl

@[simp] theorem post_modify {after : PUnit → σ → Prop} (change : σ → σ) :
    Post stop (modify change : EStateM ε σ PUnit) after start ↔ after ⟨⟩ (change start) := Iff.rfl

/-- A sequence is run step by step. -/
@[simp] theorem post_bind {after : β → σ → Prop} (action : EStateM ε σ α) (next : α → EStateM ε σ β) :
    Post stop (action >>= next) after start ↔
      Post stop action (fun value => Post stop (next value) after) start := by
  unfold Post
  change (match EStateM.bind action next start with
    | .ok value final => after value final
    | .error fault _ => stop fault) ↔ _
  unfold EStateM.bind
  cases action start with
  | ok value final => rfl
  | error fault final => rfl

@[simp] theorem post_map {after : β → σ → Prop} (change : α → β) (action : EStateM ε σ α) :
    Post stop (change <$> action) after start ↔ Post stop action (fun value => after (change value)) start :=
  post_bind action fun value => pure (change value)

/-- A choice is run on the side of its condition. -/
theorem Post.ite {condition : Prop} [Decidable condition] {first second : EStateM ε σ α}
    (yes : condition → Post stop first after start) (no : ¬ condition → Post stop second after start) :
    Post stop (if condition then first else second) after start := by
  by_cases holds : condition
  · rw [if_pos holds]
    exact yes holds
  · rw [if_neg holds]
    exact no holds

theorem Post.anything (action : EStateM ε σ α) (start : σ) : Post (fun _ => True) action (fun _ _ => True) start := by
  unfold Post
  cases action start with
  | ok value final => trivial
  | error fault final => trivial

theorem Post.mono {action : EStateM ε σ α} {weaker : α → σ → Prop} (run : Post stop action after start)
    (implies : ∀ value final, after value final → weaker value final) :
    Post stop action weaker start := by
  unfold Post at run ⊢
  cases result : action start with
  | ok value final =>
      rw [result] at run
      exact implies value final run
  | error fault final =>
      rw [result] at run
      exact run

theorem Post.weaken {action : EStateM ε σ α} {more : ε → Prop} (run : Post stop action after start)
    (implies : ∀ fault, stop fault → more fault) : Post more action after start := by
  unfold Post at run ⊢
  cases result : action start with
  | ok value final =>
      rw [result] at run
      exact run
  | error fault final =>
      rw [result] at run
      exact implies fault run

theorem Post.and {action : EStateM ε σ α} {other : α → σ → Prop} (one : Post stop action after start)
    (two : Post stop action other start) :
    Post stop action (fun value final => after value final ∧ other value final) start := by
  unfold Post at one two ⊢
  cases result : action start with
  | ok value final =>
      rw [result] at one two
      exact ⟨one, two⟩
  | error fault final =>
      rw [result] at one
      exact one

/-- What holds whenever a run returns may be added to its result. -/
theorem Post.also {action : EStateM ε σ α} {more : α → σ → Prop} (run : Post stop action after start)
    (always : Post (fun _ => True) action more start) :
    Post stop action (fun value final => after value final ∧ more value final) start := by
  unfold Post at run always ⊢
  cases result : action start with
  | ok value final =>
      rw [result] at run always
      exact ⟨run, always⟩
  | error fault final =>
      rw [result] at run
      exact run

/-- A step whose outcome is known is followed by the rest. -/
theorem Post.seq {action : EStateM ε σ α} {next : α → EStateM ε σ β} {last : β → σ → Prop}
    (first : Post stop action after start)
    (rest : ∀ value final, after value final → Post stop (next value) last final) :
    Post stop (action >>= next) last start :=
  (post_bind action next).mpr (first.mono rest)

/-- The outcome of a run may be assumed when its result is used. -/
theorem Post.ran {action : EStateM ε σ α} (run : Post stop action after start) :
    Post stop action (fun value final => action start = .ok value final ∧ after value final) start := by
  unfold Post at run ⊢
  cases result : action start with
  | ok value final =>
      rw [result] at run
      exact ⟨rfl, run⟩
  | error fault final =>
      rw [result] at run
      exact run

/-- The result of a run that returns. -/
theorem Post.apply {action : EStateM ε σ α} {value : α} {final : σ} (run : Post stop action after start)
    (ran : action start = .ok value final) : after value final := by
  unfold Post at run
  rw [ran] at run
  exact run

/-- A run that may not stop has a result. -/
theorem Post.result {action : EStateM ε σ α} (run : Post (fun _ => False) action after start) :
    ∃ value final, action start = .ok value final ∧ after value final := by
  unfold Post at run
  cases result : action start with
  | ok value final =>
      rw [result] at run
      exact ⟨value, final, rfl, run⟩
  | error fault final =>
      rw [result] at run
      exact run.elim

end Rules

section Calls

variable {Op : Type}

/-- This makes calls one after another and collects their answers. -/
def callAll (call : Op → EStateM ε σ α) : List Op → EStateM ε σ (List α)
  | [] => pure []
  | op :: rest => do
      let answer ← call op
      return answer :: (← callAll call rest)

/-- Each call of a sequence meets the guard in the state before it. -/
def CallGuarded (call : Op → EStateM ε σ α) (guard : σ → Op → Prop) : σ → List Op → Prop
  | _, [] => True
  | start, op :: rest =>
      guard start op ∧ ∀ answer next, call op start = .ok answer next → CallGuarded call guard next rest

/-- The state in which a call stops. -/
def finalState (action : EStateM ε σ α) (start : σ) : σ :=
  match action start with
  | .ok _ final => final
  | .error _ final => final

/-- The answer of a call that returns. -/
def answerOf (action : EStateM ε σ α) (start : σ) : Option α :=
  match action start with
  | .ok value _ => some value
  | .error _ _ => none

/-- A call that answers returns with its final state. -/
theorem ran_of_answerOf {action : EStateM ε σ α} {start : σ} {value : α}
    (answered : answerOf action start = some value) : action start = .ok value (finalState action start) := by
  unfold answerOf at answered
  unfold finalState
  cases result : action start with
  | ok other final =>
      rw [result] at answered
      exact congrArg (EStateM.Result.ok · final) (Option.some.inj answered)
  | error fault final =>
      rw [result] at answered
      exact absurd answered (by simp)

/-- The fault of a call that stops. -/
def faultOf (action : EStateM ε σ α) (start : σ) : Option ε :=
  match action start with
  | .ok _ _ => none
  | .error fault _ => some fault

/-- A call that returns. -/
def returned (action : EStateM ε σ α) (start : σ) : Bool :=
  match action start with
  | .ok _ _ => true
  | .error _ _ => false

/-- What holds behind a call that returns holds of its final state. -/
theorem Post.final {stop : ε → Prop} {action : EStateM ε σ α} {after : σ → Prop} {start : σ}
    (run : Post stop action (fun _ => after) start) (returns : returned action start = true) :
    after (finalState action start) := by
  unfold Post at run
  unfold returned at returns
  unfold finalState
  cases result : action start with
  | ok value final =>
      rw [result] at run
      exact run
  | error fault final =>
      rw [result] at returns
      exact absurd returns (by simp)

/-- A sequence is guarded if its first call is and the others are from the state that call leads to. -/
theorem CallGuarded.cons {call : Op → EStateM ε σ α} {guard : σ → Op → Prop} {start : σ} {op : Op}
    {rest : List Op} (allowed : guard start op)
    (later : CallGuarded call guard (finalState (call op) start) rest) :
    CallGuarded call guard start (op :: rest) := by
  refine ⟨allowed, fun answer next ran => ?_⟩
  rw [finalState, ran] at later
  exact later

/-- What holds in every state that a sequence of calls comes to. -/
def Throughout (call : Op → EStateM ε σ α) (holds : σ → Prop) : σ → List Op → Prop
  | start, [] => holds start
  | start, op :: rest =>
      holds start ∧ ∀ answer next, call op start = .ok answer next → Throughout call holds next rest

section Throughout

variable {call : Op → EStateM ε σ α} {guard : σ → Op → Prop} {invariant holds : σ → Prop}

/-- What an invariant of the guarded calls implies holds throughout a guarded sequence. -/
theorem CallGuarded.throughout (implies : ∀ state, invariant state → holds state)
    (preserved : ∀ start op, invariant start → guard start op →
      Post (fun _ => True) (call op) (fun _ => invariant) start)
    {start : σ} {ops : List Op} (initial : invariant start) (guarded : CallGuarded call guard start ops) :
    Throughout call holds start ops := by
  induction ops generalizing start with
  | nil => exact implies start initial
  | cons op rest ih =>
      obtain ⟨allowed, later⟩ := guarded
      refine ⟨implies start initial, fun answer next ran => ih ?_ (later answer next ran)⟩
      exact (preserved start op initial allowed).apply ran

/-- If every call that misses the guard leads to a state in which a property fails, then a sequence throughout
which it holds is guarded. -/
theorem Throughout.guarded
    (preserved : ∀ start op, invariant start → guard start op →
      Post (fun _ => True) (call op) (fun _ => invariant) start)
    (broken : ∀ start op, invariant start → ¬ guard start op →
      ∃ answer next, call op start = .ok answer next ∧ ¬ holds next)
    {start : σ} {ops : List Op} (initial : invariant start) (always : Throughout call holds start ops) :
    CallGuarded call guard start ops := by
  have first : ∀ {state : σ} {calls : List Op}, Throughout call holds state calls → holds state := by
    intro state calls throughout
    cases calls with
    | nil => exact throughout
    | cons op rest => exact throughout.1
  induction ops generalizing start with
  | nil => trivial
  | cons op rest ih =>
      obtain ⟨_, later⟩ := always
      have allowed : guard start op := by
        by_contra missed
        obtain ⟨answer, next, ran, fails⟩ := broken start op initial missed
        exact fails (first (later answer next ran))
      refine ⟨allowed, fun answer next ran => ih ?_ (later answer next ran)⟩
      exact (preserved start op initial allowed).apply ran

end Throughout

section Invariant

variable {stop : ε → Prop} {call : Op → EStateM ε σ α} {guard : σ → Op → Prop}

theorem callAll_invariant_from (invariant : List (Op × α) → σ → Prop)
    (preserved : ∀ past start op, invariant past start → guard start op →
      Post stop (call op) (fun answer next => invariant (past ++ [(op, answer)]) next) start)
    {past : List (Op × α)} {start : σ} {ops : List Op} (initial : invariant past start)
    (guarded : CallGuarded call guard start ops) :
    Post stop (callAll call ops) (fun answers final => invariant (past ++ ops.zip answers) final) start := by
  induction ops generalizing past start with
  | nil => simpa [callAll] using initial
  | cons op rest ih =>
      obtain ⟨allowed, later⟩ := guarded
      unfold callAll
      apply (preserved past start op initial allowed).ran.seq
      rintro answer next ⟨ran, kept⟩
      apply (ih kept (later answer next ran)).seq
      intro answers final holds
      simpa using holds

/-- What each guarded call keeps, given the calls and answers before it, holds after every sequence. -/
theorem callAll_invariant (invariant : List (Op × α) → σ → Prop)
    (preserved : ∀ past start op, invariant past start → guard start op →
      Post stop (call op) (fun answer next => invariant (past ++ [(op, answer)]) next) start)
    {start : σ} {ops : List Op} (initial : invariant [] start)
    (guarded : CallGuarded call guard start ops) :
    Post stop (callAll call ops) (fun answers final => invariant (ops.zip answers) final) start :=
  callAll_invariant_from invariant preserved initial guarded

end Invariant

end Calls

/-- A stateful computation goes on with the value and the state of its first part. -/
theorem run_bind_eq {first : StateM σ α} {next : α → StateM σ β} {start middle : σ} {value : α}
    (ran : first.run start = (value, middle)) : (first >>= next).run start = (next value).run middle := by
  rw [StateT.run_bind, ran]
  rfl

end Uesi.Library
