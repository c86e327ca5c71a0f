import Uesi.Library.Exec

namespace Uesi.Library

variable {ε σ α β : Type}

/-- The outcome of a run with another final state. -/
def mapState (project : σ → σ) : EStateM.Result ε σ α → EStateM.Result ε σ α
  | .ok value final => .ok value (project final)
  | .error fault final => .error fault (project final)

/-- An action does the same from the projected state unless it marks its state, and it keeps a mark. -/
def Tracks (project : σ → σ) (marked : σ → Prop) (action : EStateM ε σ α) : Prop :=
  ∀ start, ¬ marked (finalState action start) →
    ¬ marked start ∧ action (project start) = mapState project (action start)

section Tracks

variable {project : σ → σ} {marked : σ → Prop}

theorem tracks_pure (value : α) : Tracks project marked (pure value : EStateM ε σ α) :=
  fun _ unmarked => ⟨unmarked, rfl⟩

theorem tracks_throw (fault : ε) : Tracks project marked (throw fault : EStateM ε σ α) :=
  fun _ unmarked => ⟨unmarked, rfl⟩

/-- A change of the state that does not depend on what the projection forgets. -/
theorem tracks_modify {change : σ → σ} (commutes : ∀ state, change (project state) = project (change state))
    (keeps : ∀ state, marked state → marked (change state)) :
    Tracks project marked (modify change : EStateM ε σ PUnit) :=
  fun start unmarked => ⟨fun was => unmarked (keeps start was),
    congrArg (EStateM.Result.ok PUnit.unit : σ → EStateM.Result ε σ PUnit) (commutes start)⟩

/-- What is read from the state does not depend on what the projection forgets. -/
theorem Tracks.get {rest : σ → EStateM ε σ β} (same : ∀ state, rest (project state) = rest state)
    (later : ∀ state, Tracks project marked (rest state)) : Tracks project marked (get >>= rest) := by
  intro start unmarked
  obtain ⟨before, ran⟩ := later start start unmarked
  refine ⟨before, Eq.trans ?_ ran⟩
  exact congrFun (same start) (project start)

theorem finalState_bind (action : EStateM ε σ α) (rest : α → EStateM ε σ β) (start : σ) :
    finalState (action >>= rest) start = match action start with
      | .ok value middle => finalState (rest value) middle
      | .error _ middle => middle := by
  unfold finalState
  change (match EStateM.bind action rest start with
    | .ok _ final => final
    | .error _ final => final) = _
  unfold EStateM.bind
  cases action start with
  | ok value middle => rfl
  | error fault middle => rfl

theorem Tracks.bind {action : EStateM ε σ α} {rest : α → EStateM ε σ β} (first : Tracks project marked action)
    (later : ∀ value, Tracks project marked (rest value)) : Tracks project marked (action >>= rest) := by
  intro start unmarked
  rw [finalState_bind] at unmarked
  change ¬ marked start ∧ EStateM.bind action rest (project start) = mapState project (EStateM.bind action rest start)
  unfold EStateM.bind
  have earlier := first start
  rw [finalState] at earlier
  cases ran : action start with
  | error fault middle =>
      rw [ran] at unmarked earlier
      obtain ⟨before, projected⟩ := earlier unmarked
      exact ⟨before, by rw [projected]; rfl⟩
  | ok value middle =>
      rw [ran] at unmarked earlier
      obtain ⟨between, continued⟩ := later value middle unmarked
      obtain ⟨before, projected⟩ := earlier between
      exact ⟨before, by rw [projected]; exact continued⟩

theorem Tracks.ite {condition : Prop} [Decidable condition] {one other : EStateM ε σ α}
    (first : Tracks project marked one) (second : Tracks project marked other) :
    Tracks project marked (if condition then one else other) := by
  split
  · exact first
  · exact second

/-- What a run from the projected state returns with holds of the run that it tracks. -/
theorem Tracks.post {action : EStateM ε σ α} (tracks : Tracks project marked action) {stop : ε → Prop}
    {after : α → σ → Prop} {start : σ} (unmarked : ¬ marked (finalState action start))
    (run : Post stop action after (project start)) :
    Post stop action (fun value final => after value (project final)) start := by
  obtain ⟨_, projected⟩ := tracks start unmarked
  unfold Post at run ⊢
  rw [projected] at run
  cases result : action start with
  | ok value final =>
      rw [result] at run
      exact run
  | error fault final =>
      rw [result] at run
      exact run

variable {Op : Type} {call : Op → EStateM ε σ α}

theorem Tracks.callAll (tracks : ∀ op, Tracks project marked (call op)) (ops : List Op) :
    Tracks project marked (callAll call ops) := by
  induction ops with
  | nil => exact tracks_pure _
  | cons op rest ih => exact (tracks op).bind fun _ => ih.bind fun _ => tracks_pure _

/-- Calls are guarded from the projected state as they are from the state, as long as no state is marked. -/
theorem Tracks.guarded_iff {guard : σ → Op → Prop} (tracks : ∀ op, Tracks project marked (call op))
    (same : ∀ state op, guard (project state) op ↔ guard state op) {start : σ} {ops : List Op}
    (unmarked : ¬ marked (finalState (Library.callAll call ops) start)) :
    CallGuarded call guard (project start) ops ↔ CallGuarded call guard start ops := by
  induction ops generalizing start with
  | nil => exact Iff.rfl
  | cons op rest ih =>
      rw [Library.callAll, finalState_bind] at unmarked
      have tracked := tracks op start
      rw [finalState] at tracked
      unfold CallGuarded
      rw [same]
      refine and_congr_right fun _ => ?_
      cases result : call op start with
      | error fault middle =>
          rw [result] at unmarked tracked
          rw [(tracked unmarked).2]
          simp [mapState]
      | ok value middle =>
          rw [result] at unmarked tracked
          have after : ¬ marked (finalState (Library.callAll call rest) middle) := by
            change ¬ marked (finalState (Library.callAll call rest >>= _) middle) at unmarked
            rw [finalState_bind] at unmarked
            unfold finalState
            cases others : Library.callAll call rest middle with
            | ok answers final =>
                rw [others] at unmarked
                exact unmarked
            | error fault final =>
                rw [others] at unmarked
                exact unmarked
          rw [(tracked (Tracks.callAll tracks rest middle after).1).2]
          simpa [mapState] using ih after

end Tracks

end Uesi.Library
