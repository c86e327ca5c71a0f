import Uesi.Proof.Blk.Cache

namespace Uesi.Blk

open Library

variable {Data : Type} {state : GetState Data}

/-- When a task files its buffer, no other task has filed one for the block since the search. -/
def Alone (state : GetState Data) : GetStep → Prop
  | .insert task => ∀ dev block id, state.phase task = .prepared dev block id →
      ∀ other, Listed state.cache.hash other → keyOf state.cache other ≠ some (dev, block)
  | _ => True

/-- No two filed buffers belong to one block, and those that tasks have prepared or returned are for their blocks. -/
structure Exclusive (state : GetState Data) : Prop where
  chained : Chained state.cache
  known : ∀ id, state.cache.fresh ≤ id → state.cache.buffers id = none
  prepared : ∀ task dev block id, state.phase task = .prepared dev block id →
    keyOf state.cache id = some (dev, block)
  returned : ∀ key id, (key, id) ∈ state.returned → Listed state.cache.hash id ∧ keyOf state.cache id = some key

section Steps

variable {task : Nat}

variable (exclusive : Exclusive state)

include exclusive

theorem Exclusive.setPhase {phase : GetPhase}
    (prepared : ∀ dev block id, phase = .prepared dev block id → keyOf state.cache id = some (dev, block)) :
    Exclusive (setPhase state task phase) where
  chained := exclusive.chained
  known := exclusive.known
  prepared := by
    intro other dev block id same
    dsimp only [Blk.setPhase] at same
    by_cases own : other = task
    · rw [own, Function.update_self] at same
      exact prepared dev block id same
    · rw [Function.update_of_ne own] at same
      exact exclusive.prepared other dev block id same
  returned := exclusive.returned

theorem Exclusive.search {dev : Nat} {block : BitVec 64} : Exclusive (getStep state (.search task dev block)) := by
  unfold getStep
  dsimp only
  by_cases idle : state.phase task = .idle
  · rw [if_pos idle]
    rcases searchCache_cases exclusive.chained dev block with ⟨id, listed, known, same⟩ | ⟨_, same⟩
    · rw [same]
      have keys := @keyOf_addReference Data state.cache id
      refine ⟨?_, fun other above => ?_, ?_, fun key other inside => ?_⟩
      · unfold Chained
        dsimp only
        rw [keys]
        exact exclusive.chained
      · have missing := exclusive.known other above
        dsimp only
        by_cases own : other = id
        · rw [← own, updateBuffer_self, missing, Option.map_none]
        · rw [updateBuffer_other own, missing]
      · dsimp only
        rw [keys]
        exact exclusive.prepared
      · dsimp only at inside ⊢
        rw [keys]
        rcases List.mem_cons.mp inside with new | old
        · cases new
          exact ⟨listed, known⟩
        · exact exclusive.returned key other old
    · rw [same]
      exact exclusive.setPhase fun _ _ _ wrong => nomatch wrong
  · rw [if_neg idle]
    exact exclusive

/-- A new buffer that is in no chain keeps the invariant. -/
theorem Exclusive.withBuffer (buffer : BlkBuffer Data) :
    Exclusive { state with cache := withBuffer state.cache buffer } := by
  have kept {id : Nat} {key : Nat × BitVec 64} (present : keyOf state.cache id = some key) :
      keyOf (Blk.withBuffer state.cache buffer) id = some key := by
    have old : id ≠ state.cache.fresh := by
      rintro rfl
      rw [keyOf, exclusive.known _ le_rfl] at present
      exact absurd present (by simp)
    exact (keyOf_withBuffer old buffer).trans present
  refine ⟨exclusive.chained.withBuffer (exclusive.known _ le_rfl) buffer, fun id above => ?_, ?_, ?_⟩
  · have later : state.cache.fresh < id := above
    exact (withBuffer_other later.ne' buffer).trans (exclusive.known id later.le)
  · intro other dev block id waits
    exact kept (exclusive.prepared other dev block id waits)
  · intro key id inside
    have held := exclusive.returned key id inside
    exact ⟨held.1, kept held.2⟩

theorem Exclusive.prepare (task : Nat) (given : Bool) : Exclusive (getStep state (.prepare task given)) := by
  unfold getStep
  dsimp only
  cases phase : state.phase task with
  | idle => exact exclusive
  | prepared dev block id => exact exclusive
  | missed dev block =>
      dsimp only
      rcases @prepareBuffer_cases Data state.cache given dev block with ⟨code, failed⟩ | ⟨_, made⟩
      · rw [failed]
        exact exclusive.setPhase fun _ _ _ wrong => nomatch wrong
      · rw [made]
        refine (exclusive.withBuffer ⟨dev, block, state.cache.contents dev block, false, true, 1⟩).setPhase ?_
        rintro _ _ _ ⟨⟩
        exact keyOf_of_buffer (withBuffer_self _ _)

theorem Exclusive.insert (alone : Alone state (.insert task)) : Exclusive (getStep state (.insert task)) := by
  unfold getStep
  dsimp only
  cases phase : state.phase task with
  | idle => exact exclusive
  | missed dev block => exact exclusive
  | prepared dev block id =>
      have known := exclusive.prepared task dev block id phase
      have left : Exclusive (Blk.setPhase state task .idle) := exclusive.setPhase fun _ _ _ wrong => nomatch wrong
      refine ⟨exclusive.chained.insert known (alone dev block id phase), exclusive.known, left.prepared, ?_⟩
      intro key other inside
      rcases List.mem_cons.mp inside with same | old
      · cases same
        exact ⟨listed_insert.mpr (Or.inl rfl), known⟩
      · have held := exclusive.returned key other old
        exact ⟨listed_insert.mpr (Or.inr held.1), held.2⟩

theorem Exclusive.step (step : GetStep) (alone : Alone state step) : Exclusive (getStep state step) := by
  cases step with
  | search task dev block => exact exclusive.search
  | prepare task given => exact exclusive.prepare task given
  | insert task => exact exclusive.insert alone

end Steps

end Uesi.Blk
