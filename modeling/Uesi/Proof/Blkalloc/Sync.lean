import Uesi.Proof.Blkalloc.Invariant

namespace Uesi.Blkalloc

open Library

variable {state : SyncState}

/-- The bitmap blocks as `blk_alloc_init` computes them, for sizes whose sum fits into 32 bits. -/
structure Sized (alloc : BlkAllocator) : Prop where
  positive : 0 < alloc.blockSize
  fits : alloc.bitmapSize + alloc.blockSize ≤ 2 ^ 32
  blocks : alloc.bitmapBlocks = (alloc.bitmapSize + alloc.blockSize - 1) % 2 ^ 32 / alloc.blockSize

/-- The bitmap blocks cover the bitmap, and each of them starts inside of it. -/
theorem Sized.cover {alloc : BlkAllocator} (sized : Sized alloc) :
    alloc.bitmapSize ≤ alloc.bitmapBlocks * alloc.blockSize ∧
      ∀ block, block < alloc.bitmapBlocks → block * alloc.blockSize < alloc.bitmapSize := by
  have positive := sized.positive
  have fits := sized.fits
  have blocks := sized.blocks
  rw [Nat.mod_eq_of_lt (by omega)] at blocks
  constructor
  · have above := Nat.lt_mul_div_succ (alloc.bitmapSize + alloc.blockSize - 1) positive
    rw [← blocks, Nat.mul_add, Nat.mul_comm] at above
    omega
  · intro block below
    have reached : (block + 1) * alloc.blockSize ≤ alloc.bitmapSize + alloc.blockSize - 1 := by
      rw [← Nat.le_div_iff_mul_le positive, ← blocks]
      exact below
    rw [Nat.add_mul] at reached
    omega

theorem Sized.chunkOffset {alloc : BlkAllocator} (sized : Sized alloc) {block : Nat}
    (below : block < alloc.bitmapBlocks) : chunkOffset alloc block = block * alloc.blockSize := by
  have start := sized.cover.2 block below
  have fits := sized.fits
  exact Nat.mod_eq_of_lt (by omega)

/-- One write covers its bitmap block as far as the bitmap reaches. -/
theorem Sized.chunk {alloc : BlkAllocator} (sized : Sized alloc) {block byte : Nat}
    (below : block < alloc.bitmapBlocks) (inside : byte < alloc.bitmapSize)
    (before : byte < (block + 1) * alloc.blockSize) :
    byte < Blkalloc.chunkOffset alloc block + chunkSize alloc block := by
  have start := sized.cover.2 block below
  have fits := sized.fits
  have positive := sized.positive
  unfold chunkSize
  rw [sized.chunkOffset below]
  rw [Nat.add_mul] at before
  dsimp only
  split_ifs
  all_goals omega

/-- No sync has written the bitmap block with the bit of this block yet. -/
def Unwritten (state : SyncState) (block : Nat) : Prop :=
  ∀ task, match state.phase task with
    | .idle => True
    | .writing done => done * state.alloc.blockSize ≤ block / 8
    | .synced => False

/-- A section of `blk_alloc` or `blk_free` runs while no sync has written the bitmap block that it changes. -/
def Undisturbed (state : SyncState) : SyncStep → Prop
  | .alloc => ∀ block, blkAlloc state.alloc = (block, takeBlock state.alloc block) → Unwritten state block
  | .free blockNum => blockNum < state.alloc.totalBlocks → state.alloc.firstDataBlock ≤ blockNum →
      state.alloc.free blockNum = false → Unwritten state blockNum
  | _ => True

/-- The bitmap that was last written agrees with the one in memory below a bound. -/
def Agrees (state : SyncState) (bound : Nat) : Prop :=
  ∀ byte, byte < state.alloc.bitmapSize → byte < bound → state.written byte = state.alloc.bitmap byte

/-- A clean allocator agrees with the device, and so does the part behind every running sync. -/
structure Tracked (state : SyncState) : Prop where
  sized : Sized state.alloc
  clean : state.alloc.dirty = false → Agrees state state.alloc.bitmapSize
  behind : ∀ task done, state.phase task = .writing done → Agrees state (done * state.alloc.blockSize)
  synced : ∀ task, state.phase task = .synced → Agrees state state.alloc.bitmapSize

section Steps

variable (tracked : Tracked state)

include tracked

/-- A change of the bit of a block that no sync has written keeps the invariant. -/
theorem Tracked.change {after : BlkAllocator} {block : Nat} (unwritten : Unwritten state block)
    (size : after.blockSize = state.alloc.blockSize) (bytes : after.bitmapSize = state.alloc.bitmapSize)
    (blocks : after.bitmapBlocks = state.alloc.bitmapBlocks) (dirty : after.dirty = true)
    (others : ∀ byte, byte ≠ block / 8 → after.bitmap byte = state.alloc.bitmap byte) :
    Tracked { state with alloc := after } where
  sized := by
    have sized := tracked.sized
    exact ⟨size ▸ sized.positive, by rw [size, bytes]; exact sized.fits,
      by rw [size, bytes, blocks]; exact sized.blocks⟩
  clean := fun clean => absurd (dirty.symm.trans clean) Bool.noConfusion
  behind := by
    intro task done phase byte inside below
    have later := unwritten task
    dsimp only at phase inside below
    rw [phase] at later
    rw [size] at below
    rw [bytes] at inside
    have other : byte ≠ block / 8 := fun same => by
      rw [← same] at later
      exact absurd later (by dsimp only; omega)
    dsimp only
    rw [others byte other]
    exact tracked.behind task done phase byte inside below
  synced := by
    intro task phase
    have later := unwritten task
    dsimp only at phase
    rw [phase] at later
    exact later.elim

theorem Tracked.alloc (allowed : Undisturbed state .alloc) : Tracked (syncStep state .alloc) := by
  have taken (block : Nat) (found : blkAlloc state.alloc = (block, takeBlock state.alloc block)) :
      Tracked (syncStep state .alloc) := by
    unfold syncStep
    rw [found]
    refine tracked.change (allowed block found) rfl rfl rfl rfl fun byte other => ?_
    exact Function.update_of_ne other _ _
  have kept (same : blkAlloc state.alloc = (0, state.alloc)) : Tracked (syncStep state .alloc) := by
    unfold syncStep
    rw [same]
    exact tracked
  by_cases full : state.alloc.totalBlocks ≤ state.alloc.usedBlocks
  · exact kept (by rw [blkAlloc, if_pos full])
  · cases first : findFree state.alloc state.alloc.firstFree state.alloc.totalBlocks with
    | some block => exact taken block (by rw [blkAlloc, if_neg full, first])
    | none =>
        cases second : findFree state.alloc state.alloc.firstDataBlock state.alloc.firstFree with
        | some block => exact taken block (by rw [blkAlloc, if_neg full, first, second])
        | none => exact kept (by rw [blkAlloc, if_neg full, first, second])

theorem Tracked.free {blockNum : Nat} (allowed : Undisturbed state (.free blockNum)) :
    Tracked (syncStep state (.free blockNum)) := by
  unfold syncStep blkFree
  dsimp only
  by_cases outside : state.alloc.totalBlocks ≤ blockNum
  · rw [if_pos outside]
    exact tracked
  rw [if_neg outside]
  by_cases reserved : blockNum < state.alloc.firstDataBlock
  · rw [if_pos reserved]
    exact tracked
  rw [if_neg reserved]
  cases free : state.alloc.free blockNum with
  | true =>
      rw [if_pos rfl]
      exact tracked
  | false =>
      rw [if_neg Bool.false_ne_true]
      refine tracked.change (allowed (by omega) (by omega) free) rfl rfl rfl rfl fun byte other => ?_
      exact Function.update_of_ne other _ _

/-- A task that enters a phase whose part of the bitmap agrees keeps the invariant. -/
theorem Tracked.enter {task : Nat} {phase : SyncPhase}
    (writing : ∀ done, phase = .writing done → Agrees state (done * state.alloc.blockSize))
    (synced : phase = .synced → Agrees state state.alloc.bitmapSize) :
    Tracked { state with phase := Function.update state.phase task phase } where
  sized := tracked.sized
  clean := tracked.clean
  behind := by
    intro other done same
    dsimp only at same
    by_cases own : other = task
    · rw [own, Function.update_self] at same
      exact writing done same
    · rw [Function.update_of_ne own] at same
      exact tracked.behind other done same
  synced := by
    intro other same
    dsimp only at same
    by_cases own : other = task
    · rw [own, Function.update_self] at same
      exact synced same
    · rw [Function.update_of_ne own] at same
      exact tracked.synced other same

theorem Tracked.begin (task : Nat) : Tracked (syncStep state (.begin task)) := by
  unfold syncStep
  dsimp only
  split_ifs
  · refine tracked.enter (fun done same byte _ below => ?_) (fun same => nomatch same)
    cases same
    omega
  · exact tracked

end Steps

/-- Writing a part of the bitmap keeps every agreement. -/
theorem Agrees.write {bound block : Nat} (agrees : Agrees state bound) :
    Agrees { state with written := writeChunk state block } bound := by
  intro byte inside below
  dsimp only [writeChunk]
  split_ifs
  · rfl
  · exact agrees byte inside below

theorem Tracked.write (tracked : Tracked state) (task : Nat) : Tracked (syncStep state (.write task)) := by
  unfold syncStep
  dsimp only
  cases phase : state.phase task with
  | idle => exact tracked
  | synced => exact tracked
  | writing done =>
      dsimp only
      by_cases below : done < state.alloc.bitmapBlocks
      · rw [if_pos below]
        have kept : Tracked { state with written := writeChunk state done } :=
          ⟨tracked.sized, fun clean => (tracked.clean clean).write,
            fun other last same => (tracked.behind other last same).write,
            fun other same => (tracked.synced other same).write⟩
        refine kept.enter (fun next same byte inside before => ?_) (fun same => nomatch same)
        cases same
        dsimp only [writeChunk] at inside before ⊢
        have reach := tracked.sized.chunk below inside before
        by_cases now : chunkOffset state.alloc done ≤ byte
        · rw [if_pos ⟨now, reach⟩]
        · rw [if_neg fun both => now both.1]
          rw [tracked.sized.chunkOffset below] at now
          exact tracked.behind task done phase byte inside (by omega)
      · rw [if_neg below]
        exact tracked

theorem Tracked.fsync (tracked : Tracked state) (task : Nat) : Tracked (syncStep state (.fsync task)) := by
  unfold syncStep
  dsimp only
  cases phase : state.phase task with
  | idle => exact tracked
  | synced => exact tracked
  | writing done =>
      dsimp only
      by_cases below : done < state.alloc.bitmapBlocks
      · rw [if_pos below]
        exact tracked
      · rw [if_neg below]
        refine tracked.enter (fun next same => nomatch same) (fun _ byte inside _ => ?_)
        have all : state.alloc.bitmapBlocks * state.alloc.blockSize ≤ done * state.alloc.blockSize :=
          Nat.mul_le_mul_right _ (by omega)
        have cover := tracked.sized.cover.1
        exact tracked.behind task done phase byte inside (by omega)

theorem Tracked.clear (tracked : Tracked state) (task : Nat) : Tracked (syncStep state (.clear task)) := by
  unfold syncStep
  dsimp only
  by_cases ready : state.phase task = .synced
  · rw [if_pos ready]
    have kept : Tracked { state with alloc := { state.alloc with dirty := false } } :=
      ⟨⟨tracked.sized.positive, tracked.sized.fits, tracked.sized.blocks⟩, fun _ => tracked.synced task ready,
        tracked.behind, tracked.synced⟩
    exact kept.enter (fun next same => nomatch same) (fun same => nomatch same)
  · rw [if_neg ready]
    exact tracked

theorem Tracked.step (tracked : Tracked state) (step : SyncStep) (allowed : Undisturbed state step) :
    Tracked (syncStep state step) := by
  cases step with
  | alloc => exact tracked.alloc allowed
  | free blockNum => exact tracked.free allowed
  | begin task => exact tracked.begin task
  | write task => exact tracked.write task
  | fsync task => exact tracked.fsync task
  | clear task => exact tracked.clear task

/-- In every run in which no section changes a bitmap block that a running sync has written, a bitmap that differs
from the one last written is dirty. -/
theorem syncStep_cleanOnDisk (state : SyncState) (steps : List SyncStep) (sized : Sized state.alloc)
    (idle : ∀ task, state.phase task = .idle)
    (equal : ∀ byte, byte < state.alloc.bitmapSize → state.written byte = state.alloc.bitmap byte)
    (undisturbed : Guarded syncStep Undisturbed state steps) :
    let reached := run syncStep state steps
    ∀ byte, byte < reached.alloc.bitmapSize → reached.written byte ≠ reached.alloc.bitmap byte →
      reached.alloc.dirty = true := by
  intro reached byte inside differs
  have initial : Tracked state := by
    refine ⟨sized, fun _ byte inside _ => equal byte inside, fun task done phase => ?_, fun task phase => ?_⟩
    all_goals rw [idle task] at phase
    all_goals exact nomatch phase
  have tracked : Tracked reached :=
    run_guarded_invariant syncStep Undisturbed Tracked (fun state step held allowed => held.step step allowed)
      state steps initial undisturbed
  by_contra clean
  exact differs (tracked.clean (Bool.not_eq_true _ ▸ clean) byte inside inside)

theorem mounted_lt : 16 < 2 ^ 32 := by decide

/-- A clean allocator of sixteen blocks on a device, of which only the reserved block is taken. -/
def mounted : BlkAllocator where
  totalBlocks := 16
  totalBlocks_lt := mounted_lt
  usedBlocks := 1
  firstDataBlock := 1
  firstFree := 1
  blockSize := 512
  bitmap := fun byte => if byte = 0 then 1 else 0
  bitmapSize := 2
  mount := some (some "disk")
  bitmapBlocks := 1
  dirty := false

/-- The two bitmaps are equal and no sync is running. -/
def mountedSync : SyncState where
  alloc := mounted
  written := mounted.bitmap

theorem syncStep_cleanOnDisk_of_one :
    let steps := [SyncStep.alloc, .begin 0, .alloc, .write 0]
    Guarded syncStep Undisturbed mountedSync steps ∧
      ∀ byte, byte < 2 → (run syncStep mountedSync steps).written byte ≠
        (run syncStep mountedSync steps).alloc.bitmap byte → (run syncStep mountedSync steps).alloc.dirty = true := by
  intro steps
  have guarded : Guarded syncStep Undisturbed mountedSync steps := by
    refine ⟨fun block _ task => trivial, trivial, fun block _ task => ?_, trivial, trivial⟩
    by_cases own : task = 0
    · rw [own]
      exact Nat.zero_le _
    · have idle : (run syncStep mountedSync [.alloc, .begin 0]).phase task = .idle :=
        Function.update_of_ne own _ _
      exact idle ▸ trivial
  exact ⟨guarded, syncStep_cleanOnDisk mountedSync steps ⟨by decide, by decide, by decide⟩ (fun _ => rfl)
    (fun _ _ => rfl) guarded⟩

/-- A block that is taken behind the write of the bitmap is lost on the device: the sync marks the bitmap as clean. -/
theorem sync_losesAlloc :
    let reached := run syncStep mountedSync [.alloc, .begin 0, .write 0, .alloc, .fsync 0, .clear 0]
    reached.alloc.dirty = false ∧ reached.written 0 ≠ reached.alloc.bitmap 0 := by
  decide

end Uesi.Blkalloc
