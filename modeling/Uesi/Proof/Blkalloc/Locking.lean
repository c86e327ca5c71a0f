import Uesi.Construction.Blkalloc.Locking
import Uesi.Library.Exec

namespace Uesi.Blkalloc.Locking

open Library

variable {after : Unit → LockedAllocator → Prop} {state : LockedAllocator}

section Steps

variable {α : Type} {stop : LockPanic → Prop} {alloc : BlkAllocator}

@[simp] theorem post_acquire :
    Post stop spinlockAcquire after ⟨alloc, false⟩ ↔ after () ⟨alloc, true⟩ := Iff.rfl

@[simp] theorem post_release :
    Post stop spinlockRelease after ⟨alloc, true⟩ ↔ after () ⟨alloc, false⟩ := Iff.rfl

@[simp] theorem post_fields {after : BlkAllocator → LockedAllocator → Prop} :
    Post stop fields after state ↔ after state.alloc state := Iff.rfl

@[simp] theorem post_setFields (next : BlkAllocator) :
    Post stop (setFields next) after state ↔ after () ⟨next, state.held⟩ := Iff.rfl

end Steps

/-- A call on a free lock returns a value with the lock free again. -/
def Returns {α : Type} (action : LockM α) (alloc : BlkAllocator) (value : α) (next : BlkAllocator) : Prop :=
  Post (fun _ => False) action (fun result final => result = value ∧ final = ⟨next, false⟩) ⟨alloc, false⟩

section Sections

variable (alloc : BlkAllocator)

/-! Every function with one critical section computes what the model without the lock computes. -/

theorem blkAlloc_returns : Returns (blkAlloc true) alloc (Blkalloc.blkAlloc alloc).1 (Blkalloc.blkAlloc alloc).2 := by
  unfold Returns blkAlloc Blkalloc.blkAlloc
  simp only [Bool.true_eq_false, if_false, post_bind, post_acquire, post_fields]
  split
  · simp
  · cases findFree alloc alloc.firstFree alloc.totalBlocks with
    | some block => simp
    | none =>
        cases findFree alloc alloc.firstDataBlock alloc.firstFree with
        | some block => simp
        | none => simp

theorem blkAllocSpecific_returns (blockNum : Nat) :
    Returns (blkAllocSpecific true blockNum) alloc (Blkalloc.blkAllocSpecific alloc blockNum).1
      (Blkalloc.blkAllocSpecific alloc blockNum).2 := by
  unfold Returns blkAllocSpecific Blkalloc.blkAllocSpecific
  simp only [Bool.true_eq_false, if_false, post_bind, post_fields]
  split
  · simp
  · simp only [post_bind, post_acquire, post_fields]
    split
    · simp
    · simp

theorem blkAllocContiguous_returns (count : Nat) (array : Bool) :
    Returns (blkAllocContiguous true count array) alloc (Blkalloc.blkAllocContiguous alloc count array).1
      (Blkalloc.blkAllocContiguous alloc count array).2 := by
  unfold Returns blkAllocContiguous Blkalloc.blkAllocContiguous
  simp only [Bool.true_eq_false, false_or]
  split
  · simp
  · simp only [post_bind, post_acquire, post_fields]
    split
    · simp
    · generalize contiguousLoop alloc.free _ _ (0, 0) = run
      obtain ⟨startBlock, found⟩ := run
      dsimp only
      split
      · simp
      · simp

theorem blkFree_returns (blockNum : Nat) :
    Returns (blkFree true blockNum) alloc (Blkalloc.blkFree alloc blockNum).1
      (Blkalloc.blkFree alloc blockNum).2 := by
  unfold Returns blkFree Blkalloc.blkFree
  simp only [Bool.true_eq_false, if_false, post_bind, post_fields]
  split
  · simp
  · simp only [post_bind, post_fields]
    split
    · simp
    · simp only [post_bind, post_acquire, post_fields]
      split
      · simp
      · simp

theorem freeLoop_returns (blocks : List Nat) :
    Returns (freeLoop blocks) alloc (Blkalloc.blkFreeMultiple alloc blocks).1
      (Blkalloc.blkFreeMultiple alloc blocks).2 := by
  induction blocks generalizing alloc with
  | nil => exact ⟨rfl, rfl⟩
  | cons block rest ih =>
      have first := blkFree_returns alloc block
      rw [freeLoop, Blkalloc.blkFreeMultiple]
      cases freed : Blkalloc.blkFree alloc block with
      | mk result next =>
          rw [freed] at first
          refine Post.seq first ?_
          rintro value final ⟨rfl, rfl⟩
          cases value with
          | ok _ =>
              refine Post.seq (ih next) ?_
              rintro count final ⟨rfl, rfl⟩
              exact ⟨rfl, rfl⟩
          | error code => exact ih next

theorem blkIsAllocated_returns (blockNum : Nat) :
    Returns (blkIsAllocated true blockNum) alloc (Blkalloc.blkIsAllocated alloc blockNum) alloc := by
  unfold Returns blkIsAllocated Blkalloc.blkIsAllocated
  simp only [Bool.true_eq_false, if_false, post_bind, post_fields]
  split
  · simp
  · simp

theorem blkAllocFormat_returns (reservedBlocks : Nat) :
    ∃ value next, Returns (blkAllocFormat true reservedBlocks) alloc value next ∧
      Blkalloc.blkAllocFormat alloc reservedBlocks = value.map fun _ => next := by
  unfold Returns blkAllocFormat Blkalloc.blkAllocFormat
  simp only [Bool.true_eq_false, if_false, post_bind, post_fields]
  split
  · exact ⟨.error .einval, alloc, ⟨rfl, rfl⟩, rfl⟩
  · exact ⟨.ok (), _, ⟨rfl, rfl⟩, rfl⟩

theorem blkAllocLargestFreeRegion_returns :
    Returns (blkAllocLargestFreeRegion true) alloc (Blkalloc.blkAllocLargestFreeRegion alloc) alloc :=
  ⟨rfl, rfl⟩

theorem blkAllocValidate_returns : Returns (blkAllocValidate true) alloc (Blkalloc.blkAllocValidate alloc) alloc := by
  unfold Returns blkAllocValidate Blkalloc.blkAllocValidate
  simp only [Bool.true_eq_false, if_false, post_bind, post_acquire, post_fields]
  split
  · simp
  · split
    · simp
    · simp

end Sections

/-- A call returns without a panic and with the lock free. -/
def Disciplined {α : Type} (action : LockM α) (state : LockedAllocator) : Prop :=
  Post (fun _ => False) action (fun _ final => final.held = false) state

theorem Returns.disciplined {α : Type} {action : LockM α} {alloc next : BlkAllocator} {value : α}
    (returns : Returns action alloc value next) : Disciplined action ⟨alloc, false⟩ :=
  returns.mono fun _ _ done => by rw [done.2]

/-- The calls of the file system, made without the lock, return without it. -/
structure Vfs.Obeys (vfs : Vfs) : Prop where
  openDevice : ∀ device alloc, Disciplined (vfs.openDevice device) ⟨alloc, false⟩
  seek : ∀ offset alloc, Disciplined (vfs.seek offset) ⟨alloc, false⟩
  write : ∀ offset size alloc, Disciplined (vfs.write offset size) ⟨alloc, false⟩
  read : ∀ offset size alloc, Disciplined (vfs.read offset size) ⟨alloc, false⟩
  fsync : ∀ alloc, Disciplined vfs.fsync ⟨alloc, false⟩
  close : ∀ alloc, Disciplined vfs.close ⟨alloc, false⟩

/-- A call that returns without the lock is followed by the rest. -/
theorem Disciplined.bind {α β : Type} {action : LockM α} {next : α → LockM β} {alloc : BlkAllocator}
    (first : Disciplined action ⟨alloc, false⟩) (rest : ∀ value alloc, Disciplined (next value) ⟨alloc, false⟩) :
    Disciplined (action >>= next) ⟨alloc, false⟩ := by
  refine Post.seq first fun value final free => ?_
  obtain ⟨fields, held⟩ := final
  obtain rfl : held = false := free
  exact rest value fields

theorem Disciplined.pure {α : Type} (value : α) (alloc : BlkAllocator) :
    Disciplined (pure value : LockM α) ⟨alloc, false⟩ := rfl

/-- A critical section that sets fields leaves the lock free. -/
theorem Disciplined.critical {α : Type} {next : LockM α} {change : BlkAllocator → BlkAllocator} {alloc : BlkAllocator}
    (rest : ∀ alloc, Disciplined next ⟨alloc, false⟩) :
    Disciplined (do
      spinlockAcquire
      setFields (change (← fields))
      spinlockRelease
      next) ⟨alloc, false⟩ := by
  unfold Disciplined
  simp only [post_bind, post_acquire, post_fields, post_setFields, post_release]
  exact rest _

section Device

variable {vfs : Vfs} (obeys : vfs.Obeys)
include obeys

theorem syncLoop_disciplined (blocks : List Nat) (alloc : BlkAllocator) :
    Disciplined (syncLoop vfs blocks) ⟨alloc, false⟩ := by
  induction blocks generalizing alloc with
  | nil => exact Disciplined.pure _ _
  | cons block rest ih =>
      rw [syncLoop]
      refine (obeys.seek _ _).bind fun seekResult alloc => Post.ite (fun _ => ?_) fun _ => ?_
      · exact (obeys.close _).bind fun _ alloc => Disciplined.pure _ _
      · refine (obeys.write _ _ _).bind fun written alloc => Post.ite (fun _ => ?_) fun _ => ?_
        · exact (obeys.close _).bind fun _ alloc => Disciplined.pure _ _
        · exact ih alloc

theorem loadLoop_disciplined (bitmapBlock : Nat) (blocks : List Nat) (alloc : BlkAllocator) :
    Disciplined (loadLoop vfs bitmapBlock blocks) ⟨alloc, false⟩ := by
  induction blocks generalizing alloc with
  | nil => exact Disciplined.pure _ _
  | cons block rest ih =>
      rw [loadLoop]
      refine (obeys.seek _ _).bind fun seekResult alloc => Post.ite (fun _ => ?_) fun _ => ?_
      · exact (obeys.close _).bind fun _ alloc => Disciplined.pure _ _
      · refine (obeys.read _ _ _).bind fun bytesRead alloc => Post.ite (fun _ => ?_) fun _ => ?_
        · exact (obeys.close _).bind fun _ alloc => Disciplined.pure _ _
        · exact ih alloc

theorem blkAllocSync_disciplined (alloc : BlkAllocator) : Disciplined (blkAllocSync vfs true) ⟨alloc, false⟩ := by
  unfold Disciplined blkAllocSync
  simp only [Bool.true_eq_false, if_false, post_bind, post_acquire, post_fields]
  refine Post.ite (fun _ => ?_) fun _ => ?_
  · simp
  · rcases alloc.mount with _ | _ | device
    · simp
    · simp
    · dsimp only
      rw [post_bind, post_release]
      refine (obeys.openDevice device alloc).bind fun opened alloc =>
        Post.ite (fun _ => Disciplined.pure _ _) fun _ => ?_
      refine (syncLoop_disciplined obeys _ alloc).bind fun result alloc => ?_
      cases result with
      | error failure => exact Disciplined.pure _ _
      | ok _ =>
          refine (obeys.fsync alloc).bind fun synced alloc => Post.ite (fun _ => ?_) fun _ => ?_
          · exact (obeys.close _).bind fun _ alloc => Disciplined.pure _ _
          · exact (obeys.close _).bind fun _ alloc => Disciplined.critical (Disciplined.pure _)

theorem blkAllocLoad_disciplined (mount : Option (Option String)) (bitmapBlock : Nat) (alloc : BlkAllocator) :
    Disciplined (blkAllocLoad vfs true mount bitmapBlock) ⟨alloc, false⟩ := by
  unfold blkAllocLoad
  rw [if_neg (by decide)]
  rcases mount with _ | _ | device
  · exact Disciplined.pure _ _
  · exact Disciplined.critical (Disciplined.pure _)
  · refine Disciplined.critical fun alloc => ?_
    dsimp only
    refine (obeys.openDevice device alloc).bind fun opened alloc =>
      Post.ite (fun _ => Disciplined.pure _ _) fun _ => ?_
    refine (loadLoop_disciplined obeys bitmapBlock _ alloc).bind fun result alloc => ?_
    cases result with
    | error failure => exact Disciplined.pure _ _
    | ok _ => exact (obeys.close _).bind fun _ alloc => Disciplined.critical (Disciplined.pure _)

theorem blkAllocDestroy_disciplined (alloc : BlkAllocator) : Disciplined (blkAllocDestroy vfs true) ⟨alloc, false⟩ := by
  unfold Disciplined blkAllocDestroy
  simp only [Bool.true_eq_false, if_false, post_bind, post_fields]
  refine Post.ite (fun _ => ?_) fun _ => rfl
  exact (blkAllocSync_disciplined obeys alloc).bind fun _ alloc => Disciplined.pure _ _

end Device

/-- The measure of fragmentation reads the allocator, with or without the lock. -/
theorem blkAllocFragmentation_reads {stop : LockPanic → Prop} (state : LockedAllocator) :
    Post stop (blkAllocFragmentation true) (fun _ final => final = state) state := by
  unfold blkAllocFragmentation
  simp only [Bool.true_eq_false, if_false, post_bind, post_fields]
  exact Post.ite (fun _ => rfl) fun _ => rfl

theorem blkAllocGetStats_disciplined (place : Bool) (alloc : BlkAllocator) :
    Disciplined (blkAllocGetStats true place) ⟨alloc, false⟩ := by
  unfold Disciplined blkAllocGetStats
  refine Post.ite (fun _ => rfl) fun _ => ?_
  simp only [post_bind, post_acquire, post_fields]
  refine (blkAllocFragmentation_reads _).mono fun _ final same => ?_
  rw [same]
  exact rfl

theorem Disciplined.discard {α : Type} {action : LockM α} (run : Disciplined action state) :
    Disciplined (discard action) state :=
  (post_map (fun _ => ()) action).mpr run

/-- A call with a null pointer returns at once. -/
theorem publicCall_null (vfs : Vfs) (call : PublicCall) (alloc : BlkAllocator) :
    Disciplined (publicCall vfs false call) ⟨alloc, false⟩ := by
  cases call
  all_goals exact rfl

/-- The report acquires the lock a second time. -/
theorem blkAllocDebugPrint_panics (alloc : BlkAllocator) :
    Post (· = .recursiveLock) (blkAllocDebugPrint true) (fun _ _ => False) ⟨alloc, false⟩ := by
  unfold blkAllocDebugPrint
  simp only [Bool.true_eq_false, if_false, post_bind, post_acquire]
  refine (blkAllocFragmentation_reads _).mono fun _ final same => ?_
  rw [same]
  exact rfl

theorem blkAllocDebugPrint_undisciplined (alloc : BlkAllocator) :
    ¬ Disciplined (blkAllocDebugPrint true) ⟨alloc, false⟩ := by
  intro run
  have panics := blkAllocDebugPrint_panics alloc
  unfold Disciplined Post at run
  unfold Post at panics
  split at run
  · rename_i returned
    rw [returned] at panics
    exact panics
  · exact run

/-- A public function other than the report returns with the lock free. -/
theorem publicCall_disciplined {vfs : Vfs} (obeys : vfs.Obeys) {call : PublicCall} (other : call ≠ .debugPrint)
    (alloc : BlkAllocator) : Disciplined (publicCall vfs true call) ⟨alloc, false⟩ := by
  cases call with
  | debugPrint => exact absurd rfl other
  | init room totalBlocks bounded firstDataBlock blockSize =>
      refine Disciplined.discard ?_
      unfold blkAllocInit
      rw [if_neg (by decide)]
      cases Blkalloc.blkAllocInit room totalBlocks bounded firstDataBlock blockSize with
      | error code => exact Disciplined.pure _ _
      | ok next => exact rfl
  | destroy => exact blkAllocDestroy_disciplined obeys alloc
  | alloc => exact (blkAlloc_returns alloc).disciplined.discard
  | allocSpecific blockNum => exact (blkAllocSpecific_returns alloc blockNum).disciplined.discard
  | allocContiguous count array =>
      exact (blkAllocContiguous_returns alloc count array).disciplined.discard
  | free blockNum => exact (blkFree_returns alloc blockNum).disciplined.discard
  | freeMultiple blocks =>
      refine Disciplined.discard ?_
      cases blocks with
      | none => exact Disciplined.pure _ _
      | some blocks => exact (freeLoop_returns alloc blocks).disciplined
  | isAllocated blockNum => exact (blkIsAllocated_returns alloc blockNum).disciplined.discard
  | getStats place => exact (blkAllocGetStats_disciplined place alloc).discard
  | markDirty => exact rfl
  | sync => exact (blkAllocSync_disciplined obeys alloc).discard
  | load mount bitmapBlock =>
      exact (blkAllocLoad_disciplined obeys mount bitmapBlock alloc).discard
  | format reservedBlocks =>
      obtain ⟨value, next, returns, _⟩ := blkAllocFormat_returns alloc reservedBlocks
      exact returns.disciplined.discard
  | fragmentation =>
      refine Disciplined.discard ?_
      exact (blkAllocFragmentation_reads _).mono fun _ final same => by rw [same]
  | largestFreeRegion => exact (blkAllocLargestFreeRegion_returns alloc).disciplined.discard
  | validate => exact (blkAllocValidate_returns alloc).disciplined.discard

/-- A public function that is called without the lock neither acquires it twice nor keeps it, exactly if it is not the
report on an allocator. -/
theorem publicCall_disciplined_iff (vfs : Vfs) (obeys : vfs.Obeys) (given : Bool) (call : PublicCall)
    (alloc : BlkAllocator) :
    Disciplined (publicCall vfs given call) ⟨alloc, false⟩ ↔ ¬ (given = true ∧ call = .debugPrint) := by
  cases given with
  | false => exact iff_of_true (publicCall_null vfs call alloc) (by simp)
  | true =>
      by_cases report : call = .debugPrint
      · subst report
        exact iff_of_false (blkAllocDebugPrint_undisciplined alloc) (by simp)
      · exact iff_of_true (publicCall_disciplined obeys report alloc) fun both => report both.2

/-- A file system whose calls succeed and do nothing else. -/
def idleVfs : Vfs where
  openDevice _ := pure 0
  seek _ := pure 0
  write _ size := pure size
  read _ size := pure size
  fsync := pure 0
  close := pure ()

/-- A dirty allocator of eight blocks on a device. -/
def eightBlocks : BlkAllocator where
  totalBlocks := 8
  totalBlocks_lt := by decide
  usedBlocks := 0
  firstDataBlock := 1
  firstFree := 1
  blockSize := 512
  bitmap _ := 0
  bitmapSize := 1
  mount := some (some "/dev/ram0")
  bitmapBlocks := 1
  dirty := true

theorem publicCall_disciplined_iff_eight : Disciplined (publicCall idleVfs true .sync) ⟨eightBlocks, false⟩ :=
  (publicCall_disciplined_iff idleVfs ⟨fun _ _ => rfl, fun _ _ => rfl, fun _ _ _ => rfl, fun _ _ _ => rfl,
    fun _ => rfl, fun _ => rfl⟩ true .sync eightBlocks).mpr (by simp)

/-- The report on an allocator whose lock is free panics. -/
theorem blkAllocDebugPrint_recursive :
    ∃ final, publicCall idleVfs true .debugPrint ⟨eightBlocks, false⟩ = .error .recursiveLock final :=
  ⟨⟨eightBlocks, true⟩, rfl⟩

end Uesi.Blkalloc.Locking
