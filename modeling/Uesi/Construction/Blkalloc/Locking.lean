import Uesi.Construction.Blkalloc

namespace Uesi.Blkalloc.Locking

open Library

/-- The panics of `spinlock_acquire` and `spinlock_release`. -/
inductive LockPanic where
  | recursiveLock
  | notHeld
  deriving DecidableEq

/-- The allocator with `ba_lock`, as one CPU sees it. -/
structure LockedAllocator where
  alloc : BlkAllocator
  held : Bool

/-- Code that runs on one CPU. -/
abbrev LockM (α : Type) : Type := EStateM LockPanic LockedAllocator α

/-- This is `spinlock_acquire_irqsave` on `ba_lock`. -/
def spinlockAcquire : LockM Unit := do
  if (← get).held then throw .recursiveLock
  modify fun state => { state with held := true }

/-- This is `spinlock_release_irqrestore` on `ba_lock`. -/
def spinlockRelease : LockM Unit := do
  if !(← get).held then throw .notHeld
  modify fun state => { state with held := false }

/-- A read of the fields of the allocator. -/
def fields : LockM BlkAllocator := return (← get).alloc

/-- A write of the fields of the allocator. -/
def setFields (alloc : BlkAllocator) : LockM Unit := modify fun state => { state with alloc := alloc }

/-- The failures of `blk_alloc_sync` and `blk_alloc_load`, where the others are results of the file system. -/
inductive SyncFailure where
  | einval
  | eio
  | device (result : Int)
  deriving DecidableEq

/-- The calls of the file system, with the device, the offset on it, and the part of the bitmap that they transfer. -/
structure Vfs where
  openDevice : String → LockM Int
  seek : Nat → LockM Int
  write : Nat → Nat → LockM Int
  read : Nat → Nat → LockM Int
  fsync : LockM Int
  close : LockM Unit

/-- This is `blk_alloc_init`. A null pointer is `given = false`, and whether `kmalloc` finds room is given too. -/
def blkAllocInit (given room : Bool) (totalBlocks : Nat) (bounded : totalBlocks < 2 ^ 32)
    (firstDataBlock blockSize : Nat) : LockM (Except Errno Unit) := do
  if given = false then return .error .einval
  match Blkalloc.blkAllocInit room totalBlocks bounded firstDataBlock blockSize with
  | .error code => return .error code
  | .ok alloc =>
      -- The call of `spinlock_init`.
      set ({ alloc := alloc, held := false } : LockedAllocator)
      return .ok ()

def blkAlloc (given : Bool) : LockM Nat := do
  if given = false then return 0
  spinlockAcquire
  let alloc ← fields
  if alloc.totalBlocks ≤ alloc.usedBlocks then
    spinlockRelease
    return 0
  match findFree alloc alloc.firstFree alloc.totalBlocks with
  | some block =>
      setFields (takeBlock alloc block)
      spinlockRelease
      return block
  | none =>
      match findFree alloc alloc.firstDataBlock alloc.firstFree with
      | some block =>
          setFields (takeBlock alloc block)
          spinlockRelease
          return block
      | none =>
          spinlockRelease
          return 0

def blkAllocSpecific (given : Bool) (blockNum : Nat) : LockM (Except Errno Unit) := do
  if given = false then return .error .einval
  if (← fields).totalBlocks ≤ blockNum then return .error .einval
  spinlockAcquire
  let alloc ← fields
  if bitmapTestBit alloc.bitmap blockNum then
    spinlockRelease
    return .error .eexist
  setFields { alloc with
    bitmap := bitmapSetBit alloc.bitmap blockNum
    usedBlocks := (alloc.usedBlocks + 1) % 2 ^ 32
    firstFree := if blockNum < alloc.firstFree then (blockNum + 1) % 2 ^ 32 else alloc.firstFree
    dirty := true }
  spinlockRelease
  return .ok ()

/-- This is `blk_alloc_contiguous`, with the blocks that it stores. -/
def blkAllocContiguous (given : Bool) (count : Nat) (array : Bool) : LockM (List Nat) := do
  if given = false ∨ count = 0 ∨ array = false then return []
  spinlockAcquire
  let alloc ← fields
  let available := (alloc.totalBlocks + (2 ^ 32 - alloc.usedBlocks)) % 2 ^ 32
  if available = 0 then
    spinlockRelease
    return []
  let count := if available < count then available else count
  let (startBlock, found) := contiguousLoop alloc.free count
    (List.range' alloc.firstDataBlock (alloc.totalBlocks - alloc.firstDataBlock)) (0, 0)
  if found = 0 then
    spinlockRelease
    return []
  setFields { alloc with
    bitmap := setBlocks alloc.bitmap startBlock found
    usedBlocks := (alloc.usedBlocks + found) % 2 ^ 32
    firstFree := (startBlock + found) % 2 ^ 32
    dirty := true }
  spinlockRelease
  return List.range' startBlock found

def blkFree (given : Bool) (blockNum : Nat) : LockM (Except Errno Unit) := do
  if given = false then return .error .einval
  if (← fields).totalBlocks ≤ blockNum then return .error .einval
  if blockNum < (← fields).firstDataBlock then return .error .einval
  spinlockAcquire
  let alloc ← fields
  if alloc.free blockNum then
    spinlockRelease
    return .error .einval
  setFields { alloc with
    bitmap := bitmapClearBit alloc.bitmap blockNum
    usedBlocks := if alloc.usedBlocks = 0 then 2 ^ 32 - 1 else alloc.usedBlocks - 1
    firstFree := if blockNum < alloc.firstFree then blockNum else alloc.firstFree
    dirty := true }
  spinlockRelease
  return .ok ()

/-- The loop of `blk_free_multiple`. -/
def freeLoop : List Nat → LockM Nat
  | [] => return 0
  | block :: rest => do
      match ← blkFree true block with
      | .ok () => return (← freeLoop rest) + 1
      | .error _ => freeLoop rest

/-- This is `blk_free_multiple`, where no array is `none`. -/
def blkFreeMultiple (given : Bool) (blocks : Option (List Nat)) : LockM Nat := do
  if given = false then return 0
  match blocks with
  | none => return 0
  | some blocks => freeLoop blocks

def blkIsAllocated (given : Bool) (blockNum : Nat) : LockM Bool := do
  if given = false then return false
  if (← fields).totalBlocks ≤ blockNum then return false
  spinlockAcquire
  let allocated := bitmapTestBit (← fields).bitmap blockNum
  spinlockRelease
  return allocated

/-- The loop body of `blk_alloc_fragmentation`, with `fragments` and `in_free_region`. -/
def fragmentStep (alloc : BlkAllocator) (state : Nat × Bool) (block : Nat) : Nat × Bool :=
  if alloc.free block ∧ state.2 = false then (state.1, true)
  else if alloc.free block = false ∧ state.2 = true then ((state.1 + 1) % 2 ^ 32, false)
  else state

/-- This is `blk_alloc_fragmentation`, which takes no lock. -/
def blkAllocFragmentation (given : Bool) : LockM Nat := do
  if given = false then return 0
  let alloc ← fields
  if alloc.usedBlocks = 0 then return 0
  let (fragments, _) := (List.range' alloc.firstDataBlock (alloc.totalBlocks - alloc.firstDataBlock)).foldl
    (fragmentStep alloc) (0, false)
  return fragments * 100 % 2 ^ 32 / alloc.usedBlocks

/-- The fields of `blk_alloc_stats_t`. -/
structure BlkAllocStats where
  totalBlocks : Nat
  usedBlocks : Nat
  freeBlocks : Nat
  firstFree : Nat
  fragmentation : Nat

/-- This is `blk_alloc_get_stats`, with the statistics if there is a place for them. -/
def blkAllocGetStats (given place : Bool) : LockM (Option BlkAllocStats) := do
  if given = false ∨ place = false then return none
  spinlockAcquire
  let alloc ← fields
  let fragmentation ← blkAllocFragmentation true
  let stats : BlkAllocStats :=
    ⟨alloc.totalBlocks, alloc.usedBlocks, (alloc.totalBlocks + (2 ^ 32 - alloc.usedBlocks)) % 2 ^ 32, alloc.firstFree,
      fragmentation⟩
  spinlockRelease
  return some stats

def blkAllocMarkDirty (given : Bool) : LockM Unit := do
  if given = false then return ()
  spinlockAcquire
  setFields { (← fields) with dirty := true }
  spinlockRelease

/-- The loop of `blk_alloc_sync` over the bitmap blocks that are left. No call changes their number. -/
def syncLoop (vfs : Vfs) : List Nat → LockM (Except SyncFailure Unit)
  | [] => return .ok ()
  | block :: rest => do
      let alloc ← fields
      let seekResult ← vfs.seek ((alloc.bitmapBlock + block) % 2 ^ 32 * alloc.blockSize)
      if seekResult < 0 then
        vfs.close
        return .error (.device seekResult)
      let written ← vfs.write (chunkOffset alloc block) (chunkSize alloc block)
      if written ≠ chunkSize alloc block then
        vfs.close
        return .error (if written < 0 then .device written else .eio)
      syncLoop vfs rest

def blkAllocSync (vfs : Vfs) (given : Bool) : LockM (Except SyncFailure Unit) := do
  if given = false then return .error .einval
  spinlockAcquire
  let alloc ← fields
  if alloc.dirty = false then
    spinlockRelease
    return .ok ()
  match alloc.mount with
  | none =>
      spinlockRelease
      return .error .einval
  | some none =>
      spinlockRelease
      return .error .einval
  | some (some device) =>
      spinlockRelease
      let opened ← vfs.openDevice device
      if opened ≠ 0 then return .error (.device opened)
      match ← syncLoop vfs (List.range (← fields).bitmapBlocks) with
      | .error failure => return .error failure
      | .ok () =>
          let synced ← vfs.fsync
          if synced ≠ 0 then
            vfs.close
            return .error (.device synced)
          vfs.close
          spinlockAcquire
          setFields { (← fields) with dirty := false }
          spinlockRelease
          return .ok ()

/-- This is `blk_alloc_destroy`. The bitmap that it frees is not used again. -/
def blkAllocDestroy (vfs : Vfs) (given : Bool) : LockM Unit := do
  if given = false then return ()
  let alloc ← fields
  if alloc.dirty ∧ alloc.mount.isSome then
    let _ ← blkAllocSync vfs true

/-- The loop of `blk_alloc_load` over the bitmap blocks that are left. -/
def loadLoop (vfs : Vfs) (bitmapBlock : Nat) : List Nat → LockM (Except SyncFailure Unit)
  | [] => return .ok ()
  | block :: rest => do
      let alloc ← fields
      let seekResult ← vfs.seek ((bitmapBlock + block) % 2 ^ 32 * alloc.blockSize)
      if seekResult < 0 then
        vfs.close
        return .error (.device seekResult)
      let bytesRead ← vfs.read (chunkOffset alloc block) (chunkSize alloc block)
      if bytesRead ≠ chunkSize alloc block then
        vfs.close
        return .error (if bytesRead < 0 then .device bytesRead else .eio)
      loadLoop vfs bitmapBlock rest

/-- The last section of `blk_alloc_load`, which counts the blocks in use and looks for the first free one. -/
def recount (alloc : BlkAllocator) : BlkAllocator :=
  { alloc with
    usedBlocks := countedLoop
      (fun block used => if bitmapTestBit alloc.bitmap block then (used + 1) % 2 ^ 32 else used) alloc.totalBlocks 0
    firstFree := (findFree alloc alloc.firstDataBlock alloc.totalBlocks).getD alloc.firstDataBlock
    dirty := false }

/-- This is `blk_alloc_load`, where the mount is given by its device if it has one. -/
def blkAllocLoad (vfs : Vfs) (given : Bool) (mount : Option (Option String)) (bitmapBlock : Nat) :
    LockM (Except SyncFailure Unit) := do
  if given = false then return .error .einval
  match mount with
  | none => return .error .einval
  | some device =>
      spinlockAcquire
      setFields { (← fields) with mount := some device, bitmapBlock := bitmapBlock }
      spinlockRelease
      match device with
      | none => return .error .einval
      | some device =>
          let opened ← vfs.openDevice device
          if opened ≠ 0 then return .error (.device opened)
          match ← loadLoop vfs bitmapBlock (List.range (← fields).bitmapBlocks) with
          | .error failure => return .error failure
          | .ok () =>
              vfs.close
              spinlockAcquire
              setFields (recount (← fields))
              spinlockRelease
              return .ok ()

def blkAllocFormat (given : Bool) (reservedBlocks : Nat) : LockM (Except Errno Unit) := do
  if given = false then return .error .einval
  if (← fields).totalBlocks < reservedBlocks then return .error .einval
  spinlockAcquire
  let alloc ← fields
  setFields { alloc with
    bitmap := setBlocks (fun byte => if byte < alloc.bitmapSize then 0 else alloc.bitmap byte) 0 reservedBlocks
    usedBlocks := countedLoop (fun _ used => (used + 1) % 2 ^ 32) reservedBlocks 0
    firstFree := reservedBlocks
    dirty := true }
  spinlockRelease
  return .ok ()

/-- This is `blk_alloc_largest_free_region`, with the start of the region. -/
def blkAllocLargestFreeRegion (given : Bool) : LockM (Nat × Nat) := do
  if given = false then return (0, 0)
  spinlockAcquire
  let region := Blkalloc.blkAllocLargestFreeRegion (← fields)
  spinlockRelease
  return region

/-- This is `blk_alloc_debug_print` without what it prints. -/
def blkAllocDebugPrint (given : Bool) : LockM Unit := do
  if given = false then return ()
  spinlockAcquire
  let _ ← blkAllocFragmentation true
  let _ ← blkAllocLargestFreeRegion true
  spinlockRelease

def blkAllocValidate (given : Bool) : LockM (Except Errno Unit) := do
  if given = false then return .error .einval
  spinlockAcquire
  let alloc ← fields
  let actualUsed := countedLoop
    (fun block used => if bitmapTestBit alloc.bitmap block then (used + 1) % 2 ^ 32 else used) alloc.totalBlocks 0
  if actualUsed ≠ alloc.usedBlocks then
    spinlockRelease
    return .error .efault
  if (List.range alloc.firstDataBlock).any alloc.free then
    spinlockRelease
    return .error .efault
  spinlockRelease
  return .ok ()

/-- The public functions of the file with their arguments besides the allocator. -/
inductive PublicCall where
  | init (room : Bool) (totalBlocks : Nat) (bounded : totalBlocks < 2 ^ 32) (firstDataBlock blockSize : Nat)
  | destroy
  | alloc
  | allocSpecific (blockNum : Nat)
  | allocContiguous (count : Nat) (array : Bool)
  | free (blockNum : Nat)
  | freeMultiple (blocks : Option (List Nat))
  | isAllocated (blockNum : Nat)
  | getStats (place : Bool)
  | markDirty
  | sync
  | load (mount : Option (Option String)) (bitmapBlock : Nat)
  | format (reservedBlocks : Nat)
  | fragmentation
  | largestFreeRegion
  | debugPrint
  | validate

/-- A call of a public function without its result. -/
def publicCall (vfs : Vfs) (given : Bool) : PublicCall → LockM Unit
  | .init room totalBlocks bounded firstDataBlock blockSize =>
      discard (blkAllocInit given room totalBlocks bounded firstDataBlock blockSize)
  | .destroy => blkAllocDestroy vfs given
  | .alloc => discard (blkAlloc given)
  | .allocSpecific blockNum => discard (blkAllocSpecific given blockNum)
  | .allocContiguous count array => discard (blkAllocContiguous given count array)
  | .free blockNum => discard (blkFree given blockNum)
  | .freeMultiple blocks => discard (blkFreeMultiple given blocks)
  | .isAllocated blockNum => discard (blkIsAllocated given blockNum)
  | .getStats place => discard (blkAllocGetStats given place)
  | .markDirty => blkAllocMarkDirty given
  | .sync => discard (blkAllocSync vfs given)
  | .load mount bitmapBlock => discard (blkAllocLoad vfs given mount bitmapBlock)
  | .format reservedBlocks => discard (blkAllocFormat given reservedBlocks)
  | .fragmentation => discard (blkAllocFragmentation given)
  | .largestFreeRegion => discard (blkAllocLargestFreeRegion given)
  | .debugPrint => blkAllocDebugPrint given
  | .validate => discard (blkAllocValidate given)

end Uesi.Blkalloc.Locking
