import Uesi.Construction.Errno
import Uesi.Library.Bitmap
import Uesi.Library.Loop
import Uesi.Library.Runs

namespace Uesi.Blkalloc

open Library

/-- The fields of `blk_allocator_t` that the functions read, where `ba_mount` is given by its device if it has one. -/
structure BlkAllocator where
  totalBlocks : Nat
  totalBlocks_lt : totalBlocks < 2 ^ 32
  usedBlocks : Nat
  firstDataBlock : Nat
  firstFree : Nat
  blockSize : Nat
  bitmap : Nat → BitVec 8
  bitmapSize : Nat
  mount : Option (Option String) := none
  bitmapBlock : Nat := 0
  bitmapBlocks : Nat
  dirty : Bool

def bitmapTestBit (bitmap : Nat → BitVec 8) (bit : Nat) : Bool := testBit bitmap bit

def bitmapSetBit (bitmap : Nat → BitVec 8) (bit : Nat) : Nat → BitVec 8 := setBit bitmap bit

def bitmapClearBit (bitmap : Nat → BitVec 8) (bit : Nat) : Nat → BitVec 8 := clearBit bitmap bit

/-- The test of the loops for a free block. -/
def BlkAllocator.free (alloc : BlkAllocator) (block : Nat) : Bool := !bitmapTestBit alloc.bitmap block

/-- This is `blk_alloc_init` for a structure that is given. Whether `kmalloc` finds room for the bitmap is given. -/
def blkAllocInit (given : Bool) (totalBlocks : Nat) (bounded : totalBlocks < 2 ^ 32)
    (firstDataBlock blockSize : Nat) : Except Errno BlkAllocator :=
  if totalBlocks = 0 ∨ blockSize = 0 then .error .einval
  else if totalBlocks ≤ firstDataBlock then .error .einval
  else
    let bitmapSize := (totalBlocks + 7) % 2 ^ 32 / 8
    -- The allocator returns `NULL` for a size of zero.
    if bitmapSize = 0 ∨ given = false then .error .enomem
    else .ok {
      totalBlocks := totalBlocks
      totalBlocks_lt := bounded
      usedBlocks := 0
      firstDataBlock := firstDataBlock
      firstFree := firstDataBlock
      blockSize := blockSize
      bitmap := fun _ => 0
      bitmapSize := bitmapSize
      bitmapBlocks := (bitmapSize + blockSize - 1) % 2 ^ 32 / blockSize
      dirty := false }

/-- The block at which a search of `blk_alloc` ends. -/
def findFree (alloc : BlkAllocator) (start stop : Nat) : Option Nat :=
  (List.range' start (stop - start)).find? alloc.free

/-- The part of `blk_alloc` that takes the block it found. -/
def takeBlock (alloc : BlkAllocator) (block : Nat) : BlkAllocator :=
  { alloc with
    bitmap := bitmapSetBit alloc.bitmap block
    usedBlocks := (alloc.usedBlocks + 1) % 2 ^ 32
    firstFree := (block + 1) % 2 ^ 32
    dirty := true }

/-- This is `blk_alloc` for an allocator that is given. -/
def blkAlloc (alloc : BlkAllocator) : Nat × BlkAllocator :=
  if alloc.totalBlocks ≤ alloc.usedBlocks then (0, alloc)
  else
    match findFree alloc alloc.firstFree alloc.totalBlocks with
    | some block => (block, takeBlock alloc block)
    | none =>
        match findFree alloc alloc.firstDataBlock alloc.firstFree with
        | some block => (block, takeBlock alloc block)
        | none => (0, alloc)

def blkAllocSpecific (alloc : BlkAllocator) (blockNum : Nat) : Except Errno Unit × BlkAllocator :=
  if alloc.totalBlocks ≤ blockNum then (.error .einval, alloc)
  else if bitmapTestBit alloc.bitmap blockNum then (.error .eexist, alloc)
  else (.ok (), { alloc with
    bitmap := bitmapSetBit alloc.bitmap blockNum
    usedBlocks := (alloc.usedBlocks + 1) % 2 ^ 32
    firstFree := if blockNum < alloc.firstFree then (blockNum + 1) % 2 ^ 32 else alloc.firstFree
    dirty := true })

/-- The loop that sets the bits of consecutive blocks. -/
def setBlocks (bitmap : Nat → BitVec 8) (start count : Nat) : Nat → BitVec 8 :=
  countedLoop (fun index bitmap => bitmapSetBit bitmap (start + index)) count bitmap

/-- The loop of `blk_alloc_contiguous` over the blocks that are left, with `start_block` and `found`. -/
def contiguousLoop (free : Nat → Bool) (count : Nat) : List Nat → Nat × Nat → Nat × Nat
  | [], run => run
  | block :: rest, run => if run.2 < count then contiguousLoop free count rest (scanStep free block run) else run

/-- This is `blk_alloc_contiguous` for an allocator that is given, with the blocks that it stores; without an array
for them it returns at once. -/
def blkAllocContiguous (alloc : BlkAllocator) (count : Nat) (given : Bool) : List Nat × BlkAllocator :=
  if count = 0 ∨ given = false then ([], alloc)
  else
    let available := (alloc.totalBlocks + (2 ^ 32 - alloc.usedBlocks)) % 2 ^ 32
    if available = 0 then ([], alloc)
    else
      let count := if available < count then available else count
      let (startBlock, found) := contiguousLoop alloc.free count
        (List.range' alloc.firstDataBlock (alloc.totalBlocks - alloc.firstDataBlock)) (0, 0)
      if found = 0 then ([], alloc)
      else (List.range' startBlock found, { alloc with
        bitmap := setBlocks alloc.bitmap startBlock found
        usedBlocks := (alloc.usedBlocks + found) % 2 ^ 32
        firstFree := (startBlock + found) % 2 ^ 32
        dirty := true })

def blkFree (alloc : BlkAllocator) (blockNum : Nat) : Except Errno Unit × BlkAllocator :=
  if alloc.totalBlocks ≤ blockNum then (.error .einval, alloc)
  else if blockNum < alloc.firstDataBlock then (.error .einval, alloc)
  else if alloc.free blockNum then (.error .einval, alloc)
  else (.ok (), { alloc with
    bitmap := bitmapClearBit alloc.bitmap blockNum
    usedBlocks := if alloc.usedBlocks = 0 then 2 ^ 32 - 1 else alloc.usedBlocks - 1
    firstFree := if blockNum < alloc.firstFree then blockNum else alloc.firstFree
    dirty := true })

/-- This is `blk_free_multiple` for an array that is given. -/
def blkFreeMultiple (alloc : BlkAllocator) : List Nat → Nat × BlkAllocator
  | [] => (0, alloc)
  | block :: rest =>
      match blkFree alloc block with
      | (.ok (), alloc) => ((blkFreeMultiple alloc rest).1 + 1, (blkFreeMultiple alloc rest).2)
      | (.error _, alloc) => blkFreeMultiple alloc rest

/-- This is `blk_is_allocated` for an allocator that is given. -/
def blkIsAllocated (alloc : BlkAllocator) (blockNum : Nat) : Bool :=
  if alloc.totalBlocks ≤ blockNum then false else bitmapTestBit alloc.bitmap blockNum

def blkAllocFormat (alloc : BlkAllocator) (reservedBlocks : Nat) : Except Errno BlkAllocator :=
  if alloc.totalBlocks < reservedBlocks then .error .einval
  else .ok { alloc with
    bitmap := setBlocks (fun byte => if byte < alloc.bitmapSize then 0 else alloc.bitmap byte) 0 reservedBlocks
    usedBlocks := countedLoop (fun _ used => (used + 1) % 2 ^ 32) reservedBlocks 0
    firstFree := reservedBlocks
    dirty := true }

/-- The loop body of `blk_alloc_largest_free_region`, with the start and the size of the current and of the
greatest region. -/
def regionStep (free : Nat → Bool) (regions : (Nat × Nat) × (Nat × Nat)) (block : Nat) : (Nat × Nat) × (Nat × Nat) :=
  if free block then (scanStep free block regions.1, regions.2)
  else (scanStep free block regions.1, better regions.2 regions.1)

/-- This is `blk_alloc_largest_free_region` for an allocator that is given, with the start of the region. It writes
no field of the allocator. -/
def blkAllocLargestFreeRegion (alloc : BlkAllocator) : Nat × Nat :=
  let blocks := List.range' alloc.firstDataBlock (alloc.totalBlocks - alloc.firstDataBlock)
  let (current, greatest) := blocks.foldl (regionStep alloc.free) ((0, 0), (0, 0))
  ((better greatest current).2, (better greatest current).1)

def blkAllocValidate (alloc : BlkAllocator) : Except Errno Unit :=
  let actualUsed := countedLoop
    (fun block used => if bitmapTestBit alloc.bitmap block then (used + 1) % 2 ^ 32 else used) alloc.totalBlocks 0
  if actualUsed ≠ alloc.usedBlocks then .error .efault
  else if (List.range alloc.firstDataBlock).any alloc.free then .error .efault
  else .ok ()

/-- The calls of a file system. -/
inductive BlkCall where
  | alloc
  | allocSpecific (blockNum : Nat)
  | allocContiguous (count : Nat) (given : Bool)
  | free (blockNum : Nat)
  | freeMultiple (blocks : List Nat)

/-- The allocator after a call. -/
def blkStep (alloc : BlkAllocator) : BlkCall → BlkAllocator
  | .alloc => (blkAlloc alloc).2
  | .allocSpecific blockNum => (blkAllocSpecific alloc blockNum).2
  | .allocContiguous count given => (blkAllocContiguous alloc count given).2
  | .free blockNum => (blkFree alloc blockNum).2
  | .freeMultiple blocks => (blkFreeMultiple alloc blocks).2

/-- Where a call of `blk_alloc_sync` is: not running, before the write of a bitmap block, or behind `vfs_fsync`. -/
inductive SyncPhase where
  | idle
  | writing (block : Nat)
  | synced
  deriving DecidableEq

/-- The allocator with the bitmap that was last written to the device and the tasks that call `blk_alloc_sync`. -/
structure SyncState where
  alloc : BlkAllocator
  written : Nat → BitVec 8
  phase : Nat → SyncPhase := fun _ => .idle

/-- The critical sections of `blk_alloc` and `blk_free`, and the steps of `blk_alloc_sync` by a task. -/
inductive SyncStep where
  | alloc
  | free (blockNum : Nat)
  | begin (task : Nat)
  | write (task : Nat)
  | fsync (task : Nat)
  | clear (task : Nat)

/-- The `offset` of a bitmap block in `blk_alloc_sync`. -/
def chunkOffset (alloc : BlkAllocator) (block : Nat) : Nat := block * alloc.blockSize % 2 ^ 32

/-- The `size` that `blk_alloc_sync` writes for a bitmap block, where the last block may be partial. -/
def chunkSize (alloc : BlkAllocator) (block : Nat) : Nat :=
  let remaining := (alloc.bitmapSize + (2 ^ 32 - chunkOffset alloc block)) % 2 ^ 32
  if block = alloc.bitmapBlocks - 1 ∧ remaining < alloc.blockSize then remaining else alloc.blockSize

/-- The written bitmap behind the write of a bitmap block. -/
def writeChunk (state : SyncState) (block : Nat) : Nat → BitVec 8 := fun byte =>
  if chunkOffset state.alloc block ≤ byte ∧ byte < chunkOffset state.alloc block + chunkSize state.alloc block then
    state.alloc.bitmap byte
  else state.written byte

/-- One step. A step that the code cannot make in this state changes nothing. -/
def syncStep (state : SyncState) : SyncStep → SyncState
  | .alloc => { state with alloc := (blkAlloc state.alloc).2 }
  | .free blockNum => { state with alloc := (blkFree state.alloc blockNum).2 }
  | .begin task =>
      -- The first critical section; an allocator that is clean or has no device is left alone.
      if state.phase task = .idle ∧ state.alloc.dirty = true ∧ (state.alloc.mount.join).isSome then
        { state with phase := Function.update state.phase task (.writing 0) }
      else state
  | .write task =>
      match state.phase task with
      | .writing block =>
          if block < state.alloc.bitmapBlocks then
            { state with
              written := writeChunk state block
              phase := Function.update state.phase task (.writing (block + 1)) }
          else state
      | _ => state
  | .fsync task =>
      match state.phase task with
      | .writing block =>
          if block < state.alloc.bitmapBlocks then state
          else { state with phase := Function.update state.phase task .synced }
      | _ => state
  | .clear task =>
      if state.phase task = .synced then
        { state with
          alloc := { state.alloc with dirty := false }
          phase := Function.update state.phase task .idle }
      else state

end Uesi.Blkalloc
