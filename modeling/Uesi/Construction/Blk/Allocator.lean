import Uesi.Construction.Blkalloc

/-!
This file models the functions of `blk.c` that `blkalloc.c` defines under the same names.
-/

namespace Uesi.Blk

open Library Blkalloc

/-- The part of `blk_alloc` that takes the block it found. -/
def takeFreeBlock (alloc : BlkAllocator) (block : Nat) : BlkAllocator :=
  { alloc with
    bitmap := bitmapSetBit alloc.bitmap block
    usedBlocks := (alloc.usedBlocks + 1) % 2 ^ 32
    firstFree := (block + 1) % 2 ^ 32 }

/-- This is `blk_alloc` for an allocator that is given. -/
def blkAlloc (alloc : BlkAllocator) : Nat × BlkAllocator :=
  if alloc.totalBlocks ≤ alloc.usedBlocks then (0, alloc)
  else
    match findFree alloc alloc.firstFree alloc.totalBlocks with
    | some block => (block, takeFreeBlock alloc block)
    | none =>
        match findFree alloc 0 alloc.firstFree with
        | some block => (block, takeFreeBlock alloc block)
        | none => (0, alloc)

/-- The inner loop of `blk_alloc_contiguous` over the indices that are left: whether their blocks are free, or `none`
where it reads behind the bitmap. -/
def allFree (alloc : BlkAllocator) (start : Nat) : List Nat → Option Bool
  | [] => some true
  | index :: rest =>
      if alloc.bitmapSize ≤ (start + index) % 2 ^ 32 / 8 then none
      else if bitmapTestBit alloc.bitmap ((start + index) % 2 ^ 32) then some false
      else allFree alloc start rest

/-- The outer loop of `blk_alloc_contiguous` over the starts that are left. -/
def searchStart (alloc : BlkAllocator) (count : Nat) : List Nat → Option (Option Nat)
  | [] => some none
  | start :: rest =>
      match allFree alloc start (List.range count) with
      | none => none
      | some true => some (some start)
      | some false => searchStart alloc count rest

/-- This is `blk_alloc_contiguous` for an allocator that is given, which does not use its array of blocks. -/
def blkAllocContiguous (alloc : BlkAllocator) (count : Nat) : Option (Nat × BlkAllocator) :=
  if count = 0 then some (0, alloc)
  else if alloc.totalBlocks < (alloc.usedBlocks + count) % 2 ^ 32 then some (0, alloc)
  else
    match searchStart alloc count (List.range ((alloc.totalBlocks + (2 ^ 32 - count)) % 2 ^ 32 + 1)) with
    | none => none
    | some none => some (0, alloc)
    | some (some start) => some (start, { alloc with
        bitmap := countedLoop (fun index bitmap => bitmapSetBit bitmap ((start + index) % 2 ^ 32)) count alloc.bitmap
        usedBlocks := (alloc.usedBlocks + count) % 2 ^ 32
        firstFree := (start + count) % 2 ^ 32 })

/-- This is `blk_free` for an allocator that is given. -/
def blkFree (alloc : BlkAllocator) (block : Nat) : Except Errno Unit × BlkAllocator :=
  if alloc.totalBlocks ≤ block then (.error .einval, alloc)
  else if bitmapTestBit alloc.bitmap block = false then (.error .einval, alloc)
  else (.ok (), { alloc with
    bitmap := bitmapClearBit alloc.bitmap block
    usedBlocks := if alloc.usedBlocks = 0 then 2 ^ 32 - 1 else alloc.usedBlocks - 1
    firstFree := if block < alloc.firstFree then block else alloc.firstFree })

/-- This is `blk_is_allocated` for an allocator that is given. -/
def blkIsAllocated (alloc : BlkAllocator) (block : Nat) : Bool :=
  if alloc.totalBlocks ≤ block then false else bitmapTestBit alloc.bitmap block

/-- The calls that both files define. -/
inductive SharedCall where
  | alloc
  | free (block : BitVec 32)
  | isAllocated (block : BitVec 32)
  | allocContiguous (count : BitVec 32) (given : Bool)

/-- What a call returns: a number, a status or a truth value. -/
inductive Answer where
  | number (value : Nat)
  | status (result : Except Errno Unit)
  | flag (value : Bool)

/-- What is left of a call: its answer and the fields that both files keep up to date. -/
structure Effect where
  answer : Answer
  bitmap : Nat → BitVec 8
  usedBlocks : Nat
  dirty : Bool

/-- The effect of an answer with the allocator behind the call. -/
def effectOf (answer : Answer) (alloc : BlkAllocator) : Effect :=
  ⟨answer, alloc.bitmap, alloc.usedBlocks, alloc.dirty⟩

/-- The effect of a call as `blk.c` defines it, or `none` where it reads behind the bitmap. -/
def blkEffect (alloc : BlkAllocator) : SharedCall → Option Effect
  | .alloc => some (effectOf (.number (blkAlloc alloc).1) (blkAlloc alloc).2)
  | .free block => some (effectOf (.status (blkFree alloc block.toNat).1) (blkFree alloc block.toNat).2)
  | .isAllocated block => some (effectOf (.flag (blkIsAllocated alloc block.toNat)) alloc)
  | .allocContiguous count _ =>
      (blkAllocContiguous alloc count.toNat).map fun result => effectOf (.number result.1) result.2

/-- The effect of a call as `blkalloc.c` defines it. -/
def blkallocEffect (alloc : BlkAllocator) : SharedCall → Effect
  | .alloc => effectOf (.number (Blkalloc.blkAlloc alloc).1) (Blkalloc.blkAlloc alloc).2
  | .free block =>
      effectOf (.status (Blkalloc.blkFree alloc block.toNat).1) (Blkalloc.blkFree alloc block.toNat).2
  | .isAllocated block => effectOf (.flag (Blkalloc.blkIsAllocated alloc block.toNat)) alloc
  | .allocContiguous count given =>
      let result := Blkalloc.blkAllocContiguous alloc count.toNat given
      effectOf (.number result.1.length) result.2

end Uesi.Blk
