import Uesi.Construction.Errno
import Uesi.Library.Bitmap

namespace Uesi.Inode

open Library

/-- The fields of `inode_alloc_t`. -/
structure InodeAlloc where
  bitmap : Nat → BitVec 8
  total : Nat
  total_lt : total < 2 ^ 32
  used : Nat
  firstFree : Nat

/-- This is `inode_alloc_init` for a structure that is given. Whether `kmalloc` finds room for the bitmap is given. -/
def inodeAllocInit (given : Bool) (totalInodes : Nat) (bounded : totalInodes < 2 ^ 32) : Except Errno InodeAlloc :=
  if totalInodes = 0 then .error .einval
  else
    let bitmapBytes := (totalInodes + 7) % 2 ^ 32 / 8
    -- The allocator returns `NULL` for a size of zero.
    if bitmapBytes = 0 ∨ given = false then .error .enomem
    else .ok {
      bitmap := fun _ => 0
      total := totalInodes
      total_lt := bounded
      used := 0
      firstFree := 0 }

/-- The index at which a search of `inode_alloc` ends. -/
def findFree (bitmap : Nat → BitVec 8) (start stop : Nat) : Option Nat :=
  (List.range' start (stop - start)).find? fun ino => !testBit bitmap ino

/-- The part of `inode_alloc` that takes the index it found. -/
def takeInode (alloc : InodeAlloc) (ino : Nat) : InodeAlloc :=
  { alloc with
    bitmap := setBit alloc.bitmap ino
    used := (alloc.used + 1) % 2 ^ 32
    firstFree := (ino + 1) % 2 ^ 32 }

/-- This is `inode_alloc` for an allocator that is given. -/
def inodeAlloc (alloc : InodeAlloc) : Nat × InodeAlloc :=
  if alloc.total ≤ alloc.used then (0, alloc)
  else
    match findFree alloc.bitmap alloc.firstFree alloc.total with
    | some ino => ((ino + 1) % 2 ^ 32, takeInode alloc ino)
    | none =>
        match findFree alloc.bitmap 0 alloc.firstFree with
        | some ino => ((ino + 1) % 2 ^ 32, takeInode alloc ino)
        | none => (0, alloc)

/-- This is `inode_free` for an allocator that is given. -/
def inodeFree (alloc : InodeAlloc) (ino : Nat) : Except Errno Unit × InodeAlloc :=
  if ino = 0 ∨ alloc.total < ino then (.error .einval, alloc)
  else
    let index := (ino - 1) % 2 ^ 32
    if testBit alloc.bitmap index = false then (.error .einval, alloc)
    else (.ok (), { alloc with
      bitmap := clearBit alloc.bitmap index
      used := if alloc.used = 0 then 2 ^ 32 - 1 else alloc.used - 1
      firstFree := if index < alloc.firstFree then index else alloc.firstFree })

/-- This is `inode_is_allocated` for an allocator that is given. -/
def inodeIsAllocated (alloc : InodeAlloc) (ino : Nat) : Bool :=
  if ino = 0 ∨ alloc.total < ino then false else testBit alloc.bitmap ((ino - 1) % 2 ^ 32)

/-- The calls that change the allocator. -/
inductive InodeCall where
  | alloc
  | free (ino : Nat)

/-- The allocator with the numbers that its answers have handed out and not taken back. -/
structure Ledger where
  alloc : InodeAlloc
  taken : Finset Nat := ∅

/-- A call with its entry in the ledger. -/
def Ledger.step (ledger : Ledger) : InodeCall → Ledger
  | .alloc =>
      let (ino, alloc) := inodeAlloc ledger.alloc
      ⟨alloc, if ino = 0 then ledger.taken else insert ino ledger.taken⟩
  | .free ino =>
      match inodeFree ledger.alloc ino with
      | (.ok (), alloc) => ⟨alloc, ledger.taken.erase ino⟩
      | (.error _, alloc) => ⟨alloc, ledger.taken⟩

end Uesi.Inode
