import Uesi.Construction.Blkalloc
import Uesi.Library.Exec

namespace Uesi.Inode

open Blkalloc

/-- The fields of an inode that the block functions use: `di_block`, `di_blocks`, `di_size` and the dirty flag. -/
structure FileInode where
  block : Fin 12 → Nat
  blocks : Nat
  size : Nat := 0
  dirty : Bool := false

/-- An inode that has just been cleared. -/
def FileInode.blank : FileInode := { block := fun _ => 0, blocks := 0 }

/-- The inodes of a file system with the block allocator that they share. -/
structure FileSystem (ι : Type) where
  alloc : BlkAllocator
  inodes : ι → FileInode

/-- The failures of `inode_alloc_block`. -/
inductive BlockFailure where
  | einval
  | enospc
  deriving DecidableEq

variable {ι : Type} [DecidableEq ι]

/-- The changes of `inode_alloc_block` to the inode, where a file block behind the direct ones is stored nowhere. -/
def FileInode.attach (inode : FileInode) (fileBlock newBlock : Nat) : FileInode :=
  { inode with
    block := fun slot => if slot.val = fileBlock then newBlock else inode.block slot
    blocks := (inode.blocks + 1) % 2 ^ 32
    dirty := true }

/-- This is `inode_alloc_block` for an inode that is given; no place for the answer is `place = false`. -/
def inodeAllocBlock (inode : ι) (fileBlock : Nat) (place : Bool) :
    EStateM Empty (FileSystem ι) (Except BlockFailure Nat) := do
  if place = false then return .error .einval
  let system ← get
  let (newBlock, alloc) := blkAlloc system.alloc
  if newBlock = 0 then
    set { system with alloc := alloc }
    return .error .enospc
  set { system with
    alloc := alloc
    inodes := Function.update system.inodes inode ((system.inodes inode).attach fileBlock newBlock) }
  return .ok newBlock

/-- The loop of `inode_truncate_blocks` over the slots that are left. -/
def truncateLoop (block : Fin 12 → Nat) : List (Fin 12) → BlkAllocator → BlkAllocator
  | [], alloc => alloc
  | slot :: rest, alloc =>
      if block slot = 0 then truncateLoop block rest alloc
      else truncateLoop block rest (blkFree alloc (block slot)).2

def inodeTruncateBlocks (inode : ι) : EStateM Empty (FileSystem ι) Unit :=
  modify fun system =>
    { alloc := truncateLoop (system.inodes inode).block (List.finRange 12) system.alloc
      inodes := Function.update system.inodes inode
        { block := fun _ => 0, blocks := 0, size := 0, dirty := true } }

/-- The calls on the inodes. -/
inductive BlockCall (ι : Type) where
  | allocBlock (inode : ι) (fileBlock : Nat) (place : Bool)
  | truncateBlocks (inode : ι)

/-- A call without its answer. -/
def blockCall : BlockCall ι → EStateM Empty (FileSystem ι) Unit
  | .allocBlock inode fileBlock place => discard (inodeAllocBlock inode fileBlock place)
  | .truncateBlocks inode => inodeTruncateBlocks inode

end Uesi.Inode
