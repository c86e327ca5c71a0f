import Uesi.Construction.Errno
import Uesi.Library.Exec

namespace Uesi.Vfs

abbrev SizeT := BitVec 64

/-- This is `off_t`, which is signed. -/
abbrev OffT := BitVec 64

/-- What stops a run that does not return, such as a copy that touches a byte outside of its block. -/
inductive Fault where
  | danglingPointer
  | outOfBounds
  | outOfFuel
  deriving DecidableEq, Repr

/-- A block of `kmalloc`. -/
structure Block where
  size : SizeT
  bytes : Nat → UInt8

/-- The regular file part of a `tmpfs_node_t`, where `none` stands for a null data pointer. -/
structure TmpfsFile where
  size : OffT := 0
  data : Option Block := none
  capacity : SizeT := 0

/-- The vnode of a regular file, with its own copy `v_size` of the size. -/
structure FileVnode where
  node : TmpfsFile
  size : OffT

/-- A function of tmpfs on the vnode of a regular file. -/
abbrev FileExec := EStateM Fault FileVnode

/-- A fresh block of `kmalloc` has unknown contents, and `none` stands for a failed allocation. -/
abbrev Fresh := Option (Nat → UInt8)

/-- This is `memcpy(target + start, source, count)`. -/
def memcpyAt (target : Nat → UInt8) (start count : Nat) (source : Nat → UInt8) : Nat → UInt8 :=
  fun index => if start ≤ index ∧ index < start + count then source (index - start) else target index

/-- Every byte of the range must lie inside of a block of this size. -/
def check (size start count : SizeT) : FileExec Unit :=
  if count = 0 ∨ start.toNat + count.toNat ≤ size.toNat then return () else throw .outOfBounds

/-- The bytes that `memcpy` reads from a block. -/
def Block.load (block : Block) (start count : SizeT) : FileExec (Nat → UInt8) := do
  check block.size start count
  return fun index => block.bytes (start.toNat + index)

/-- This is `memcpy(block + start, source, count)`. -/
def Block.store (block : Block) (start count : SizeT) (source : Nat → UInt8) : FileExec Block := do
  check block.size start count
  return { block with bytes := memcpyAt block.bytes start.toNat count.toNat source }

/-- This is `memcpy(data + start, source, count)` for a data pointer that may be null. -/
def storeData (data : Option Block) (start count : SizeT) (source : Nat → UInt8) : FileExec (Option Block) :=
  match data with
  | some block => do return some (← block.store start count source)
  | none => do
      check 0 start count
      return none

/-- The old bytes are copied to the start of a new block. -/
def moveData (node : TmpfsFile) (block : Block) : FileExec Block :=
  match node.data with
  | some old => do block.store 0 node.size (← old.load 0 node.size)
  | none => return block

/-- This is `tmpfs_read` into a buffer, with the number of bytes and the new contents of the buffer. -/
def tmpfsRead (buf : Nat → UInt8) (count : SizeT) (offset : OffT) :
    FileExec (Except Errno (SizeT × (Nat → UInt8))) := do
  let node := (← get).node
  if node.size.sle offset then return .ok (0, buf)
  let available := node.size - offset
  let toRead := if count < available then count else available
  match node.data with
  | some block => return .ok (toRead, memcpyAt buf 0 toRead.toNat (← block.load offset toRead))
  | none => return .ok (toRead, buf)

/-- The reallocation of `tmpfs_write`, where `fresh` is the answer of `kmalloc`. -/
def growForWrite (newSize : SizeT) (fresh : Fresh) : FileExec (Except Errno Unit) := do
  let node := (← get).node
  if node.capacity < newSize then
    let newCapacity := newSize * 2
    match fresh with
    | none => return .error .enomem
    | some bytes =>
        let moved ← moveData node ⟨newCapacity, bytes⟩
        modify fun vnode => { vnode with node := { node with data := some moved, capacity := newCapacity } }
        return .ok ()
  else return .ok ()

def tmpfsWrite (buf : Nat → UInt8) (count : SizeT) (offset : OffT) (fresh : Fresh) :
    FileExec (Except Errno SizeT) := do
  let newSize : SizeT := offset + count
  match ← growForWrite newSize fresh with
  | .error code => return .error code
  | .ok () =>
      let node := (← get).node
      let data ← storeData node.data offset count buf
      if node.size.slt newSize then set (⟨{ node with data, size := newSize }, newSize⟩ : FileVnode)
      else modify fun vnode => { vnode with node := { node with data } }
      return .ok count

/-- The growing branch of `tmpfs_truncate`. -/
def growForTruncate (node : TmpfsFile) (length : OffT) (fresh : Fresh) : FileExec (Except Errno TmpfsFile) := do
  if node.capacity < length then
    match fresh with
    | none => return .error .enomem
    | some bytes =>
        let moved ← moveData node ⟨length, bytes⟩
        let zeroed ← moved.store node.size (length - node.size) fun _ => 0
        return .ok { size := length, data := some zeroed, capacity := length }
  else return .ok { node with size := length }

/-- The branches of `tmpfs_truncate`, whose comparisons with the size are unsigned. -/
def resize (node : TmpfsFile) (length : OffT) (fresh : Fresh) : FileExec (Except Errno TmpfsFile) :=
  if length = 0 then return .ok {}
  else if length < node.size then return .ok { node with size := length }
  else if node.size < length then growForTruncate node length fresh
  else return .ok node

def tmpfsTruncate (length : OffT) (fresh : Fresh) : FileExec (Except Errno Unit) := do
  if length.slt 0 then return .error .einval
  match ← resize (← get).node length fresh with
  | .error code => return .error code
  | .ok node =>
      set (⟨node, node.size⟩ : FileVnode)
      return .ok ()

def vfsOWronly : BitVec 32 := 0x0001

def vfsORdwr : BitVec 32 := 0x0002

def vfsOAppend : BitVec 32 := 0x0008

def vfsORdonly : BitVec 32 := 0x0000

/-- The offset and the flags of a `vfs_file_t`. -/
structure VfsFile where
  offset : OffT
  flags : BitVec 32

/-- The `whence` argument of `vfs_seek`. -/
inductive Whence where
  | set
  | cur
  | fromEnd
  | other (code : Nat)
  deriving DecidableEq, Repr

section Calls

variable {ε σ α : Type}

/-- This is `vfs_read` with the operation `read` of the vnode, where `move` stores the offset of the file. -/
def vfsRead (file : VfsFile) (read : OffT → EStateM ε σ (Except Errno (SizeT × α)))
    (move : OffT → EStateM ε σ Unit) : EStateM ε σ (Except Errno (SizeT × α)) := do
  if file.flags &&& (vfsORdonly ||| vfsORdwr) = 0 then return .error .ebadf
  match ← read file.offset with
  | .error code => return .error code
  | .ok (bytes, contents) =>
      if BitVec.slt 0 bytes then move (file.offset + bytes)
      return .ok (bytes, contents)

/-- The offset at which `vfs_write` writes to a vnode whose `v_size` is `size`. -/
def VfsFile.position (file : VfsFile) (size : EStateM ε σ OffT) : EStateM ε σ OffT :=
  if file.flags &&& vfsOAppend ≠ 0 then size else return file.offset

/-- This is `vfs_write` with the operation `write` of the vnode. -/
def vfsWrite (file : VfsFile) (size : EStateM ε σ OffT) (write : OffT → EStateM ε σ (Except Errno SizeT))
    (move : OffT → EStateM ε σ Unit) : EStateM ε σ (Except Errno SizeT) := do
  if file.flags &&& (vfsOWronly ||| vfsORdwr) = 0 then return .error .ebadf
  let offset ← file.position size
  match ← write offset with
  | .error code => return .error code
  | .ok bytes =>
      if BitVec.slt 0 bytes then move (offset + bytes)
      return .ok bytes

/-- The new offset of `vfs_seek`, whose sums wrap, where `none` stands for an unknown `whence`. -/
def seekOffset (file : VfsFile) (size : EStateM ε σ OffT) (offset : OffT) : Whence → EStateM ε σ (Option OffT)
  | .set => return some offset
  | .cur => return some (file.offset + offset)
  | .fromEnd => do return some ((← size) + offset)
  | .other _ => return none

def vfsSeek (file : VfsFile) (size : EStateM ε σ OffT) (offset : OffT) (whence : Whence)
    (move : OffT → EStateM ε σ Unit) : EStateM ε σ (Except Errno OffT) := do
  match ← seekOffset file size offset whence with
  | none => return .error .einval
  | some newOffset =>
      if newOffset.slt 0 then return .error .einval
      move newOffset
      return .ok newOffset

end Calls

end Uesi.Vfs
