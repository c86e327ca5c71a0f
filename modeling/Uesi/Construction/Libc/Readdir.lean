import Uesi.Library.Memory

namespace Uesi.Readdir

open Library

/-- This is `struct dirent` with the name up to its terminator. -/
structure Dirent where
  ino : Nat
  off : Int
  reclen : Nat
  type : Nat
  name : List UInt8
  deriving DecidableEq, Repr

/-- The value of `sizeof(struct dirent)`. -/
def direntSize : Nat := 280

/-- The value of `sizeof(result.d_name)`. -/
def direntNameSize : Nat := 256

/-- This is `DIR`, where the buffer is given by the offsets of its bytes. -/
structure Dir where
  bufPos : Nat
  bufEnd : Nat
  buf : Memory

/-- A byte of the part of the buffer that `getdents` filled. A read outside this part has no result. -/
def Dir.byte (dir : Dir) (offset : Nat) : Option (BitVec 8) :=
  if offset < dir.bufEnd then some (dir.buf offset) else none

/-- Two bytes of the filled part. -/
def Dir.half (dir : Dir) (offset : Nat) : Option (BitVec 16) :=
  if offset + 2 ≤ dir.bufEnd then some (load16 dir.buf offset) else none

/-- Eight bytes of the filled part. -/
def Dir.word (dir : Dir) (offset : Nat) : Option (BitVec 64) :=
  if offset + 8 ≤ dir.bufEnd then some (load64 dir.buf offset) else none

/-- This is `strlen` on the filled part, which has fewer bytes than the fuel. -/
def Dir.strlen (dir : Dir) : Nat → Nat → Option Nat
  | 0, _ => none
  | fuel + 1, offset => do
      if (← dir.byte offset) = 0 then return 0
      return (← dir.strlen fuel (offset + 1)) + 1

/-- The bytes that `memcpy` reads. -/
def Dir.bytes (dir : Dir) (offset : Nat) : Nat → Option (List UInt8)
  | 0 => some []
  | count + 1 => do
      let first ← dir.byte offset
      return UInt8.ofBitVec first :: (← dir.bytes (offset + 1) count)

/-- The part of `readdir` that takes the record at the position of the buffer. -/
def Dir.take (dir : Dir) : Option (Dirent × Dir) := do
  let lde := dir.bufPos
  let reclen := (← dir.half (lde + 16)).toNat
  let ino ← dir.word lde
  let off ← dir.word (lde + 8)
  -- The type stands in front of the next record, and nothing stands in front of the buffer.
  let type ← if lde + reclen = 0 then none else dir.byte (lde + reclen - 1)
  let nameLen ← dir.strlen (dir.bufEnd + 1) (lde + 18)
  let nameLen := if direntNameSize ≤ nameLen then direntNameSize - 1 else nameLen
  let name ← dir.bytes (lde + 18) nameLen
  return (⟨ino.toNat, off.toInt, direntSize, type.toNat, name⟩, { dir with bufPos := lde + reclen })

/-- This is `readdir` with what `getdents` returns and leaves in the buffer. It has no result if it reads outside
the filled part of the buffer. -/
def readdir (getdents : Int × Memory) (dir : Dir) : Option (Option Dirent × Dir) :=
  if dir.bufEnd ≤ dir.bufPos then
    if getdents.1 ≤ 0 then some (none, { dir with buf := getdents.2 })
    else (Dir.take ⟨0, getdents.1.toNat, getdents.2⟩).map fun taken => (some taken.1, taken.2)
  else dir.take.map fun taken => (some taken.1, taken.2)

/-- Calls of `readdir` one after another. -/
def readdirs (getdents : Int × Memory) : Nat → Dir → Option (List (Option Dirent) × Dir)
  | 0, dir => some ([], dir)
  | calls + 1, dir => do
      let (first, dir) ← readdir getdents dir
      let (rest, dir) ← readdirs getdents calls dir
      return (first :: rest, dir)

end Uesi.Readdir
