import Uesi.Construction.Syscall.Files

namespace Uesi.Files

open Library Vfs

/-- This is `vfs_readdir`, which moves the offset of the file behind the entry. -/
def vfsReaddir (id : FileId) : Exec (Except Errno VfsDirent) := do
  let file ← readFile id
  let vnode ← onVfs (readVnode file.vnode)
  if vnode.mode &&& vfsIfmt ≠ vfsIfdir then return .error .enotdir
  match ← onVfs (tmpfsReaddir file.vnode file.offset) with
  | .error code => return .error code
  | .ok (dirent, offset) =>
      writeFile id (some { file with offset })
      return .ok dirent

/-- The record of `sys_getdents`, whose last byte holds the type. -/
structure LinuxDirent where
  ino : Nat
  off : Int
  reclen : Nat
  name : Str
  type : Nat
  deriving DecidableEq, Repr

/-- The value of `sizeof(struct linux_dirent)`, with its padding. -/
def linuxDirentSize : Nat := 24

/-- The length of a record with a name, rounded up to a multiple of `sizeof(long)`. -/
def linuxReclen (name : Str) : Nat := (linuxDirentSize + name.length + 1 + 8 - 1) / 8 * 8

/-- The record that `sys_getdents` makes of a `vfs_dirent_t`. -/
def VfsDirent.toLinux (dirent : VfsDirent) : LinuxDirent where
  ino := dirent.ino
  off := dirent.off
  reclen := linuxReclen dirent.name
  name := dirent.name
  type := dirent.type

/-- The loop of `sys_getdents`, which returns the bytes that it wrote with the records in them. -/
def fillDirents (id : FileId) (count : Nat) : Nat → Nat → Exec (Except Errno (Nat × List LinuxDirent))
  | 0, written => if written < count then throw .outOfFuel else return .ok (written, [])
  | fuel + 1, written => do
      if count ≤ written then return .ok (written, [])
      match ← vfsReaddir id with
      | .error code =>
          if 0 < written then return .ok (written, [])
          else if code = .enoent then return .ok (0, [])
          else return .error code
      | .ok dirent =>
          let reclen := linuxReclen dirent.name
          -- The offset of the file is already behind an entry that does not fit.
          if count < written + reclen then return .ok (written, [])
          match ← fillDirents id count fuel (written + reclen) with
          | .error code => return .error code
          | .ok (total, records) => return .ok (total, VfsDirent.toLinux dirent :: records)

/-- The offset of `d_name` in `struct linux_dirent`, inside the padding of the structure. -/
def linuxDirentName : Nat := 18

/-- The bytes of a name with the terminator. -/
def nameByte (name : Str) (index : Nat) : BitVec 8 := (name.getD index 0).toBitVec

/-- The stores of one round of `sys_getdents` into the buffer, by their offsets from its start. -/
def storeDirent (buf : Memory) (start : Nat) (dirent : VfsDirent) : Memory :=
  let reclen := linuxReclen dirent.name
  let buf := store64 buf start (BitVec.ofNat 64 dirent.ino)
  let buf := store64 buf (start + 8) (BitVec.ofInt 64 dirent.off)
  let buf := store16 buf (start + 16) (BitVec.ofNat 16 reclen)
  let buf := memcpy buf (start + linuxDirentName) (nameByte dirent.name) (dirent.name.length + 1)
  memset buf (start + reclen - 1) (BitVec.ofNat 8 dirent.type) 1

/-- The loop of `sys_getdents` with the bytes of the buffer, where the calls of `vfs_readdir` return these entries
and then fail. -/
def fillBuffer (count : Nat) (code : Errno) : List VfsDirent → Nat → Memory → Except Errno Nat × Memory
  | [], written, buf =>
      if count ≤ written then (.ok written, buf)
      else if 0 < written then (.ok written, buf)
      else if code = .enoent then (.ok 0, buf)
      else (.error code, buf)
  | dirent :: rest, written, buf =>
      if count ≤ written then (.ok written, buf)
      else
        let reclen := linuxReclen dirent.name
        if count < written + reclen then (.ok written, buf)
        else fillBuffer count code rest (written + reclen) (storeDirent buf written dirent)

/-- This is `sys_getdents` with the buffer at `dirp`. -/
def sysGetdents (pid : Nat) (fd : Int) (dirp count : Nat) : Exec (Except Errno (Nat × List LinuxDirent)) := do
  if dirp = 0 ∨ count = 0 then return .error .einval
  if !isUserRange dirp count then return .error .efault
  match ← fdGetfile pid fd with
  | none => return .error .ebadf
  | some id =>
      let file ← readFile id
      let vnode ← onVfs (readVnode file.vnode)
      if vnode.mode &&& vfsIfmt ≠ vfsIfdir then return .error .enotdir
      fillDirents id count count 0

end Uesi.Files
