import Uesi.Construction.Vfs.Names
import Uesi.Construction.Syscall.Memory

namespace Uesi.Files

open Library Vfs

def maxOpenFiles : Nat := 32

/-- An open file is named by its address. -/
abbrev FileId := Nat

/-- This is a `vfs_file_t`. -/
structure OpenFile where
  vnode : VnodeId
  offset : Int
  flags : BitVec 32
  refcount : Nat

/-- The part of an open file that `vfs_read`, `vfs_write` and `vfs_seek` use, with the offset as an `off_t`. -/
def OpenFile.toVfsFile (file : OpenFile) : VfsFile := ⟨BitVec.ofInt 64 file.offset, file.flags⟩

/-- This is an `fd_entry_t`. -/
structure FdEntry where
  file : Option FileId := none
  flags : Nat := 0

/-- This is a `vfs_context_t`. -/
structure VfsContext where
  cwd : Option VnodeId
  root : Option VnodeId

/-- The part of a `struct process` that the calls on files use. -/
structure Process where
  fdTable : Nat → FdEntry := fun _ => {}
  vfsCtx : Option VfsContext := none

/-- The file systems, the open files and the processes, by their pid. -/
structure Kernel where
  vfs : VfsState
  files : FileId → Option OpenFile
  freshFile : FileId
  processes : Nat → Option Process

/-- A call of the kernel changes its state. -/
abbrev Exec := EStateM Fault Kernel

/-- A call of the file system layer. -/
def onVfs {α : Type} (action : Vfs.Exec α) : Exec α := fun kernel =>
  match action kernel.vfs with
  | .ok value vfs => .ok value { kernel with vfs }
  | .error fault vfs => .error fault { kernel with vfs }

/-- This dereferences a file pointer. -/
def readFile (id : FileId) : Exec OpenFile := do
  match (← get).files id with
  | some file => return file
  | none => throw .danglingPointer

def Kernel.setFile (kernel : Kernel) (id : FileId) (file : Option OpenFile) : Kernel :=
  { kernel with files := Function.update kernel.files id file }

/-- This stores a file, and `none` frees it. -/
def writeFile (id : FileId) (file : Option OpenFile) : Exec Unit := modify (·.setFile id file)

/-- This dereferences a process pointer. -/
def readProcess (pid : Nat) : Exec Process := do
  match (← get).processes pid with
  | some process => return process
  | none => throw .danglingPointer

def Kernel.setProcess (kernel : Kernel) (pid : Nat) (process : Process) : Kernel :=
  { kernel with processes := Function.update kernel.processes pid (some process) }

def writeProcess (pid : Nat) (process : Process) : Exec Unit := modify (·.setProcess pid process)

/-- This stores an entry of the descriptor table. -/
def writeSlot (pid slot : Nat) (entry : FdEntry) : Exec Unit := do
  let process ← readProcess pid
  writeProcess pid { process with fdTable := Function.update process.fdTable slot entry }

/-- This is `vfs_open`, which returns a new file. -/
def vfsOpen (fuel : Nat) (path : Str) (flags mode : BitVec 32) : Exec (Except Errno FileId) := do
  match ← onVfs (Vfs.vfsOpen fuel path flags mode) with
  | .error code => return .error code
  | .ok vnode =>
      let id := (← get).freshFile
      modify fun kernel => { kernel with freshFile := id + 1 }
      writeFile id (some { vnode, offset := 0, flags, refcount := 1 })
      return .ok id

def vfsClose (id : FileId) : Exec Unit := do
  let file ← readFile id
  let refcount := (file.refcount + 2 ^ 32 - 1) % 2 ^ 32
  writeFile id (some { file with refcount })
  if 0 < refcount then return ()
  onVfs (vfsVnodeUnref file.vnode)
  writeFile id none

/-- This is `vfs_file_dup`, and the increment in `sys_fork`. -/
def vfsFileDup (id : FileId) : Exec Unit := do
  let file ← readFile id
  writeFile id (some { file with refcount := (file.refcount + 1) % 2 ^ 32 })

/-- The `v_size` of the vnode of an open file. -/
def sizeOf (file : OpenFile) : Exec OffT := do return (← onVfs (readVnode file.vnode)).size

/-- This stores the offset of an open file. -/
def setOffset (id : FileId) (file : OpenFile) (offset : OffT) : Exec Unit :=
  writeFile id (some { file with offset := offset.toInt })

/-- This is `vfs_read` into a buffer with the contents `buf`, which answers the bytes that it reads. -/
def vfsRead (id : FileId) (buf : Nat → UInt8) (count : Nat) : Exec (Except Errno (List UInt8)) := do
  let file ← readFile id
  let answer ← Vfs.vfsRead file.toVfsFile
    (fun offset => onVfs (onRegular file.vnode (tmpfsRead buf (BitVec.ofNat 64 count) offset))) (setOffset id file)
  return answer.map fun (bytes, contents) => (List.range bytes.toNat).map contents

/-- This is `vfs_write` of the bytes of a buffer. -/
def vfsWrite (id : FileId) (buf : List UInt8) (fresh : Fresh) : Exec (Except Errno Nat) := do
  let file ← readFile id
  let answer ← Vfs.vfsWrite file.toVfsFile (sizeOf file) (fun offset => onVfs (onRegular file.vnode
    (tmpfsWrite (fun index => buf.getD index 0) (BitVec.ofNat 64 buf.length) offset fresh))) (setOffset id file)
  return answer.map BitVec.toNat

def vfsSeek (id : FileId) (offset : OffT) (whence : Whence) : Exec (Except Errno OffT) := do
  let file ← readFile id
  Vfs.vfsSeek file.toVfsFile (sizeOf file) offset whence (setOffset id file)

/-- The slot of a descriptor in the table. -/
def slotOf (fd : Int) : Option Nat :=
  if fd < 0 ∨ maxOpenFiles ≤ fd then none else some fd.toNat

/-- The loop of `fd_alloc` looks for a free slot. -/
def findSlot (table : Nat → FdEntry) : List Nat → Option Nat
  | [] => none
  | slot :: rest => if (table slot).file = none then some slot else findSlot table rest

def fdAlloc (pid : Nat) (minfd : Int) (file : FileId) (flags : Nat) : Exec (Except Errno Nat) := do
  match slotOf minfd with
  | none => return .error .einval
  | some first =>
      match findSlot (← readProcess pid).fdTable (List.range' first (maxOpenFiles - first)) with
      | none => return .error .emfile
      | some slot =>
          writeSlot pid slot { file := some file, flags }
          return .ok slot

def fdGetfile (pid : Nat) (fd : Int) : Exec (Option FileId) := do
  match slotOf fd with
  | none => return none
  | some slot => return ((← readProcess pid).fdTable slot).file

def isUserRange (addr length : Nat) : Bool :=
  if length = 0 then true
  else
    let stop := add64 addr length
    if stop < addr ∨ Syscall.userSpaceEnd < stop then false
    else decide (Syscall.isUserAddress addr)

/-- The loop of `sys_read` over the keys of the keyboard, which waits when there is no key. -/
def readKeys (count : Nat) : List UInt8 → List UInt8 → Exec (Except Errno (List UInt8))
  | [], read => if read.length < count then throw .outOfFuel else return .ok read
  | key :: keys, read =>
      if count ≤ read.length then return .ok read
      else if key = 10 ∨ key = 13 then return .ok (read ++ [10])
      else if key = 8 ∨ key = 127 then readKeys count keys read.dropLast
      else if key = 3 then return .error .eintr
      else if key = 4 then return .ok read
      else readKeys count keys (read ++ [key])

/-- This is `sys_read` into the buffer at `addr`, which holds `buf` before. -/
def sysRead (pid : Nat) (fd : Int) (addr : Nat) (buf : Nat → UInt8) (count : Nat) (keys : List UInt8) :
    Exec (Except Errno (List UInt8)) := do
  if count = 0 then return .ok []
  if !isUserRange addr count then return .error .efault
  if fd = 0 then readKeys count keys []
  else
    match ← fdGetfile pid fd with
    | none => return .error .ebadf
    | some id =>
        if (← readFile id).flags &&& vfsOWronly = vfsOWronly then return .error .ebadf
        vfsRead id buf count

/-- This is `sys_write` of the bytes `buf` at `addr`. -/
def sysWrite (pid : Nat) (fd : Int) (addr : Nat) (buf : List UInt8) (fresh : Fresh) :
    Exec (Except Errno Nat) := do
  if buf.length = 0 then return .ok 0
  if !isUserRange addr buf.length then return .error .efault
  if fd = 1 ∨ fd = 2 then return .ok buf.length
  match ← fdGetfile pid fd with
  | none => return .error .ebadf
  | some id =>
      if (← readFile id).flags &&& vfsORdonly = vfsORdonly then return .error .ebadf
      vfsWrite id buf fresh

def sysLseek (pid : Nat) (fd : Int) (offset : OffT) (whence : Whence) : Exec (Except Errno OffT) := do
  match ← fdGetfile pid fd with
  | none => return .error .ebadf
  | some id => vfsSeek id offset whence

def oCloexec : BitVec 32 := 0x10000

def fdCloexec : Nat := 1

/-- The part that the calls share after they got a reference to a file: a slot for it, or else the
reference is given back. -/
def installFile (pid : Nat) (minfd : Int) (id : FileId) (fdFlags : Nat) : Exec (Except Errno Nat) := do
  match ← fdAlloc pid minfd id fdFlags with
  | .ok fd => return .ok fd
  | .error code =>
      vfsClose id
      return .error code

/-- This is `sys_open`, where `path` is what `validate_user_string` and `copyinstr` find. -/
def sysOpen (fuel pid : Nat) (path : Except Errno Str) (flags mode : BitVec 32) :
    Exec (Except Errno Nat) := do
  match path with
  | .error code => return .error code
  | .ok path =>
      if path = [] then return .error .enoent
      match ← vfsOpen fuel path flags mode with
      | .error code => return .error code
      | .ok id => installFile pid 3 id (if flags &&& oCloexec ≠ 0 then fdCloexec else 0)

def sysDup (pid : Nat) (oldfd : Int) : Exec (Except Errno Nat) := do
  match ← fdGetfile pid oldfd with
  | none => return .error .ebadf
  | some id =>
      vfsFileDup id
      installFile pid 0 id 0

def sysDup2 (pid : Nat) (oldfd newfd : Int) : Exec (Except Errno Nat) := do
  match slotOf oldfd, slotOf newfd with
  | some _, some slot =>
      match ← fdGetfile pid oldfd with
      | none => return .error .ebadf
      | some id =>
          if oldfd = newfd then return .ok slot
          vfsFileDup id
          let replaced := ((← readProcess pid).fdTable slot).file
          writeSlot pid slot { file := some id, flags := 0 }
          match replaced with
          | none => return .ok slot
          | some old =>
              vfsClose old
              return .ok slot
  | _, _ => return .error .ebadf

/-- This is `sys_fcntl` with `F_DUPFD` or `F_DUPFD_CLOEXEC`, where `arg` is converted to an `int`. -/
def sysFcntlDupfd (pid : Nat) (fd : Int) (cloexec : Bool) (arg : BitVec 64) : Exec (Except Errno Nat) := do
  match slotOf fd, slotOf (arg.setWidth 32).toInt with
  | none, _ => return .error .ebadf
  | some _, none => return .error .einval
  | some _, some _ =>
      match ← fdGetfile pid fd with
      | none => return .error .ebadf
      | some id =>
          vfsFileDup id
          installFile pid (arg.setWidth 32).toInt id (if cloexec then fdCloexec else 0)

end Uesi.Files
