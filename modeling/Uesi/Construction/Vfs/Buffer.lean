import Uesi.Construction.Vfs.Names

namespace Uesi.Buffer

open Library
open Vfs (OffT SizeT Fault TmpfsFile FileVnode FileExec Fresh Whence tmpfsRead tmpfsWrite tmpfsTruncate vfsOWronly
  vfsORdwr vfsOAppend vfsOCreat vfsOExcl vfsOTrunc)

/-- This is `vfs_file_t`, with the index of its vnode. -/
structure VfsFile extends Vfs.VfsFile where
  vnode : Nat

/-- One file, the copies `v_size` of its size in its vnodes, and the open files. -/
structure State where
  node : TmpfsFile := {}
  vnodes : List OffT := []
  files : List VfsFile := []

abbrev Exec := EStateM Fault State

/-- One of the vnodes. -/
def State.vnode (state : State) (vnode : Nat) : FileVnode := ⟨state.node, state.vnodes.getD vnode 0⟩

def State.setVnode (state : State) (vnode : Nat) (changed : FileVnode) : State :=
  { state with node := changed.node, vnodes := state.vnodes.set vnode changed.size }

/-- A function of tmpfs works on one of the vnodes. -/
def onVnode {α : Type} (vnode : Nat) (action : FileExec α) : Exec α := fun state =>
  match action (state.vnode vnode) with
  | .ok answer changed => .ok answer (state.setVnode vnode changed)
  | .error fault changed => .error fault (state.setVnode vnode changed)

/-- The lookup finds a vnode of the file in the cache, or it makes a new one. -/
def lookupVnode (cached : Option Nat) : Exec Nat := do
  let state ← get
  match cached with
  | some vnode => if vnode < state.vnodes.length then return vnode
  | none => pure ()
  set { state with vnodes := state.vnodes ++ [state.node.size] }
  return state.vnodes.length

/-- This is `vfs_open` on the existing file, where `memory` says if the open file can be allocated. -/
def vfsOpen (cached : Option Nat) (flags : BitVec 32) (memory : Bool) : Exec (Except Errno SizeT) := do
  let vnode ← lookupVnode cached
  if flags &&& vfsOCreat ≠ 0 ∧ flags &&& vfsOExcl ≠ 0 then return .error .eexist
  if !memory then return .error .enomem
  if flags &&& vfsOTrunc ≠ 0 then
    match ← onVnode vnode (tmpfsTruncate 0 none) with
    | .error code => return .error code
    | .ok () => pure ()
  modify fun state => { state with files := state.files ++ [⟨⟨0, flags⟩, vnode⟩] }
  return .ok 0

/-- A call on an open file. -/
def onFile {α : Type} (index : Nat) (call : VfsFile → Exec (Except Errno α)) : Exec (Except Errno α) := do
  match (← get).files[index]? with
  | none => return .error .einval
  | some file => call file

/-- This stores the offset of an open file. -/
def setOffset (index : Nat) (file : VfsFile) (offset : OffT) : Exec Unit :=
  modify fun state => { state with files := state.files.set index { file with offset } }

/-- The `v_size` of the vnode of an open file. -/
def sizeOf (file : VfsFile) : Exec OffT := do return ((← get).vnode file.vnode).size

/-- This is `vfs_read`, which answers the number of bytes. -/
def vfsRead (index : Nat) (buf : Nat → UInt8) (count : SizeT) : Exec (Except Errno SizeT) :=
  onFile index fun file => do
    let answer ← Vfs.vfsRead file.toVfsFile (fun offset => onVnode file.vnode (tmpfsRead buf count offset))
      (setOffset index file)
    return answer.map Prod.fst

def vfsWrite (index : Nat) (buf : Nat → UInt8) (count : SizeT) (fresh : Fresh) : Exec (Except Errno SizeT) :=
  onFile index fun file => Vfs.vfsWrite file.toVfsFile (sizeOf file)
    (fun offset => onVnode file.vnode (tmpfsWrite buf count offset fresh)) (setOffset index file)

def vfsSeek (index : Nat) (offset : OffT) (whence : Whence) : Exec (Except Errno SizeT) :=
  onFile index fun file => Vfs.vfsSeek file.toVfsFile (sizeOf file) offset whence (setOffset index file)

/-- This is `vfs_truncate` on the path of the file. -/
def vfsTruncate (cached : Option Nat) (length : OffT) (fresh : Fresh) : Exec (Except Errno SizeT) := do
  let vnode ← lookupVnode cached
  match ← onVnode vnode (tmpfsTruncate length fresh) with
  | .error code => return .error code
  | .ok () => return .ok 0

/-- The calls on one file. -/
inductive FileOp where
  | openFile (cached : Option Nat) (flags : BitVec 32) (memory : Bool)
  | seek (file : Nat) (offset : OffT) (whence : Whence)
  | write (file : Nat) (buf : Nat → UInt8) (count : SizeT) (fresh : Fresh)
  | read (file : Nat) (buf : Nat → UInt8) (count : SizeT)
  | truncate (cached : Option Nat) (length : OffT) (fresh : Fresh)

/-- This makes a call. -/
def fileCall : FileOp → Exec (Except Errno SizeT)
  | .openFile cached flags memory => vfsOpen cached flags memory
  | .seek file offset whence => vfsSeek file offset whence
  | .write file buf count fresh => vfsWrite file buf count fresh
  | .read file buf count => vfsRead file buf count
  | .truncate cached length fresh => vfsTruncate cached length fresh

/-- The state of a new file that nobody has opened. -/
def newFile : State := {}

end Uesi.Buffer
