import Uesi.Construction.Vfs.Lookup

namespace Uesi.Vfs

def vfsOCreat : BitVec 32 := 0x0200

def vfsOTrunc : BitVec 32 := 0x0400

def vfsOExcl : BitVec 32 := 0x0800

/-- The index that `strrchr(path, '/')` finds. -/
def lastSlash (path : Str) : Option Nat :=
  (path.reverse.findIdx? (· == slash)).map fun index => path.length - 1 - index

def vfsBasename (path : Str) : Str :=
  match lastSlash path with
  | none => path
  | some index => path.drop (index + 1)

/-- This is `vfs_dirname` with a buffer of `VFS_MAX_PATH` bytes. -/
def vfsDirname (path : Str) : Option Str :=
  match lastSlash path with
  | none => some [dot]
  | some index =>
      let length := if index = 0 then 1 else index
      if vfsMaxPath ≤ length then none else some (path.take length)

def vfsIsValidFilename (name : Str) : Bool :=
  if name = [] then false
  else if vfsMaxName ≤ name.length then false
  else if name.any fun byte => byte == slash || byte == 0 then false
  else if name = [dot] ∨ name = [dot, dot] then false
  else true

def vfsLookupParent (fuel : Nat) (path : Str) : Exec (Except Errno (VnodeId × Str)) := do
  match vfsDirname path with
  | none => return .error .enametoolong
  | some dirname =>
      match ← vfsLookup fuel dirname with
      | .error code => return .error code
      | .ok parent => return .ok (parent, vfsBasename path)

/-- The part that the calls on the parent directory of a path share. -/
def withParent (fuel : Nat) (path : Str) (call : VnodeId → Str → Exec (Except Errno Unit)) :
    Exec (Except Errno Unit) := do
  match ← vfsLookupParent fuel path with
  | .error code => return .error code
  | .ok (parent, name) =>
      let answer ← call parent name
      vfsVnodeUnref parent
      return answer

def vfsCreate (fuel : Nat) (path : Str) (mode : BitVec 32) : Exec (Except Errno Unit) :=
  withParent fuel path fun parent name => do
    match ← tmpfsCreate parent name (mode ||| vfsIfreg) with
    | .error code => return .error code
    | .ok vnode =>
        vfsVnodeUnref vnode
        return .ok ()

def vfsMkdir (fuel : Nat) (path : Str) (mode : BitVec 32) : Exec (Except Errno Unit) :=
  withParent fuel path fun parent name => tmpfsMkdir parent name (mode ||| vfsIfdir)

def vfsSymlink (fuel : Nat) (target linkpath : Str) : Exec (Except Errno Unit) :=
  withParent fuel linkpath fun parent name => tmpfsSymlink parent name target

/-- This is `vfs_rmdir`, which drops the path as it was given from the cache. -/
def vfsRmdir (fuel : Nat) (path : Str) : Exec (Except Errno Unit) :=
  withParent fuel path fun parent name => do
    match ← tmpfsRmdir parent name with
    | .error code => return .error code
    | .ok () =>
        vfsDentryRemove path
        return .ok ()

def vfsUnlink (fuel : Nat) (path : Str) : Exec (Except Errno Unit) :=
  withParent fuel path fun parent name => do
    match ← vfsLookup fuel path with
    | .error code => return .error code
    | .ok target =>
        let answer ← tmpfsUnlink parent name
        vfsVnodeUnref target
        return answer

/-- This is `vfs_readlink`, which returns the text that it writes to the buffer. -/
def vfsReadlink (fuel : Nat) (path : Str) (bufsize : Nat) : Exec (Except Errno Str) := do
  if bufsize = 0 then return .error .einval
  match ← vfsLookup fuel path with
  | .error code => return .error code
  | .ok vnode =>
      if !(← readVnode vnode).hasType vfsIflnk then
        vfsVnodeUnref vnode
        return .error .einval
      let answer ← tmpfsReadlink vnode (min bufsize vfsMaxPath)
      vfsVnodeUnref vnode
      return answer

def vfsLink (fuel : Nat) (oldpath newpath : Str) : Exec (Except Errno Unit) := do
  match ← vfsLookup fuel oldpath with
  | .error code => return .error code
  | .ok target =>
      let answer ← withParent fuel newpath fun parent name => tmpfsLink parent name target
      vfsVnodeUnref target
      return answer

/-- The type tests of `vfs_rename` in front of the removal. -/
def removeByType (oldIsDir targetIsDir : Bool) (newParent : VnodeId) (newName : Str) :
    Exec (Except Errno Unit) :=
  if oldIsDir && !targetIsDir then return .error .enotdir
  else if !oldIsDir && targetIsDir then return .error .eisdir
  else if targetIsDir then tmpfsRmdir newParent newName
  else tmpfsUnlink newParent newName

/-- The part of `vfs_rename` that removes an entry under the new path. -/
def removeTarget (fuel : Nat) (newpath : Str) (oldVnode newParent : VnodeId) (newName : Str) :
    Exec (Except Errno Unit) := do
  match ← vfsLookup fuel newpath with
  | .error _ => return .ok ()
  | .ok target =>
      let oldIsDir := (← readVnode oldVnode).hasType vfsIfdir
      let targetIsDir := (← readVnode target).hasType vfsIfdir
      let answer ← removeByType oldIsDir targetIsDir newParent newName
      vfsVnodeUnref target
      return answer

/-- This is `tmpfs_link`, where `room` says whether the allocations for the new entry succeed. -/
def tmpfsLinkAlloc (room : Bool) (dir : VnodeId) (name : Str) (target : VnodeId) :
    Exec (Except Errno Unit) :=
  match room with
  | true => tmpfsLink dir name target
  | false => do
      let node := (← readVnode target).node
      match ← directoryNode dir with
      | none => return .error .einval
      | some parent =>
          match (← readNode node).data with
          | .dir _ _ => return .error .eperm
          | _ =>
              if (← tmpfsDirentFind parent name).isSome then return .error .eexist
              return .error .enomem

/-- The part of `vfs_rename` behind the lookups links the new name and unlinks the old one. -/
def moveEntryAlloc (room : Bool) (oldpath newpath : Str) (oldVnode oldParent newParent : VnodeId)
    (oldName newName : Str) : Exec (Except Errno Unit) := do
  match ← tmpfsLinkAlloc room newParent newName oldVnode with
  | .error code => return .error code
  | .ok () =>
      match ← tmpfsUnlink oldParent oldName with
      | .error code =>
          let _ ← tmpfsUnlink newParent newName
          return .error code
      | .ok () =>
          vfsDentryRemove oldpath
          vfsDentryRemove newpath
          return .ok ()

/-- This is `vfs_rename`, where the allocations of `tmpfs_link` may fail. -/
def vfsRenameAlloc (room : Bool) (fuel : Nat) (oldpath newpath : Str) : Exec (Except Errno Unit) := do
  match ← vfsLookup fuel oldpath with
  | .error code => return .error code
  | .ok oldVnode =>
      let answer ← withParent fuel oldpath fun oldParent oldName =>
        withParent fuel newpath fun newParent newName => do
          match ← removeTarget fuel newpath oldVnode newParent newName with
          | .error code => return .error code
          | .ok () => moveEntryAlloc room oldpath newpath oldVnode oldParent newParent oldName newName
      vfsVnodeUnref oldVnode
      return answer

/-- This is `vfs_rename`, where the allocations succeed. -/
def vfsRename (fuel : Nat) (oldpath newpath : Str) : Exec (Except Errno Unit) :=
  vfsRenameAlloc true fuel oldpath newpath

/-- A function of tmpfs on the regular file of a vnode, which is refused on other nodes. -/
def onRegular {α : Type} (id : VnodeId) (action : FileExec (Except Errno α)) : Exec (Except Errno α) := do
  let vnode ← readVnode id
  let node ← readNode vnode.node
  match node.data with
  | .file contents =>
      match action ⟨contents, vnode.size⟩ with
      | .ok answer changed =>
          writeNode vnode.node (some { node with data := .file changed.node })
          writeVnode id (some { vnode with size := changed.size })
          return answer
      | .error fault _ => throw fault
  | _ => return .error .einval

/-- The part of `vfs_open` that finds or creates the vnode. -/
def openVnode (fuel : Nat) (path : Str) (flags mode : BitVec 32) : Exec (Except Errno VnodeId) := do
  match ← vfsLookup fuel path with
  | .ok vnode =>
      if flags &&& vfsOCreat ≠ 0 ∧ flags &&& vfsOExcl ≠ 0 then
        vfsVnodeUnref vnode
        return .error .eexist
      return .ok vnode
  | .error .enoent =>
      if flags &&& vfsOCreat = 0 then return .error .enoent
      match ← vfsCreate fuel path mode with
      | .error code => return .error code
      | .ok () => vfsLookup fuel path
  | .error code => return .error code

/-- This is `vfs_open` up to the file object, which holds a reference to the vnode that is returned. -/
def vfsOpen (fuel : Nat) (path : Str) (flags mode : BitVec 32) : Exec (Except Errno VnodeId) := do
  match ← openVnode fuel path flags mode with
  | .error code => return .error code
  | .ok vnode =>
      if flags &&& vfsOTrunc = 0 then return .ok vnode
      match ← onRegular vnode (tmpfsTruncate 0 none) with
      | .ok () => return .ok vnode
      | .error code =>
          vfsVnodeUnref vnode
          return .error code

end Uesi.Vfs
