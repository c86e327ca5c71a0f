import Uesi.Construction.Vfs.File
import Uesi.Construction.Vfs.Path

namespace Uesi.Vfs

/-- A tmpfs node is named by its address. -/
abbrev NodeId := Nat

/-- A vnode is named by its address. -/
abbrev VnodeId := Nat

def vfsIfmt : BitVec 32 := 0xF000

def vfsIfdir : BitVec 32 := 0x4000

def vfsIfreg : BitVec 32 := 0x8000

def vfsIflnk : BitVec 32 := 0xA000

def vfsMaxName : Nat := 256

/-- An entry of a directory is a `tmpfs_dirent_t`, whose successor is the rest of the list. -/
structure TmpfsDirent where
  name : Str
  node : NodeId
  deriving DecidableEq, Repr

/-- The union `tn_data` of a node, with the type of the node as its tag. -/
inductive TmpfsData where
  | file (contents : TmpfsFile)
  | dir (entries : List TmpfsDirent) (count : Nat)
  | symlink (target : Str)

/-- This is a `tmpfs_node_t`. -/
structure TmpfsNode where
  ino : Nat
  mode : BitVec 32
  nlink : Nat
  data : TmpfsData

/-- The value of `tn_size`. -/
def TmpfsNode.size (node : TmpfsNode) : OffT :=
  match node.data with
  | .file contents => contents.size
  | .dir _ _ => 0
  | .symlink target => BitVec.ofNat 64 target.length

/-- The nodes of a mount, with the address that the next node gets. -/
structure Tmpfs where
  nodes : NodeId → Option TmpfsNode
  freshNode : NodeId
  nextIno : Nat

/-- This is a `vnode_t`, where `node` is `v_private`. -/
structure Vnode where
  ino : Nat
  mode : BitVec 32
  size : OffT
  refcount : Nat
  node : NodeId

/-- This is a `vfs_dentry_t`. -/
structure Dentry where
  name : Str
  vnode : VnodeId
  deriving DecidableEq, Repr

/-- The state of the file system layer, with the root vnode of `root_mount`. A `v_refcount` takes as many
values as `refcountValues` says, where zero stands for a count without a bound, and `wrapped` records that
a count has wrapped. -/
structure VfsState where
  tmpfs : Tmpfs
  vnodes : VnodeId → Option Vnode
  freshVnode : VnodeId
  dentryHash : Nat → List Dentry
  root : Option VnodeId
  refcountValues : Nat := 0
  wrapped : Bool := false

/-- The state with the `v_refcount` of the kernel, which is a `uint32_t`. -/
def VfsState.kernel (state : VfsState) : VfsState := { state with refcountValues := 2 ^ 32 }

/-- The state with counts that are numbers. -/
def VfsState.unbounded (state : VfsState) : VfsState := { state with refcountValues := 0 }

/-- A call changes the state and returns a value, which may be an error number. -/
abbrev Exec := EStateM Fault VfsState

/-- This dereferences a node pointer. -/
def readNode (id : NodeId) : Exec TmpfsNode := do
  match (← get).tmpfs.nodes id with
  | some node => return node
  | none => throw .danglingPointer

def VfsState.setNode (state : VfsState) (id : NodeId) (node : Option TmpfsNode) : VfsState :=
  { state with tmpfs := { state.tmpfs with nodes := Function.update state.tmpfs.nodes id node } }

/-- This stores a node, and `none` frees it. -/
def writeNode (id : NodeId) (node : Option TmpfsNode) : Exec Unit := modify (·.setNode id node)

/-- This dereferences a vnode pointer. -/
def readVnode (id : VnodeId) : Exec Vnode := do
  match (← get).vnodes id with
  | some vnode => return vnode
  | none => throw .danglingPointer

def VfsState.setVnode (state : VfsState) (id : VnodeId) (vnode : Option Vnode) : VfsState :=
  { state with vnodes := Function.update state.vnodes id vnode }

/-- This stores a vnode, and `none` frees it. -/
def writeVnode (id : VnodeId) (vnode : Option Vnode) : Exec Unit := modify (·.setVnode id vnode)

/-- This is `vfs_vnode_alloc` with the fields that `tmpfs_node_to_vnode` fills in. -/
def vfsVnodeAlloc (vnode : Vnode) : Exec VnodeId := do
  let id := (← get).freshVnode
  modify fun state => { state with freshVnode := id + 1 }
  writeVnode id (some { vnode with refcount := 1 })
  return id

def vfsVnodeRef (id : VnodeId) : Exec Unit := do
  let vnode ← readVnode id
  let refcount := (vnode.refcount + 1) % (← get).refcountValues
  modify fun state => { state with wrapped := state.wrapped || refcount != vnode.refcount + 1 }
  writeVnode id (some { vnode with refcount })

/-- This is `vfs_vnode_unref`, where `tmpfs_release` does nothing. -/
def vfsVnodeUnref (id : VnodeId) : Exec Unit := do
  let vnode ← readVnode id
  if vnode.refcount = 0 then return ()
  if vnode.refcount - 1 = 0 then writeVnode id none
  else writeVnode id (some { vnode with refcount := vnode.refcount - 1 })

def tmpfsNodeAlloc (data : TmpfsData) (mode : BitVec 32) : Exec NodeId := do
  let tmpfs := (← get).tmpfs
  modify fun state => { state with tmpfs := { tmpfs with
    freshNode := tmpfs.freshNode + 1
    nextIno := (tmpfs.nextIno + 1) % 2 ^ 64 } }
  writeNode tmpfs.freshNode (some { ino := tmpfs.nextIno, mode, nlink := 1, data })
  return tmpfs.freshNode

def tmpfsNodeFree (id : NodeId) : Exec Unit := writeNode id none

/-- The type bits of the vnode of a node. -/
def TmpfsData.vfsType : TmpfsData → BitVec 32
  | .file _ => vfsIfreg
  | .dir _ _ => vfsIfdir
  | .symlink _ => vfsIflnk

/-- The vnode that `tmpfs_node_to_vnode` fills in. -/
def TmpfsNode.toVnode (node : TmpfsNode) (id : NodeId) : Vnode where
  ino := node.ino
  mode := node.mode &&& ~~~vfsIfmt ||| node.data.vfsType
  size := node.size
  refcount := 1
  node := id

def tmpfsNodeToVnode (id : NodeId) : Exec VnodeId := do
  let node ← readNode id
  vfsVnodeAlloc (node.toVnode id)

/-- The loop of `tmpfs_dirent_find`. -/
def findEntry (name : Str) : List TmpfsDirent → Option TmpfsDirent
  | [] => none
  | entry :: rest => if entry.name = name then some entry else findEntry name rest

/-- A loop over a list that unlinks the first element with a name. -/
def unlinkNamed {α : Type} (nameOf : α → Str) (name : Str) : List α → Option (α × List α)
  | [] => none
  | first :: rest =>
      if nameOf first = name then some (first, rest)
      else (unlinkNamed nameOf name rest).map fun found => (found.1, first :: found.2)

/-- The loop of `tmpfs_dirent_remove`. -/
def unlinkEntry (name : Str) : List TmpfsDirent → Option (TmpfsDirent × List TmpfsDirent) :=
  unlinkNamed TmpfsDirent.name name

def tmpfsDirentFind (dir : NodeId) (name : Str) : Exec (Option TmpfsDirent) := do
  match (← readNode dir).data with
  | .dir entries _ => return findEntry name entries
  | _ => return none

def tmpfsDirentAdd (dir : NodeId) (name : Str) (node : NodeId) : Exec (Except Errno Unit) := do
  let parent ← readNode dir
  match parent.data with
  | .dir entries count =>
      if (← tmpfsDirentFind dir name).isSome then return .error .eexist
      writeNode dir (some { parent with data := .dir (⟨name, node⟩ :: entries) ((count + 1) % 2 ^ 32) })
      let target ← readNode node
      writeNode node (some { target with nlink := (target.nlink + 1) % 2 ^ 32 })
      return .ok ()
  | _ => return .error .einval

/-- This is `tmpfs_dirent_remove`, which frees the node when its link count becomes zero. -/
def tmpfsDirentRemove (dir : NodeId) (name : Str) : Exec (Except Errno Unit) := do
  let parent ← readNode dir
  match parent.data with
  | .dir entries count =>
      match unlinkEntry name entries with
      | none => return .error .enoent
      | some (entry, rest) =>
          writeNode dir (some { parent with data := .dir rest ((count + 2 ^ 32 - 1) % 2 ^ 32) })
          let node ← readNode entry.node
          let nlink := (node.nlink + 2 ^ 32 - 1) % 2 ^ 32
          writeNode entry.node (some { node with nlink })
          if nlink = 0 then tmpfsNodeFree entry.node
          return .ok ()
  | _ => return .error .einval

/-- The node of a vnode, if it is a directory. -/
def directoryNode (vnode : VnodeId) : Exec (Option NodeId) := do
  let id := (← readVnode vnode).node
  match (← readNode id).data with
  | .dir _ _ => return some id
  | _ => return none

/-- A `vfs_dirent_t` that `tmpfs_readdir` fills in. -/
structure VfsDirent where
  ino : Nat
  off : Int
  reclen : Nat
  type : Nat
  name : Str
  deriving DecidableEq, Repr

/-- The value of `sizeof(vfs_dirent_t)`. -/
def vfsDirentSize : Nat := 280

/-- This is `tmpfs_readdir`, which returns the record and the next offset. -/
def tmpfsReaddir (vnode : VnodeId) (offset : Int) : Exec (Except Errno (VfsDirent × Int)) := do
  match (← readNode (← readVnode vnode).node).data with
  | .dir entries _ =>
      -- The loop moves on while the current index is below the offset.
      match entries.drop offset.toNat with
      | [] => return .error .enoent
      | entry :: _ =>
          let node ← readNode entry.node
          let next : Int := offset.toNat + 1
          return .ok (
            { ino := node.ino
              off := next
              reclen := vfsDirentSize
              type := (node.data.vfsType >>> 12).toNat
              name := entry.name.take (vfsMaxName - 1) }, next)
  | _ => return .error .enotdir

def tmpfsLookup (dir : VnodeId) (name : Str) : Exec (Except Errno VnodeId) := do
  match ← directoryNode dir with
  | none => return .error .enotdir
  | some parent =>
      match ← tmpfsDirentFind parent name with
      | none => return .error .enoent
      | some entry => return .ok (← tmpfsNodeToVnode entry.node)

/-- The part that `tmpfs_create`, `tmpfs_mkdir` and `tmpfs_symlink` share adds a new node. -/
def tmpfsAddNew (dir : VnodeId) (name : Str) (data : TmpfsData) (mode : BitVec 32) :
    Exec (Except Errno NodeId) := do
  match ← directoryNode dir with
  | none => return .error .enotdir
  | some parent =>
      let node ← tmpfsNodeAlloc data mode
      match ← tmpfsDirentAdd parent name node with
      | .error code => do
          tmpfsNodeFree node
          return .error code
      | .ok () => return .ok node

def tmpfsCreate (dir : VnodeId) (name : Str) (mode : BitVec 32) : Exec (Except Errno VnodeId) := do
  match ← tmpfsAddNew dir name (.file {}) mode with
  | .error code => return .error code
  | .ok node => return .ok (← tmpfsNodeToVnode node)

def tmpfsMkdir (dir : VnodeId) (name : Str) (mode : BitVec 32) : Exec (Except Errno Unit) := do
  return (← tmpfsAddNew dir name (.dir [] 0) mode).map fun _ => ()

/-- This is `tmpfs_symlink`, whose node gets the mode `S_IFLNK | 0777`. -/
def tmpfsSymlink (dir : VnodeId) (name target : Str) : Exec (Except Errno Unit) := do
  return (← tmpfsAddNew dir name (.symlink target) (vfsIflnk ||| 0x1FF)).map fun _ => ()

def tmpfsRmdir (dir : VnodeId) (name : Str) : Exec (Except Errno Unit) := do
  match ← directoryNode dir with
  | none => return .error .enotdir
  | some parent =>
      match ← tmpfsDirentFind parent name with
      | none => return .error .enoent
      | some entry =>
          match (← readNode entry.node).data with
          | .dir _ count =>
              if 0 < count then return .error .enotempty
              tmpfsDirentRemove parent name
          | _ => return .error .enotdir

/-- This is `tmpfs_unlink`, which does not look at the type of the entry. -/
def tmpfsUnlink (dir : VnodeId) (name : Str) : Exec (Except Errno Unit) := do
  match ← directoryNode dir with
  | none => return .error .enotdir
  | some parent => tmpfsDirentRemove parent name

def tmpfsLink (dir : VnodeId) (name : Str) (target : VnodeId) : Exec (Except Errno Unit) := do
  let node := (← readVnode target).node
  match ← directoryNode dir with
  | none => return .error .einval
  | some parent =>
      match (← readNode node).data with
      | .dir _ _ => return .error .eperm
      | _ => tmpfsDirentAdd parent name node

/-- This is `tmpfs_readlink` into a buffer of `bufsize` bytes. -/
def tmpfsReadlink (vnode : VnodeId) (bufsize : Nat) : Exec (Except Errno Str) := do
  if bufsize = 0 then return .error .einval
  match (← readNode (← readVnode vnode).node).data with
  | .symlink target => return .ok (target.take (bufsize - 1))
  | _ => return .error .einval

/-- The state after `vfs_init`, where the first inode number is `TMPFS_ROOT_INO`. -/
def vfsInit : VfsState where
  tmpfs := { nodes := fun _ => none, freshNode := 0, nextIno := 1 }
  vnodes := fun _ => none
  freshVnode := 0
  dentryHash := fun _ => []
  root := none

/-- This is `vfs_mount` of a tmpfs at `/`, whose root node gets the mode `S_IFDIR | 0755`. -/
def vfsMountRoot : Exec Unit := do
  let root ← tmpfsNodeAlloc (.dir [] 0) (vfsIfdir ||| 0x1ED)
  let vnode ← tmpfsNodeToVnode root
  modify fun state => { state with root := some vnode }

/-- The state after `vfs_init` and the mount of a tmpfs at `/`. -/
def mountedRoot : VfsState :=
  match vfsMountRoot vfsInit with
  | .ok _ state => state
  | .error _ state => state

end Uesi.Vfs
