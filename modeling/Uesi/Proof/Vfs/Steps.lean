import Uesi.Construction.Vfs.Names

namespace Uesi.Vfs

variable (dir : VnodeId) (oldpath path newpath name : Str) (mode : BitVec 32)

/-- The calls that change the names of the file system. -/
inductive NameOp where
  | create (path : Str) (mode : BitVec 32)
  | mkdir (path : Str) (mode : BitVec 32)
  | openFile (path : Str) (flags mode : BitVec 32)
  | link (oldpath newpath : Str)
  | symlink (target linkpath : Str)
  | unlink (path : Str)
  | rmdir (path : Str)
  | rename (oldpath newpath : Str)

/-- A call, where the file that `vfs_open` returns stays open. -/
def nameCall (fuel : Nat) : NameOp → Exec (Except Errno Unit)
  | .create path mode => vfsCreate fuel path mode
  | .mkdir path mode => vfsMkdir fuel path mode
  | .openFile path flags mode => do return (← vfsOpen fuel path flags mode).map fun _ => ()
  | .link oldpath newpath => vfsLink fuel oldpath newpath
  | .symlink target linkpath => vfsSymlink fuel target linkpath
  | .unlink path => vfsUnlink fuel path
  | .rmdir path => vfsRmdir fuel path
  | .rename oldpath newpath => vfsRename fuel oldpath newpath

/-- A property of actions that the primitive steps of the calls have and that sequences of actions inherit. -/
structure Inherited (holds : (α : Type) → Exec α → Prop) : Prop where
  pure : ∀ {α : Type} (value : α), holds α (pure value)
  bind : ∀ {α β : Type} {action : Exec α} {rest : α → Exec β}, holds α action → (∀ value, holds β (rest value)) →
    holds β (action >>= rest)
  readNode : ∀ id, holds _ (Vfs.readNode id)
  writeNode : ∀ id node, holds _ (Vfs.writeNode id node)
  readVnode : ∀ id, holds _ (Vfs.readVnode id)
  vfsVnodeAlloc : ∀ vnode, holds _ (Vfs.vfsVnodeAlloc vnode)
  vfsVnodeUnref : ∀ id, holds _ (Vfs.vfsVnodeUnref id)
  tmpfsNodeAlloc : ∀ data mode, holds _ (Vfs.tmpfsNodeAlloc data mode)

/-- The property holds also of the lookup and of the two other parts that the calls are made of. -/
structure CallsInherit (holds : (α : Type) → Exec α → Prop) : Prop extends Inherited holds where
  vfsLookup : ∀ fuel path, holds _ (Vfs.vfsLookup fuel path)
  vfsDentryRemove : ∀ path, holds _ (Vfs.vfsDentryRemove path)
  onRegular : ∀ {α : Type} id (action : FileExec (Except Errno α)), holds _ (Vfs.onRegular id action)

section Tmpfs

variable {holds : (α : Type) → Exec α → Prop} (steps : Inherited holds)

theorem holds_ite {α : Type} {condition : Prop} [Decidable condition] {one other : Exec α} (first : holds α one)
    (second : holds α other) : holds α (if condition then one else other) := by
  by_cases yes : condition
  · rw [if_pos yes]
    exact first
  · rw [if_neg yes]
    exact second

include steps

theorem Inherited.tmpfsNodeToVnode (id : NodeId) : holds _ (Vfs.tmpfsNodeToVnode id) :=
  steps.bind (steps.readNode id) fun node => steps.vfsVnodeAlloc (node.toVnode id)

theorem Inherited.tmpfsDirentFind (dir : NodeId) (name : Str) : holds _ (Vfs.tmpfsDirentFind dir name) := by
  refine steps.bind (steps.readNode dir) fun node => ?_
  split
  · exact steps.pure _
  · exact steps.pure _

theorem Inherited.tmpfsDirentAdd (dir : NodeId) (name : Str) (node : NodeId) :
    holds _ (Vfs.tmpfsDirentAdd dir name node) := by
  refine steps.bind (steps.readNode dir) fun parent => ?_
  split
  · refine steps.bind (steps.tmpfsDirentFind dir name) fun taken => ?_
    split
    · exact steps.pure _
    · exact steps.bind (steps.writeNode _ _) fun _ => steps.bind (steps.readNode _) fun _ =>
        steps.bind (steps.writeNode _ _) fun _ => steps.pure _
  · exact steps.pure _

theorem Inherited.tmpfsDirentRemove (dir : NodeId) (name : Str) : holds _ (Vfs.tmpfsDirentRemove dir name) := by
  refine steps.bind (steps.readNode dir) fun parent => ?_
  split
  · split
    · exact steps.pure _
    · refine steps.bind (steps.writeNode _ _) fun _ => steps.bind (steps.readNode _) fun node => ?_
      dsimp only
      generalize (node.nlink + 2 ^ 32 - 1) % 2 ^ 32 = nlink
      exact steps.bind (steps.writeNode _ _) fun _ =>
        holds_ite (steps.bind (steps.writeNode _ none) fun _ => steps.pure _) (steps.pure _)
  · exact steps.pure _

theorem Inherited.directoryNode (vnode : VnodeId) : holds _ (Vfs.directoryNode vnode) := by
  refine steps.bind (steps.readVnode vnode) fun found => steps.bind (steps.readNode _) fun node => ?_
  split
  · exact steps.pure _
  · exact steps.pure _

theorem Inherited.tmpfsLookup : holds _ (Vfs.tmpfsLookup dir name) := by
  refine steps.bind (steps.directoryNode dir) fun found => ?_
  split
  · exact steps.pure _
  · refine steps.bind (steps.tmpfsDirentFind _ name) fun entry => ?_
    split
    · exact steps.pure _
    · exact steps.bind (steps.tmpfsNodeToVnode _) fun _ => steps.pure _

theorem Inherited.tmpfsAddNew (data : TmpfsData) (mode : BitVec 32) :
    holds _ (Vfs.tmpfsAddNew dir name data mode) := by
  refine steps.bind (steps.directoryNode dir) fun found => ?_
  split
  · exact steps.pure _
  · refine steps.bind (steps.tmpfsNodeAlloc data mode) fun node => ?_
    refine steps.bind (steps.tmpfsDirentAdd _ name node) fun answer => ?_
    split
    · exact steps.bind (steps.writeNode node none) fun _ => steps.pure _
    · exact steps.pure _

theorem Inherited.tmpfsCreate : holds _ (Vfs.tmpfsCreate dir name mode) := by
  refine steps.bind (steps.tmpfsAddNew dir name _ mode) fun answer => ?_
  split
  · exact steps.pure _
  · exact steps.bind (steps.tmpfsNodeToVnode _) fun _ => steps.pure _

theorem Inherited.tmpfsUnlink : holds _ (Vfs.tmpfsUnlink dir name) := by
  refine steps.bind (steps.directoryNode dir) fun found => ?_
  split
  · exact steps.pure _
  · exact steps.tmpfsDirentRemove _ name

theorem Inherited.tmpfsRmdir : holds _ (Vfs.tmpfsRmdir dir name) := by
  refine steps.bind (steps.directoryNode dir) fun found => ?_
  split
  · exact steps.pure _
  · refine steps.bind (steps.tmpfsDirentFind _ name) fun entry => ?_
    split
    · exact steps.pure _
    · refine steps.bind (steps.readNode _) fun node => ?_
      split
      · split
        · exact steps.pure _
        · exact steps.tmpfsDirentRemove _ name
      · exact steps.pure _

theorem Inherited.tmpfsLink (target : VnodeId) : holds _ (Vfs.tmpfsLink dir name target) := by
  refine steps.bind (steps.readVnode target) fun vnode => steps.bind (steps.directoryNode dir) fun found => ?_
  split
  · exact steps.pure _
  · refine steps.bind (steps.readNode _) fun node => ?_
    split
    · exact steps.pure _
    · exact steps.tmpfsDirentAdd _ name _

theorem Inherited.tmpfsReadlink (vnode : VnodeId) (bufsize : Nat) : holds _ (Vfs.tmpfsReadlink vnode bufsize) := by
  unfold Vfs.tmpfsReadlink
  split
  · exact steps.pure _
  · refine steps.bind (steps.readVnode vnode) fun found => steps.bind (steps.readNode _) fun node => ?_
    split
    · exact steps.pure _
    · exact steps.pure _

end Tmpfs

section Calls

variable {holds : (α : Type) → Exec α → Prop} (calls : CallsInherit holds) {fuel : Nat}

include calls

theorem CallsInherit.withParent {path : Str} {call : VnodeId → Str → Exec (Except Errno Unit)}
    (body : ∀ parent name, holds _ (call parent name)) : holds _ (Vfs.withParent fuel path call) := by
  have parent : holds _ (Vfs.vfsLookupParent fuel path) := by
    unfold vfsLookupParent
    split
    · exact calls.pure _
    · refine calls.bind (calls.vfsLookup fuel _) fun answer => ?_
      split
      · exact calls.pure _
      · exact calls.pure _
  refine calls.bind parent fun answer => ?_
  split
  · exact calls.pure _
  · exact calls.bind (body _ _) fun _ => calls.bind (calls.vfsVnodeUnref _) fun _ => calls.pure _

theorem CallsInherit.vfsCreate : holds _ (Vfs.vfsCreate fuel path mode) := by
  refine calls.withParent fun parent name => calls.bind (calls.tmpfsCreate parent name _) fun answer => ?_
  split
  · exact calls.pure _
  · exact calls.bind (calls.vfsVnodeUnref _) fun _ => calls.pure _

theorem CallsInherit.vfsMkdir : holds _ (Vfs.vfsMkdir fuel path mode) :=
  calls.withParent fun parent name => calls.bind (calls.tmpfsAddNew parent name _ _) fun _ => calls.pure _

theorem CallsInherit.vfsSymlink (target path : Str) : holds _ (Vfs.vfsSymlink fuel target path) :=
  calls.withParent fun parent name => calls.bind (calls.tmpfsAddNew parent name _ _) fun _ => calls.pure _

theorem CallsInherit.vfsRmdir : holds _ (Vfs.vfsRmdir fuel path) := by
  refine calls.withParent fun parent name => calls.bind (calls.tmpfsRmdir parent name) fun answer => ?_
  split
  · exact calls.pure _
  · exact calls.bind (calls.vfsDentryRemove path) fun _ => calls.pure _

theorem CallsInherit.vfsUnlink : holds _ (Vfs.vfsUnlink fuel path) := by
  refine calls.withParent fun parent name => calls.bind (calls.vfsLookup fuel path) fun answer => ?_
  split
  · exact calls.pure _
  · exact calls.bind (calls.tmpfsUnlink parent name) fun _ => calls.bind (calls.vfsVnodeUnref _) fun _ => calls.pure _

theorem CallsInherit.vfsLink : holds _ (Vfs.vfsLink fuel oldpath newpath) := by
  refine calls.bind (calls.vfsLookup fuel oldpath) fun answer => ?_
  split
  · exact calls.pure _
  · exact calls.bind (calls.withParent fun parent name => calls.tmpfsLink parent name _) fun _ =>
      calls.bind (calls.vfsVnodeUnref _) fun _ => calls.pure _

theorem CallsInherit.removeTarget (oldVnode newParent : VnodeId) (newName : Str) :
    holds _ (Vfs.removeTarget fuel newpath oldVnode newParent newName) := by
  have byType (oldIsDir targetIsDir : Bool) : holds _ (Vfs.removeByType oldIsDir targetIsDir newParent newName) := by
    cases oldIsDir <;> cases targetIsDir
    · exact calls.tmpfsUnlink newParent newName
    · exact calls.pure _
    · exact calls.pure _
    · exact calls.tmpfsRmdir newParent newName
  refine calls.bind (calls.vfsLookup fuel newpath) fun answer => ?_
  split
  · exact calls.pure _
  · exact calls.bind (calls.readVnode _) fun _ => calls.bind (calls.readVnode _) fun _ =>
      calls.bind (byType _ _) fun _ => calls.bind (calls.vfsVnodeUnref _) fun _ => calls.pure _

theorem CallsInherit.moveEntryAlloc (oldVnode oldParent newParent : VnodeId) (oldName newName : Str) :
    holds _ (Vfs.moveEntryAlloc true oldpath newpath oldVnode oldParent newParent oldName newName) := by
  refine calls.bind (calls.tmpfsLink newParent newName oldVnode) fun linked => ?_
  split
  · exact calls.pure _
  · refine calls.bind (calls.tmpfsUnlink oldParent oldName) fun unlinked => ?_
    split
    · exact calls.bind (calls.tmpfsUnlink newParent newName) fun _ => calls.pure _
    · exact calls.bind (calls.vfsDentryRemove oldpath) fun _ =>
        calls.bind (calls.vfsDentryRemove newpath) fun _ => calls.pure _

theorem CallsInherit.vfsRename : holds _ (Vfs.vfsRename fuel oldpath newpath) := by
  refine calls.bind (calls.vfsLookup fuel oldpath) fun answer => ?_
  split
  · exact calls.pure _
  · rename_i oldVnode
    refine calls.bind ?_ fun _ => calls.bind (calls.vfsVnodeUnref _) fun _ => calls.pure _
    refine calls.withParent fun oldParent oldName => calls.withParent fun newParent newName => ?_
    refine calls.bind (calls.removeTarget newpath oldVnode newParent newName) fun answer => ?_
    split
    · exact calls.pure _
    · exact calls.moveEntryAlloc oldpath newpath oldVnode oldParent newParent oldName newName

theorem CallsInherit.vfsOpen (flags mode : BitVec 32) : holds _ (Vfs.vfsOpen fuel path flags mode) := by
  have lookup := calls.vfsLookup fuel path
  have opened : holds _ (Vfs.openVnode fuel path flags mode) := by
    refine calls.bind lookup fun answer => ?_
    split
    · exact holds_ite (calls.bind (calls.vfsVnodeUnref _) fun _ => calls.pure _) (calls.pure _)
    · refine holds_ite (calls.pure _) (calls.bind (calls.vfsCreate path mode) fun answer => ?_)
      split
      · exact calls.pure _
      · exact lookup
    · exact calls.pure _
  refine calls.bind opened fun answer => ?_
  split
  · exact calls.pure _
  · refine holds_ite (calls.pure _) (calls.bind (calls.onRegular _ _) fun answer => ?_)
    split
    · exact calls.pure _
    · exact calls.bind (calls.vfsVnodeUnref _) fun _ => calls.pure _

theorem CallsInherit.nameCall (op : NameOp) : holds _ (Vfs.nameCall fuel op) := by
  cases op with
  | create path mode => exact calls.vfsCreate path mode
  | mkdir path mode => exact calls.vfsMkdir path mode
  | openFile path flags mode => exact calls.bind (calls.vfsOpen path flags mode) fun _ => calls.pure _
  | link oldpath newpath => exact calls.vfsLink oldpath newpath
  | symlink target linkpath => exact calls.vfsSymlink target linkpath
  | unlink path => exact calls.vfsUnlink path
  | rmdir path => exact calls.vfsRmdir path
  | rename oldpath newpath => exact calls.vfsRename oldpath newpath

end Calls

end Uesi.Vfs
