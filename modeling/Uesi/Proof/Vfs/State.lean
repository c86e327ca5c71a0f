import Uesi.Construction.Vfs.Tmpfs

namespace Uesi.Vfs

open Library

variable {node : TmpfsNode} {vnode : Vnode} {id : VnodeId}

section Fields

variable (state : VfsState) (id : NodeId) (node : Option TmpfsNode) (vnode : Option Vnode)

@[simp] theorem VfsState.setNode_nodes :
    (state.setNode id node).tmpfs.nodes = Function.update state.tmpfs.nodes id node := rfl

@[simp] theorem VfsState.setVnode_vnodes :
    (state.setVnode id vnode).vnodes = Function.update state.vnodes id vnode := rfl

end Fields

section Rules

variable {stop : Fault → Prop} {state : VfsState}

theorem post_readNode {after : TmpfsNode → VfsState → Prop} {id : NodeId} (found : state.tmpfs.nodes id = some node) :
    Post stop (readNode id) after state ↔ after node state := by
  simp [readNode, found]

@[simp] theorem post_writeNode {after : Unit → VfsState → Prop} {id : NodeId} {node : Option TmpfsNode} :
    Post stop (writeNode id node) after state ↔ after () (state.setNode id node) := Iff.rfl

theorem post_readVnode {after : Vnode → VfsState → Prop} (found : state.vnodes id = some vnode) :
    Post stop (readVnode id) after state ↔ after vnode state := by
  simp [readVnode, found]

@[simp] theorem post_writeVnode {after : Unit → VfsState → Prop} {vnode : Option Vnode} :
    Post stop (writeVnode id vnode) after state ↔ after () (state.setVnode id vnode) := Iff.rfl

/-- A new vnode is stored at a fresh address. -/
theorem post_vfsVnodeAlloc {after : VnodeId → VfsState → Prop} :
    Post stop (vfsVnodeAlloc vnode) after state ↔
      after state.freshVnode (({ state with freshVnode := state.freshVnode + 1 } : VfsState).setVnode
        state.freshVnode (some { vnode with refcount := 1 })) := by
  simp [vfsVnodeAlloc]

/-- A new node is stored at a fresh address. -/
theorem post_tmpfsNodeAlloc {after : NodeId → VfsState → Prop} {data : TmpfsData} {mode : BitVec 32} :
    Post stop (tmpfsNodeAlloc data mode) after state ↔
      after state.tmpfs.freshNode (({ state with tmpfs := { state.tmpfs with
        freshNode := state.tmpfs.freshNode + 1
        nextIno := (state.tmpfs.nextIno + 1) % 2 ^ 64 } } : VfsState).setNode
          state.tmpfs.freshNode (some ⟨state.tmpfs.nextIno, mode, 1, data⟩)) := by
  simp [tmpfsNodeAlloc]

theorem post_tmpfsNodeToVnode {after : VnodeId → VfsState → Prop} {id : NodeId}
    (found : state.tmpfs.nodes id = some node) :
    Post stop (tmpfsNodeToVnode id) after state ↔
      after state.freshVnode (({ state with freshVnode := state.freshVnode + 1 } : VfsState).setVnode
        state.freshVnode (some (node.toVnode id))) := by
  simp only [tmpfsNodeToVnode, post_bind, post_readNode found, post_vfsVnodeAlloc]
  rfl

theorem post_tmpfsReadlink {after : Except Errno Str → VfsState → Prop} {target : Str} {bufsize : Nat}
    (found : state.vnodes id = some vnode) (there : state.tmpfs.nodes vnode.node = some node)
    (data : node.data = .symlink target) (positive : bufsize ≠ 0) :
    Post stop (tmpfsReadlink id bufsize) after state ↔ after (.ok (target.take (bufsize - 1))) state := by
  simp [tmpfsReadlink, positive, post_readVnode found, post_readNode there, data]

end Rules

/-- The root node of a new tmpfs. -/
def rootNode : TmpfsNode := ⟨1, vfsIfdir ||| 0x1ED, 1, .dir [] 0⟩

theorem mountedRoot_nodes :
    mountedRoot.tmpfs.nodes = Function.update (fun _ => none) 0 (some rootNode) := rfl

theorem mountedRoot_vnodes :
    mountedRoot.vnodes = Function.update (fun _ => none) 0 (some (rootNode.toVnode 0)) := rfl

/-- The directory of a vnode, with its entries and the stored count of them. -/
structure DirectoryAt (state : VfsState) (dir : VnodeId) (parent : NodeId) (entries : List TmpfsDirent)
    (count : Nat) : Prop where
  vnode : ∃ vnode, state.vnodes dir = some vnode ∧ vnode.node = parent
  node : ∃ node, state.tmpfs.nodes parent = some node ∧ node.data = .dir entries count

section Directory

variable {stop : Fault → Prop} {state : VfsState} {dir : VnodeId} {parent : NodeId}
  {entries : List TmpfsDirent} {count : Nat}

theorem DirectoryAt.post_directoryNode (directory : DirectoryAt state dir parent entries count)
    {after : Option NodeId → VfsState → Prop} :
    Post stop (directoryNode dir) after state ↔ after (some parent) state := by
  obtain ⟨vnode, found, same⟩ := directory.vnode
  obtain ⟨node, at_, data⟩ := directory.node
  subst same
  simp [directoryNode, post_readVnode found, post_readNode at_, data]

theorem DirectoryAt.post_tmpfsDirentFind (directory : DirectoryAt state dir parent entries count)
    {after : Option TmpfsDirent → VfsState → Prop} {name : Str} :
    Post stop (tmpfsDirentFind parent name) after state ↔ after (findEntry name entries) state := by
  obtain ⟨node, found, data⟩ := directory.node
  simp [tmpfsDirentFind, post_readNode found, data]

/-- A vnode is the vnode of one directory. -/
theorem DirectoryAt.entries_eq {other : NodeId} {others : List TmpfsDirent} {number : Nat}
    (first : DirectoryAt state dir parent entries count)
    (second : DirectoryAt state dir other others number) : entries = others := by
  obtain ⟨⟨vnode, found, same⟩, node, at_, data⟩ := first
  obtain ⟨⟨vnode', found', same'⟩, node', at', data'⟩ := second
  rw [found, Option.some.injEq] at found'
  subst found' same same'
  rw [at_, Option.some.injEq] at at'
  subst at'
  rw [data, TmpfsData.dir.injEq] at data'
  exact data'.1

end Directory

end Uesi.Vfs
