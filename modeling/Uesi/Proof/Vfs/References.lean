import Uesi.Proof.Vfs.Entries
import Uesi.Construction.Vfs.Lookup
import Uesi.Library.Counting

namespace Uesi.Vfs

open Library

variable {later : VnodeId → Nat} (vnode : Option Vnode)

/-- The type bits of a vnode are those of its node. -/
theorem vfsType_of_mode (mode : BitVec 32) (data : TmpfsData) :
    (mode &&& ~~~vfsIfmt ||| data.vfsType) &&& vfsIfmt = data.vfsType := by
  rw [BitVec.and_or_distrib_right, BitVec.and_assoc, BitVec.not_and_self]
  rw [show mode &&& (0 : BitVec 32) = 0#32 from BitVec.and_zero, BitVec.zero_or]
  cases data with
  | file contents => exact (by decide : vfsIfreg &&& vfsIfmt = vfsIfreg)
  | dir entries count => exact (by decide : vfsIfdir &&& vfsIfmt = vfsIfdir)
  | symlink target => exact (by decide : vfsIflnk &&& vfsIfmt = vfsIflnk)

/-- The node behind a vnode that is in use. -/
def VfsState.nodeOf (state : VfsState) (id : VnodeId) : Option NodeId := (state.vnodes id).map (·.node)

/-- The reference count of a vnode, and zero for a vnode that was freed. -/
def VfsState.refs (state : VfsState) (id : VnodeId) : Nat := (state.vnodes id).elim 0 (·.refcount)

/-- The number of dentries that hold a vnode. -/
def VfsState.cached (state : VfsState) (id : VnodeId) : Nat :=
  ∑ hash ∈ Finset.range dentryHashSize, (state.dentryHash hash).countP (·.vnode = id)

/-- The reference of the mount to its root vnode. -/
def VfsState.mounted (state : VfsState) (id : VnodeId) : Nat := if state.root = some id then 1 else 0

/-- Every vnode in use stands for a node and has one reference for each dentry that holds it, one for
the mount of which it is the root, and the references `held` by others, where the counts are numbers. -/
structure Counted (state : VfsState) (held : VnodeId → Nat) : Prop where
  unbounded : state.refcountValues = 0
  refs : ∀ id, state.refs id = state.cached id + state.mounted id + held id
  positive : ∀ id vnode, state.vnodes id = some vnode → 0 < vnode.refcount
  typed : ∀ id vnode, state.vnodes id = some vnode → ∃ node, state.tmpfs.nodes vnode.node = some node ∧
    vnode.mode &&& vfsIfmt = node.data.vfsType
  unused : ∀ id, state.freshVnode ≤ id → state.vnodes id = none

/-- The directories of a tmpfs point to nodes only. -/
def Closed (tmpfs : Tmpfs) : Prop :=
  ∀ id node entries count, tmpfs.nodes id = some node → node.data = .dir entries count →
    ∀ entry ∈ entries, ∃ target, tmpfs.nodes entry.node = some target

/-- A step that changes no node, and no vnode except for its references. -/
structure Keeps (state next : VfsState) : Prop where
  tmpfs : next.tmpfs = state.tmpfs
  root : next.root = state.root
  fresh : state.freshVnode ≤ next.freshVnode
  vnodes : ∀ id, id < state.freshVnode → next.nodeOf id = state.nodeOf id ∨ next.nodeOf id = none

theorem Keeps.refl (state : VfsState) : Keeps state state := ⟨rfl, rfl, le_rfl, fun _ _ => Or.inl rfl⟩

theorem Keeps.trans {state middle next : VfsState} (first : Keeps state middle) (second : Keeps middle next) :
    Keeps state next where
  tmpfs := second.tmpfs.trans first.tmpfs
  root := second.root.trans first.root
  fresh := first.fresh.trans second.fresh
  vnodes := by
    intro id below
    obtain same | freed := second.vnodes id (lt_of_lt_of_le below first.fresh)
    · rw [same]
      exact first.vnodes id below
    · exact Or.inr freed

section Facts

variable {state next : VfsState} {held : VnodeId → Nat} {id : VnodeId}

theorem nodeOf_some {node : NodeId} : state.nodeOf id = some node ↔
    ∃ vnode, state.vnodes id = some vnode ∧ vnode.node = node := by
  simp [VfsState.nodeOf]

/-- A vnode with a reference is in use. -/
theorem Counted.exists_of_refs (counted : Counted state held) (id : VnodeId)
    (referenced : 0 < state.cached id + state.mounted id + held id) :
    ∃ vnode, state.vnodes id = some vnode := by
  rw [← counted.refs id, VfsState.refs] at referenced
  cases found : state.vnodes id with
  | none =>
      rw [found] at referenced
      exact absurd referenced (Nat.lt_irrefl 0)
  | some vnode => exact ⟨vnode, rfl⟩

theorem Counted.lt_fresh (counted : Counted state held) {vnode : Vnode}
    (found : state.vnodes id = some vnode) : id < state.freshVnode := by
  by_contra fresh
  rw [counted.unused id (Nat.le_of_not_lt fresh)] at found
  exact absurd found (by simp)

/-- A vnode that is still referenced after a step stands for the same node. -/
theorem Keeps.nodeOf_eq (keeps : Keeps state next) (counted : Counted state held) (after : Counted next later)
    {node : NodeId} (before : state.nodeOf id = some node)
    (referenced : 0 < next.cached id + next.mounted id + later id) : next.nodeOf id = some node := by
  obtain ⟨vnode, found, _⟩ := nodeOf_some.mp before
  obtain ⟨vnode', found'⟩ := after.exists_of_refs id referenced
  obtain same | freed := keeps.vnodes id (counted.lt_fresh found)
  · rw [same, before]
  · rw [VfsState.nodeOf, found'] at freed
    exact absurd freed (by simp)

end Facts

section Primitives

variable {stop : Fault → Prop} {state : VfsState} {held : VnodeId → Nat} {id : VnodeId}

@[simp] theorem setVnode_cached (other : VnodeId) :
    (state.setVnode id vnode).cached other = state.cached other := rfl

@[simp] theorem setVnode_mounted (other : VnodeId) :
    (state.setVnode id vnode).mounted other = state.mounted other := rfl

theorem setVnode_refs_of_ne {other : VnodeId} (differs : other ≠ id) :
    (state.setVnode id vnode).refs other = state.refs other := by
  simp [VfsState.refs, Function.update_of_ne differs]

theorem setVnode_nodeOf_of_ne {other : VnodeId} (differs : other ≠ id) :
    (state.setVnode id vnode).nodeOf other = state.nodeOf other := by
  simp [VfsState.nodeOf, Function.update_of_ne differs]

/-- A vnode may be stored or freed at an address when its reference count fits. -/
theorem Counted.store (counted : Counted state held) {stored : Option Vnode} (below : id < state.freshVnode)
    (self : stored.elim 0 (·.refcount) = state.cached id + state.mounted id + later id)
    (others : ∀ other, other ≠ id → later other = held other)
    (good : ∀ vnode, stored = some vnode → 0 < vnode.refcount ∧ ∃ node,
      state.tmpfs.nodes vnode.node = some node ∧ vnode.mode &&& vfsIfmt = node.data.vfsType) :
    Counted (state.setVnode id stored) later where
  unbounded := counted.unbounded
  refs := by
    intro other
    rw [setVnode_cached, setVnode_mounted]
    by_cases same : other = id
    · subst same
      rw [VfsState.refs, VfsState.setVnode_vnodes, Function.update_self]
      exact self
    · rw [setVnode_refs_of_ne _ same, others other same]
      exact counted.refs other
  positive := by
    intro other vnode live
    by_cases same : other = id
    · subst same
      exact (good vnode (by simpa using live)).1
    · rw [VfsState.setVnode_vnodes, Function.update_of_ne same] at live
      exact counted.positive other vnode live
  typed := by
    intro other vnode live
    by_cases same : other = id
    · subst same
      exact (good vnode (by simpa using live)).2
    · rw [VfsState.setVnode_vnodes, Function.update_of_ne same] at live
      exact counted.typed other vnode live
  unused := by
    intro other above
    have differs : other ≠ id := fun same => absurd (same ▸ below) (Nat.not_lt.mpr above)
    rw [VfsState.setVnode_vnodes, Function.update_of_ne differs]
    exact counted.unused other above

/-- Another reference count in a vnode keeps the node behind it. -/
theorem keeps_setRefcount {vnode : Vnode} (count : Nat) (found : state.vnodes id = some vnode) :
    Keeps state (state.setVnode id (some { vnode with refcount := count })) where
  tmpfs := rfl
  root := rfl
  fresh := le_rfl
  vnodes := by
    intro other _
    left
    by_cases same : other = id
    · subst same
      simp [VfsState.nodeOf, found]
    · exact setVnode_nodeOf_of_ne _ same

theorem Counted.setRefcount (counted : Counted state held) {vnode : Vnode} {count : Nat}
    (found : state.vnodes id = some vnode) (positive : 0 < count)
    (self : count = state.cached id + state.mounted id + later id)
    (others : ∀ other, other ≠ id → later other = held other) :
    Counted (state.setVnode id (some { vnode with refcount := count })) later := by
  refine counted.store (counted.lt_fresh found) ?_ others ?_
  · exact self
  · intro stored same
    cases same
    exact ⟨positive, counted.typed id vnode found⟩

/-- `vfs_vnode_ref` takes a reference. -/
theorem Counted.vfsVnodeRef (counted : Counted state held) {vnode : Vnode}
    (found : state.vnodes id = some vnode) :
    Post stop (vfsVnodeRef id) (fun _ next => Counted next (held + Pi.single id 1) ∧ Keeps state next ∧
      next.dentryHash = state.dentryHash) state := by
  have count : vnode.refcount = state.cached id + state.mounted id + held id := by
    rw [← counted.refs id, VfsState.refs, found]
    rfl
  have number : (vnode.refcount + 1) % state.refcountValues = vnode.refcount + 1 := by
    rw [counted.unbounded, Nat.mod_zero]
  simp only [Vfs.vfsVnodeRef, post_bind, post_readVnode found, post_get, number, bne_self_eq_false, Bool.or_false,
    post_modify, post_writeVnode]
  refine ⟨counted.setRefcount found (Nat.succ_pos _) ?_ ?_, keeps_setRefcount _ found, rfl⟩
  · rw [Pi.add_apply, Pi.single_eq_same]
    omega
  · intro other differs
    rw [Pi.add_apply, Pi.single_eq_of_ne differs, add_zero]

/-- `vfs_vnode_unref` gives a reference back and frees the vnode with its last reference. -/
theorem Counted.vfsVnodeUnref (counted : Counted state (held + Pi.single id 1)) :
    Post stop (vfsVnodeUnref id) (fun _ next => Counted next held ∧ Keeps state next ∧
      next.dentryHash = state.dentryHash) state := by
  have own : (held + Pi.single id 1 : VnodeId → Nat) id = held id + 1 := by
    rw [Pi.add_apply, Pi.single_eq_same]
  have others (other : VnodeId) (differs : other ≠ id) :
      held other = (held + Pi.single id 1 : VnodeId → Nat) other := by
    rw [Pi.add_apply, Pi.single_eq_of_ne differs, add_zero]
  obtain ⟨vnode, found⟩ := counted.exists_of_refs id (by omega)
  have count : vnode.refcount = state.cached id + state.mounted id + held id + 1 := by
    have total := counted.refs id
    rw [VfsState.refs, found] at total
    exact total.trans (by omega)
  have nonzero : vnode.refcount ≠ 0 := by omega
  simp only [Vfs.vfsVnodeUnref, post_bind, post_readVnode found, nonzero, if_false]
  by_cases last : vnode.refcount - 1 = 0
  · simp only [last, if_true, post_writeVnode]
    refine ⟨counted.store (counted.lt_fresh found) ?_ others (by simp), ⟨rfl, rfl, le_rfl, ?_⟩, rfl⟩
    · change 0 = _
      omega
    · intro other _
      by_cases same : other = id
      · subst same
        right
        simp [VfsState.nodeOf]
      · exact Or.inl (setVnode_nodeOf_of_ne _ same)
  · simp only [last, if_false, post_writeVnode]
    exact ⟨counted.setRefcount found (by omega) (by omega) others, keeps_setRefcount _ found, rfl⟩

/-- `tmpfs_node_to_vnode` returns a new vnode of the node with one reference. -/
theorem Counted.tmpfsNodeToVnode (counted : Counted state held) {target : NodeId} {node : TmpfsNode}
    (found : state.tmpfs.nodes target = some node) :
    Post stop (tmpfsNodeToVnode target) (fun id next => Counted next (held + Pi.single id 1) ∧
      Keeps state next ∧ next.dentryHash = state.dentryHash ∧ next.nodeOf id = some target) state := by
  rw [post_tmpfsNodeToVnode found]
  have fresh := counted.unused state.freshVnode le_rfl
  have none := counted.refs state.freshVnode
  rw [VfsState.refs, fresh] at none
  change 0 = _ at none
  have reserved : Counted { state with freshVnode := state.freshVnode + 1 } held :=
    ⟨counted.unbounded, counted.refs, counted.positive, counted.typed,
      fun other above => counted.unused other (Nat.le_of_succ_le above)⟩
  refine ⟨reserved.store (Nat.lt_succ_self _) ?_ ?_ ?_, ⟨rfl, rfl, Nat.le_succ _, ?_⟩, rfl, ?_⟩
  · rw [Pi.add_apply, Pi.single_eq_same]
    change 1 = state.cached state.freshVnode + state.mounted state.freshVnode + _
    omega
  · intro other differs
    rw [Pi.add_apply, Pi.single_eq_of_ne differs, add_zero]
  · intro vnode same
    cases same
    exact ⟨Nat.one_pos, node, found, vfsType_of_mode _ _⟩
  · intro other below
    exact Or.inl (setVnode_nodeOf_of_ne _ below.ne)
  · simp [VfsState.nodeOf, TmpfsNode.toVnode]

end Primitives

section Cache

variable {stop : Fault → Prop} {state : VfsState} {held : VnodeId → Nat} {id : VnodeId}

theorem dentryHashFunc_lt (path : Str) : dentryHashFunc path < dentryHashSize :=
  Nat.mod_lt _ (by decide)

/-- The state with another chain of the dentry cache. -/
def VfsState.setChain (state : VfsState) (hash : Nat) (chain : List Dentry) : VfsState :=
  { state with dentryHash := Function.update state.dentryHash hash chain }

@[simp] theorem VfsState.setChain_dentryHash (hash : Nat) (chain : List Dentry) :
    (state.setChain hash chain).dentryHash = Function.update state.dentryHash hash chain := rfl

@[simp] theorem post_writeChain {after : Unit → VfsState → Prop} {hash : Nat} {chain : List Dentry} :
    Post stop (writeChain hash chain) after state ↔ after () (state.setChain hash chain) := Iff.rfl

/-- Another chain changes the number of the dentries of a vnode by the difference of the chains. -/
theorem setChain_cached (state : VfsState) {hash : Nat} (inside : hash < dentryHashSize)
    (chain : List Dentry) (id : VnodeId) :
    (state.setChain hash chain).cached id + (state.dentryHash hash).countP (·.vnode = id) =
      state.cached id + chain.countP (·.vnode = id) := by
  have changed := sum_range_update (fun chain => chain.countP (·.vnode = id)) state.dentryHash inside chain
  simp only [VfsState.cached, VfsState.setChain_dentryHash]
  exact changed

/-- `vfs_dentry_add` takes a reference for the new dentry. -/
theorem Counted.vfsDentryAdd (counted : Counted state held) {vnode : Vnode} {path : Str}
    (found : state.vnodes id = some vnode) :
    Post stop (vfsDentryAdd path id) (fun _ next => Counted next held ∧ Keeps state next ∧
      next.dentryHash = Function.update state.dentryHash (dentryHashFunc path)
        (⟨path, id⟩ :: state.dentryHash (dentryHashFunc path))) state := by
  unfold Vfs.vfsDentryAdd
  apply (counted.vfsVnodeRef found).seq
  rintro _ next ⟨taken, keeps, chains⟩
  simp only [post_bind, post_get, post_writeChain]
  refine ⟨⟨taken.unbounded, ?_, taken.positive, taken.typed, taken.unused⟩,
    keeps.trans ⟨rfl, rfl, le_rfl, fun _ _ => Or.inl rfl⟩, by rw [VfsState.setChain_dentryHash, chains]⟩
  intro other
  have total := taken.refs other
  have change := setChain_cached next (dentryHashFunc_lt path)
    (⟨path, id⟩ :: next.dentryHash (dentryHashFunc path)) other
  change next.refs other = _ + next.mounted other + _
  by_cases same : other = id
  · subst same
    rw [Pi.add_apply, Pi.single_eq_same] at total
    simp only [List.countP_cons, decide_true, if_true] at change
    omega
  · rw [Pi.add_apply, Pi.single_eq_of_ne same] at total
    simp only [List.countP_cons, Ne.symm same, decide_false, Bool.false_eq_true, if_false] at change
    omega

end Cache

end Uesi.Vfs
