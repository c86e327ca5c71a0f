import Uesi.Proof.Vfs.Tree

namespace Uesi.Vfs

open Library

/-- The directory of a vnode holds the entries: they have distinct names and point to nodes whose link
counts exceed the number of entries, and addresses that were never given out are free. -/
structure Represents (state : VfsState) (dir : VnodeId) (parent : NodeId) (entries : List TmpfsDirent) :
    Prop where
  directory : DirectoryAt state dir parent entries entries.length
  distinct : (entries.map (·.name)).Nodup
  few : entries.length < 2 ^ 31
  apart : ∀ entry ∈ entries, entry.node ≠ parent
  live : ∀ entry ∈ entries, ∃ node, state.tmpfs.nodes entry.node = some node
  links : ∀ id node, state.tmpfs.nodes id = some node →
    entries.countP (·.node = id) < node.nlink ∧ node.nlink ≤ 2 ^ 31 + entries.countP (·.node = id)
  unusedNodes : ∀ id, state.tmpfs.freshNode ≤ id → state.tmpfs.nodes id = none
  unusedVnodes : ∀ id, state.freshVnode ≤ id → state.vnodes id = none

section Steps

variable {state : VfsState} {dir : VnodeId} {parent : NodeId} {entries : List TmpfsDirent}

variable (represents : Represents state dir parent entries)

include represents

theorem Represents.parent_lt : parent < state.tmpfs.freshNode := by
  obtain ⟨node, found, _⟩ := represents.directory.node
  by_contra fresh
  rw [represents.unusedNodes parent (Nat.le_of_not_lt fresh)] at found
  exact absurd found (by simp)

theorem Represents.dir_lt : dir < state.freshVnode := by
  obtain ⟨vnode, found, _⟩ := represents.directory.vnode
  by_contra fresh
  rw [represents.unusedVnodes dir (Nat.le_of_not_lt fresh)] at found
  exact absurd found (by simp)

theorem Represents.entry_lt {entry : TmpfsDirent} (member : entry ∈ entries) :
    entry.node < state.tmpfs.freshNode := by
  obtain ⟨node, found⟩ := represents.live entry member
  by_contra fresh
  rw [represents.unusedNodes entry.node (Nat.le_of_not_lt fresh)] at found
  exact absurd found (by simp)

theorem Represents.kind : state.tmpfs.dataOf parent = some (.dir entries entries.length) :=
  Option.map_eq_some_iff.mpr represents.directory.node

/-- A node without an entry may be stored with one link or freed. -/
theorem Represents.setNode {next : VfsState} {id : NodeId} {stored : Option TmpfsNode}
    (nodes : next.tmpfs.nodes = Function.update state.tmpfs.nodes id stored)
    (only : next = { state with tmpfs := next.tmpfs }) (fresh : state.tmpfs.freshNode ≤ next.tmpfs.freshNode)
    (below : id < next.tmpfs.freshNode) (other : parent ≠ id) (unlinked : ∀ entry ∈ entries, entry.node ≠ id)
    (one : ∀ node ∈ stored, node.nlink = 1) : Represents next dir parent entries where
  directory := by
    obtain ⟨parentNode, found, data⟩ := represents.directory.node
    refine ⟨?_, parentNode, by rw [nodes, Function.update_of_ne other, found], data⟩
    rw [only]
    exact represents.directory.vnode
  distinct := represents.distinct
  few := represents.few
  apart := represents.apart
  live := by
    intro entry member
    obtain ⟨target, found⟩ := represents.live entry member
    exact ⟨target, by rw [nodes, Function.update_of_ne (unlinked entry member), found]⟩
  links := by
    intro node target found
    rw [nodes] at found
    by_cases same : node = id
    · subst same
      have none : entries.countP (·.node = node) = 0 := by simpa [List.countP_eq_zero] using unlinked
      rw [Function.update_self] at found
      have single := one target found
      omega
    · rw [Function.update_of_ne same] at found
      exact represents.links node target found
  unusedNodes := by
    intro node above
    rw [nodes, Function.update_of_ne (lt_of_lt_of_le below above).ne']
    exact represents.unusedNodes node (fresh.trans above)
  unusedVnodes := by
    rw [only]
    exact represents.unusedVnodes

/-- A new vnode does not touch the directory. -/
theorem Represents.allocVnode (vnode : Vnode) :
    Represents (({ state with freshVnode := state.freshVnode + 1 } : VfsState).setVnode
      state.freshVnode (some vnode)) dir parent entries where
  directory := by
    obtain ⟨dirVnode, found, same⟩ := represents.directory.vnode
    refine ⟨⟨dirVnode, ?_, same⟩, represents.directory.node⟩
    simpa [Function.update_of_ne represents.dir_lt.ne] using found
  distinct := represents.distinct
  few := represents.few
  apart := represents.apart
  live := represents.live
  links := represents.links
  unusedNodes := represents.unusedNodes
  unusedVnodes := by
    intro id above
    have later : state.freshVnode < id := above
    rw [VfsState.setVnode_vnodes, Function.update_of_ne later.ne']
    exact represents.unusedVnodes id later.le

/-- Other entries and another link count keep the directory in order when they fit together. -/
theorem Represents.rebinds {next : VfsState} {changed : List TmpfsDirent} {id : NodeId} {old nlink : Nat}
    (rebinds : Rebinds state next parent changed changed.length id nlink) (found : state.tmpfs.nlinkOf id = some old)
    (other : id ≠ parent) (distinct : (changed.map (·.name)).Nodup) (few : changed.length < 2 ^ 31)
    (kept : ∀ entry ∈ changed, entry.node = id ∨ entry ∈ entries)
    (links : changed.countP (·.node = id) < nlink ∧ nlink ≤ 2 ^ 31 + changed.countP (·.node = id))
    (same : ∀ node, node ≠ id → changed.countP (·.node = node) = entries.countP (·.node = node)) :
    Represents next dir parent changed where
  directory := by
    refine ⟨?_, Option.map_eq_some_iff.mp (by rw [← Tmpfs.dataOf, rebinds.data, Function.update_self])⟩
    rw [rebinds.only]
    exact represents.directory.vnode
  distinct := distinct
  few := few
  apart := by
    intro entry member
    obtain equal | earlier := kept entry member
    · exact equal ▸ other
    · exact represents.apart entry earlier
  live := by
    intro entry member
    obtain ⟨count, linked⟩ : ∃ count, next.tmpfs.nlinkOf entry.node = some count := by
      rw [rebinds.nlink]
      by_cases equal : entry.node = id
      · exact ⟨nlink, by rw [equal, Function.update_self]⟩
      · obtain ⟨node, live⟩ := represents.live entry ((kept entry member).resolve_left equal)
        exact ⟨node.nlink, by rw [Function.update_of_ne equal, Tmpfs.nlinkOf, live]; rfl⟩
    obtain ⟨node, live, _⟩ := Option.map_eq_some_iff.mp linked
    exact ⟨node, live⟩
  links := by
    intro node stored live
    have linked : next.tmpfs.nlinkOf node = some stored.nlink := by rw [Tmpfs.nlinkOf, live]; rfl
    rw [rebinds.nlink] at linked
    by_cases equal : node = id
    · subst equal
      rw [Function.update_self, Option.some.injEq] at linked
      exact linked ▸ links
    · rw [Function.update_of_ne equal] at linked
      obtain ⟨before, was, count⟩ := Option.map_eq_some_iff.mp linked
      rw [same node equal, ← count]
      exact represents.links node before was
  unusedNodes := by
    intro node above
    rw [rebinds.fresh] at above
    have free := represents.unusedNodes node above
    have differs : node ≠ id := by
      rintro rfl
      rw [Tmpfs.nlinkOf, free] at found
      exact absurd found (by simp)
    have none : next.tmpfs.nlinkOf node = none := by
      rw [rebinds.nlink, Function.update_of_ne differs, Tmpfs.nlinkOf, free]
      rfl
    exact Option.map_eq_none_iff.mp none
  unusedVnodes := by
    rw [rebinds.only]
    exact represents.unusedVnodes

end Steps

section Calls

variable {stop : Fault → Prop} {state : VfsState} {dir : VnodeId} {parent : NodeId}
  {entries : List TmpfsDirent} {name : Str}

variable (represents : Represents state dir parent entries)

include represents

/-- `tmpfs_dirent_add` refuses a name that is taken and else adds the entry. -/
theorem Represents.tmpfsDirentAdd {id : NodeId} {target : TmpfsNode} (found : state.tmpfs.nodes id = some target)
    (other : id ≠ parent) (room : entries.length + 1 < 2 ^ 31) :
    Post stop (tmpfsDirentAdd parent name id) (fun answer next => match answer with
      | .ok () => Represents next dir parent (⟨name, id⟩ :: entries)
      | .error _ => next = state) state := by
  have linked : state.tmpfs.nlinkOf id = some target.nlink := by rw [Tmpfs.nlinkOf, found]; rfl
  apply (post_tmpfsDirentAdd represents.kind linked).mono
  intro answer next result
  split at result
  · obtain ⟨rfl, rfl⟩ := result
    rfl
  · rename_i free
    obtain ⟨rfl, rebinds⟩ := result
    have absent := findEntry_none.mp (by simpa using free)
    have atMost : entries.countP (·.node = id) ≤ entries.length := List.countP_le_length
    obtain ⟨more, bound⟩ := represents.links id target found
    have count : (entries.length + 1) % 2 ^ 32 = (⟨name, id⟩ :: entries : List TmpfsDirent).length := by
      rw [List.length_cons, Nat.mod_eq_of_lt (by omega)]
    rw [count, Nat.mod_eq_of_lt (by omega)] at rebinds
    apply represents.rebinds rebinds linked other
    · rw [List.map_cons, List.nodup_cons]
      exact ⟨absent, represents.distinct⟩
    · exact room
    · intro entry member
      obtain rfl | earlier := List.mem_cons.mp member
      · exact Or.inl rfl
      · exact Or.inr earlier
    · simp only [List.countP_cons, decide_true, if_true]
      omega
    · intro node differs
      simp [Ne.symm differs]

/-- `tmpfs_dirent_remove` removes the entry with the name and frees no node. -/
theorem Represents.tmpfsDirentRemove :
    Post stop (tmpfsDirentRemove parent name) (fun answer next => match answer with
      | .ok () => ∃ entry rest, unlinkEntry name entries = some (entry, rest) ∧
          Represents next dir parent rest
      | .error _ => next = state) state := by
  cases search : unlinkEntry name entries with
  | none =>
      rw [post_tmpfsDirentRemove_none represents.kind search]
  | some found =>
      obtain ⟨entry, rest⟩ := found
      obtain ⟨_, front, back, split, joined⟩ := unlinkNamed_some search
      have member : entry ∈ entries := by simp [split]
      obtain ⟨target, live⟩ := represents.live entry member
      have linked : state.tmpfs.nlinkOf entry.node = some target.nlink := by rw [Tmpfs.nlinkOf, live]; rfl
      obtain ⟨more, bound⟩ := represents.links entry.node target live
      have one : entries.countP (·.node = entry.node) = rest.countP (·.node = entry.node) + 1 := by
        rw [split, joined]
        simp [List.countP_append]
        omega
      have few := represents.few
      have shorter : entries.length = rest.length + 1 := by
        rw [split, joined]
        simp
        omega
      have atMost : rest.countP (·.node = entry.node) ≤ rest.length := List.countP_le_length
      have count : (entries.length + 2 ^ 32 - 1) % 2 ^ 32 = rest.length := by omega
      have nlink : (target.nlink + 2 ^ 32 - 1) % 2 ^ 32 = target.nlink - 1 := by omega
      apply (post_tmpfsDirentRemove_some represents.kind search linked nlink (by omega)).mono
      rintro answer next ⟨rfl, rebinds⟩
      refine ⟨entry, rest, rfl, ?_⟩
      rw [count] at rebinds
      apply represents.rebinds rebinds linked (represents.apart entry member)
      · exact represents.distinct.sublist ((unlinkEntry_sublist search).map _)
      · omega
      · intro other inside
        exact Or.inr ((unlinkEntry_sublist search).subset inside)
      · omega
      · intro node differs
        rw [split, joined]
        simp [List.countP_append, Ne.symm differs]

/-- `tmpfs_create`, `tmpfs_mkdir` and `tmpfs_symlink` bind the name to the new node. -/
theorem Represents.tmpfsAddNew {data : TmpfsData} {mode : BitVec 32} (room : entries.length + 1 < 2 ^ 31) :
    Post stop (tmpfsAddNew dir name data mode) (fun answer next => match answer with
      | .ok node => node = state.tmpfs.freshNode ∧ Represents next dir parent (⟨name, node⟩ :: entries)
      | .error _ => Represents next dir parent entries) state := by
  simp only [Vfs.tmpfsAddNew, post_bind, represents.directory.post_directoryNode, post_tmpfsNodeAlloc]
  set allocated : VfsState := ({ state with tmpfs := { state.tmpfs with
    freshNode := state.tmpfs.freshNode + 1
    nextIno := (state.tmpfs.nextIno + 1) % 2 ^ 64 } } : VfsState).setNode state.tmpfs.freshNode
      (some ⟨state.tmpfs.nextIno, mode, 1, data⟩) with allocatedEq
  have unlinked (entry : TmpfsDirent) (member : entry ∈ entries) : entry.node ≠ state.tmpfs.freshNode :=
    (represents.entry_lt member).ne
  have grown : Represents allocated dir parent entries := by
    refine represents.setNode (VfsState.setNode_nodes _ _ _) rfl (Nat.le_succ _)
      (Nat.lt_succ_self _) represents.parent_lt.ne unlinked ?_
    rintro node ⟨⟩
    rfl
  have stored : allocated.tmpfs.nodes state.tmpfs.freshNode = some ⟨state.tmpfs.nextIno, mode, 1, data⟩ :=
    Function.update_self ..
  apply (grown.tmpfsDirentAdd stored represents.parent_lt.ne' room).mono
  intro answer next outcome
  cases answer with
  | ok value => exact ⟨rfl, outcome⟩
  | error code =>
      simp only [tmpfsNodeFree, post_bind, post_writeNode, post_pure]
      rw [outcome]
      exact grown.setNode (VfsState.setNode_nodes _ _ _) rfl le_rfl (Nat.lt_succ_self _) represents.parent_lt.ne unlinked
        (by simp)

end Calls

/-- The calls on one directory. -/
inductive DirOp where
  | create (name : Str) (mode : BitVec 32)
  | mkdir (name : Str) (mode : BitVec 32)
  | symlink (name target : Str)
  | link (name : Str) (target : VnodeId)
  | unlink (name : Str)
  | rmdir (name : Str)

def DirOp.name : DirOp → Str
  | .create name _ => name
  | .mkdir name _ => name
  | .symlink name _ => name
  | .link name _ => name
  | .unlink name => name
  | .rmdir name => name

/-- The node that a call binds to its name, and none for a call that removes a name. -/
def DirOp.node (state : VfsState) : DirOp → Option NodeId
  | .link _ target => (state.vnodes target).map (·.node)
  | .unlink _ => none
  | .rmdir _ => none
  | _ => some state.tmpfs.freshNode

/-- A call on the directory, with the node that it is about and its return code. -/
def dirCall (dir : VnodeId) (op : DirOp) : Exec (Option NodeId × Except Errno Unit) := do
  let node := op.node (← get)
  let answer ← match op with
    | .create name mode => (fun created => created.map fun _ => ()) <$> tmpfsCreate dir name mode
    | .mkdir name mode => tmpfsMkdir dir name mode
    | .symlink name target => tmpfsSymlink dir name target
    | .link name target => tmpfsLink dir name target
    | .unlink name => tmpfsUnlink dir name
    | .rmdir name => tmpfsRmdir dir name
  return (node, answer)

def DirOp.adds : DirOp → Bool
  | .unlink _ | .rmdir _ => false
  | _ => true

/-- The directory has room below the bound for an entry that is added, and a link is to a node. -/
structure ValidDirOp (dir : VnodeId) (state : VfsState) (op : DirOp) : Prop where
  room : op.adds = true → ∀ parent entries count, DirectoryAt state dir parent entries count →
    entries.length + 1 < 2 ^ 31
  target : ∀ name target, op = .link name target → ∃ vnode node,
    state.vnodes target = some vnode ∧ state.tmpfs.nodes vnode.node = some node

/-- A map from names to nodes after a call: a call that succeeds binds or removes its name. -/
def recordBinding (map : Str → Option NodeId) : DirOp × Option NodeId × Except Errno Unit → Str → Option NodeId
  | (op, node, .ok ()) => Function.update map op.name node
  | (_, _, .error _) => map

/-- The node most recently bound to each name and not since removed. -/
def lastBinding (events : List (DirOp × Option NodeId × Except Errno Unit)) : Str → Option NodeId :=
  events.foldl recordBinding fun _ => none

section Run

variable {stop : Fault → Prop} {state : VfsState} {dir : VnodeId} {parent : NodeId}
  {entries : List TmpfsDirent}

variable (represents : Represents state dir parent entries)

include represents

/-- A call that adds a new node binds its name to the node, or fails and changes no binding. -/
theorem Represents.recordNew (op : DirOp) {data : TmpfsData} {mode : BitVec 32} (room : entries.length + 1 < 2 ^ 31) :
    Post stop (Vfs.tmpfsAddNew dir op.name data mode) (fun answer next =>
      (∃ changed, Represents next dir parent changed ∧ bindings changed =
        recordBinding (bindings entries) (op, some state.tmpfs.freshNode, answer.map fun _ => ())) ∧
      ∀ node, answer = .ok node → ∃ stored, next.tmpfs.nodes node = some stored) state := by
  apply (represents.tmpfsAddNew room).mono
  intro answer next outcome
  cases answer with
  | error code => exact ⟨⟨entries, outcome, rfl⟩, by simp⟩
  | ok node =>
      obtain ⟨rfl, added⟩ := outcome
      refine ⟨⟨_, added, bindings_cons _ _ _⟩, ?_⟩
      intro node same
      cases same
      exact added.live _ List.mem_cons_self

/-- A call that removes an entry removes the binding of its name, or fails and changes nothing. -/
theorem Represents.recordRemoved (op : DirOp) :
    Post stop (Vfs.tmpfsDirentRemove parent op.name) (fun answer next =>
      ∃ changed, Represents next dir parent changed ∧
        bindings changed = recordBinding (bindings entries) (op, none, answer)) state := by
  apply represents.tmpfsDirentRemove.mono
  intro answer next outcome
  cases answer with
  | error code => exact ⟨entries, outcome ▸ represents, rfl⟩
  | ok value =>
      obtain ⟨entry, rest, found, smaller⟩ := outcome
      exact ⟨rest, smaller, bindings_unlink represents.distinct found⟩

/-- A link to a node that is no directory binds the name to the node. -/
theorem Represents.recordLink (op : DirOp) {id : NodeId} {node : TmpfsNode} (live : state.tmpfs.nodes id = some node)
    (plain : ∀ inner count, node.data ≠ .dir inner count) (room : entries.length + 1 < 2 ^ 31) :
    Post stop (Vfs.tmpfsDirentAdd parent op.name id) (fun answer next =>
      ∃ changed, Represents next dir parent changed ∧
        bindings changed = recordBinding (bindings entries) (op, some id, answer)) state := by
  have apart : id ≠ parent := by
    rintro rfl
    obtain ⟨parentNode, at_, data⟩ := represents.directory.node
    rw [at_] at live
    exact plain _ _ (Option.some.inj live ▸ data)
  apply (represents.tmpfsDirentAdd live apart room).mono
  intro answer next outcome
  cases answer with
  | error code => exact ⟨entries, outcome ▸ represents, rfl⟩
  | ok value => exact ⟨_, outcome, bindings_cons _ _ _⟩

/-- Each call changes the entries as the map says. -/
theorem Represents.dirCall {op : DirOp} (valid : ValidDirOp dir state op) :
    Post stop (dirCall dir op) (fun answer next => ∃ changed, Represents next dir parent changed ∧
      bindings changed = recordBinding (bindings entries) (op, answer)) state := by
  have room (adds : op.adds = true) := valid.room adds parent entries _ represents.directory
  have refused (node : Option NodeId) (code : Errno) : ∃ changed, Represents state dir parent changed ∧
      bindings changed = recordBinding (bindings entries) (op, node, .error code) :=
    ⟨entries, represents, rfl⟩
  cases op with
  | create name mode =>
      simp only [Vfs.dirCall, tmpfsCreate, post_bind, post_get, post_map]
      apply (represents.recordNew (.create name mode) (room rfl)).mono
      rintro (code | node) next ⟨changed, live⟩
      · exact changed
      · obtain ⟨entries, added, bound⟩ := changed
        obtain ⟨stored, found⟩ := live node rfl
        simp only [post_bind, post_tmpfsNodeToVnode found, post_pure]
        exact ⟨entries, added.allocVnode _, bound⟩
  | mkdir name mode =>
      simp only [Vfs.dirCall, tmpfsMkdir, post_bind, post_get]
      exact (represents.recordNew (.mkdir name mode) (room rfl)).mono fun _ _ outcome => outcome.1
  | symlink name target =>
      simp only [Vfs.dirCall, tmpfsSymlink, post_bind, post_get]
      exact (represents.recordNew (.symlink name target) (room rfl)).mono fun _ _ outcome => outcome.1
  | link name target =>
      obtain ⟨vnode, node, found, live⟩ := valid.target name target rfl
      simp only [Vfs.dirCall, DirOp.node, tmpfsLink, post_bind, post_get, post_readVnode found,
        represents.directory.post_directoryNode, post_readNode live, found]
      cases kind : node.data with
      | dir inner count => exact refused (some vnode.node) .eperm
      | file contents => exact represents.recordLink (.link name target) live (by simp [kind]) (room rfl)
      | symlink text => exact represents.recordLink (.link name target) live (by simp [kind]) (room rfl)
  | unlink name =>
      simp only [Vfs.dirCall, tmpfsUnlink, post_bind, post_get, represents.directory.post_directoryNode]
      exact represents.recordRemoved (.unlink name)
  | rmdir name =>
      simp only [Vfs.dirCall, tmpfsRmdir, post_bind, post_get,
        represents.directory.post_directoryNode, represents.directory.post_tmpfsDirentFind]
      cases search : findEntry name entries with
      | none => exact refused none .enoent
      | some entry =>
          obtain ⟨node, live⟩ := represents.live entry (findEntry_some search).1
          simp only [post_bind, post_readNode live]
          cases node.data with
          | file contents => exact refused none .enotdir
          | symlink text => exact refused none .enotdir
          | dir inner count =>
              by_cases filled : 0 < count
              · simp only [filled, if_true]
                exact refused none .enotempty
              · simp only [filled, if_false]
                exact represents.recordRemoved (.rmdir name)

/-- `tmpfs_lookup` returns a vnode of the node that the name is bound to. -/
theorem Represents.tmpfsLookup (name : Str) :
    Post stop (tmpfsLookup dir name) (fun answer next => match bindings entries name with
      | some node => ∃ id vnode, answer = .ok id ∧ next.vnodes id = some vnode ∧ vnode.node = node
      | none => answer = .error .enoent) state := by
  simp only [Vfs.tmpfsLookup, post_bind, represents.directory.post_directoryNode,
    represents.directory.post_tmpfsDirentFind, bindings]
  cases search : findEntry name entries with
  | none => simp
  | some entry =>
      obtain ⟨node, live⟩ := represents.live entry (findEntry_some search).1
      simp only [post_bind, post_tmpfsNodeToVnode live, post_pure, Option.map_some]
      exact ⟨_, _, rfl, Function.update_self .., rfl⟩

end Run

/-- Repeated calls of `tmpfs_readdir`, with the records and the code that ends them. -/
def readDirectory (dir : VnodeId) : Nat → Int → Exec (List VfsDirent × Option Errno)
  | 0, _ => return ([], none)
  | fuel + 1, offset => do
      match ← tmpfsReaddir dir offset with
      | .error code => return ([], some code)
      | .ok (record, next) =>
          let (records, code) ← readDirectory dir fuel next
          return (record :: records, code)

/-- A record shows an entry with the number of its node, and its name when it fits. -/
def Shows (state : VfsState) (entry : TmpfsDirent) (record : VfsDirent) : Prop :=
  (entry.name.length < vfsMaxName → record.name = entry.name) ∧
    (state.tmpfs.nodes entry.node).map (·.ino) = some record.ino

/-- From an offset on the records show the entries in their order, each once. -/
theorem Represents.readDirectory {stop : Fault → Prop} {state : VfsState} {dir : VnodeId} {parent : NodeId}
    {entries : List TmpfsDirent} (represents : Represents state dir parent entries) (fuel start : Nat)
    (inside : start ≤ entries.length) (enough : entries.length < start + fuel) :
    Post stop (readDirectory dir fuel start) (fun answer next => next = state ∧
      answer.2 = some .enoent ∧ List.Forall₂ (Shows state) (entries.drop start) answer.1) state := by
  obtain ⟨dirVnode, found, same⟩ := represents.directory.vnode
  obtain ⟨parentNode, at_, data⟩ := represents.directory.node
  subst same
  induction fuel generalizing start with
  | zero => omega
  | succ fuel ih =>
      simp only [Vfs.readDirectory, tmpfsReaddir, post_bind, post_readVnode found, post_readNode at_, data,
        Int.toNat_natCast]
      cases rest : entries.drop start with
      | nil => simp
      | cons entry later =>
          have next : entries.drop (start + 1) = later := by
            rw [← List.drop_drop, rest]
            rfl
          have more : start < entries.length := by
            by_contra past
            rw [List.drop_eq_nil_of_le (Nat.le_of_not_lt past)] at rest
            exact absurd rest (by simp)
          have member : entry ∈ entries := List.mem_of_mem_drop (rest ▸ List.mem_cons_self)
          obtain ⟨node, live⟩ := represents.live entry member
          simp only [post_bind, post_readNode live, post_pure]
          apply (ih (start + 1) more (by omega)).mono
          rintro ⟨records, code⟩ final ⟨unchanged, ended, shown⟩
          rw [next] at shown
          refine ⟨unchanged, ended, List.Forall₂.cons ⟨fun short => ?_, by rw [live]; rfl⟩ shown⟩
          exact List.take_of_length_le (Nat.le_sub_one_of_lt short)

/-- A directory without entries in a state in which every link count lies between 1 and the bound on
the number of entries. -/
structure EmptyDirectory (state : VfsState) (dir : VnodeId) (parent : NodeId) : Prop where
  directory : DirectoryAt state dir parent [] 0
  links : ∀ id node, state.tmpfs.nodes id = some node → 1 ≤ node.nlink ∧ node.nlink ≤ 2 ^ 31
  unusedNodes : ∀ id, state.tmpfs.freshNode ≤ id → state.tmpfs.nodes id = none
  unusedVnodes : ∀ id, state.freshVnode ≤ id → state.vnodes id = none

theorem EmptyDirectory.represents {state : VfsState} {dir : VnodeId} {parent : NodeId}
    (empty : EmptyDirectory state dir parent) : Represents state dir parent [] where
  directory := empty.directory
  distinct := List.nodup_nil
  few := by decide
  apart := by simp
  live := by simp
  links := by
    intro id node found
    simpa [Nat.lt_iff_add_one_le] using empty.links id node found
  unusedNodes := empty.unusedNodes
  unusedVnodes := empty.unusedVnodes

/-- A directory of tmpfs is a finite map: after every sequence of calls on it, `tmpfs_lookup` answers
with the node that was bound last, the entries are the bindings with distinct names, the stored count is
their number, and reading the directory from its start shows each of them once. -/
theorem tmpfsDirectory_refines_map (state : VfsState) (dir : VnodeId) (parent : NodeId) (ops : List DirOp)
    (empty : EmptyDirectory state dir parent)
    (valid : CallGuarded (dirCall dir) (ValidDirOp dir) state ops) :
    ∃ answers final entries, callAll (dirCall dir) ops state = .ok answers final ∧
      DirectoryAt final dir parent entries entries.length ∧
      (entries.map (·.name)).Nodup ∧
      (∀ name node, ⟨name, node⟩ ∈ entries ↔ lastBinding (ops.zip answers) name = some node) ∧
      (∀ name, ∃ answer next, tmpfsLookup dir name final = .ok answer next ∧
        match lastBinding (ops.zip answers) name with
        | some node => ∃ id vnode, answer = .ok id ∧ next.vnodes id = some vnode ∧ vnode.node = node
        | none => answer = .error .enoent) ∧
      ∀ fuel, entries.length < fuel → ∃ records, readDirectory dir fuel 0 final =
        .ok (records, some .enoent) final ∧ List.Forall₂ (Shows final) entries records := by
  have run : Post (fun _ => False) (callAll (dirCall dir) ops) (fun answers final =>
      ∃ entries, Represents final dir parent entries ∧
        bindings entries = lastBinding (ops.zip answers)) state := by
    apply callAll_invariant (fun past current => ∃ entries, Represents current dir parent entries ∧
      bindings entries = lastBinding past) _ ⟨[], empty.represents, rfl⟩ valid
    rintro past current op ⟨entries, represents, bound⟩ allowed
    apply (represents.dirCall allowed).mono
    rintro answer next ⟨changed, kept, recorded⟩
    refine ⟨changed, kept, ?_⟩
    rw [recorded, bound, lastBinding, lastBinding, List.foldl_append]
    rfl
  obtain ⟨answers, final, ran, entries, represents, bound⟩ := run.result
  refine ⟨answers, final, entries, ran, represents.directory, represents.distinct, ?_, ?_, ?_⟩
  · intro name node
    rw [mem_iff_bindings represents.distinct, bound]
  · intro name
    rw [← bound]
    exact (represents.tmpfsLookup name).result
  · intro fuel enough
    obtain ⟨⟨records, code⟩, next, read, same, ended, shown⟩ :=
      (represents.readDirectory fuel 0 (Nat.zero_le _) (by omega)).result
    subst same
    change code = some .enoent at ended
    subst ended
    exact ⟨records, read, shown⟩

/-- In the root of a new tmpfs the file `a` is created and removed again, and `b` is left. -/
theorem tmpfsDirectory_refines_map_root :
    ∃ answers final next, callAll (dirCall 0)
        [.create [97] 0x1A4, .create [98] 0x1A4, .unlink [97]] mountedRoot = .ok answers final ∧
      tmpfsLookup 0 [97] final = .ok (.error .enoent) next := by
  have empty : EmptyDirectory mountedRoot 0 0 := by
    refine ⟨⟨⟨_, rfl, rfl⟩, _, rfl, rfl⟩, ?_, ?_, ?_⟩
    · intro id node found
      by_cases same : id = 0
      · subst same
        cases found
        decide
      · rw [mountedRoot_nodes, Function.update_of_ne same] at found
        exact absurd found (by simp)
    · intro id above
      rw [mountedRoot_nodes, Function.update_of_ne (Nat.pos_iff_ne_zero.mp above)]
    · intro id above
      rw [mountedRoot_vnodes, Function.update_of_ne (Nat.pos_iff_ne_zero.mp above)]
  have roomy {state : VfsState} {parent : NodeId} {entries : List TmpfsDirent} {count : Nat} {op : DirOp}
      (directory : DirectoryAt state 0 parent entries count) (room : entries.length + 1 < 2 ^ 31)
      (plain : ∀ name target, op ≠ .link name target) : ValidDirOp 0 state op :=
    ⟨fun _ _ _ _ other => directory.entries_eq other ▸ room, fun name target same => absurd same (plain name target)⟩
  have valid : CallGuarded (dirCall 0) (ValidDirOp 0) mountedRoot
      [.create [97] 0x1A4, .create [98] 0x1A4, .unlink [97]] := by
    refine ⟨roomy ⟨⟨_, rfl, rfl⟩, _, rfl, rfl⟩ (by decide) (by simp), fun answer next ran => ?_⟩
    cases ran
    refine ⟨roomy ⟨⟨_, rfl, rfl⟩, _, rfl, rfl⟩ (by decide) (by simp), fun answer next ran => ?_⟩
    cases ran
    refine ⟨roomy ⟨⟨_, rfl, rfl⟩, _, rfl, rfl⟩ (by decide) (by simp), fun answer next ran => trivial⟩
  obtain ⟨answers, final, entries, ran, _, _, _, found, _⟩ :=
    tmpfsDirectory_refines_map mountedRoot 0 0 _ empty valid
  obtain ⟨answer, next, looked, holds⟩ := found [97]
  refine ⟨answers, final, next, ran, ?_⟩
  cases ran
  rw [looked, show answer = .error .enoent from holds]

end Uesi.Vfs
