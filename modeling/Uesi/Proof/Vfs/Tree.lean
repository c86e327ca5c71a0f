import Uesi.Proof.Vfs.Resolve

namespace Uesi.Vfs

open Library

variable {entries : List TmpfsDirent} {tmpfs : Tmpfs} {count : Nat} {data : TmpfsData}

/-- What a walk reads of a node besides its entries. -/
inductive NodeKind where
  | file
  | dir
  | symlink (target : Str)
  deriving DecidableEq, Repr

def TmpfsData.kind : TmpfsData → NodeKind
  | .file _ => .file
  | .dir _ _ => .dir
  | .symlink target => .symlink target

def Tmpfs.kindOf (tmpfs : Tmpfs) (id : NodeId) : Option NodeKind := (tmpfs.dataOf id).map (·.kind)

def Tmpfs.nlinkOf (tmpfs : Tmpfs) (id : NodeId) : Option Nat := (tmpfs.nodes id).map (·.nlink)

/-- The number of entries for a node in one directory. -/
def entriesTo (id : NodeId) : Option TmpfsData → Nat
  | some (.dir entries _) => entries.countP (·.node = id)
  | _ => 0

/-- The number of entries for a node in all directories. -/
def Tmpfs.links (tmpfs : Tmpfs) (id : NodeId) : Nat :=
  ∑ dir ∈ Finset.range tmpfs.freshNode, entriesTo id (tmpfs.dataOf dir)

/-- The names of a directory are distinct, and the stored link count of a node is above the number of
its entries, so that no entry points to a node that was freed. -/
structure Tree (tmpfs : Tmpfs) : Prop where
  closed : ∀ dir entries count, tmpfs.dataOf dir = some (.dir entries count) →
    ∀ entry ∈ entries, ∃ data, tmpfs.dataOf entry.node = some data
  distinct : ∀ dir entries count, tmpfs.dataOf dir = some (.dir entries count) →
    (entries.map (·.name)).Nodup
  linked : ∀ id nlink, tmpfs.nlinkOf id = some nlink → tmpfs.links id < nlink ∧ nlink < 2 ^ 32
  unused : ∀ id, tmpfs.freshNode ≤ id → tmpfs.dataOf id = none

/-- Every link count has room for one more link. -/
def FewLinks (tmpfs : Tmpfs) : Prop := ∀ id nlink, tmpfs.nlinkOf id = some nlink → nlink + 1 < 2 ^ 32

/-- Nodes stay and keep their kind, and entries stay except for those that are removed. -/
structure Preserves (tmpfs next : Tmpfs) (removed : NodeId → Str → Prop) : Prop where
  kinds : ∀ id kind, tmpfs.kindOf id = some kind → next.kindOf id = some kind
  entries : ∀ dir name target, ¬ removed dir name → entryOf tmpfs dir name = .ok target →
    entryOf next dir name = .ok target

/-- A step that changes the tree only. -/
structure Mutated (state next : VfsState) (removed : NodeId → Str → Prop) : Prop where
  preserves : Preserves state.tmpfs next.tmpfs removed
  tree : Tree next.tmpfs
  only : next = { state with tmpfs := next.tmpfs }

/-- The node that a name stands for in a directory, if there is one. -/
def Tmpfs.entry (tmpfs : Tmpfs) (dir : NodeId) (name : Str) : Option NodeId :=
  match tmpfs.dataOf dir with
  | some (.dir entries _) => bindings entries name
  | _ => none

/-- The same entries, except that one name of one directory stands for another node or for none. -/
def rebind (entry : NodeId → Str → Option NodeId) (dir : NodeId) (name : Str) (node : Option NodeId) :
    NodeId → Str → Option NodeId :=
  Function.update entry dir (Function.update (entry dir) name node)

/-- The stored count of a directory is the number of its entries. -/
def Numbered (tmpfs : Tmpfs) : Prop :=
  ∀ dir entries count, tmpfs.dataOf dir = some (.dir entries count) → count = entries.length % 2 ^ 32

/-- The names of every directory are distinct and stand for nodes. -/
structure Sturdy (tmpfs : Tmpfs) : Prop where
  distinct : ∀ dir entries count, tmpfs.dataOf dir = some (.dir entries count) →
    (entries.map (·.name)).Nodup
  closed : ∀ dir entries count, tmpfs.dataOf dir = some (.dir entries count) →
    ∀ entry ∈ entries, ∃ data, tmpfs.dataOf entry.node = some data

/-- A tree turns into one with these entries and kinds of nodes, which is as well formed as before. -/
structure Turns (tmpfs next : Tmpfs) (entry : NodeId → Str → Option NodeId)
    (kinds : NodeId → Option NodeKind) : Prop where
  entry : next.entry = entry
  kinds : next.kindOf = kinds
  numbered : Numbered tmpfs → Numbered next
  sturdy : Sturdy tmpfs → Sturdy next

/-- A step changes the tree only, and it leads to these entries and kinds of nodes. -/
structure Becomes (state next : VfsState) (entry : NodeId → Str → Option NodeId)
    (kinds : NodeId → Option NodeKind) : Prop extends Turns state.tmpfs next.tmpfs entry kinds where
  only : next = { state with tmpfs := next.tmpfs }

/-- Names are distinct, and no node is freed when one entry for it is removed. -/
structure Firm (tmpfs : Tmpfs) : Prop where
  distinct : ∀ dir entries count, tmpfs.dataOf dir = some (.dir entries count) →
    (entries.map (·.name)).Nodup
  linked : ∀ dir name target, tmpfs.entry dir name = some target →
    ∃ nlink, tmpfs.nlinkOf target = some nlink ∧ nlink ≠ 1 ∧ nlink < 2 ^ 32

section Facts

variable {tmpfs next final : Tmpfs} {dir id : NodeId} {name : Str} {target : NodeId}

theorem dataOf_eq_none : tmpfs.dataOf id = none ↔ tmpfs.nodes id = none := by
  simp [Tmpfs.dataOf]

theorem exists_nlinkOf (found : tmpfs.dataOf id = some data) : ∃ nlink, tmpfs.nlinkOf id = some nlink := by
  obtain ⟨node, there, _⟩ := Option.map_eq_some_iff.mp found
  exact ⟨node.nlink, by rw [Tmpfs.nlinkOf, there]; rfl⟩

theorem entryOf_dir (kind : tmpfs.dataOf dir = some (.dir entries count)) (name : Str) :
    entryOf tmpfs dir name = (bindings entries name).elim (.error .enoent) .ok := by
  unfold entryOf bindings
  simp only [kind]
  cases findEntry name entries with
  | none => rfl
  | some entry => rfl

theorem entryOf_ok : entryOf tmpfs dir name = .ok target ↔ ∃ entries count,
    tmpfs.dataOf dir = some (.dir entries count) ∧ bindings entries name = some target := by
  unfold entryOf bindings
  constructor
  · intro found
    split at found
    · rename_i entries count kind
      refine ⟨entries, count, kind, ?_⟩
      split at found
      · rename_i entry search
        cases found
        rw [search]
        rfl
      · exact absurd found (by simp)
    · exact absurd found (by simp)
  · rintro ⟨entries, count, kind, bound⟩
    obtain ⟨entry, search, rfl⟩ := Option.map_eq_some_iff.mp bound
    simp only [kind, search]

theorem Tree.lt_fresh (tree : Tree tmpfs) (found : tmpfs.dataOf id = some data) : id < tmpfs.freshNode := by
  by_contra above
  rw [tree.unused id (Nat.le_of_not_lt above)] at found
  exact absurd found (by simp)

/-- An entry points to a node. -/
theorem Closed.entry_target (closed : Closed tmpfs) (found : entryOf tmpfs dir name = .ok target) :
    ∃ data, tmpfs.dataOf target = some data := by
  obtain ⟨entries, count, kind, bound⟩ := entryOf_ok.mp found
  obtain ⟨entry, search, rfl⟩ := Option.map_eq_some_iff.mp bound
  obtain ⟨node, there, data⟩ := Option.map_eq_some_iff.mp kind
  obtain ⟨stored, live⟩ := closed dir node entries count there data entry (findEntry_some search).1
  exact ⟨stored.data, by rw [Tmpfs.dataOf, live]; rfl⟩

theorem Sturdy.to_closed (sturdy : Sturdy tmpfs) : Closed tmpfs := by
  intro id node entries count there data entry member
  have kind : tmpfs.dataOf id = some (.dir entries count) := by
    rw [Tmpfs.dataOf, there, Option.map_some, data]
  obtain ⟨found, at_⟩ := sturdy.closed id entries count kind entry member
  obtain ⟨target, live, _⟩ := Option.map_eq_some_iff.mp at_
  exact ⟨target, live⟩

theorem Tree.sturdy (tree : Tree tmpfs) : Sturdy tmpfs := ⟨tree.distinct, tree.closed⟩

theorem Tree.to_closed (tree : Tree tmpfs) : Closed tmpfs := tree.sturdy.to_closed

theorem Tree.entry_target (tree : Tree tmpfs) (found : entryOf tmpfs dir name = .ok target) :
    ∃ data, tmpfs.dataOf target = some data :=
  tree.to_closed.entry_target found

theorem Preserves.refl (tmpfs : Tmpfs) (removed : NodeId → Str → Prop) : Preserves tmpfs tmpfs removed :=
  ⟨fun _ _ kind => kind, fun _ _ _ _ found => found⟩

theorem Preserves.trans {first second : NodeId → Str → Prop} (one : Preserves tmpfs next first)
    (two : Preserves next final second) :
    Preserves tmpfs final fun dir name => first dir name ∨ second dir name where
  kinds := fun id kind found => two.kinds id kind (one.kinds id kind found)
  entries := by
    intro dir name target kept found
    rw [not_or] at kept
    exact two.entries dir name target kept.2 (one.entries dir name target kept.1 found)

/-- Only the entries that were there can be lost. -/
theorem Preserves.weaken {removed fewer : NodeId → Str → Prop} (preserves : Preserves tmpfs next removed)
    (implies : ∀ dir name target, removed dir name → entryOf tmpfs dir name = .ok target → fewer dir name) :
    Preserves tmpfs next fewer where
  kinds := preserves.kinds
  entries := by
    intro dir name target kept found
    by_cases lost : removed dir name
    · exact absurd (implies dir name target lost found) kept
    · exact preserves.entries dir name target lost found

end Facts

section Entries

variable {tmpfs : Tmpfs} {dir : NodeId} {name : Str} {target : NodeId} {entry : NodeId → Str → Option NodeId}
  {node : Option NodeId}

theorem kind_eq_dir : data.kind = .dir ↔ ∃ entries count, data = .dir entries count := by
  cases data <;> simp [TmpfsData.kind]

theorem entry_dir (kind : tmpfs.dataOf dir = some (.dir entries count)) : tmpfs.entry dir = bindings entries := by
  funext name
  simp only [Tmpfs.entry, kind]

theorem kindOf_dir : tmpfs.kindOf dir = some .dir ↔ ∃ entries count, tmpfs.dataOf dir = some (.dir entries count) := by
  rw [Tmpfs.kindOf, Option.map_eq_some_iff]
  constructor
  · rintro ⟨data, found, kind⟩
    obtain ⟨entries, count, rfl⟩ := kind_eq_dir.mp kind
    exact ⟨entries, count, found⟩
  · rintro ⟨entries, count, found⟩
    exact ⟨_, found, rfl⟩

/-- Only a directory has entries. -/
theorem entry_of_not_dir (plain : tmpfs.kindOf dir ≠ some .dir) (name : Str) : tmpfs.entry dir name = none := by
  unfold Tmpfs.entry
  split
  · rename_i entries count found
    exact absurd (kindOf_dir.mpr ⟨entries, count, found⟩) plain
  · rfl

theorem entry_some : tmpfs.entry dir name = some target ↔ entryOf tmpfs dir name = .ok target := by
  rw [entryOf_ok]
  constructor
  · intro found
    by_cases directory : tmpfs.kindOf dir = some .dir
    · obtain ⟨entries, count, kind⟩ := kindOf_dir.mp directory
      exact ⟨entries, count, kind, by rw [← entry_dir kind, found]⟩
    · rw [entry_of_not_dir directory] at found
      exact absurd found (by simp)
  · rintro ⟨entries, count, kind, bound⟩
    rw [entry_dir kind, bound]

theorem kindOf_of_entry (found : tmpfs.entry dir name = some target) : tmpfs.kindOf dir = some .dir := by
  by_contra plain
  rw [entry_of_not_dir plain] at found
  exact absurd found (by simp)

@[simp] theorem rebind_self : rebind entry dir name node dir name = node := by
  rw [rebind, Function.update_self, Function.update_self]

theorem rebind_of_ne {other : NodeId} {another : Str} (differs : ¬ (other = dir ∧ another = name)) :
    rebind entry dir name node other another = entry other another := by
  by_cases same : other = dir
  · subst same
    rw [rebind, Function.update_self, Function.update_of_ne fun equal => differs ⟨rfl, equal⟩]
  · rw [rebind, Function.update_of_ne same]

theorem rebind_eq (same : entry dir name = node) : rebind entry dir name node = entry := by
  rw [rebind, ← same, Function.update_eq_self, Function.update_eq_self]

@[simp] theorem rebind_idem {first : Option NodeId} :
    rebind (rebind entry dir name first) dir name node = rebind entry dir name node := by
  simp only [rebind, Function.update_self, Function.update_idem]

/-- A name is missing in a directory. -/
theorem entryOf_enoent : entryOf tmpfs dir name = .error .enoent ↔
    tmpfs.kindOf dir = some .dir ∧ tmpfs.entry dir name = none := by
  by_cases directory : tmpfs.kindOf dir = some .dir
  · obtain ⟨entries, count, kind⟩ := kindOf_dir.mp directory
    rw [entryOf_dir kind, entry_dir kind]
    cases bindings entries name <;> simp [directory]
  · have refused : entryOf tmpfs dir name = .error .enotdir := by
      unfold entryOf
      split
      · rename_i entries count kind
        exact absurd (kindOf_dir.mpr ⟨entries, count, kind⟩) directory
      · rfl
    simp [refused, directory]

end Entries

/-- The entries in the data of a node, which only a directory has. -/
def entriesOf : Option TmpfsData → Str → Option NodeId
  | some (.dir entries _) => bindings entries
  | _ => fun _ => none

section Updates

variable {tmpfs next : Tmpfs} {id : NodeId} {stored : Option TmpfsData}

theorem entry_eq (tmpfs : Tmpfs) : tmpfs.entry = fun dir => entriesOf (tmpfs.dataOf dir) := by
  funext dir name
  unfold Tmpfs.entry
  rcases tmpfs.dataOf dir with _ | (_ | ⟨_, _⟩ | _) <;> rfl

/-- A directory is the stored node, or it was there before. -/
theorem dir_of_update (data : next.dataOf = Function.update tmpfs.dataOf id stored) {other : NodeId}
    (found : next.dataOf other = some (.dir entries count)) :
    other = id ∧ stored = some (.dir entries count) ∨ tmpfs.dataOf other = some (.dir entries count) := by
  rw [data] at found
  by_cases same : other = id
  · subst same
    rw [Function.update_self] at found
    exact Or.inl ⟨rfl, found⟩
  · rw [Function.update_of_ne same] at found
    exact Or.inr found

/-- A store to one node changes its entries and its kind, where a node in use is not freed. -/
theorem turns_update (data : next.dataOf = Function.update tmpfs.dataOf id stored)
    (lives : stored = none → tmpfs.dataOf id = none)
    (numbers : ∀ entries count, stored = some (.dir entries count) → Numbered tmpfs →
      count = entries.length % 2 ^ 32)
    (fits : ∀ entries count, stored = some (.dir entries count) → Sturdy tmpfs → (entries.map (·.name)).Nodup ∧
      ∀ entry ∈ entries, ∃ data, tmpfs.dataOf entry.node = some data) :
    Turns tmpfs next (Function.update tmpfs.entry id (entriesOf stored))
      (Function.update tmpfs.kindOf id (stored.map (·.kind))) where
  entry := by
    rw [entry_eq next, entry_eq tmpfs, data]
    funext other
    exact Function.apply_update (fun _ => entriesOf) tmpfs.dataOf id stored other
  kinds := by
    funext other
    rw [Tmpfs.kindOf, data]
    exact Function.apply_update (fun _ => Option.map TmpfsData.kind) tmpfs.dataOf id stored other
  numbered := by
    intro before other entries count found
    obtain ⟨rfl, new⟩ | was := dir_of_update data found
    · exact numbers entries count new before
    · exact before other entries count was
  sturdy := by
    intro before
    constructor
    · intro other entries count found
      obtain ⟨rfl, new⟩ | was := dir_of_update data found
      · exact (fits entries count new before).1
      · exact before.distinct other entries count was
    · intro other entries count found item member
      obtain ⟨kept, live⟩ : ∃ kept, tmpfs.dataOf item.node = some kept := by
        obtain ⟨rfl, new⟩ | was := dir_of_update data found
        · exact (fits entries count new before).2 item member
        · exact before.closed other entries count was item member
      rw [data]
      by_cases same : item.node = id
      · rw [same, Function.update_self]
        refine Option.ne_none_iff_exists'.mp fun gone => ?_
        rw [same, lives gone] at live
        exact absurd live (by simp)
      · exact ⟨kept, by rw [Function.update_of_ne same, live]⟩

end Updates

section Mutated

variable {state middle next : VfsState} {removed : NodeId → Str → Prop}

theorem Mutated.refl (tree : Tree state.tmpfs) (removed : NodeId → Str → Prop) : Mutated state state removed :=
  ⟨.refl _ _, tree, rfl⟩

theorem Mutated.trans {first second : NodeId → Str → Prop} (one : Mutated state middle first)
    (two : Mutated middle next second) :
    Mutated state next fun dir name => first dir name ∨ second dir name where
  preserves := one.preserves.trans two.preserves
  tree := two.tree
  only := by
    have first := one.only
    have second := two.only
    rw [second, first]

variable (mutated : Mutated state next removed)

include mutated

theorem Mutated.weaken {fewer : NodeId → Str → Prop}
    (implies : ∀ dir name target, removed dir name → entryOf state.tmpfs dir name = .ok target →
      fewer dir name) : Mutated state next fewer :=
  ⟨mutated.preserves.weaken implies, mutated.tree, mutated.only⟩

theorem Mutated.vnodes : next.vnodes = state.vnodes := by
  rw [mutated.only]

theorem Mutated.dentryHash : next.dentryHash = state.dentryHash := by
  rw [mutated.only]

theorem Mutated.root : next.root = state.root := by
  rw [mutated.only]

theorem Mutated.nodeOf (id : VnodeId) : next.nodeOf id = state.nodeOf id := by
  rw [VfsState.nodeOf, mutated.vnodes]
  rfl

end Mutated

section Becomes

variable {state middle next : VfsState} {entry later : NodeId → Str → Option NodeId}
  {kinds more : NodeId → Option NodeKind}

theorem Turns.refl (tmpfs : Tmpfs) : Turns tmpfs tmpfs tmpfs.entry tmpfs.kindOf := ⟨rfl, rfl, id, id⟩

theorem Turns.trans {between final : Tmpfs} (first : Turns tmpfs between entry kinds)
    (second : Turns between final later more) : Turns tmpfs final later more where
  entry := second.entry
  kinds := second.kinds
  numbered := fun before => second.numbered (first.numbered before)
  sturdy := fun before => second.sturdy (first.sturdy before)

theorem Becomes.refl (state : VfsState) : Becomes state state state.tmpfs.entry state.tmpfs.kindOf :=
  ⟨.refl state.tmpfs, rfl⟩

theorem Becomes.trans (first : Becomes state middle entry kinds) (second : Becomes middle next later more) :
    Becomes state next later more where
  toTurns := first.toTurns.trans second.toTurns
  only := by
    have one := first.only
    have two := second.only
    rw [two, one]

theorem Becomes.nodeOf (becomes : Becomes state next entry kinds) (id : VnodeId) :
    next.nodeOf id = state.nodeOf id := by
  rw [becomes.only]
  rfl

/-- The tree keeps the entries that a step leaves alone. -/
theorem Becomes.mutated {removed : NodeId → Str → Prop} (becomes : Becomes state next entry kinds)
    (tree : Tree next.tmpfs) (kept : ∀ id kind, state.tmpfs.kindOf id = some kind → kinds id = some kind)
    (stay : ∀ dir name target, ¬ removed dir name → state.tmpfs.entry dir name = some target →
      entry dir name = some target) : Mutated state next removed where
  preserves := {
    kinds := by
      intro id kind found
      rw [becomes.kinds, kept id kind found]
    entries := by
      intro dir name target left found
      rw [← entry_some, becomes.entry]
      exact stay dir name target left (entry_some.mpr found) }
  tree := tree
  only := becomes.only

end Becomes

section Writes

variable {state : VfsState} {id : NodeId} {node : TmpfsNode}

theorem setNode_dataOf : (state.setNode id (some node)).tmpfs.dataOf =
    Function.update state.tmpfs.dataOf id (some node.data) := by
  funext other
  by_cases same : other = id
  · subst same
    simp [Tmpfs.dataOf]
  · rw [Function.update_of_ne same, Tmpfs.dataOf, VfsState.setNode_nodes, Function.update_of_ne same]
    rfl

theorem setNode_nlinkOf : (state.setNode id (some node)).tmpfs.nlinkOf =
    Function.update state.tmpfs.nlinkOf id (some node.nlink) := by
  funext other
  by_cases same : other = id
  · subst same
    simp [Tmpfs.nlinkOf]
  · rw [Function.update_of_ne same, Tmpfs.nlinkOf, VfsState.setNode_nodes, Function.update_of_ne same]
    rfl

/-- A node that is stored with its old data leaves the data of the tree as it is. -/
theorem setNode_same_data (found : state.tmpfs.dataOf id = some node.data) :
    (state.setNode id (some node)).tmpfs.dataOf = state.tmpfs.dataOf := by
  rw [setNode_dataOf, ← found, Function.update_eq_self]

theorem setNode_same_nlink (found : state.tmpfs.nlinkOf id = some node.nlink) :
    (state.setNode id (some node)).tmpfs.nlinkOf = state.tmpfs.nlinkOf := by
  rw [setNode_nlinkOf, ← found, Function.update_eq_self]

end Writes

/-- A directory gets other entries and one node another link count. -/
structure Rebinds (state next : VfsState) (dir : NodeId) (entries : List TmpfsDirent) (count : Nat)
    (node : NodeId) (nlink : Nat) : Prop where
  data : next.tmpfs.dataOf = Function.update state.tmpfs.dataOf dir (some (.dir entries count))
  nlink : next.tmpfs.nlinkOf = Function.update state.tmpfs.nlinkOf node (some nlink)
  fresh : next.tmpfs.freshNode = state.tmpfs.freshNode
  only : next = { state with tmpfs := next.tmpfs }

section Dirents

variable {stop : Fault → Prop} {state next : VfsState} {dir node : NodeId} {name : Str}
  {entries others : List TmpfsDirent} {count number nlink : Nat}

/-- The stores of `tmpfs_dirent_add` and `tmpfs_dirent_remove`: a directory, then a link count. -/
theorem rebinds_setNode {parent target : TmpfsNode} (at_ : state.tmpfs.nodes dir = some parent)
    (there : (state.setNode dir (some { parent with data := .dir others number })).tmpfs.nodes node =
      some target) :
    Rebinds state ((state.setNode dir (some { parent with data := .dir others number })).setNode node
      (some { target with nlink })) dir others number node nlink where
  data := by
    rw [setNode_same_data (by rw [Tmpfs.dataOf, there]; rfl), setNode_dataOf]
  nlink := by
    rw [setNode_nlinkOf, setNode_same_nlink (by rw [Tmpfs.nlinkOf, at_]; rfl)]
  fresh := rfl
  only := rfl

/-- The link count of a node is read behind the store to the directory. -/
theorem target_of_nlinkOf {parent : TmpfsNode} (others : List TmpfsDirent) (number : Nat)
    (at_ : state.tmpfs.nodes dir = some parent) (there : state.tmpfs.nlinkOf node = some nlink) :
    ∃ target, (state.setNode dir (some { parent with data := .dir others number })).tmpfs.nodes node =
      some target ∧ target.nlink = nlink := by
  have same : (state.setNode dir (some { parent with data := .dir others number })).tmpfs.nlinkOf =
      state.tmpfs.nlinkOf := setNode_same_nlink (by rw [Tmpfs.nlinkOf, at_]; rfl)
  rw [← same] at there
  exact Option.map_eq_some_iff.mp there

section Remove

variable (kind : state.tmpfs.dataOf dir = some (.dir entries count))

include kind

theorem post_tmpfsDirentAdd (there : state.tmpfs.nlinkOf node = some nlink) :
    Post stop (tmpfsDirentAdd dir name node) (fun answer next =>
      if (findEntry name entries).isSome then answer = .error .eexist ∧ next = state
      else answer = .ok () ∧ Rebinds state next dir (⟨name, node⟩ :: entries) ((count + 1) % 2 ^ 32) node
        ((nlink + 1) % 2 ^ 32)) state := by
  obtain ⟨parent, at_, data⟩ := Option.map_eq_some_iff.mp kind
  simp only [tmpfsDirentAdd, tmpfsDirentFind, post_bind, post_readNode at_, data, post_pure]
  by_cases taken : (findEntry name entries).isSome
  · simp only [if_pos taken]
    exact ⟨rfl, rfl⟩
  · obtain ⟨target, found, rfl⟩ := target_of_nlinkOf (⟨name, node⟩ :: entries) ((count + 1) % 2 ^ 32)
      at_ there
    simp only [if_neg taken, post_bind, post_writeNode, post_readNode found]
    exact ⟨rfl, rebinds_setNode at_ found⟩

theorem post_tmpfsDirentRemove_none (missing : unlinkEntry name entries = none)
    {after : Except Errno Unit → VfsState → Prop} :
    Post stop (tmpfsDirentRemove dir name) after state ↔ after (.error .enoent) state := by
  obtain ⟨parent, at_, data⟩ := Option.map_eq_some_iff.mp kind
  simp only [tmpfsDirentRemove, post_bind, post_readNode at_, data, missing]
  exact Iff.rfl

/-- An entry is removed and its node stays, because the link count does not become zero. -/
theorem post_tmpfsDirentRemove_some {entry : TmpfsDirent} (found : unlinkEntry name entries = some (entry, others))
    (there : state.tmpfs.nlinkOf entry.node = some nlink) {fewer : Nat} (less : (nlink + 2 ^ 32 - 1) % 2 ^ 32 = fewer)
    (nonzero : fewer ≠ 0) :
    Post stop (tmpfsDirentRemove dir name) (fun answer next => answer = .ok () ∧
      Rebinds state next dir others ((count + 2 ^ 32 - 1) % 2 ^ 32) entry.node fewer) state := by
  obtain ⟨parent, at_, data⟩ := Option.map_eq_some_iff.mp kind
  obtain ⟨target, live, rfl⟩ := target_of_nlinkOf others ((count + 2 ^ 32 - 1) % 2 ^ 32) at_ there
  simp only [tmpfsDirentRemove, post_bind, post_readNode at_, data, found, post_writeNode,
    post_readNode live, less, if_neg nonzero]
  exact ⟨rfl, rebinds_setNode at_ live⟩

end Remove

section Rebind

variable (rebinds : Rebinds state next dir others number node nlink)

include rebinds

theorem Rebinds.links (tree : Tree state.tmpfs) (kind : state.tmpfs.dataOf dir = some (.dir entries count))
    (id : NodeId) :
    next.tmpfs.links id + entries.countP (·.node = id) =
      state.tmpfs.links id + others.countP (·.node = id) := by
  have changed := sum_range_update (entriesTo id) state.tmpfs.dataOf (tree.lt_fresh kind)
    (some (.dir others number))
  rw [kind] at changed
  rw [Tmpfs.links, rebinds.data, rebinds.fresh]
  exact changed

/-- Other entries keep the tree when the link counts cover them. -/
theorem Rebinds.tree (tree : Tree state.tmpfs) (kind : state.tmpfs.dataOf dir = some (.dir entries count))
    (sturdy : Sturdy next.tmpfs) (linked : ∀ id nlink, next.tmpfs.nlinkOf id = some nlink →
      state.tmpfs.links id + others.countP (·.node = id) < nlink + entries.countP (·.node = id) ∧
        nlink < 2 ^ 32) : Tree next.tmpfs where
  closed := sturdy.closed
  distinct := sturdy.distinct
  linked := by
    intro id links stored
    have total := rebinds.links tree kind id
    obtain ⟨below, fits⟩ := linked id links stored
    exact ⟨by omega, fits⟩
  unused := by
    intro id above
    rw [rebinds.fresh] at above
    have differs : id ≠ dir := (lt_of_lt_of_le (tree.lt_fresh kind) above).ne'
    rw [rebinds.data, Function.update_of_ne differs]
    exact tree.unused id above

theorem Rebinds.becomes (kind : state.tmpfs.dataOf dir = some (.dir entries count))
    (numbers : count = entries.length % 2 ^ 32 → number = others.length % 2 ^ 32)
    (distinct : (entries.map (·.name)).Nodup → (others.map (·.name)).Nodup)
    (closed : ∀ entry ∈ others, entry ∈ entries ∨ ∃ data, state.tmpfs.dataOf entry.node = some data) :
    Becomes state next (Function.update state.tmpfs.entry dir (bindings others)) state.tmpfs.kindOf where
  toTurns := by
    have same : Function.update state.tmpfs.kindOf dir ((some (TmpfsData.dir others number)).map (·.kind)) =
        state.tmpfs.kindOf := by
      rw [Function.update_eq_self_iff, Tmpfs.kindOf, kind]
      rfl
    rw [← same]
    refine turns_update rebinds.data (by simp) ?_ ?_
    · rintro _ _ ⟨⟩ before
      exact numbers (before dir entries count kind)
    · rintro _ _ ⟨⟩ before
      refine ⟨distinct (before.distinct dir entries count kind), fun item member => ?_⟩
      exact (closed item member).elim (before.closed dir entries count kind item) id
  only := rebinds.only

theorem Rebinds.entryOf (name : Str) :
    entryOf next.tmpfs dir name = (bindings others name).elim (.error .enoent) .ok :=
  entryOf_dir (by rw [rebinds.data, Function.update_self]) name

end Rebind

theorem Rebinds.few (rebinds : Rebinds state next dir others number node (nlink - 1))
    (there : state.tmpfs.nlinkOf node = some nlink) (few : FewLinks state.tmpfs) : FewLinks next.tmpfs := by
  intro id links stored
  rw [rebinds.nlink] at stored
  by_cases same : id = node
  · subst same
    rw [Function.update_self, Option.some.injEq] at stored
    have room := few id nlink there
    omega
  · rw [Function.update_of_ne same] at stored
    exact few id links stored

theorem Rebinds.becomes_added {links : Nat}
    (rebinds : Rebinds state next dir (⟨name, node⟩ :: entries) ((count + 1) % 2 ^ 32) node nlink)
    (kind : state.tmpfs.dataOf dir = some (.dir entries count)) (there : state.tmpfs.nlinkOf node = some links)
    (absent : findEntry name entries = none) :
    Becomes state next (rebind state.tmpfs.entry dir name (some node)) state.tmpfs.kindOf := by
  have becomes : Becomes state next (Function.update state.tmpfs.entry dir (bindings (⟨name, node⟩ :: entries)))
      state.tmpfs.kindOf := by
    refine rebinds.becomes kind ?_ ?_ ?_
    · intro counted
      rw [counted, List.length_cons]
      omega
    · intro distinct
      rw [List.map_cons, List.nodup_cons]
      exact ⟨findEntry_none.mp absent, distinct⟩
    · intro item member
      obtain rfl | later := List.mem_cons.mp member
      · obtain ⟨stored, live, _⟩ := Option.map_eq_some_iff.mp there
        exact Or.inr ⟨stored.data, by rw [Tmpfs.dataOf, live]; rfl⟩
      · exact Or.inl later
  rwa [bindings_cons, ← entry_dir kind] at becomes

theorem Rebinds.becomes_removed {item : TmpfsDirent}
    (rebinds : Rebinds state next dir others ((count + 2 ^ 32 - 1) % 2 ^ 32) node nlink)
    (kind : state.tmpfs.dataOf dir = some (.dir entries count))
    (distinct : (entries.map (·.name)).Nodup) (found : unlinkEntry name entries = some (item, others)) :
    Becomes state next (rebind state.tmpfs.entry dir name none) state.tmpfs.kindOf := by
  have smaller := unlinkEntry_sublist found
  obtain ⟨_, front, back, split, joined⟩ := unlinkNamed_some found
  have becomes : Becomes state next (Function.update state.tmpfs.entry dir (bindings others))
      state.tmpfs.kindOf := by
    refine rebinds.becomes kind ?_ (fun distinct => distinct.sublist (smaller.map _))
      fun item member => Or.inl (smaller.subset member)
    intro counted
    have longer : entries.length = others.length + 1 := by
      rw [split, joined]
      simp only [List.length_append, List.length_cons]
      omega
    omega
  rwa [bindings_unlink distinct found, ← entry_dir kind] at becomes

/-- A new entry is added to the tree. -/
theorem Rebinds.added
    (rebinds : Rebinds state next dir (⟨name, node⟩ :: entries) ((count + 1) % 2 ^ 32) node (nlink + 1))
    (tree : Tree state.tmpfs) (kind : state.tmpfs.dataOf dir = some (.dir entries count))
    (there : state.tmpfs.nlinkOf node = some nlink) (fits : nlink + 1 < 2 ^ 32)
    (absent : findEntry name entries = none) : Mutated state next fun _ _ => False := by
  have becomes := rebinds.becomes_added kind there absent
  refine becomes.mutated (rebinds.tree tree kind (becomes.sturdy tree.sturdy) ?_) (fun _ _ found => found) ?_
  · intro id links stored
    rw [rebinds.nlink] at stored
    rw [List.countP_cons]
    by_cases same : id = node
    · subst same
      rw [Function.update_self, Option.some.injEq] at stored
      have below := (tree.linked id nlink there).1
      simp only [decide_true, if_true]
      omega
    · rw [Function.update_of_ne same] at stored
      obtain ⟨below, small⟩ := tree.linked id links stored
      simp only [Ne.symm same, decide_false, Bool.false_eq_true, if_false]
      exact ⟨by omega, small⟩
  · intro other key target _ bound
    rw [rebind_of_ne]
    · exact bound
    · rintro ⟨rfl, rfl⟩
      rw [entry_dir kind, bindings, absent] at bound
      exact absurd bound (by simp)

/-- An entry is removed from the tree. -/
theorem Rebinds.removed {entry : TmpfsDirent}
    (rebinds : Rebinds state next dir others ((count + 2 ^ 32 - 1) % 2 ^ 32) entry.node (nlink - 1))
    (tree : Tree state.tmpfs) (kind : state.tmpfs.dataOf dir = some (.dir entries count))
    (found : unlinkEntry name entries = some (entry, others))
    (there : state.tmpfs.nlinkOf entry.node = some nlink) :
    Mutated state next fun parent lost => parent = dir ∧ lost = name := by
  have becomes := rebinds.becomes_removed kind (tree.distinct dir entries count kind) found
  obtain ⟨_, front, back, split, joined⟩ := unlinkNamed_some found
  refine becomes.mutated (rebinds.tree tree kind (becomes.sturdy tree.sturdy) ?_) (fun _ _ found => found)
    fun _ _ _ stays bound => by rw [rebind_of_ne stays, bound]
  intro id links stored
  have fewer : entries.countP (·.node = id) =
      others.countP (·.node = id) + if entry.node = id then 1 else 0 := by
    rw [split, joined, List.countP_append, List.countP_append, List.countP_cons]
    by_cases same : entry.node = id
    · simp only [same, decide_true, if_true]
      omega
    · simp [same]
  rw [rebinds.nlink] at stored
  rw [fewer]
  by_cases same : id = entry.node
  · subst same
    rw [Function.update_self, Option.some.injEq] at stored
    obtain ⟨below, small⟩ := tree.linked _ nlink there
    rw [if_pos rfl]
    omega
  · rw [Function.update_of_ne same] at stored
    obtain ⟨below, small⟩ := tree.linked id links stored
    rw [if_neg (Ne.symm same)]
    exact ⟨by omega, small⟩

end Dirents

section Nodes

variable {stop : Fault → Prop} {state next : VfsState}

theorem Tree.links_fresh (tree : Tree tmpfs) {id : NodeId} (above : tmpfs.freshNode ≤ id) : tmpfs.links id = 0 := by
  apply Finset.sum_eq_zero
  intro dir _
  unfold entriesTo
  split
  · rename_i entries count kind
    rw [List.countP_eq_zero]
    intro entry member same
    obtain ⟨data, found⟩ := tree.closed dir entries count kind entry member
    rw [of_decide_eq_true same, tree.unused id above] at found
    exact absurd found (by simp)
  · rfl

/-- A node at the fresh address, or none, changes no entry and keeps the tree when it has no entries. -/
theorem Tree.grow (tree : Tree state.tmpfs) {stored : Option TmpfsNode}
    (nodes : next.tmpfs.nodes = Function.update state.tmpfs.nodes state.tmpfs.freshNode stored)
    (fresh : next.tmpfs.freshNode = state.tmpfs.freshNode + 1) (only : next = { state with tmpfs := next.tmpfs })
    (new : ∀ node, stored = some node → node.nlink = 1 ∧
      ∀ entries count, node.data = .dir entries count → entries = [] ∧ count = 0) :
    Becomes state next state.tmpfs.entry
        (Function.update state.tmpfs.kindOf state.tmpfs.freshNode (stored.map (·.data.kind))) ∧
      Tree next.tmpfs := by
  have data : next.tmpfs.dataOf =
      Function.update state.tmpfs.dataOf state.tmpfs.freshNode (stored.map (·.data)) := by
    funext other
    rw [Tmpfs.dataOf, nodes]
    exact Function.apply_update (fun _ => Option.map TmpfsNode.data) state.tmpfs.nodes _ stored other
  have unused := tree.unused state.tmpfs.freshNode le_rfl
  have empty (entries : List TmpfsDirent) (count : Nat) (found : stored.map (·.data) = some (.dir entries count)) :
      entries = [] ∧ count = 0 := by
    obtain ⟨node, rfl, kind⟩ := Option.map_eq_some_iff.mp found
    exact (new node rfl).2 entries count kind
  have none : entriesOf (stored.map (·.data)) = state.tmpfs.entry state.tmpfs.freshNode := by
    simp only [entry_eq, unused]
    unfold entriesOf
    split
    · rename_i entries count found
      rw [(empty entries count found).1]
      rfl
    · rfl
  have turns : Turns state.tmpfs next.tmpfs state.tmpfs.entry
      (Function.update state.tmpfs.kindOf state.tmpfs.freshNode (stored.map (·.data.kind))) := by
    have turns := turns_update data (fun _ => unused)
      (fun entries count found _ => by rw [(empty entries count found).1, (empty entries count found).2]; rfl)
      (fun entries count found _ => by rw [(empty entries count found).1]; simp)
    rwa [none, Function.update_eq_self, Option.map_map] at turns
  have sturdy := turns.sturdy tree.sturdy
  refine ⟨⟨turns, only⟩, sturdy.closed, sturdy.distinct, ?_, ?_⟩
  · intro id nlink found
    have links : next.tmpfs.links id = state.tmpfs.links id := by
      have zero : entriesTo id (next.tmpfs.dataOf state.tmpfs.freshNode) = 0 := by
        rw [data, Function.update_self]
        unfold entriesTo
        split
        · rename_i entries count found
          rw [(empty entries count found).1]
          rfl
        · rfl
      rw [Tmpfs.links, fresh, Finset.sum_range_succ, zero, add_zero]
      apply Finset.sum_congr rfl
      intro dir inside
      rw [data, Function.update_of_ne (Finset.mem_range.mp inside).ne]
    rw [links]
    by_cases self : id = state.tmpfs.freshNode
    · subst self
      rw [Tmpfs.nlinkOf, nodes, Function.update_self] at found
      obtain ⟨node, rfl, rfl⟩ := Option.map_eq_some_iff.mp found
      rw [tree.links_fresh le_rfl, (new node rfl).1]
      decide
    · rw [Tmpfs.nlinkOf, nodes, Function.update_of_ne self] at found
      exact tree.linked id nlink found
  · intro id above
    rw [fresh] at above
    rw [data, Function.update_of_ne (Nat.lt_of_succ_le above).ne']
    exact tree.unused id (Nat.le_of_succ_le above)

/-- Other contents of a file keep the tree. -/
theorem Tree.setFile (tree : Tree state.tmpfs) {id : NodeId} {node : TmpfsNode} {old : TmpfsFile}
    (found : state.tmpfs.nodes id = some node) (file : node.data = .file old) (contents : TmpfsFile) :
    Mutated state (state.setNode id (some { node with data := .file contents })) fun _ _ => False := by
  set next := state.setNode id (some { node with data := .file contents })
  have was : state.tmpfs.dataOf id = some (.file old) := by rw [Tmpfs.dataOf, found, Option.map_some, file]
  have data : next.tmpfs.dataOf = Function.update state.tmpfs.dataOf id (some (.file contents)) := setNode_dataOf
  have nlinkOf : next.tmpfs.nlinkOf = state.tmpfs.nlinkOf :=
    setNode_same_nlink (by rw [Tmpfs.nlinkOf, found]; rfl)
  have kind : state.tmpfs.kindOf id = (some (TmpfsData.file contents)).map (·.kind) := by
    rw [Tmpfs.kindOf, was]
    rfl
  have none : entriesOf (some (.file contents)) = state.tmpfs.entry id := by simp only [entry_eq, was, entriesOf]
  have turns : Turns state.tmpfs next.tmpfs state.tmpfs.entry state.tmpfs.kindOf := by
    have turns := turns_update data (by simp) (by simp) (by simp)
    rwa [none, ← kind, Function.update_eq_self, Function.update_eq_self] at turns
  have sturdy := turns.sturdy tree.sturdy
  refine Becomes.mutated ⟨turns, rfl⟩ ⟨sturdy.closed, sturdy.distinct, ?_, ?_⟩ (fun _ _ found => found)
    fun _ _ _ _ found => found
  · intro other nlink there
    have total := sum_range_update (entriesTo other) state.tmpfs.dataOf (tree.lt_fresh was)
      (some (.file contents))
    rw [was, ← data] at total
    rw [nlinkOf] at there
    exact ⟨lt_of_eq_of_lt total (tree.linked other nlink there).1, (tree.linked other nlink there).2⟩
  · intro other above
    have differs : other ≠ id := (lt_of_lt_of_le (tree.lt_fresh was) above).ne'
    rw [data, Function.update_of_ne differs]
    exact tree.unused other above

/-- An entry of a directory is counted. -/
theorem Tree.links_pos (tree : Tree tmpfs) {parent : NodeId} (kind : tmpfs.dataOf parent = some (.dir entries count))
    {entry : TmpfsDirent} (member : entry ∈ entries) :
    0 < tmpfs.links entry.node := by
  have one : 0 < entriesTo entry.node (tmpfs.dataOf parent) := by
    rw [kind, entriesTo, List.countP_pos_iff]
    exact ⟨entry, member, by simp⟩
  exact lt_of_lt_of_le one (Finset.single_le_sum (f := fun dir => entriesTo entry.node (tmpfs.dataOf dir))
    (fun _ _ => Nat.zero_le _) (Finset.mem_range.mpr (tree.lt_fresh kind)))

theorem Tree.entry_nlink {dir target : NodeId} {name : Str} (tree : Tree tmpfs)
    (found : tmpfs.entry dir name = some target) :
    ∃ nlink, tmpfs.nlinkOf target = some nlink ∧ 1 < nlink ∧ nlink < 2 ^ 32 := by
  obtain ⟨entries, count, kind⟩ := kindOf_dir.mp (kindOf_of_entry found)
  rw [entry_dir kind] at found
  obtain ⟨item, search, rfl⟩ := Option.map_eq_some_iff.mp found
  have member := (findEntry_some search).1
  obtain ⟨data, live⟩ := tree.closed dir entries count kind item member
  obtain ⟨nlink, stored⟩ := exists_nlinkOf live
  obtain ⟨below, fits⟩ := tree.linked item.node nlink stored
  have counted := tree.links_pos kind member
  exact ⟨nlink, stored, by omega, fits⟩

theorem Tree.firm (tree : Tree tmpfs) : Firm tmpfs where
  distinct := tree.distinct
  linked := by
    intro dir name target found
    obtain ⟨nlink, stored, more, fits⟩ := tree.entry_nlink found
    exact ⟨nlink, stored, more.ne', fits⟩

end Nodes

end Uesi.Vfs
