import Uesi.Proof.Vfs.Lookup

namespace Uesi.Vfs

open Library

/-- The node that is reached by following names from a node. -/
def walkTree (tmpfs : Tmpfs) : NodeId → List Str → Except Errno NodeId
  | node, [] => .ok node
  | node, name :: rest =>
      match entryOf tmpfs node name with
      | .error code => .error code
      | .ok next => walkTree tmpfs next rest

/-- A tmpfs tree without symbolic links is mounted at the root, and the cache is empty. -/
structure PlainTree (state : VfsState) (held : VnodeId → Nat) (root : NodeId) : Prop where
  counted : Counted state held
  closed : Closed state.tmpfs
  rooted : ∃ id, state.root = some id ∧ state.nodeOf id = some root
  empty : ∀ hash, state.dentryHash hash = []
  plain : ∀ id target, state.tmpfs.dataOf id ≠ some (.symlink target)
  acyclic : ∀ node names, names ≠ [] → walkTree state.tmpfs node names ≠ .ok node

section Plain

variable {state : VfsState} {held : VnodeId → Nat} {root : NodeId} {tmpfs : Tmpfs}

theorem PlainTree.sound (tree : PlainTree state held root) : Sound state held root where
  counted := tree.counted
  closed := tree.closed
  rooted := tree.rooted
  hashed := by
    intro hash dentry member
    rw [tree.empty hash] at member
    exact absurd member List.not_mem_nil
  distinct := by
    intro hash
    rw [tree.empty hash]
    exact List.nodup_nil
  resolves := by
    intro hash dentry member
    rw [tree.empty hash] at member
    exact absurd member List.not_mem_nil

theorem walkTree_append (node : NodeId) (first second : List Str) :
    walkTree tmpfs node (first ++ second) =
      (walkTree tmpfs node first).bind fun middle => walkTree tmpfs middle second := by
  induction first generalizing node with
  | nil => rfl
  | cons name rest ih =>
      rw [List.cons_append, walkTree, walkTree]
      cases entryOf tmpfs node name with
      | error code => rfl
      | ok next => exact ih next

/-- Without symbolic links the walk of the code follows the names. -/
theorem walkNodes_plain (plain : ∀ id target, tmpfs.dataOf id ≠ some (.symlink target))
    (lookup : Str → Option (Except Errno NodeId)) (followFinal : Bool) (before names : List Str) (depth : Nat)
    (node : NodeId) :
    walkNodes lookup tmpfs followFinal before names depth node = some (walkTree tmpfs node names) := by
  induction names generalizing before node with
  | nil => rfl
  | cons name rest ih =>
      rw [walkNodes, walkTree]
      cases found : entryOf tmpfs node name with
      | error code => rw [advance_error found]
      | ok next =>
          rw [advance_enter found (plain next)]
          exact ih _ _

/-- A path of proper names is its own normal form. -/
theorem normalForm_joinPath {names : List Str} (proper : ∀ name ∈ names, ProperName name) :
    normalForm (joinPath names) = joinPath names := by
  obtain ⟨kept, single⟩ := canonicalComponents_joinPath names proper
  rw [normalForm, (pathTrail_agrees (joinPath names)).same (by simpa [ReentersDirectory] using single), kept]

theorem splitComponents_joinPath {names : List Str} (proper : ∀ name ∈ names, ProperName name) :
    splitComponents (joinPath names) = names.take maxComponents := by
  have words := pathComponents_joinPath names proper
  rw [pathComponents, joinPath, wordsOf_cons_sep] at words
  rw [splitComponents, joinPath, List.drop_one, List.tail_cons, words]

/-- `vfs_lookup` follows the first 64 names of a path. -/
theorem PlainTree.lookup_take (tree : PlainTree state held root) {names : List Str}
    (proper : ∀ name ∈ names, ProperName name) (fits : (joinPath names).length < vfsMaxPath) (fuel : Nat) :
    lookupOutcome state (fuel + 1) (joinPath names) =
      some (walkTree state.tmpfs root (names.take maxComponents)) := by
  apply tree.sound.lookup_of_resolve
  rw [resolve_walk rfl fits, normalForm_joinPath proper, splitComponents_joinPath proper,
    walkNodes_plain tree.plain]

/-- A chain of directories, each of which holds the next one under the name `a`. -/
def chainTree (depth : Nat) : VfsState where
  tmpfs :=
    { nodes := fun id =>
        if id < depth then some ⟨id + 1, vfsIfdir, 2, .dir [⟨[97], id + 1⟩] 1⟩
        else if id = depth then some ⟨id + 1, vfsIfdir, 2, .dir [] 0⟩
        else none
      freshNode := depth + 1
      nextIno := depth + 2 }
  vnodes := Function.update (fun _ => none) 0 (some ⟨1, vfsIfdir, 0, 1, 0⟩)
  freshVnode := 1
  dentryHash := fun _ => []
  root := some 0

theorem chainTree_dataOf (depth id : Nat) : (chainTree depth).tmpfs.dataOf id =
    if id < depth then some (.dir [⟨[97], id + 1⟩] 1) else if id = depth then some (.dir [] 0) else none := by
  unfold Tmpfs.dataOf chainTree
  dsimp only
  split
  · rfl
  · split <;> rfl

/-- A walk through the chain goes down by one directory with each name. -/
theorem chainTree_walk (depth node : Nat) (names : List Str) (target : NodeId)
    (walked : walkTree (chainTree depth).tmpfs node names = .ok target) : target = node + names.length := by
  induction names generalizing node with
  | nil =>
      cases walked
      rfl
  | cons name rest ih =>
      rw [walkTree, entryOf, chainTree_dataOf] at walked
      split at walked
      · exact absurd walked (by simp)
      · rename_i next found
        have below : next = node + 1 := by
          split_ifs at found
          · by_cases same : [97] = name
            · simpa [findEntry, same, eq_comm] using found
            · simp [findEntry, same] at found
          · simp [findEntry] at found
        rw [ih next walked, below, List.length_cons, Nat.add_assoc, Nat.add_comm 1]

/-- The chain is a tree without symbolic links. -/
theorem chainTree_plain (depth : Nat) : PlainTree (chainTree depth) (fun _ => 0) 0 where
  counted := by
    have found (id : VnodeId) (vnode : Vnode) (live : (chainTree depth).vnodes id = some vnode) :
        id = 0 ∧ vnode = ⟨1, vfsIfdir, 0, 1, 0⟩ := by
      by_cases same : id = 0
      · subst same
        exact ⟨rfl, (Option.some.inj live).symm⟩
      · exact absurd live (by simp [chainTree, Function.update_of_ne same])
    refine ⟨rfl, ?_, ?_, ?_, ?_⟩
    · intro id
      have none : (chainTree depth).cached id = 0 := Finset.sum_eq_zero fun _ _ => rfl
      by_cases same : id = 0
      · subst same
        rw [none]
        rfl
      · rw [none, VfsState.mounted, if_neg (by simp [chainTree, Ne.symm same])]
        simp [VfsState.refs, chainTree, Function.update_of_ne same]
    · intro id vnode live
      rw [(found id vnode live).2]
      decide
    · intro id vnode live
      obtain ⟨rfl, rfl⟩ := found id vnode live
      by_cases deep : 0 < depth
      · exact ⟨_, if_pos deep, by decide⟩
      · exact ⟨_, (if_neg deep).trans (if_pos (Nat.eq_zero_of_not_pos deep).symm), by decide⟩
    · intro id above
      have positive : id ≠ 0 := Nat.pos_iff_ne_zero.mp above
      simp [chainTree, Function.update_of_ne positive]
  closed := by
    intro id node entries count found data entry member
    have kind : (chainTree depth).tmpfs.dataOf id = some (.dir entries count) := by
      rw [Tmpfs.dataOf, found]
      exact congrArg some data
    rw [chainTree_dataOf] at kind
    split_ifs at kind with below
    · simp only [Option.some.injEq, TmpfsData.dir.injEq] at kind
      rw [← kind.1, List.mem_singleton] at member
      subst member
      by_cases deep : id + 1 < depth
      · exact ⟨_, if_pos deep⟩
      · exact ⟨_, (if_neg deep).trans (if_pos (le_antisymm below (Nat.not_lt.mp deep)))⟩
    · simp only [Option.some.injEq, TmpfsData.dir.injEq] at kind
      rw [← kind.1] at member
      exact absurd member List.not_mem_nil
  rooted := ⟨0, rfl, rfl⟩
  empty := fun _ => rfl
  plain := by
    intro id target
    rw [chainTree_dataOf]
    split_ifs <;> simp
  acyclic := by
    intro node names nonempty walked
    have same := chainTree_walk depth node names node walked
    exact nonempty (List.eq_nil_of_length_eq_zero (Nat.left_eq_add.mp same))

/-- `vfs_lookup` of a canonical path gives the outcome of the walk through the tree if and only if the
path has at most 64 names or already its first 64 names lead to an error. -/
theorem vfsLookup_walk_iff (state : VfsState) (held : VnodeId → Nat) (root : NodeId) (names : List Str)
    (fuel : Nat) (tree : PlainTree state held root) (proper : ∀ name ∈ names, ProperName name)
    (fits : (joinPath names).length < vfsMaxPath) :
    lookupOutcome state (fuel + 1) (joinPath names) = some (walkTree state.tmpfs root names) ↔
      names.length ≤ maxComponents ∨
        ∃ code, walkTree state.tmpfs root (names.take maxComponents) = .error code := by
  rw [tree.lookup_take proper fits, Option.some.injEq]
  have split : walkTree state.tmpfs root names =
      (walkTree state.tmpfs root (names.take maxComponents)).bind fun middle =>
        walkTree state.tmpfs middle (names.drop maxComponents) := by
    rw [← walkTree_append, List.take_append_drop]
  constructor
  · intro same
    by_cases short : names.length ≤ maxComponents
    · exact Or.inl short
    · right
      cases middle : walkTree state.tmpfs root (names.take maxComponents) with
      | error code => exact ⟨code, rfl⟩
      | ok node =>
          have more : names.drop maxComponents ≠ [] := by
            rw [ne_eq, List.drop_eq_nil_iff]
            exact short
          rw [split, middle] at same
          exact absurd same.symm (tree.acyclic node _ more)
  · rintro (short | ⟨code, failed⟩)
    · rw [List.take_of_length_le short]
    · rw [split, failed]
      rfl

/-- In a chain of three directories the path `/a/a` leads to the last one. -/
theorem vfsLookup_walk_two :
    lookupOutcome (chainTree 2) 1 [47, 97, 47, 97] = some (.ok 2) := by
  have proper : ∀ name ∈ [[97], [97]], ProperName name := by
    unfold ProperName
    decide
  have same := (vfsLookup_walk_iff (chainTree 2) _ 0 [[97], [97]] 0 (chainTree_plain 2) proper
    (by decide)).mpr (Or.inl (by decide))
  exact same.trans (by decide)

/-- In a chain of 65 directories, the last of which is empty, the path with 65 names `a` is found at the
64th name, although the last name does not exist. -/
theorem vfsLookup_drops_components :
    lookupOutcome (chainTree 64) 1 (joinPath (List.replicate 65 [97])) = some (.ok 64) ∧
      walkTree (chainTree 64).tmpfs 0 (List.replicate 65 [97]) = .error .enoent := by
  have proper : ∀ name ∈ List.replicate 65 [97], ProperName name := by
    unfold ProperName
    decide
  constructor
  · rw [(chainTree_plain 64).lookup_take proper (by decide +kernel)]
    decide
  · decide

end Plain

end Uesi.Vfs
