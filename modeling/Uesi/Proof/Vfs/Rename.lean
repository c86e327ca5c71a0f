import Uesi.Proof.Vfs.Coherence
import Uesi.Proof.Vfs.Parent

namespace Uesi.Vfs

open Library

/-- The entries after a link and the removal of the old entry. -/
def movedEntries (entry : NodeId → Str → Option NodeId) (source oldDir : NodeId) (oldName : Str)
    (newDir : NodeId) (newName : Str) : NodeId → Str → Option NodeId :=
  rebind (rebind entry newDir newName (some source)) oldDir oldName none

/-- The link and the removal of the old entry both succeed. -/
def Moves (room : Bool) (tmpfs : Tmpfs) (source oldDir : NodeId) (oldName : Str) (newDir : NodeId)
    (newName : Str) : Prop :=
  room = true ∧ tmpfs.Linkable newDir newName source ∧
    rebind tmpfs.entry newDir newName (some source) oldDir oldName ≠ none

/-- The vnodes are counted and the root of the mount is in use. -/
structure Mounted (state : VfsState) (held : VnodeId → Nat) (root : NodeId) : Prop where
  counted : Counted state held
  rooted : ∃ id, state.root = some id ∧ state.nodeOf id = some root

section Steps

variable {stop : Fault → Prop} {state : VfsState} {held : VnodeId → Nat} {root : NodeId} {fuel : Nat}
  {oldVnode oldParent newParent : VnodeId} {source oldDir newDir : NodeId} {oldName newName : Str}
  {oldpath newpath : Str} {room : Bool}

theorem Ready.mounted (ready : Ready state held root) : Mounted state held root :=
  ⟨ready.sound.counted, ready.sound.rooted⟩

theorem Behind.mounted {origin : Tmpfs} {removed : NodeId → Str → Prop}
    (behind : Behind origin removed state held root) : Mounted state held root :=
  ⟨behind.counted, behind.rooted⟩

theorem Mounted.keep {later : VnodeId → Nat} {next : VfsState} (mounted : Mounted state held root)
    (keeps : Keeps state next) (counted : Counted next later) : Mounted next later root :=
  ⟨counted, keeps.rooted mounted.counted mounted.rooted counted⟩

/-- A change of the tree that keeps the kinds of the nodes keeps the mount. -/
theorem Mounted.becomes {next : VfsState} {entry : NodeId → Str → Option NodeId}
    (mounted : Mounted state held root) (becomes : Becomes state next entry state.tmpfs.kindOf) :
    Mounted next held root := by
  refine ⟨mounted.counted.becomes becomes fun _ _ found => found, ?_⟩
  obtain ⟨id, top, node⟩ := mounted.rooted
  exact ⟨id, by rw [becomes.only]; exact top, by rw [becomes.nodeOf, node]⟩

theorem Mounted.vfsDentryRemove (mounted : Mounted state held root) (path : Str) :
    Post stop (vfsDentryRemove path) (fun _ next => Mounted next held root ∧ Keeps state next) state := by
  apply (mounted.counted.vfsDentryRemove path).mono
  rintro _ next ⟨counted, keeps, _⟩
  exact ⟨mounted.keep keeps counted, keeps⟩

theorem post_tmpfsLinkAlloc_false (counted : Counted state held) (newAt : state.nodeOf newParent = some newDir)
    (sourceAt : state.nodeOf oldVnode = some source) :
    Post stop (tmpfsLinkAlloc false newParent newName oldVnode)
      (fun answer next => (∃ code, answer = .error code) ∧ next = state) state := by
  obtain ⟨there, live⟩ := counted.dataOf newAt
  obtain ⟨data, kind⟩ := counted.dataOf sourceAt
  obtain ⟨vnode, open_, rfl⟩ := nodeOf_some.mp sourceAt
  obtain ⟨stored, at_, rfl⟩ := Option.map_eq_some_iff.mp kind
  simp only [tmpfsLinkAlloc, post_bind, post_readVnode open_, post_directoryNode newAt live]
  by_cases directory : there.kind = .dir
  · obtain ⟨entries, count, rfl⟩ := kind_eq_dir.mp directory
    obtain ⟨parent, parentAt, data⟩ := Option.map_eq_some_iff.mp live
    have find : Post stop (do
        if (← tmpfsDirentFind newDir newName).isSome then return .error .eexist
        return .error .enomem)
        (fun (answer : Except Errno Unit) next => (∃ code, answer = .error code) ∧ next = state) state := by
      simp only [post_bind, tmpfsDirentFind, post_readNode parentAt, data, post_pure]
      split
      · exact ⟨⟨_, rfl⟩, rfl⟩
      · exact ⟨⟨_, rfl⟩, rfl⟩
    simp only [if_pos directory, post_bind, post_readNode at_]
    cases stored.data with
    | file contents => exact find
    | symlink text => exact find
    | dir inner number => exact ⟨⟨_, rfl⟩, rfl⟩
  · simp only [if_neg directory]
    exact ⟨⟨_, rfl⟩, rfl⟩

/-- The second part of `vfs_rename` moves the entry, or it leaves the entries as they are. -/
theorem Mounted.moveEntryAlloc_effect (mounted : Mounted state held root) (tree : Tree state.tmpfs)
    (oldAt : state.nodeOf oldParent = some oldDir) (newAt : state.nodeOf newParent = some newDir)
    (sourceAt : state.nodeOf oldVnode = some source) :
    Post stop (moveEntryAlloc room oldpath newpath oldVnode oldParent newParent oldName newName)
      (fun answer next => Mounted next held root ∧ match answer with
        | .error _ => ¬ Moves room state.tmpfs source oldDir oldName newDir newName ∧
            Turns state.tmpfs next.tmpfs state.tmpfs.entry state.tmpfs.kindOf
        | .ok () => Moves room state.tmpfs source oldDir oldName newDir newName ∧
            Turns state.tmpfs next.tmpfs (movedEntries state.tmpfs.entry source oldDir oldName newDir newName)
              state.tmpfs.kindOf) state := by
  obtain ⟨there, live⟩ := mounted.counted.dataOf newAt
  obtain ⟨data, kind⟩ := mounted.counted.dataOf sourceAt
  cases room with
  | false =>
      simp only [moveEntryAlloc, post_bind]
      apply (post_tmpfsLinkAlloc_false mounted.counted newAt sourceAt).mono
      rintro answer next ⟨⟨code, rfl⟩, rfl⟩
      exact ⟨mounted, fun moves => absurd moves.1 (by simp), .refl _⟩
  | true =>
      simp only [moveEntryAlloc, tmpfsLinkAlloc, post_bind]
      apply (tree.tmpfsLink_effect newAt live sourceAt kind).mono
      intro answer linked effect
      cases answer with
      | error code =>
          obtain ⟨rfl, refused⟩ := effect
          exact ⟨mounted, fun moves => refused moves.2.1, .refl _⟩
      | ok _ =>
          obtain ⟨linkable, firm, becomes, _⟩ := effect
          have linkedMounted := mounted.becomes becomes
          have oldStill : linked.nodeOf oldParent = some oldDir := by rw [becomes.nodeOf, oldAt]
          have newStill : linked.nodeOf newParent = some newDir := by rw [becomes.nodeOf, newAt]
          obtain ⟨oldData, oldNow⟩ := linkedMounted.counted.dataOf oldStill
          obtain ⟨newData, newNow⟩ := linkedMounted.counted.dataOf newStill
          simp only [post_bind]
          apply (firm.tmpfsUnlink oldStill oldNow).mono
          rintro answer unlinked ⟨unbound, _⟩
          cases answer with
          | ok _ =>
              obtain ⟨present, gone⟩ := unbound
              rw [becomes.entry] at present gone
              rw [becomes.kinds] at gone
              have done := becomes.trans gone
              simp only [post_bind]
              apply ((mounted.becomes done).vfsDentryRemove oldpath).mono
              rintro _ first ⟨firstMounted, firstKeeps⟩
              apply (firstMounted.vfsDentryRemove newpath).seq
              rintro _ second ⟨secondMounted, secondKeeps⟩
              refine ⟨secondMounted, ⟨rfl, linkable, present⟩, ?_⟩
              rw [secondKeeps.tmpfs, firstKeeps.tmpfs]
              exact done.toTurns
          | error code =>
              obtain ⟨rfl, absent⟩ := unbound
              rw [becomes.entry] at absent
              simp only [post_bind]
              apply (firm.tmpfsUnlink newStill newNow).mono
              rintro answer undone ⟨unbound, _⟩
              refine ⟨?_, fun moves => absent moves.2.2, ?_⟩
              · cases answer with
                | error code => exact unbound.1 ▸ linkedMounted
                | ok _ => exact linkedMounted.becomes unbound.2
              · cases answer with
                | error code =>
                    rw [becomes.entry, rebind_self] at unbound
                    exact absurd (by simp) unbound.2
                | ok _ =>
                    have gone := unbound.2
                    rw [becomes.entry, becomes.kinds, rebind_idem, rebind_eq linkable.2.2] at gone
                    exact (becomes.trans gone).toTurns

end Steps

/-- `vfs_rename` removes the entry under the new path and cannot make a new one: the old node is a
directory, the memory for the entry is missing, or the old path names no entry of its parent. -/
def Loses (room : Bool) (tmpfs : Tmpfs) (root : NodeId) (oldpath newpath : Str) : Prop :=
  ∃ source oldDir newDir, RenameNodes tmpfs root oldpath newpath source oldDir newDir ∧
    Replaces tmpfs root newpath source newDir (vfsBasename newpath) ∧
    (tmpfs.kindOf source = some .dir ∨ room = false ∨ tmpfs.entry oldDir (vfsBasename oldpath) = none)

/-- What `vfs_rename` does to the entries. -/
def Renamed (room : Bool) (tmpfs next : Tmpfs) (root : NodeId) (oldpath newpath : Str) :
    Except Errno Unit → Prop
  | .error _ => ¬ Loses room tmpfs root oldpath newpath ∧ Turns tmpfs next tmpfs.entry tmpfs.kindOf ∨
      Loses room tmpfs root oldpath newpath ∧ ∃ newDir, tmpfs.entry newDir (vfsBasename newpath) ≠ none ∧
        Turns tmpfs next (rebind tmpfs.entry newDir (vfsBasename newpath) none) tmpfs.kindOf
  | .ok () => ¬ Loses room tmpfs root oldpath newpath ∧ ∃ source oldDir newDir,
      RenameNodes tmpfs root oldpath newpath source oldDir newDir ∧ tmpfs.kindOf source ≠ some .dir ∧
      tmpfs.kindOf newDir = some .dir ∧
      (Replaces tmpfs root newpath source newDir (vfsBasename newpath) ∨
        ∃ code, Resolves tmpfs root newpath true (.error code)) ∧
      (tmpfs.entry oldDir (vfsBasename oldpath) ≠ none ∨
        oldDir = newDir ∧ vfsBasename oldpath = vfsBasename newpath) ∧
      Turns tmpfs next (movedEntries tmpfs.entry source oldDir (vfsBasename oldpath) newDir (vfsBasename newpath))
        tmpfs.kindOf

section Nodes

variable {tmpfs : Tmpfs} {root : NodeId} {oldpath newpath : Str} {source oldDir newDir : NodeId} {room : Bool}

theorem RenameNodes.loses_iff (nodes : RenameNodes tmpfs root oldpath newpath source oldDir newDir) :
    Loses room tmpfs root oldpath newpath ↔
      Replaces tmpfs root newpath source newDir (vfsBasename newpath) ∧
      (tmpfs.kindOf source = some .dir ∨ room = false ∨ tmpfs.entry oldDir (vfsBasename oldpath) = none) := by
  constructor
  · rintro ⟨other, oldOther, newOther, again, loses⟩
    cases again.source.unique nodes.source
    cases again.old.unique nodes.old
    cases again.new.unique nodes.new
    exact loses
  · exact fun loses => ⟨source, oldDir, newDir, nodes, loses⟩

end Nodes

section Rename

variable {state : VfsState} {held : VnodeId → Nat} {root : NodeId} {fuel : Nat} {oldpath newpath : Str}
  {room : Bool}

/-- The move behind a removal, in terms of the tree in front of it. -/
theorem RenameNodes.renamed_replaced {tmpfs middle next : Tmpfs} {source oldDir newDir : NodeId}
    (nodes : RenameNodes tmpfs root oldpath newpath source oldDir newDir)
    (replaces : Replaces tmpfs root newpath source newDir (vfsBasename newpath))
    (removal : Turns tmpfs middle (rebind tmpfs.entry newDir (vfsBasename newpath) none) tmpfs.kindOf)
    {answer : Except Errno Unit}
    (move : match answer with
      | .error _ => ¬ Moves room middle source oldDir (vfsBasename oldpath) newDir (vfsBasename newpath) ∧
          Turns middle next middle.entry middle.kindOf
      | .ok () => Moves room middle source oldDir (vfsBasename oldpath) newDir (vfsBasename newpath) ∧
          Turns middle next
            (movedEntries middle.entry source oldDir (vfsBasename oldpath) newDir (vfsBasename newpath))
            middle.kindOf) : Renamed room tmpfs next root oldpath newpath answer := by
  have present := replaces.entry_ne
  have directory : tmpfs.kindOf newDir = some .dir := by
    obtain ⟨node, bound⟩ := Option.ne_none_iff_exists'.mp present
    exact kindOf_of_entry bound
  have moves : Moves room middle source oldDir (vfsBasename oldpath) newDir (vfsBasename newpath) ↔
      ¬ Loses room tmpfs root oldpath newpath := by
    rw [nodes.loses_iff]
    simp only [Moves, Tmpfs.Linkable, removal.entry, removal.kinds, rebind_self, rebind_idem, directory,
      replaces, true_and, and_true, not_or, Bool.not_eq_false]
    by_cases same : oldDir = newDir ∧ vfsBasename oldpath = vfsBasename newpath
    · obtain ⟨rfl, equal⟩ := same
      rw [equal, rebind_self]
      simp only [ne_eq, reduceCtorEq, not_false_eq_true, and_true, present]
      tauto
    · rw [rebind_of_ne same]
      tauto
  cases answer with
  | error code =>
      obtain ⟨stuck, turns⟩ := move
      rw [removal.entry, removal.kinds] at turns
      exact Or.inr ⟨not_not.mp fun safe => stuck (moves.mpr safe), newDir, present, removal.trans turns⟩
  | ok _ =>
      obtain ⟨moved, turns⟩ := move
      have safe := moves.mp moved
      rw [removal.entry, removal.kinds, movedEntries, rebind_idem] at turns
      obtain ⟨_, ⟨plain, _⟩, kept⟩ := moved
      rw [removal.kinds] at plain
      rw [removal.entry, rebind_idem] at kept
      refine ⟨safe, source, oldDir, newDir, nodes, plain, directory, Or.inl replaces, ?_, removal.trans turns⟩
      by_cases same : oldDir = newDir ∧ vfsBasename oldpath = vfsBasename newpath
      · exact Or.inr same
      · rw [rebind_of_ne same] at kept
        exact Or.inl kept

/-- The move when nothing was removed before. -/
theorem RenameNodes.renamed_free {tmpfs next : Tmpfs} {source oldDir newDir : NodeId}
    (nodes : RenameNodes tmpfs root oldpath newpath source oldDir newDir)
    (free : ¬ Replaces tmpfs root newpath source newDir (vfsBasename newpath)) {answer : Except Errno Unit}
    (move : match answer with
      | .error _ => Turns tmpfs next tmpfs.entry tmpfs.kindOf
      | .ok () => (∃ code, Resolves tmpfs root newpath true (.error code)) ∧
          Moves room tmpfs source oldDir (vfsBasename oldpath) newDir (vfsBasename newpath) ∧
          Turns tmpfs next
            (movedEntries tmpfs.entry source oldDir (vfsBasename oldpath) newDir (vfsBasename newpath))
            tmpfs.kindOf) : Renamed room tmpfs next root oldpath newpath answer := by
  have safe : ¬ Loses room tmpfs root oldpath newpath := fun loses => free (nodes.loses_iff.mp loses).1
  cases answer with
  | error code => exact Or.inl ⟨safe, move⟩
  | ok _ =>
      obtain ⟨missing, ⟨_, ⟨plain, directory, _⟩, kept⟩, turns⟩ := move
      refine ⟨safe, source, oldDir, newDir, nodes, plain, directory, Or.inr missing, ?_, turns⟩
      by_cases same : oldDir = newDir ∧ vfsBasename oldpath = vfsBasename newpath
      · exact Or.inr same
      · rw [rebind_of_ne same] at kept
        exact Or.inl kept

/-- A reference is given back and the tree stays. -/
theorem Mounted.release {α : Type} {stop : Fault → Prop} {id : VnodeId} {answer : α}
    {after : α → VfsState → Prop} (mounted : Mounted state (held + Pi.single id 1) root)
    (implies : ∀ next, Mounted next held root → next.tmpfs = state.tmpfs → after answer next) :
    Post stop (do vfsVnodeUnref id; return answer) after state := by
  apply mounted.counted.vfsVnodeUnref.seq
  rintro _ next ⟨counted, keeps, _⟩
  exact implies next (mounted.keep keeps counted) keeps.tmpfs

/-- `vfs_rename` moves the entry or fails, and the predicate says when a failure loses an entry. -/
theorem Ready.vfsRenameAlloc_effect (ready : Ready state held root) :
    Post (· = .outOfFuel) (vfsRenameAlloc room fuel oldpath newpath) (fun answer next => Mounted next held root ∧
      Renamed room state.tmpfs next.tmpfs root oldpath newpath answer) state := by
  refine @Ready.vfsRename_post _ _ _ _ _ _ _ _ ready (fun held answer next => Mounted next held root ∧
    Renamed room state.tmpfs next.tmpfs root oldpath newpath answer) (fun _ _ => rfl) ?_ ?_ ?_
  · rintro held id answer middle ⟨mounted, renamed⟩
    refine mounted.release fun final after same => ⟨after, ?_⟩
    rw [same]
    exact renamed
  · -- A failure in front of the removal changes nothing and means that some node is missing.
    intro code held next kept same missing
    refine ⟨kept.mounted, Or.inl ⟨?_, by rw [same]; exact .refl _⟩⟩
    rintro ⟨source, oldDir, newDir, nodes, _⟩
    exact missing source oldDir newDir nodes
  · intro oldVnode oldParent newParent source oldDir newDir third thirdReady looking nodes sourceAt oldAt newAt
    refine Post.seq (thirdReady.removeTarget (fun _ => rfl) newAt (by simp) sourceAt (by simp)) ?_
    rintro answer middle ⟨removed, behind, _, _, kept, outcome⟩
    rw [looking.tmpfs] at outcome
    cases answer with
    | error code =>
        obtain ⟨_, same, free⟩ := outcome
        refine ⟨behind.mounted, ?_⟩
        rw [same]
        exact nodes.renamed_free free (Turns.refl _)
    | ok _ =>
        have sourceNow := kept oldVnode source (by simp) sourceAt
        have oldNow := kept oldParent oldDir (by simp) oldAt
        have newNow := kept newParent newDir (by simp) newAt
        apply (behind.mounted.moveEntryAlloc_effect behind.tree oldNow newNow sourceNow).mono
        rintro answer moved ⟨after, move⟩
        refine ⟨after, ?_⟩
        obtain ⟨_, replaces, removal⟩ | ⟨_, unchanged, code, missing⟩ := outcome
        · exact nodes.renamed_replaced replaces removal move
        · rw [unchanged] at move
          refine nodes.renamed_free ?_ ?_
          · rintro ⟨target, found, _⟩
            exact absurd (found.unique missing) (by simp)
          · cases answer with
            | error code => exact move.2
            | ok _ => exact ⟨⟨_, missing⟩, move⟩

end Rename

/-- For every tree with a sound cache and all paths, whether the allocations succeed or not: a failed
`vfs_rename` leaves every entry as it was if and only if the call does not lose the entry under the new
path. -/
theorem vfsRename_failure_iff {state next : VfsState} {held : VnodeId → Nat} {root : NodeId}
    (ready : Ready state held root) {room : Bool} {fuel : Nat} {oldpath newpath : Str}
    {answer : Except Errno Unit} (ran : vfsRenameAlloc room fuel oldpath newpath state = .ok answer next) :
    (∀ code, answer = .error code → next.tmpfs.entry = state.tmpfs.entry) ↔
      ¬ Loses room state.tmpfs root oldpath newpath := by
  have run : Post (· = .outOfFuel) (vfsRenameAlloc room fuel oldpath newpath) (fun answer next =>
      Mounted next held root ∧ Renamed room state.tmpfs next.tmpfs root oldpath newpath answer) state :=
    ready.vfsRenameAlloc_effect
  rw [Post, ran] at run
  obtain ⟨_, renamed⟩ := run
  cases answer with
  | ok _ => exact ⟨fun _ => renamed.1, fun _ code failed => absurd failed (by simp)⟩
  | error code =>
      obtain ⟨safe, turns⟩ | ⟨loses, newDir, present, turns⟩ := renamed
      · exact ⟨fun _ => safe, fun _ _ _ => turns.entry⟩
      · refine ⟨fun unchanged => ?_, fun safe => absurd loses safe⟩
        have same := unchanged code rfl
        rw [turns.entry] at same
        have gone := congrFun (congrFun same newDir) (vfsBasename newpath)
        rw [rebind_self] at gone
        exact absurd gone.symm present

/-- The file `/f` is renamed to the directory `/x` in vain. -/
theorem vfsRename_failure_iff_directory :
    answerOf (vfsRenameAlloc true 1 [47, 102] [47, 120]) relativeTree = some (.error .eisdir) ∧
    (finalState (vfsRenameAlloc true 1 [47, 102] [47, 120]) relativeTree).tmpfs.entry = relativeTree.tmpfs.entry := by
  obtain ⟨held, ready⟩ := ready_relativeTree
  have answered : answerOf (vfsRenameAlloc true 1 [47, 102] [47, 120]) relativeTree = some (.error .eisdir) := by
    decide +kernel
  refine ⟨answered, (vfsRename_failure_iff ready (ran_of_answerOf answered)).mpr ?_ .eisdir rfl⟩
  rintro ⟨source, oldDir, newDir, nodes, ⟨target, found, ⟨kind, _⟩ | ⟨_, kind, _⟩⟩, _⟩
  · have file : Resolves relativeTree.tmpfs 0 [47, 102] true (.ok 5) := ⟨1, by decide +kernel⟩
    cases nodes.source.unique file
    exact absurd kind (by decide +kernel)
  · have directory : Resolves relativeTree.tmpfs 0 [47, 120] true (.ok 1) := ⟨1, by decide +kernel⟩
    cases found.unique directory
    exact kind (by decide +kernel)

/-- The state after the directories `/a` and `/b` were made. -/
def afterTwo : VfsState :=
  finalState (callAll (nameCall 1) [.mkdir [47, 97] 0x1ED, .mkdir [47, 98] 0x1ED]) mountedRoot

/-- A directory is renamed to an empty one: the call fails and the empty one is gone. -/
theorem vfsRename_loses_directory :
    (match vfsRename 1 [47, 97] [47, 98] afterTwo with
      | .ok answer _ => some answer
      | .error _ _ => none) = some (.error .eperm) ∧
    afterTwo.tmpfs.entry 0 [98] = some 2 ∧
    (finalState (vfsRename 1 [47, 97] [47, 98]) afterTwo).tmpfs.entry 0 [98] = none := by
  refine ⟨by decide +kernel, by decide +kernel, by decide +kernel⟩

end Uesi.Vfs
