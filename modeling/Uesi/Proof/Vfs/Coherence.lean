import Uesi.Proof.Vfs.Names
import Uesi.Proof.Vfs.Counts

namespace Uesi.Vfs

open Library

variable {removed : NodeId → Str → Prop} {key : Str} {paths : List Str} {dir : NodeId}

/-- A call that works on names alone, unlike `vfs_open`. -/
def NameOp.Names : NameOp → Prop
  | .openFile _ _ _ => False
  | _ => True

/-- No path that is cached, or that the lookups of a call may cache, reads an entry that the call
removes, except for the paths that the call drops from the cache. -/
def Spared (state : VfsState) (root : NodeId) (lookups dropped : List Str) (removed : NodeId → Str → Prop) :
    Prop :=
  ∀ dir name, removed dir name → ∀ key, state.Cached key ∨ LooksUp state.tmpfs root lookups key →
    key ∉ dropped → ¬ KeyReads state.tmpfs root key dir name

/-- `vfs_rename` removes the entry under the new path: what the path leads to has the type of the old
node, and the entry can be removed by the call for that type. -/
def Replaces (tmpfs : Tmpfs) (root : NodeId) (newpath : Str) (source newDir : NodeId) (newName : Str) : Prop :=
  ∃ target, Resolves tmpfs root newpath true (.ok target) ∧
    (tmpfs.kindOf source = some .dir ∧ tmpfs.kindOf target = some .dir ∧ tmpfs.Vacant newDir newName ∨
      tmpfs.kindOf source ≠ some .dir ∧ tmpfs.kindOf target ≠ some .dir ∧ tmpfs.entry newDir newName ≠ none)

/-- The nodes that `vfs_rename` works on. -/
structure RenameNodes (tmpfs : Tmpfs) (root : NodeId) (oldpath newpath : Str) (source oldDir newDir : NodeId) :
    Prop where
  source : Resolves tmpfs root oldpath true (.ok source)
  old : ParentEntry tmpfs root oldpath oldDir (vfsBasename oldpath)
  new : ParentEntry tmpfs root newpath newDir (vfsBasename newpath)

/-- `vfs_rename` removes the old entry: the node can be linked under the new name, whose entry is removed or
missing, and the old entry is there. -/
def Unlinks (tmpfs : Tmpfs) (root : NodeId) (newpath : Str) (source oldDir : NodeId) (oldName : Str)
    (newDir : NodeId) (newName : Str) : Prop :=
  tmpfs.entry oldDir oldName ≠ none ∧
    (Replaces tmpfs root newpath source newDir newName ∧ tmpfs.kindOf source ≠ some .dir ∨
      tmpfs.Linkable newDir newName source ∧ ∃ code, Resolves tmpfs root newpath true (.error code))

/-- The entries that `vfs_rename` removes. -/
def RenameRemoves (tmpfs : Tmpfs) (root : NodeId) (oldpath newpath : Str) (dir : NodeId) (name : Str) : Prop :=
  ∃ source oldDir newDir, RenameNodes tmpfs root oldpath newpath source oldDir newDir ∧
    (Replaces tmpfs root newpath source newDir (vfsBasename newpath) ∧ dir = newDir ∧ name = vfsBasename newpath ∨
      Unlinks tmpfs root newpath source oldDir (vfsBasename oldpath) newDir (vfsBasename newpath) ∧
        dir = oldDir ∧ name = vfsBasename oldpath)

/-- A `vfs_rename` that removes the entry under the new path can be completed. -/
def Movable (tmpfs : Tmpfs) (root : NodeId) (oldpath newpath : Str) : Prop :=
  ∀ source oldDir newDir, RenameNodes tmpfs root oldpath newpath source oldDir newDir →
    Replaces tmpfs root newpath source newDir (vfsBasename newpath) →
    tmpfs.kindOf source ≠ some .dir ∧ tmpfs.entry oldDir (vfsBasename oldpath) ≠ none

/-- The lookups of `vfs_rename`. -/
def renameLookups (oldpath newpath : Str) : List Str :=
  oldpath :: ((vfsDirname oldpath).toList ++ ((vfsDirname newpath).toList ++ [newpath]))

/-- A call that removes an entry drops every cached path that reads it, a rename over an existing path
can be completed, and no link count wraps. -/
def Admissible (state : VfsState) (root : NodeId) : NameOp → Prop
  | .unlink path => Spared state root ((vfsDirname path).toList ++ [path]) [] fun dir name =>
      ParentEntry state.tmpfs root path dir name ∧ (∃ target, Resolves state.tmpfs root path true (.ok target)) ∧
        state.tmpfs.entry dir name ≠ none
  | .rmdir path => Spared state root (vfsDirname path).toList [path] fun dir name =>
      ParentEntry state.tmpfs root path dir name ∧ state.tmpfs.Vacant dir name
  | .rename oldpath newpath =>
      FewLinks state.tmpfs ∧ Movable state.tmpfs root oldpath newpath ∧
      Spared state root (renameLookups oldpath newpath) [oldpath, newpath]
        (RenameRemoves state.tmpfs root oldpath newpath)
  | .link _ _ => FewLinks state.tmpfs
  | _ => True

section Removals

variable {state middle next : VfsState} {held : VnodeId → Nat} {root : NodeId} {fuel : Nat}

theorem Looked.cached {visits : Str → Prop} (looked : Looked state next visits) (cached : next.Cached key) :
    state.Cached key ∨ visits key := by
  obtain ⟨hash, dentry, member, rfl⟩ := cached
  exact (looked.dentries hash dentry member).imp_left fun earlier => ⟨hash, dentry, earlier, rfl⟩

theorem LooksUp.mono {tmpfs : Tmpfs} {more : List Str} (looks : LooksUp tmpfs root paths key) (subset : paths ⊆ more) :
    LooksUp tmpfs root more key := by
  obtain ⟨path, member, caches⟩ := looks
  exact ⟨path, subset member, caches⟩

/-- The lookups of a call so far. -/
def Looking (state next : VfsState) (root : NodeId) (paths : List Str) : Prop :=
  Looked state next (LooksUp state.tmpfs root paths)

theorem Looking.tmpfs (looking : Looking state next root paths) : next.tmpfs = state.tmpfs :=
  looking.keeps.tmpfs

theorem Looking.more {later all : List Str} (first : Looking state middle root paths)
    (second : Looking middle next root later) (earlier : paths ⊆ all) (now : later ⊆ all) :
    Looking state next root all := by
  have same : middle.tmpfs = state.tmpfs := first.tmpfs
  unfold Looking at second
  rw [same] at second
  exact (first.mono fun _ looks => looks.mono earlier).trans (second.mono fun _ looks => looks.mono now)

theorem Looking.single {path : Str} (looked : Looked state next (Caches state.tmpfs root true path)) :
    Looking state next root [path] :=
  looked.mono fun _ caches => ⟨path, List.mem_singleton_self path, caches⟩

/-- What a call spares is not read by the paths that are cached when it removes an entry. -/
theorem Spared.not_reads {lookups dropped : List Str} (spared : Spared state root lookups dropped removed)
    (looking : Looking state next root lookups) (cached : next.Cached key) (kept : key ∉ dropped) {name : Str}
    (reads : KeyReads state.tmpfs root key dir name) : ¬ removed dir name :=
  fun lost => spared dir name lost key (looking.cached cached) kept reads

theorem Ready.vfsRmdir (ready : Ready state held root) {path : Str} (spared : Admissible state root (.rmdir path)) :
    Returns (vfsRmdir fuel path) (Ready · held root) state := by
  refine ready.withParent fun parent dir middle ready looking found entry => ?_
  obtain ⟨there, live⟩ := ready.dataOf found
  simp only [Returns, post_bind]
  apply (ready.tree.firm.tmpfsRmdir found live).mono
  rintro answer removed ⟨unbound, effect⟩
  obtain ⟨rfl, mutated, _⟩ | ⟨⟨code, rfl⟩, rfl⟩ := effect ready.tree
  · simp only [post_bind]
    apply ((ready.behind.mutate mutated).vfsDentryRemove path).mono
    rintro _ next ⟨behind, fewer, _⟩
    refine behind.ready fun key cached lost gone reads removed => ?_
    obtain ⟨was, differs⟩ := fewer key cached
    obtain never | ⟨rfl, rfl⟩ := removed
    · exact never
    · rw [Looking.tmpfs looking] at reads
      exact Spared.not_reads spared looking (mutated.cached was) (by simpa using differs) reads
        ⟨entry, Looking.tmpfs looking ▸ unbound.1⟩
  · exact ready

theorem Ready.vfsUnlink (ready : Ready state held root) {path : Str}
    (spared : Admissible state root (.unlink path)) :
    Returns (vfsUnlink fuel path) (Ready · held root) state := by
  refine ready.withParent fun parent dir middle ready looking found entry => ?_
  simp only [Returns, post_bind]
  apply (ready.vfsLookup fuel path).mono
  rintro answer opened ⟨looked, answered⟩
  rw [Looking.tmpfs looking] at answered
  have looking : Looking state opened root ((vfsDirname path).toList ++ [path]) :=
    Looking.more looking (.single looked) (List.subset_append_left _ _) (List.subset_append_right _ _)
  cases answer with
  | error code => exact answered.1
  | ok target =>
      obtain ⟨taken, node, pointed, resolved⟩ := answered
      have still : opened.nodeOf parent = some dir := by
        refine ready.nodeOf looked taken ?_ found
        simp only [Pi.add_apply, Pi.single_eq_same]
        omega
      obtain ⟨there, live⟩ := taken.dataOf still
      simp only [post_bind]
      apply (taken.tree.firm.tmpfsUnlink still live).mono
      rintro answer next ⟨unbound, effect⟩
      obtain ⟨rfl, mutated, _⟩ | ⟨⟨code, rfl⟩, rfl⟩ := effect taken.tree
      · have kept : Ready next (held + Pi.single parent 1 + Pi.single target 1) root := by
          refine (taken.behind.mutate mutated).ready fun key cached lost gone reads removed => ?_
          obtain never | ⟨rfl, rfl⟩ := removed
          · exact never
          · rw [looking.tmpfs] at reads
            exact Spared.not_reads spared looking (mutated.cached cached) (by simp) reads
              ⟨entry, ⟨node, resolved⟩, looking.tmpfs ▸ unbound.1⟩
        exact kept.release fun _ kept => kept
      · exact taken.release fun _ kept => kept

end Removals

section Rename

variable {stop : Fault → Prop} {state : VfsState} {held : VnodeId → Nat} {root : NodeId} {fuel : Nat}
  {oldVnode oldParent newParent : VnodeId} {source oldDir newDir : NodeId} {oldName newName : Str}
  {oldpath newpath : Str} {room : Bool}

theorem Behind.dataOf {origin : Tmpfs} (behind : Behind origin removed state held root) {id : VnodeId} {node : NodeId}
    (found : state.nodeOf id = some node) : ∃ data, state.tmpfs.dataOf node = some data :=
  behind.counted.dataOf found

theorem Replaces.entry_ne {tmpfs : Tmpfs} (replaces : Replaces tmpfs root newpath source newDir newName) :
    tmpfs.entry newDir newName ≠ none := by
  obtain ⟨target, _, ⟨_, _, vacant⟩ | ⟨_, _, present⟩⟩ := replaces
  · obtain ⟨node, entries, bound, _⟩ := vacant
    simp [bound]
  · exact present

/-- The type test of a vnode reads the kind of its node. -/
theorem Counted.hasType_dir (counted : Counted state held) {id : VnodeId} {vnode : Vnode}
    (found : state.vnodes id = some vnode) :
    vnode.hasType vfsIfdir = true ↔ state.tmpfs.kindOf vnode.node = some .dir := by
  obtain ⟨node, there, _⟩ := counted.typed id vnode found
  have data : state.tmpfs.dataOf vnode.node = some node.data := by rw [Tmpfs.dataOf, there]; rfl
  rw [counted.hasType found data, vfsType_ifdir, kindOf_of_dataOf data]
  cases node.data <;> simp [TmpfsData.kind]

/-- The first part of `vfs_rename` removes the entry under the new path, refuses to do so, or finds none. -/
theorem Ready.removeTarget (ready : Ready state held root)
    (allowed : resolve state.tmpfs root fuel newpath true = none → stop .outOfFuel)
    (newAt : state.nodeOf newParent = some newDir) (newHeld : 0 < held newParent)
    (sourceAt : state.nodeOf oldVnode = some source) (oldHeld : 0 < held oldVnode) :
    Post stop (removeTarget fuel newpath oldVnode newParent newName) (fun answer next =>
      ∃ removed, Behind state.tmpfs removed next held root ∧ (FewLinks state.tmpfs → FewLinks next.tmpfs) ∧
        (∀ key, next.Cached key → state.Cached key ∨ Caches state.tmpfs root true newpath key) ∧
        (∀ id node, 0 < held id → state.nodeOf id = some node → next.nodeOf id = some node) ∧
        match answer with
        | .error _ => (∀ dir name, ¬ removed dir name) ∧ next.tmpfs = state.tmpfs ∧
            ¬ Replaces state.tmpfs root newpath source newDir newName
        | .ok () => ((∀ dir name, removed dir name → dir = newDir ∧ name = newName) ∧
              Replaces state.tmpfs root newpath source newDir newName ∧
              Turns state.tmpfs next.tmpfs (rebind state.tmpfs.entry newDir newName none) state.tmpfs.kindOf) ∨
            ((∀ dir name, ¬ removed dir name) ∧ next.tmpfs = state.tmpfs ∧
              ∃ code, Resolves state.tmpfs root newpath true (.error code))) state := by
  simp only [Vfs.removeTarget, post_bind]
  apply (ready.vfsLookup_post allowed).mono
  rintro answer opened ⟨looked, answered⟩
  have tree : opened.tmpfs = state.tmpfs := looked.keeps.tmpfs
  cases answer with
  | error code =>
      obtain ⟨kept, resolved⟩ := answered
      refine ⟨_, tree ▸ kept.behind, fun few => tree ▸ few, fun _ => looked.cached, ?_,
        Or.inr ⟨fun _ _ => id, tree, code, resolved⟩⟩
      intro id node holds found
      exact ready.nodeOf looked kept holds found
  | ok target =>
      obtain ⟨taken, node, pointed, resolved⟩ := answered
      have kept (id : VnodeId) (node : NodeId) (holds : 0 < held id) (found : state.nodeOf id = some node) :
          opened.nodeOf id = some node := by
        refine ready.nodeOf looked taken ?_ found
        rw [Pi.add_apply]
        omega
      have newStill := kept newParent newDir newHeld newAt
      obtain ⟨there, live⟩ := taken.dataOf newStill
      obtain ⟨oldLive, oldFound, oldNode⟩ := nodeOf_some.mp (kept oldVnode source oldHeld sourceAt)
      obtain ⟨targetLive, targetFound, targetNode⟩ := nodeOf_some.mp pointed
      simp only [post_bind, post_readVnode oldFound, post_readVnode targetFound]
      have oldType := taken.sound.counted.hasType_dir oldFound
      have targetType := taken.sound.counted.hasType_dir targetFound
      rw [oldNode, tree] at oldType
      rw [targetNode, tree] at targetType
      have replaces : Replaces state.tmpfs root newpath source newDir newName ↔
          (oldLive.hasType vfsIfdir = true ∧ targetLive.hasType vfsIfdir = true ∧
              opened.tmpfs.Vacant newDir newName ∨
            oldLive.hasType vfsIfdir ≠ true ∧ targetLive.hasType vfsIfdir ≠ true ∧
              opened.tmpfs.entry newDir newName ≠ none) := by
        rw [ne_eq, ne_eq, oldType, targetType, tree]
        constructor
        · rintro ⟨other, again, types⟩
          cases again.unique resolved
          exact types
        · exact fun types => ⟨node, resolved, types⟩
      -- Whatever the types of the two nodes are, the entry under the new path is removed or nothing happens.
      have removal : Post stop
          (removeByType (oldLive.hasType vfsIfdir) (targetLive.hasType vfsIfdir) newParent newName)
          (fun answer next => Unbound opened next newDir newName
            (Replaces state.tmpfs root newpath source newDir newName) answer ∧
              Removed opened next newDir newName answer) opened := by
        rw [replaces]
        cases oldLive.hasType vfsIfdir <;> cases targetLive.hasType vfsIfdir
        · apply (taken.tree.firm.tmpfsUnlink newStill live).mono
          rintro answer next ⟨unbound, removed⟩
          exact ⟨by simpa using unbound, removed taken.tree⟩
        · exact ⟨⟨rfl, by simp⟩, removed_of_error⟩
        · exact ⟨⟨rfl, by simp⟩, removed_of_error⟩
        · apply (taken.tree.firm.tmpfsRmdir newStill live).mono
          rintro answer next ⟨unbound, removed⟩
          exact ⟨by simpa using unbound, removed taken.tree⟩
      apply removal.mono
      rintro answer removed ⟨unbound, ⟨rfl, mutated, gone, fewer⟩ | ⟨⟨code, rfl⟩, rfl⟩⟩
      · have behind := taken.behind.mutate mutated
        apply behind.vfsVnodeUnref.seq
        rintro _ next ⟨after, keeps, chains⟩
        have turns := unbound.2.toTurns
        rw [← keeps.tmpfs] at fewer turns
        rw [tree] at after fewer turns
        refine ⟨_, after, fewer, ?_, ?_, Or.inl ⟨?_, unbound.1, turns⟩⟩
        · rintro key ⟨hash, dentry, member, rfl⟩
          rw [chains] at member
          exact looked.cached (mutated.cached ⟨hash, dentry, member, rfl⟩)
        · intro id node holds found
          refine keeps.nodeOf_eq behind.counted after.counted ?_ (by omega)
          rw [mutated.nodeOf, kept id node holds found]
        · rintro dir name (never | same)
          · exact never.elim
          · exact same
      · apply taken.vfsVnodeUnref.seq
        rintro _ next ⟨after, released⟩
        have same : next.tmpfs = state.tmpfs := released.keeps.tmpfs.trans tree
        refine ⟨_, same ▸ after.behind, fun few => same ▸ few, ?_, ?_, fun _ _ => id, same, unbound.2⟩
        · intro key cached
          obtain earlier | never := released.cached cached
          · exact looked.cached earlier
          · exact never.elim
        · intro id node holds found
          exact taken.nodeOf released after holds (kept id node holds found)

/-- The second part of `vfs_rename` leaves the cache sound, when it completes or had nothing removed before. -/
theorem Behind.moveEntry {origin : Tmpfs} (behind : Behind origin removed state held root)
    (few : FewLinks state.tmpfs) (oldAt : state.nodeOf oldParent = some oldDir)
    (newAt : state.nodeOf newParent = some newDir) (sourceAt : state.nodeOf oldVnode = some source)
    (certain : (∀ dir name, ¬ removed dir name) ∧ state.tmpfs = origin ∨
      (∀ dir name, removed dir name → dir = newDir ∧ name = newName) ∧
        state.tmpfs.kindOf source ≠ some .dir ∧ entryOf state.tmpfs newDir newName = .error .enoent ∧
        ∃ target, entryOf origin oldDir oldName = .ok target)
    (spared : ∀ key, state.Cached key → key ≠ oldpath → key ≠ newpath → ∀ dir name,
      KeyReads origin root key dir name → state.tmpfs.Linkable newDir newName source →
      ¬ (removed dir name ∨ origin.entry oldDir oldName ≠ none ∧ dir = oldDir ∧ name = oldName)) :
    Returns (moveEntryAlloc true oldpath newpath oldVnode oldParent newParent oldName newName)
      (Ready · held root) state := by
  obtain ⟨there, live⟩ := behind.dataOf newAt
  obtain ⟨data, kind⟩ := behind.dataOf sourceAt
  simp only [Returns, moveEntryAlloc, tmpfsLinkAlloc, post_bind]
  apply (behind.tree.tmpfsLink newAt live sourceAt kind (few source)).mono
  rintro answer linked (⟨rfl, mutated, present, linkable⟩ | ⟨⟨code, rfl⟩, rfl, reason⟩)
  · have added := behind.mutate mutated
    have oldStill : linked.nodeOf oldParent = some oldDir := by rw [mutated.nodeOf, oldAt]
    have newStill : linked.nodeOf newParent = some newDir := by rw [mutated.nodeOf, newAt]
    obtain ⟨oldData, oldLive⟩ := added.dataOf oldStill
    obtain ⟨newData, newLive⟩ := added.dataOf newStill
    simp only [post_bind]
    apply (mutated.tree.tmpfsUnlink oldStill oldLive).mono
    rintro answer unlinked ⟨⟨rfl, gone, _⟩ | ⟨⟨code, rfl⟩, rfl⟩, succeeds⟩
    · have after : Behind origin (fun dir name => removed dir name ∨
          origin.entry oldDir oldName ≠ none ∧ dir = oldDir ∧ name = oldName) unlinked held root := by
        refine (added.mutate gone).weaken fun dir name target lost was => ?_
        obtain (before | never) | ⟨rfl, rfl⟩ := lost
        · exact Or.inl before
        · exact never.elim
        · exact Or.inr ⟨by simp [entry_some.mpr was], rfl, rfl⟩
      simp only [post_bind]
      apply (after.vfsDentryRemove oldpath).mono
      rintro _ first ⟨behind, fewer, _⟩
      apply (behind.vfsDentryRemove newpath).seq
      rintro _ second ⟨behind, fewest, _⟩
      refine behind.ready fun key cached dir name reads lost => ?_
      obtain ⟨earlier, notNew⟩ := fewest key cached
      obtain ⟨earliest, notOld⟩ := fewer key earlier
      exact spared key (mutated.cached (gone.cached earliest)) notOld notNew dir name reads linkable lost
    · simp only [post_bind]
      apply (mutated.tree.tmpfsUnlink newStill newLive).mono
      rintro _ undone ⟨removal, _⟩
      obtain ⟨nothing, same⟩ | ⟨only, _, _, target, found⟩ := certain
      · -- The new entry that is taken back was not in the older tree.
        have back : Behind origin (fun _ _ => False) undone held root := by
          obtain ⟨_, taken, _⟩ | ⟨_, rfl⟩ := removal
          · refine (added.mutate taken).weaken fun dir name target lost was => ?_
            obtain (before | never) | ⟨rfl, rfl⟩ := lost
            · exact nothing dir name before
            · exact never
            · rw [← same, entryOf_enoent.mpr linkable.2] at was
              exact absurd was (by simp)
          · exact added.weaken fun dir name target lost _ => lost.elim (nothing dir name) id
        exact back.ready fun _ _ _ _ _ => id
      · -- The old entry is still there, in its place or as the new one, so it was removed.
        have still : ∃ target, entryOf unlinked.tmpfs oldDir oldName = .ok target := by
          by_cases same : oldDir = newDir ∧ oldName = newName
          · obtain ⟨rfl, rfl⟩ := same
            exact ⟨source, present⟩
          · refine ⟨target, added.preserves.entries oldDir oldName target ?_ found⟩
            rintro (lost | never)
            · exact same (only oldDir oldName lost)
            · exact never
        obtain ⟨target, there⟩ := still
        exact absurd (succeeds target there) (by simp)
  · obtain ⟨nothing, _⟩ | ⟨_, plain, absent, _⟩ := certain
    · exact behind.ready fun _ _ dir name _ => nothing dir name
    · obtain directory | taken := reason
      · rw [Tmpfs.kindOf, kind, Option.map_some, directory] at plain
        exact absurd rfl plain
      · exact absurd absent taken

/-- `vfs_rename` does behind its lookups what the removal and the move do, or it fails because a node is missing. -/
theorem Ready.vfsRename_post (ready : Ready state held root)
    {good : (VnodeId → Nat) → Except Errno Unit → VfsState → Prop}
    (allowed : ∀ path, resolve state.tmpfs root fuel path true = none → stop .outOfFuel)
    (release : ∀ held id answer middle, good (held + Pi.single id 1) answer middle →
      Post stop (do Vfs.vfsVnodeUnref id; return answer) (good held) middle)
    (failed : ∀ code held next, Ready next held root → next.tmpfs = state.tmpfs →
      (∀ source oldDir newDir, ¬ RenameNodes state.tmpfs root oldpath newpath source oldDir newDir) →
      good held (.error code) next)
    (body : ∀ oldVnode oldParent newParent source oldDir newDir middle,
      Ready middle (held + Pi.single oldVnode 1 + Pi.single oldParent 1 + Pi.single newParent 1) root →
      Looking state middle root (oldpath :: ((vfsDirname oldpath).toList ++ (vfsDirname newpath).toList)) →
      RenameNodes state.tmpfs root oldpath newpath source oldDir newDir → middle.nodeOf oldVnode = some source →
      middle.nodeOf oldParent = some oldDir → middle.nodeOf newParent = some newDir →
      Post stop (do
        match ← Vfs.removeTarget fuel newpath oldVnode newParent (vfsBasename newpath) with
        | .error code => return .error code
        | .ok () =>
            moveEntryAlloc room oldpath newpath oldVnode oldParent newParent
              (vfsBasename oldpath) (vfsBasename newpath))
        (good (held + Pi.single oldVnode 1 + Pi.single oldParent 1 + Pi.single newParent 1)) middle) :
    Post stop (vfsRenameAlloc room fuel oldpath newpath) (good held) state := by
  apply (ready.vfsLookup_post (allowed oldpath)).seq
  rintro answer opened ⟨looked, answered⟩
  have openedTree : opened.tmpfs = state.tmpfs := looked.keeps.tmpfs
  cases answer with
  | error code =>
      obtain ⟨kept, resolved⟩ := answered
      refine failed code held opened kept openedTree fun source oldDir newDir nodes => ?_
      exact absurd (nodes.source.unique resolved) (by simp)
  | ok oldVnode =>
      obtain ⟨ready, source, sourceAt, resolved⟩ := answered
      refine Post.seq (?_ : Post stop _ (good (held + Pi.single oldVnode 1)) _) fun answer next => release _ _ _ _
      refine ready.withParent_post (openedTree ▸ allowed) ?_ ?_
      · intro code next kept same nowhere
        refine failed code _ next kept (same.trans openedTree) fun source oldDir newDir nodes => ?_
        exact nowhere oldDir _ (openedTree ▸ nodes.old)
      · intro oldParent oldDir second secondReady secondLooked oldAt oldEntry
        have secondTree : second.tmpfs = state.tmpfs := secondLooked.keeps.tmpfs.trans openedTree
        refine Post.seq (?_ : Post stop _ (good (held + Pi.single oldVnode 1 + Pi.single oldParent 1)) _)
          fun answer next => release _ _ _ _
        refine secondReady.withParent_post (secondTree ▸ allowed) ?_ ?_
        · intro code next kept same nowhere
          refine failed code _ next kept (same.trans secondTree) fun source oldDir newDir nodes => ?_
          exact nowhere newDir _ (secondTree ▸ nodes.new)
        · intro newParent newDir third thirdReady thirdLooked newAt newEntry
          have looking : Looking state third root
              (oldpath :: ((vfsDirname oldpath).toList ++ (vfsDirname newpath).toList)) := by
            have two : Looking opened third root ((vfsDirname oldpath).toList ++ (vfsDirname newpath).toList) :=
              Looking.more secondLooked thirdLooked (List.subset_append_left _ _) (List.subset_append_right _ _)
            exact Looking.more (.single looked) two (by simp) (List.subset_cons_self _ _)
          have sourceSecond := ready.nodeOf secondLooked secondReady (by simp) sourceAt
          refine Post.seq (body oldVnode oldParent newParent source oldDir newDir third thirdReady looking
            ⟨resolved, openedTree ▸ oldEntry, secondTree ▸ newEntry⟩
            (secondReady.nodeOf thirdLooked thirdReady (by simp) sourceSecond)
            (secondReady.nodeOf thirdLooked thirdReady (by simp) oldAt) newAt) fun answer next => release _ _ _ _

theorem Ready.vfsRename (ready : Ready state held root) (few : FewLinks state.tmpfs)
    (movable : Movable state.tmpfs root oldpath newpath)
    (spared : Spared state root (renameLookups oldpath newpath) [oldpath, newpath]
      (RenameRemoves state.tmpfs root oldpath newpath)) :
    Returns (vfsRename fuel oldpath newpath) (Ready · held root) state := by
  refine @Ready.vfsRename_post _ _ _ _ _ _ _ _ ready (fun held _ next => Ready next held root) (fun _ _ => rfl)
    (fun _ _ _ _ kept => kept.release fun _ kept => kept) (fun _ _ _ kept _ _ => kept) ?_
  intro oldVnode oldParent newParent source oldDir newDir third thirdReady looking nodes sourceAt oldAt newAt
  have thirdTree : third.tmpfs = state.tmpfs := looking.tmpfs
  refine Post.seq (thirdReady.removeTarget (fun _ => rfl) newAt (by simp) sourceAt (by simp)) ?_
  rintro answer next ⟨removed, behind, fewer, cached, kept, outcome⟩
  rw [thirdTree] at behind fewer cached outcome
  cases answer with
  | error code => exact behind.ready fun _ _ dir name _ => outcome.1 dir name
  | ok _ =>
      have sourceNow := kept oldVnode source (by simp) sourceAt
      have oldNow := kept oldParent oldDir (by simp) oldAt
      have newNow := kept newParent newDir (by simp) newAt
      refine behind.moveEntry (fewer few) oldNow newNow sourceNow ?_ ?_
      · obtain ⟨only, replaces, turns⟩ | ⟨nothing, same, _⟩ := outcome
        · obtain ⟨target, found⟩ := Option.ne_none_iff_exists'.mp replaces.entry_ne
          obtain ⟨plain, bound⟩ := movable source oldDir newDir nodes replaces
          obtain ⟨old, there⟩ := Option.ne_none_iff_exists'.mp bound
          refine Or.inr ⟨only, by rw [turns.kinds]; exact plain, entryOf_enoent.mpr ⟨?_, ?_⟩, old, entry_some.mp there⟩
          · rw [turns.kinds, kindOf_of_entry found]
          · rw [turns.entry, rebind_self]
        · exact Or.inl ⟨nothing, same⟩
      · intro key keyCached notOld notNew dir name reads linkable lost
        have visited : state.Cached key ∨ LooksUp state.tmpfs root (renameLookups oldpath newpath) key := by
          obtain before | caches := cached key keyCached
          · refine (looking.cached before).imp_right fun looks => looks.mono ?_
            intro path member
            simp only [List.mem_cons, List.mem_append] at member
            simp only [renameLookups, List.mem_cons, List.mem_append]
            tauto
          · exact Or.inr ⟨newpath, by simp [renameLookups], caches⟩
        refine spared dir name ⟨source, oldDir, newDir, nodes, ?_⟩ key visited (by simp [notOld, notNew]) reads
        obtain ⟨only, replaces, turns⟩ | ⟨nothing, same, failed⟩ := outcome
        · obtain was | ⟨bound, here⟩ := lost
          · exact Or.inl ⟨replaces, only dir name was⟩
          · exact Or.inr ⟨⟨bound, Or.inl ⟨replaces, turns.kinds ▸ linkable.1⟩⟩, here⟩
        · obtain was | ⟨bound, here⟩ := lost
          · exact absurd was (nothing dir name)
          · exact Or.inr ⟨⟨bound, Or.inr ⟨same ▸ linkable, failed⟩⟩, here⟩

end Rename

/-- The same state with an empty dentry cache. -/
def VfsState.uncached (state : VfsState) : VfsState := { state with dentryHash := fun _ => [] }

/-- The lookup of a path returns an outcome, and no count wraps in it. -/
def Finds (state : VfsState) (path : Str) (outcome : Except Errno NodeId) : Prop :=
  ∃ fuel, lookupOutcome state fuel path = some outcome ∧ (finalState (vfsLookup fuel path) state).wrapped = false

/-- No count wraps in a lookup, however much fuel it has. -/
def Unwrapped (state : VfsState) (path : Str) : Prop :=
  ∀ fuel, (finalState (vfsLookup fuel path) state).wrapped = false

/-- Every lookup has the outcome that it has with an empty dentry cache, and returns whenever that lookup does,
unless a count wraps. -/
def Coherent (state : VfsState) : Prop :=
  ∀ path, (∀ outcome other, Finds state path outcome → Finds state.uncached path other → outcome = other) ∧
    (Unwrapped state path → Unwrapped state.uncached path →
      ((∃ outcome, Finds state path outcome) ↔ ∃ outcome, Finds state.uncached path outcome))

section Runs

variable {state : VfsState} {held : VnodeId → Nat} {root : NodeId} {fuel : Nat}

theorem Counted.uncached (counted : Counted state held) : Counted state.uncached (held + state.cached) where
  unbounded := counted.unbounded
  refs := by
    intro id
    have total := counted.refs id
    have none : state.uncached.cached id = 0 := Finset.sum_eq_zero fun _ _ => rfl
    change state.refs id = state.uncached.cached id + state.mounted id + (held id + state.cached id)
    omega
  positive := counted.positive
  typed := counted.typed
  unused := counted.unused

/-- Without its cache a state is sound when the references of the cache are held by others. -/
theorem Sound.uncached (sound : Sound state held root) :
    Sound state.uncached (held + state.cached) root where
  counted := sound.counted.uncached
  closed := sound.closed
  rooted := sound.rooted
  hashed := fun _ _ member => absurd member List.not_mem_nil
  distinct := fun _ => List.nodup_nil
  resolves := fun _ _ member => absurd member List.not_mem_nil

theorem Sound.exists_lookup (sound : Sound state held root) (path : Str) (outcome : Except Errno NodeId) :
    (∃ fuel, lookupOutcome state fuel path = some outcome) ↔ Resolves state.tmpfs root path true outcome :=
  sound.exists_internal

theorem lookupOutcome_unbounded {path : Str} (unwrapped : (finalState (vfsLookup fuel path) state).wrapped = false) :
    lookupOutcome state fuel path = lookupOutcome state.unbounded fuel path := by
  obtain ⟨_, same⟩ := counts_vfsLookupInternal fuel path true state (Bool.eq_false_iff.mp unwrapped)
  unfold lookupOutcome vfsLookup
  rw [same]
  cases vfsLookupInternal fuel path true state with
  | error fault next => rfl
  | ok answer next => cases answer <;> rfl

theorem Sound.resolves_of_finds (sound : Sound state.unbounded held root) {path : Str}
    {outcome : Except Errno NodeId} (finds : Finds state path outcome) :
    Resolves state.tmpfs root path true outcome := by
  obtain ⟨fuel, looked, unwrapped⟩ := finds
  rw [lookupOutcome_unbounded unwrapped] at looked
  exact (sound.exists_lookup path outcome).mp ⟨fuel, looked⟩

theorem Sound.finds_iff (sound : Sound state.unbounded held root) {path : Str} (unwrapped : Unwrapped state path)
    (outcome : Except Errno NodeId) : Finds state path outcome ↔ Resolves state.tmpfs root path true outcome := by
  refine ⟨sound.resolves_of_finds, fun resolves => ?_⟩
  obtain ⟨fuel, looked⟩ := (sound.exists_lookup path outcome).mpr resolves
  exact ⟨fuel, (lookupOutcome_unbounded (unwrapped fuel)).trans looked, unwrapped fuel⟩

/-- A sound cache is coherent. -/
theorem Sound.coherent (sound : Sound state.unbounded held root) : Coherent state := by
  have without : Sound state.uncached.unbounded (held + state.cached) root := sound.uncached
  intro path
  refine ⟨fun outcome other found again => ?_, fun cached uncached => ?_⟩
  · exact (sound.resolves_of_finds found).unique (without.resolves_of_finds again)
  · simp only [sound.finds_iff cached, without.finds_iff uncached]
    exact Iff.rfl

/-- An admissible call keeps the cache sound. -/
theorem Ready.nameCall (ready : Ready state held root) {op : NameOp} (admissible : Admissible state root op) :
    Returns (nameCall fuel op) (fun next => ∃ held, Ready next held root) state := by
  have same {action : Exec (Except Errno Unit)} (returns : Returns action (Ready · held root) state) :
      Returns action (fun next => ∃ held, Ready next held root) state :=
    returns.mono fun _ _ kept => ⟨held, kept⟩
  cases op with
  | create path mode => exact same (ready.vfsCreate mode)
  | mkdir path mode => exact same (ready.vfsMkdir mode)
  | symlink target linkpath => exact same (ready.vfsSymlink target)
  | link oldpath newpath => exact same (ready.vfsLink admissible oldpath)
  | unlink path => exact same (ready.vfsUnlink admissible)
  | rmdir path => exact same (ready.vfsRmdir admissible)
  | rename oldpath newpath =>
      obtain ⟨few, movable, spared⟩ := admissible
      exact same (ready.vfsRename few movable spared)
  | openFile path flags mode =>
      simp only [Vfs.nameCall, Returns, bind_pure_comp, post_map]
      apply (ready.vfsOpen flags mode).mono
      intro answer next result
      cases answer with
      | error code => exact ⟨_, result⟩
      | ok id => exact ⟨_, result⟩

/-- The only directory of a new tmpfs is empty. -/
theorem mountedRoot_dirs {entries : List TmpfsDirent} {count : Nat}
    (kind : mountedRoot.tmpfs.dataOf dir = some (.dir entries count)) : entries = [] ∧ count = 0 := by
  rw [Tmpfs.dataOf, mountedRoot_nodes] at kind
  by_cases zero : dir = 0
  · subst zero
    rw [Function.update_self] at kind
    cases kind
    exact ⟨rfl, rfl⟩
  · rw [Function.update_of_ne zero] at kind
    exact absurd kind (by simp)

theorem ready_mountedRoot : Ready mountedRoot 0 0 := by
  have dirs (dir : NodeId) (entries : List TmpfsDirent) (count : Nat)
      (kind : mountedRoot.tmpfs.dataOf dir = some (.dir entries count)) : entries = [] :=
    (mountedRoot_dirs kind).1
  have tree : Tree mountedRoot.tmpfs :=
    { closed := fun dir entries count kind entry member =>
        absurd (dirs dir entries count kind ▸ member) List.not_mem_nil
      distinct := fun dir entries count kind => by rw [dirs dir entries count kind]; exact List.nodup_nil
      linked := by
        intro id nlink stored
        rw [Tmpfs.nlinkOf, mountedRoot_nodes] at stored
        by_cases zero : id = 0
        · subst zero
          cases stored
          decide
        · rw [Function.update_of_ne zero] at stored
          exact absurd stored (by simp)
      unused := by
        intro id above
        have nonzero : id ≠ 0 := Nat.pos_iff_ne_zero.mp above
        rw [Tmpfs.dataOf, mountedRoot_nodes, Function.update_of_ne nonzero]
        rfl }
  have vnodes (id : VnodeId) (vnode : Vnode) (found : mountedRoot.vnodes id = some vnode) :
      id = 0 ∧ vnode = rootNode.toVnode 0 := by
    rw [mountedRoot_vnodes] at found
    by_cases zero : id = 0
    · subst zero
      rw [Function.update_self, Option.some.injEq] at found
      exact ⟨rfl, found.symm⟩
    · rw [Function.update_of_ne zero] at found
      exact absurd found (by simp)
  refine ⟨⟨⟨rfl, ?_, ?_, ?_, ?_⟩, tree.to_closed, ⟨0, rfl, rfl⟩, ?_, fun _ => List.nodup_nil, ?_⟩, tree⟩
  · intro id
    have none : mountedRoot.cached id = 0 := Finset.sum_eq_zero fun _ _ => rfl
    rw [none, VfsState.refs, mountedRoot_vnodes]
    by_cases zero : id = 0
    · subst zero
      rfl
    · have unmounted : mountedRoot.mounted id = 0 := if_neg fun same => zero (Option.some.inj same).symm
      rw [Function.update_of_ne zero, unmounted]
      rfl
  · intro id vnode found
    rw [(vnodes id vnode found).2]
    exact Nat.one_pos
  · intro id vnode found
    rw [(vnodes id vnode found).2]
    exact ⟨rootNode, rfl, by decide⟩
  · intro id above
    have nonzero : id ≠ 0 := Nat.pos_iff_ne_zero.mp above
    rw [mountedRoot_vnodes, Function.update_of_ne nonzero]
  · exact fun _ _ member => absurd member List.not_mem_nil
  · exact fun _ _ member => absurd member List.not_mem_nil

/-- The state after the file `/a` was created. -/
def afterCreate : VfsState := finalState (nameCall 1 (.create [47, 97] 0x1A4)) mountedRoot

theorem ready_afterCreate : Ready afterCreate 0 0 := by
  have made : Returns (nameCall 1 (.create [47, 97] 0x1A4)) (Ready · 0 0) mountedRoot :=
    ready_mountedRoot.vfsCreate 0x1A4
  have ran : nameCall 1 (.create [47, 97] 0x1A4) mountedRoot = .ok (.ok ()) afterCreate := by
    with_unfolding_all rfl
  rwa [Returns, Post, ran] at made

end Runs

/-- Every sequence of admissible calls on a new tmpfs keeps the cache sound. -/
theorem nameCalls_ready (fuel : Nat) (ops : List NameOp)
    (admissible : CallGuarded (nameCall fuel) (fun state => Admissible state 0) mountedRoot ops) :
    Post (· = .outOfFuel) (callAll (nameCall fuel) ops) (fun _ final => ∃ held, Ready final held 0) mountedRoot :=
  callAll_invariant (fun _ state => ∃ held, Ready state held 0)
    (fun _ _ _ ready allowed => ready.elim fun _ ready => ready.nameCall allowed) ⟨0, ready_mountedRoot⟩ admissible

/-- The directories `/x` and `/x/y`, the files `/f` and `/x/f`, the symbolic link `/s` to `/x/y` and the
symbolic link `/x/y/l` to `../f` are made. -/
def relativeRun : List NameOp :=
  [.mkdir [47, 120] 0x1ED, .mkdir [47, 120, 47, 121] 0x1ED, .symlink [47, 120, 47, 121] [47, 115],
    .symlink [46, 46, 47, 102] [47, 120, 47, 121, 47, 108], .create [47, 102] 0x1A4,
    .create [47, 120, 47, 102] 0x1A4]

def relativeTree : VfsState := finalState (callAll (nameCall 1) relativeRun) mountedRoot

theorem ready_relativeTree : ∃ held, Ready relativeTree held 0 := by
  have admissible : CallGuarded (nameCall 1) (fun state => Admissible state 0) mountedRoot relativeRun :=
    .cons trivial (.cons trivial (.cons trivial (.cons trivial (.cons trivial (.cons trivial trivial)))))
  exact (nameCalls_ready 1 relativeRun admissible).final (by decide +kernel)

/-- After every sequence of admissible calls on a new tmpfs in which no count wraps, the cache is coherent. The
root node is at address zero. -/
theorem nameCalls_coherent (fuel : Nat) (ops : List NameOp)
    (admissible : CallGuarded (nameCall fuel) (fun state => Admissible state 0) mountedRoot.kernel ops)
    (unwrapped : (finalState (callAll (nameCall fuel) ops) mountedRoot.kernel).wrapped = false) :
    Post (· = .outOfFuel) (callAll (nameCall fuel) ops) (fun _ final => Coherent final) mountedRoot.kernel := by
  have tracks (op : NameOp) : Tracks VfsState.unbounded (·.wrapped = true) (nameCall fuel op) :=
    counts_calls.nameCall op
  have unmarked := Bool.eq_false_iff.mp unwrapped
  have guarded : CallGuarded (nameCall fuel) (fun state => Admissible state 0) mountedRoot.kernel.unbounded ops :=
    (Tracks.guarded_iff tracks (fun _ _ => Iff.rfl) unmarked).mpr admissible
  apply ((Tracks.callAll tracks ops).post unmarked (nameCalls_ready fuel ops guarded)).mono
  rintro _ final ⟨held, ready⟩
  exact ready.sound.coherent

/-- The state after `/c` was opened, which caches its path, and `/d` was made. -/
def cachedFile : VfsState :=
  finalState (nameCall 1 (.mkdir [47, 100] 0x1ED))
    (finalState (nameCall 1 (.openFile [47, 99] vfsOCreat 0x1A4)) mountedRoot)

theorem ready_cachedFile : ∃ held, Ready cachedFile held 0 := by
  have opened : ∃ held, Ready (finalState (nameCall 1 (.openFile [47, 99] vfsOCreat 0x1A4)) mountedRoot) held 0 :=
    Post.final (ready_mountedRoot.nameCall (show Admissible _ _ (.openFile _ _ _) from trivial)) (by decide +kernel)
  obtain ⟨held, opened⟩ := opened
  exact Post.final (opened.nameCall (show Admissible _ _ (.mkdir _ _) from trivial)) (by decide +kernel)

/-- The path `/c` is cached, and it reads no entry but its own. -/
theorem cachedFile_reads {name : Str} (cached : cachedFile.Cached key)
    (reads : KeyReads cachedFile.tmpfs 0 key dir name) : name = [99] := by
  obtain ⟨held, ready⟩ := ready_cachedFile
  obtain ⟨hash, dentry, member, rfl⟩ := cached
  have named : ∀ hash < dentryHashSize, ∀ dentry ∈ cachedFile.dentryHash hash, dentry.name = [47, 99] := by
    decide +kernel
  rw [named hash (ready.sound.hash_lt member) dentry member, KeyReads,
    show splitComponents [47, 99] = [[99]] by decide] at reads
  have found : entryOf cachedFile.tmpfs 0 [99] = .ok 1 := by decide +kernel
  have kind : cachedFile.tmpfs.kindOf 1 = some .file := by decide +kernel
  have taken : advance cachedFile.tmpfs true [] [99] [] 0 0 = .enter 1 := by
    refine advance_enter found fun text data => ?_
    rw [← kindOf_symlink, kind] at data
    exact absurd data (by simp)
  cases reads with
  | here => rfl
  | enter _ later => cases later
  | inside follows _ =>
      rw [taken] at follows
      cases follows
  | after follows _ _ =>
      rw [taken] at follows
      cases follows

theorem cachedFile_spared : Admissible cachedFile 0 (.rmdir [47, 100]) := by
  have dirname : (vfsDirname [47, 100]).toList = [[slash]] := by decide
  have normal : normalForm [slash] = [slash] := by decide
  rintro dir name ⟨⟨_, _, _, rfl⟩, _⟩ key visited _ reads
  rw [dirname] at visited
  obtain cached | ⟨path, single, caches⟩ := visited
  · exact absurd (cachedFile_reads cached reads) (by decide)
  · obtain rfl := List.mem_singleton.mp single
    rw [Caches, normal, splitComponents_root] at caches
    obtain rfl | visits := caches
    · rw [KeyReads, splitComponents_root] at reads
      cases reads
    · cases visits

/-- While the path `/c` is cached, the directory `/d` is made and removed, and a missing file is unlinked in vain. -/
theorem nameCalls_coherent_cached :
    Post (· = .outOfFuel) (callAll (nameCall 1) [.openFile [47, 99] vfsOCreat 0x1A4, .mkdir [47, 100] 0x1ED,
      .rmdir [47, 100], .unlink [47, 120]]) (fun _ final => Coherent final) mountedRoot.kernel := by
  have unwrapped : (finalState (callAll (nameCall 1) [.openFile [47, 99] vfsOCreat 0x1A4, .mkdir [47, 100] 0x1ED,
      .rmdir [47, 100], .unlink [47, 120]]) mountedRoot.kernel).wrapped = false := by decide +kernel
  refine nameCalls_coherent 1 _ ?_ unwrapped
  refine (Tracks.guarded_iff (fun op => counts_calls.nameCall op) (fun _ _ => Iff.rfl)
    (Bool.eq_false_iff.mp unwrapped)).mp ?_
  refine .cons trivial (.cons trivial (.cons cachedFile_spared (.cons ?_ trivial)))
  rintro dir name ⟨_, ⟨target, found⟩, _⟩
  have missing : Resolves (finalState (nameCall 1 (.rmdir [47, 100])) cachedFile).tmpfs 0 [47, 120] true
      (.error .enoent) := ⟨1, by decide +kernel⟩
  exact absurd (found.unique missing) (by simp)

/-- The file `/a` is created and unlinked. -/
def unlinkCalls : Exec (List (Except Errno Unit)) :=
  callAll (nameCall 1) [.create [47, 97] 0x1A4, .unlink [47, 97]]

/-- The state after both calls. -/
def afterUnlink : VfsState := finalState unlinkCalls mountedRoot.kernel

/-- After both calls succeeded a lookup still finds the file, because its dentry stays. -/
theorem vfsUnlink_leaves_dentry :
    answerOf unlinkCalls mountedRoot.kernel = some [.ok (), .ok ()] ∧
    lookupOutcome afterUnlink 1 [47, 97] = some (.ok 1) ∧
    lookupOutcome afterUnlink.uncached 1 [47, 97] = some (.error .enoent) ∧ ¬ Coherent afterUnlink := by
  have found : lookupOutcome afterUnlink 1 [47, 97] = some (.ok 1) := by decide +kernel
  have missing : lookupOutcome afterUnlink.uncached 1 [47, 97] = some (.error .enoent) := by decide +kernel
  refine ⟨by decide +kernel, found, missing, ?_⟩
  intro coherent
  have same := (coherent [47, 97]).1 _ _ ⟨1, found, by decide +kernel⟩ ⟨1, missing, by decide +kernel⟩
  exact absurd same (by simp)

end Uesi.Vfs
