import Uesi.Proof.Vfs.Rename

namespace Uesi.Vfs

open Library

section Reads

variable {tmpfs next : Tmpfs} {root : NodeId} {followFinal : Bool} {before components rest : List Str}
  {depth : Nat} {current node dir : NodeId} {name : Str}

/-- A walk that follows a link goes on behind the node that the link stands for. -/
theorem Walks.followed {component path : Str}
    (walks : Walks tmpfs root followFinal before (component :: rest) depth current (.ok node))
    (taken : advance tmpfs followFinal before component rest depth current = .follow path) :
    ∃ entered, Resolves tmpfs root path true (.ok entered) ∧
      Walks tmpfs root true [] (splitComponents (normalForm path)) 0 root (.ok entered) ∧
      Walks tmpfs root followFinal (before ++ [component]) rest (depth + 1) entered (.ok node) := by
  obtain ⟨absolute, fits⟩ := advance_follow taken
  obtain ⟨fuel, walked⟩ := walks
  simp only [walkNodes, taken] at walked
  cases resolved : resolve tmpfs root fuel path true with
  | none => simp [resolved] at walked
  | some answer =>
      cases answer with
      | error code => simp [resolved] at walked
      | ok entered =>
          simp only [resolved] at walked
          have found : Resolves tmpfs root path true (.ok entered) := ⟨fuel, resolved⟩
          refine ⟨entered, found, ?_, fuel, walked⟩
          rw [splitComponents_normalForm]
          exact (resolves_iff_walks absolute fits).mp found

/-- A walk to a directory reads no entry on its way that is missing or stands for a file. -/
theorem Walks.not_reads (walks : Walks tmpfs root followFinal before components depth current (.ok node))
    (directory : tmpfs.kindOf node = some .dir)
    (blocked : ∀ target, tmpfs.entry dir name = some target → tmpfs.kindOf target = some .file) :
    ¬ Reads tmpfs root followFinal before components depth current dir name := by
  intro reads
  induction reads generalizing node with
  | @here _ _ component _ _ current =>
      cases found : entryOf tmpfs current component with
      | error code =>
          rw [walks_missing found] at walks
          exact absurd walks (by simp)
      | ok target =>
          have kind := blocked target (entry_some.mpr found)
          have plain (text : Str) : tmpfs.dataOf target ≠ some (.symlink text) := by
            intro data
            rw [Tmpfs.kindOf, data] at kind
            exact absurd kind (by simp [TmpfsData.kind])
          rw [walks_enter_iff (advance_enter found plain)] at walks
          have starts := walks.from_directory directory
          rw [kind] at starts
          exact absurd starts (by simp)
  | enter taken later ih => exact ih ((walks_enter_iff taken).mp walks) directory blocked
  | inside taken inner ih =>
      obtain ⟨entered, _, walked, onward⟩ := walks.followed taken
      exact ih walked (onward.from_directory directory) blocked
  | after taken resolved later ih => exact ih ((walks_follow_iff taken resolved).mp walks) directory blocked

/-- A walk that succeeds reads the same entries in a tree that keeps those that it reads. -/
theorem Preserves.reads {removed : NodeId → Str → Prop} (preserves : Preserves tmpfs next removed)
    (closed : Closed tmpfs)
    (spared : ∀ dir name, Reads tmpfs root followFinal before components depth current dir name →
      ¬ removed dir name)
    (walks : Walks tmpfs root followFinal before components depth current (.ok node))
    (reads : Reads next root followFinal before components depth current dir name) :
    Reads tmpfs root followFinal before components depth current dir name := by
  -- The step at the first component is the same in both trees.
  have step {followFinal : Bool} {before rest : List Str} {component : Str} {depth : Nat} {current node : NodeId}
      (spared : ¬ removed current component)
      (walks : Walks tmpfs root followFinal before (component :: rest) depth current (.ok node)) :
      advance next followFinal before component rest depth current =
        advance tmpfs followFinal before component rest depth current := by
    cases found : entryOf tmpfs current component with
    | error code =>
        rw [walks_missing found] at walks
        exact absurd walks (by simp)
    | ok target =>
        obtain ⟨data, there⟩ := closed.entry_target found
        have kind : tmpfs.kindOf target = some data.kind := by rw [Tmpfs.kindOf, there]; rfl
        exact advance_congr found (preserves.entries current component target spared found)
          ((preserves.kinds target data.kind kind).trans kind.symm)
  induction reads generalizing node with
  | here => exact .here
  | enter taken later ih =>
      rw [step (spared _ _ .here) walks] at taken
      exact .enter taken (ih (fun dir name reads => spared dir name (.enter taken reads))
        ((walks_enter_iff taken).mp walks))
  | inside taken inner ih =>
      rw [step (spared _ _ .here) walks] at taken
      obtain ⟨entered, _, walked, _⟩ := walks.followed taken
      exact .inside taken (ih (fun dir name reads => spared dir name (.inside taken reads)) walked)
  | after taken resolved later ih =>
      rw [step (spared _ _ .here) walks] at taken
      obtain ⟨entered, found, walked, onward⟩ := walks.followed taken
      obtain ⟨absolute, fits⟩ := advance_follow taken
      have again := preserves.walks_spared closed (fun dir name reads => spared dir name (.inside taken reads)) walked
      rw [splitComponents_normalForm, ← resolves_iff_walks absolute fits] at again
      cases again.unique resolved
      exact .after taken found (ih (fun dir name reads => spared dir name (.after taken found reads)) onward)

/-- A node that a walk enters is a directory or a file. -/
theorem advance_enter_kind (closed : Closed tmpfs) {component : Str}
    (taken : advance tmpfs followFinal before component rest depth current = .enter node) :
    tmpfs.kindOf node = some .dir ∨ tmpfs.kindOf node = some .file := by
  obtain ⟨found, plain⟩ := advance_enter_inv taken
  obtain ⟨data, stored⟩ := closed.entry_target (entry_some.mp found)
  rw [Tmpfs.kindOf, stored]
  cases data with
  | file contents => exact Or.inr rfl
  | dir entries count => exact Or.inl rfl
  | symlink text => exact absurd stored (plain text)

/-- A path leads to a directory or to a file when the root is a directory. -/
theorem Resolves.kind (closed : Closed tmpfs) (top : tmpfs.kindOf root = some .dir) {path : Str}
    (resolved : Resolves tmpfs root path true (.ok node)) :
    tmpfs.kindOf node = some .dir ∨ tmpfs.kindOf node = some .file :=
  resolved.reached (fun id => tmpfs.kindOf id = some .dir ∨ tmpfs.kindOf id = some .file) (Or.inl top)
    fun taken _ => advance_enter_kind closed taken

end Reads

section Parents

variable {tmpfs next : Tmpfs} {root dir node : NodeId} {path name dirname : Str}
  {removed : NodeId → Str → Prop}

theorem ParentEntry.walks (parent : ParentEntry tmpfs root path dir name) (named : vfsDirname path = some dirname) :
    Walks tmpfs root true [] (splitComponents (normalForm dirname)) 0 root (.ok dir) := by
  obtain ⟨other, same, resolved, _⟩ := parent
  rw [named, Option.some.injEq] at same
  subst same
  obtain ⟨absolute, short⟩ := resolved.absolute
  rwa [resolves_iff_walks absolute short, ← splitComponents_normalForm] at resolved

/-- A parent directory is the same in a tree that keeps the entries on the way to it. -/
theorem ParentEntry.kept (parent : ParentEntry tmpfs root path dir name) (preserves : Preserves tmpfs next removed)
    (closed : Closed tmpfs) (named : vfsDirname path = some dirname)
    (spared : ∀ dir name, KeyReads tmpfs root (normalForm dirname) dir name → ¬ removed dir name) :
    ParentEntry next root path dir name := by
  have walks := preserves.walks_spared closed spared (parent.walks named)
  obtain ⟨other, same, resolved, basename⟩ := parent
  rw [named, Option.some.injEq] at same
  subst same
  obtain ⟨absolute, short⟩ := resolved.absolute
  rw [splitComponents_normalForm, ← resolves_iff_walks absolute short] at walks
  exact ⟨dirname, named, walks, basename⟩

/-- A path that names a node has a parent directory with an entry for the node. -/
theorem Addressable.parent (addressable : Addressable path) (named : vfsDirname path = some dirname)
    (absolute : vfsIsAbsolutePath (some dirname) = true) (resolved : Resolves tmpfs root path false (.ok node)) :
    ∃ dir, ParentEntry tmpfs root path dir (vfsBasename path) ∧ tmpfs.entry dir (vfsBasename path) = some node := by
  have splits := splits_of_vfsDirname named absolute
  have short := vfsDirname_length named
  have room := addressable.room dirname named
  rw [resolves_iff_walks splits.absolute addressable.fits, splits.words_proper addressable.proper,
    List.take_of_length_le (by simpa using room)] at resolved
  obtain ⟨dir, links, crosses⟩ := resolved.crosses_front (Or.inl (by simp))
  have final := (crosses.walks_append (Or.inl (by simp))).mp resolved
  refine ⟨dir, ⟨dirname, named, ?_, rfl⟩, ?_⟩
  · rw [resolves_iff_walks absolute short, List.take_of_length_le room.le]
    exact crosses.walks
  · cases found : entryOf tmpfs dir (vfsBasename path) with
    | error code =>
        rw [walks_missing found] at final
        exact absurd final (by simp)
    | ok target =>
        rw [walks_last (entry_some.mpr found) (Or.inl rfl)] at final
        cases final
        exact entry_some.mpr found

end Parents

/-- What a successful `vfs_rename` knows about its paths, and what it does to the entries. -/
structure Relocation (tmpfs next : Tmpfs) (root : NodeId) (oldpath newpath : Str)
    (source node oldDir newDir : NodeId) : Prop where
  nodes : RenameNodes tmpfs root oldpath newpath source oldDir newDir
  file : tmpfs.kindOf source = some .file
  bound : tmpfs.entry oldDir (vfsBasename oldpath) = some node
  final : node = source ∨ ∃ text, tmpfs.kindOf node = some (.symlink text)
  directory : tmpfs.kindOf newDir = some .dir
  old : Addressable oldpath
  new : newpath.length < vfsMaxPath → Addressable newpath
  entry : next.entry = movedEntries tmpfs.entry source oldDir (vfsBasename oldpath) newDir (vfsBasename newpath)
  kinds : next.kindOf = tmpfs.kindOf
  closed : Closed tmpfs
  still : Closed next

section Relocation

variable {tmpfs next : Tmpfs} {root : NodeId} {oldpath newpath : Str} {source node oldDir newDir : NodeId}

/-- A rename that moves anything finds an entry under the old path. -/
theorem RenameNodes.exists_entry (nodes : RenameNodes tmpfs root oldpath newpath source oldDir newDir)
    (plain : tmpfs.kindOf source ≠ some .dir) (directory : tmpfs.kindOf newDir = some .dir)
    (present : tmpfs.entry oldDir (vfsBasename oldpath) ≠ none ∨
      oldDir = newDir ∧ vfsBasename oldpath = vfsBasename newpath) :
    ∃ node, tmpfs.entry oldDir (vfsBasename oldpath) = some node := by
  obtain present | ⟨rfl, _⟩ := present
  · exact Option.ne_none_iff_exists'.mp present
  · have found := nodes.source
    by_cases addressable : Addressable oldpath
    · obtain ⟨before, links, iff⟩ := nodes.old.resolves_iff addressable
      rw [iff] at found
      cases search : entryOf tmpfs oldDir (vfsBasename oldpath) with
      | error code =>
          rw [walks_missing search] at found
          exact absurd found (by simp)
      | ok node => exact ⟨node, entry_some.mpr search⟩
    · obtain ⟨reached, again, above⟩ := nodes.old.resolves_above found.absolute.2 addressable
      cases again.unique found
      obtain rfl | above := above
      · exact absurd directory plain
      · exact absurd above plain

theorem Renamed.relocation (tree : Tree tmpfs) (renamed : Renamed true tmpfs next root oldpath newpath (.ok ())) :
    ∃ source node oldDir newDir, Relocation tmpfs next root oldpath newpath source node oldDir newDir := by
  obtain ⟨_, source, oldDir, newDir, nodes, plain, directory, target, present, turns⟩ := renamed
  obtain ⟨node, bound⟩ := nodes.exists_entry plain directory present
  obtain ⟨old, final⟩ := nodes.old.entry_final nodes.source plain bound
  have top : tmpfs.kindOf root = some .dir := by
    obtain ⟨dirname, named, _⟩ := nodes.new
    exact (nodes.new.walks named).from_directory directory
  refine ⟨source, node, oldDir, newDir, nodes, (nodes.source.kind tree.to_closed top).resolve_left plain, bound,
    final, directory, old, ?_, turns.entry, turns.kinds, tree.to_closed, (turns.sturdy tree.sturdy).to_closed⟩
  -- Otherwise the new path leads to a directory, and the call refuses to replace it.
  intro fits
  by_contra other
  obtain ⟨reached, resolved, above⟩ := nodes.new.resolves_above fits other
  have above : tmpfs.kindOf reached = some .dir := by
    obtain rfl | above := above
    · exact directory
    · exact above
  obtain ⟨found, again, ⟨both, _⟩ | ⟨_, file, _⟩⟩ | ⟨code, failed⟩ := target
  · exact plain both
  · cases again.unique resolved
    exact file above
  · exact absurd (failed.unique resolved) (by simp)

section Entries

variable (relocation : Relocation tmpfs next root oldpath newpath source node oldDir newDir)

include relocation

theorem Relocation.entry_other {dir : NodeId} {name : Str}
    (old : ¬ (dir = oldDir ∧ name = vfsBasename oldpath)) (new : ¬ (dir = newDir ∧ name = vfsBasename newpath)) :
    next.entry dir name = tmpfs.entry dir name := by
  rw [relocation.entry, movedEntries, rebind_of_ne old, rebind_of_ne new]

theorem Relocation.entry_old : next.entry oldDir (vfsBasename oldpath) = none := by
  rw [relocation.entry, movedEntries, rebind_self]

theorem Relocation.entry_new (apart : ¬ (oldDir = newDir ∧ vfsBasename oldpath = vfsBasename newpath)) :
    next.entry newDir (vfsBasename newpath) = some source := by
  rw [relocation.entry, movedEntries, rebind_of_ne fun same => apart ⟨same.1.symm, same.2.symm⟩, rebind_self]

/-- The new entry is the only one that was not there before. -/
theorem Relocation.backward :
    Preserves next tmpfs fun dir name => dir = newDir ∧ name = vfsBasename newpath where
  kinds := by
    intro id kind found
    rw [← relocation.kinds, found]
  entries := by
    intro dir name target new found
    rw [← entry_some] at found ⊢
    by_cases old : dir = oldDir ∧ name = vfsBasename oldpath
    · rw [old.1, old.2, relocation.entry_old] at found
      exact absurd found (by simp)
    · rw [← relocation.entry_other old new, found]

theorem Relocation.forward : Preserves tmpfs next fun dir name =>
    (dir = oldDir ∧ name = vfsBasename oldpath) ∨ (dir = newDir ∧ name = vfsBasename newpath) where
  kinds := by
    intro id kind found
    rw [relocation.kinds, found]
  entries := by
    intro dir name target changed found
    rw [not_or] at changed
    rw [← entry_some] at found ⊢
    rw [relocation.entry_other changed.1 changed.2, found]

/-- The entry under the new path leads no walk to a directory afterwards. -/
theorem Relocation.blocked (target : NodeId) (found : next.entry newDir (vfsBasename newpath) = some target) :
    next.kindOf target = some .file := by
  by_cases same : oldDir = newDir ∧ vfsBasename oldpath = vfsBasename newpath
  · rw [← same.1, ← same.2, relocation.entry_old] at found
    exact absurd found (by simp)
  · rw [relocation.entry_new same, Option.some.injEq] at found
    rw [← found, relocation.kinds, relocation.file]

/-- A parent directory after the rename was the parent directory before, and the entry under the new path
was not on the way to it. -/
theorem Relocation.parent_before {path dirname name : Str} {dir : NodeId} (parent : ParentEntry next root path dir name)
    (directory : next.kindOf dir = some .dir) (named : vfsDirname path = some dirname) :
    ParentEntry tmpfs root path dir name ∧
      ¬ KeyReads tmpfs root (normalForm dirname) newDir (vfsBasename newpath) := by
  have walks := parent.walks named
  have unread := walks.not_reads directory relocation.blocked
  have spared (dir : NodeId) (name : Str) (reads : KeyReads next root (normalForm dirname) dir name) :
      ¬ (dir = newDir ∧ name = vfsBasename newpath) := by
    rintro ⟨rfl, rfl⟩
    exact unread reads
  refine ⟨parent.kept relocation.backward relocation.still named spared, fun reads => unread ?_⟩
  exact relocation.backward.reads relocation.still spared walks reads

/-- A path that names a node afterwards names it by an entry of its parent directory, which is the one
from before. -/
theorem Relocation.names_before {path dirname : Str} {dir other : NodeId}
    (parent : ParentEntry tmpfs root path dir (vfsBasename path)) (addressable : Addressable path)
    (named : vfsDirname path = some dirname) (resolved : Resolves next root path false (.ok other)) :
    next.entry dir (vfsBasename path) = some other ∧
      ¬ KeyReads tmpfs root (normalForm dirname) newDir (vfsBasename newpath) := by
  have absolute : vfsIsAbsolutePath (some dirname) = true := by
    obtain ⟨text, same, found, _⟩ := parent
    rw [named, Option.some.injEq] at same
    exact same ▸ found.absolute.1
  obtain ⟨after, reached, bound⟩ := addressable.parent named absolute resolved
  obtain ⟨before, unread⟩ := relocation.parent_before reached (kindOf_of_entry bound) named
  cases before.unique parent
  exact ⟨bound, unread⟩

end Entries

end Relocation

/-- A path names a node for `vfs_lookup_internal` with an empty cache, where a final link is not followed. -/
def Names (state : VfsState) (path : Str) (node : NodeId) : Prop :=
  ∃ fuel, internalOutcome state.uncached fuel path false = some (.ok node)

/-- The name has moved: the new path names the node, the old path names nothing unless both are the same
entry, and the other entries are the same. -/
structure NameMoved (state next : VfsState) (oldpath newpath : Str) (node oldDir newDir : NodeId) : Prop where
  new : Names next newpath node
  old : ¬ (oldDir = newDir ∧ vfsBasename oldpath = vfsBasename newpath) → ∀ other, ¬ Names next oldpath other
  others : ∀ dir name, ¬ (dir = oldDir ∧ name = vfsBasename oldpath) →
    ¬ (dir = newDir ∧ name = vfsBasename newpath) → next.tmpfs.entry dir name = state.tmpfs.entry dir name

/-- The old path is no symbolic link, the two paths are different entries, the new path is short enough for
a lookup, and the way to its parent directory does not lead through the new entry. -/
structure Relocatable (tmpfs : Tmpfs) (root : NodeId) (oldpath newpath : Str) (node oldDir newDir : NodeId) :
    Prop where
  plain : ∀ text, tmpfs.kindOf node ≠ some (.symlink text)
  apart : ¬ (oldDir = newDir ∧ vfsBasename oldpath = vfsBasename newpath)
  fits : newpath.length < vfsMaxPath
  aside : ∀ dirname, vfsDirname newpath = some dirname →
    ¬ KeyReads tmpfs root (normalForm dirname) newDir (vfsBasename newpath)

section Names

variable {state next : VfsState} {held : VnodeId → Nat} {root : NodeId} {path oldpath newpath : Str}
  {source node oldDir newDir : NodeId}

theorem Mounted.names_iff (mounted : Mounted state held root) (closed : Closed state.tmpfs) :
    Names state path node ↔ Resolves state.tmpfs root path false (.ok node) := by
  have sound : Sound state.uncached (held + state.cached) root :=
    { counted := mounted.counted.uncached
      closed := closed
      rooted := mounted.rooted
      hashed := fun _ _ member => absurd member List.not_mem_nil
      distinct := fun _ => List.nodup_nil
      resolves := fun _ _ member => absurd member List.not_mem_nil }
  exact sound.exists_internal

theorem Relocation.resolves_old {tmpfs after : Tmpfs}
    (relocation : Relocation tmpfs after root oldpath newpath source node oldDir newDir) :
    Resolves tmpfs root oldpath false (.ok node) := by
  obtain ⟨before, links, iff⟩ := relocation.nodes.old.resolves_iff relocation.old
  rw [iff, walks_last relocation.bound (Or.inl rfl)]

/-- The name has moved if and only if the conditions on the paths hold. -/
theorem Relocation.moved_iff (mounted : Mounted next held root)
    (relocation : Relocation state.tmpfs next.tmpfs root oldpath newpath source node oldDir newDir) :
    NameMoved state next oldpath newpath node oldDir newDir ↔
      Relocatable state.tmpfs root oldpath newpath node oldDir newDir := by
  have names (path : Str) (node : NodeId) :
      Names next path node ↔ Resolves next.tmpfs root path false (.ok node) := mounted.names_iff relocation.still
  have oldParent := relocation.nodes.old
  have newParent := relocation.nodes.new
  obtain ⟨dirname, named, _⟩ := relocation.nodes.new
  constructor
  · intro moved
    have resolved := (names newpath node).mp moved.new
    have fits := resolved.absolute.2
    obtain ⟨bound, unread⟩ := relocation.names_before newParent (relocation.new fits) named resolved
    have apart : ¬ (oldDir = newDir ∧ vfsBasename oldpath = vfsBasename newpath) := by
      rintro ⟨sameDir, sameName⟩
      rw [← sameDir, ← sameName, relocation.entry_old] at bound
      exact absurd bound (by simp)
    rw [relocation.entry_new apart, Option.some.injEq] at bound
    refine ⟨fun text => ?_, apart, fits, fun other same => ?_⟩
    · rw [← bound, relocation.file]
      simp
    · rw [named, Option.some.injEq] at same
      exact same ▸ unread
  · intro relocatable
    obtain rfl : node = source := by
      obtain same | ⟨text, link⟩ := relocation.final
      · exact same
      · exact absurd link (relocatable.plain text)
    refine ⟨?_, ?_, fun dir name old new => relocation.entry_other old new⟩
    · -- The way to the new directory reads neither of the two entries.
      have spared (dir : NodeId) (name : Str) (reads : KeyReads state.tmpfs root (normalForm dirname) dir name) :
          ¬ ((dir = oldDir ∧ name = vfsBasename oldpath) ∨ (dir = newDir ∧ name = vfsBasename newpath)) := by
        rintro (⟨rfl, rfl⟩ | ⟨rfl, rfl⟩)
        · refine (newParent.walks named).not_reads relocation.directory ?_ reads
          intro target found
          rw [relocation.bound, Option.some.injEq] at found
          exact found ▸ relocation.file
        · exact relocatable.aside dirname named reads
      have parent := newParent.kept relocation.forward relocation.closed named spared
      obtain ⟨before, links, iff⟩ := parent.resolves_iff (relocation.new relocatable.fits)
      rw [names, iff, walks_last (relocation.entry_new relocatable.apart) (Or.inl rfl)]
    · intro apart other found
      rw [names] at found
      obtain ⟨text, short, _⟩ := relocation.nodes.old
      obtain ⟨bound, _⟩ := relocation.names_before oldParent relocation.old short found
      rw [relocation.entry_old] at bound
      exact absurd bound (by simp)

end Names

/-- For every tree with a sound cache and all paths: a successful `vfs_rename` moves the name if and only if
the old path is no symbolic link, the two paths are different entries, the new path is shorter than
`VFS_MAX_PATH`, and the way to its parent directory does not lead through the new entry. -/
theorem vfsRename_moves_iff {state next : VfsState} {held : VnodeId → Nat} {root : NodeId}
    (ready : Ready state held root) {fuel : Nat} {oldpath newpath : Str}
    (ran : vfsRename fuel oldpath newpath state = .ok (.ok ()) next) :
    ∃ node oldDir newDir, ParentEntry state.tmpfs root oldpath oldDir (vfsBasename oldpath) ∧
      ParentEntry state.tmpfs root newpath newDir (vfsBasename newpath) ∧
      state.tmpfs.entry oldDir (vfsBasename oldpath) = some node ∧ Names state oldpath node ∧
      (NameMoved state next oldpath newpath node oldDir newDir ↔
        Relocatable state.tmpfs root oldpath newpath node oldDir newDir) := by
  have run : Post (· = .outOfFuel) (vfsRenameAlloc true fuel oldpath newpath) (fun answer next =>
      Mounted next held root ∧ Renamed true state.tmpfs next.tmpfs root oldpath newpath answer) state :=
    ready.vfsRenameAlloc_effect
  unfold vfsRename at ran
  rw [Post, ran] at run
  obtain ⟨mounted, renamed⟩ := run
  obtain ⟨source, node, oldDir, newDir, relocation⟩ := renamed.relocation ready.tree
  refine ⟨node, oldDir, newDir, relocation.nodes.old, relocation.nodes.new, relocation.bound, ?_,
    relocation.moved_iff mounted⟩
  rw [ready.mounted.names_iff ready.tree.to_closed]
  exact relocation.resolves_old

/-- The file `/a` is renamed to `/b`. -/
theorem vfsRename_moves_iff_file :
    ∃ node oldDir newDir, NameMoved afterCreate (finalState (vfsRename 1 [47, 97] [47, 98]) afterCreate)
      [47, 97] [47, 98] node oldDir newDir := by
  have ran : vfsRename 1 [47, 97] [47, 98] afterCreate =
      .ok (.ok ()) (finalState (vfsRename 1 [47, 97] [47, 98]) afterCreate) :=
    ran_of_answerOf (by decide +kernel)
  obtain ⟨node, oldDir, newDir, old, _, bound, _, moved⟩ := vfsRename_moves_iff ready_afterCreate ran
  refine ⟨node, oldDir, newDir, moved.mpr ?_⟩
  have named : vfsBasename [47, 97] = [97] := by decide
  have above : vfsDirname [47, 97] = some [slash] := by decide
  obtain rfl : oldDir = 0 := by
    have top : ParentEntry afterCreate.tmpfs 0 [47, 97] 0 (vfsBasename [47, 97]) :=
      ⟨[slash], above, ⟨1, by decide +kernel⟩, rfl⟩
    exact old.unique top
  have first : afterCreate.tmpfs.entry 0 [97] = some 1 := by decide +kernel
  rw [named, first, Option.some.injEq] at bound
  subst bound
  have file : afterCreate.tmpfs.kindOf 1 = some .file := by decide +kernel
  refine ⟨by simp [file], ?_, by decide, ?_⟩
  · rintro ⟨_, same⟩
    exact absurd same (by decide)
  · intro dirname parent reads
    have root : vfsDirname [47, 98] = some [slash] := by decide
    have normal : normalForm [slash] = [slash] := by decide
    rw [root, Option.some.injEq] at parent
    rw [← parent, KeyReads, normal, splitComponents_root] at reads
    cases reads

/-- The file `/a` is renamed to itself: the call succeeds, and no entry for the file is left. -/
theorem vfsRename_loses_itself :
    (match vfsRename 1 [47, 97] [47, 97] afterCreate with
      | .ok answer _ => some answer
      | .error _ _ => none) = some (.ok ()) ∧
    internalOutcome afterCreate.uncached 1 [47, 97] false = some (.ok 1) ∧
    (finalState (vfsRename 1 [47, 97] [47, 97]) afterCreate).tmpfs.entry 0 [97] = none ∧
    internalOutcome (finalState (vfsRename 1 [47, 97] [47, 97]) afterCreate).uncached 1 [47, 97] false =
      some (.error .enoent) := by
  refine ⟨by decide +kernel, by decide +kernel, by decide +kernel, by decide +kernel⟩

end Uesi.Vfs
