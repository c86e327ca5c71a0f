import Uesi.Proof.Vfs.Coherence
import Uesi.Proof.Vfs.Parent

namespace Uesi.Vfs

open Library

/-- The path at which a call makes a new node. -/
def NameOp.newPath : NameOp → Option Str
  | .create path _ => some path
  | .mkdir path _ => some path
  | .symlink _ linkpath => some linkpath
  | _ => none

/-- The kind of the node that a call makes. -/
def NameOp.newKind : NameOp → NodeKind
  | .mkdir _ _ => .dir
  | .symlink target _ => .symlink target
  | _ => .file

/-- A new node got an entry that was free, and nothing else changed. -/
structure Created (tmpfs next : Tmpfs) (dir : NodeId) (name : Str) (node : NodeId) (kind : NodeKind) : Prop where
  directory : tmpfs.kindOf dir = some .dir
  absent : tmpfs.entry dir name = none
  fresh : tmpfs.kindOf node = none
  turns : Turns tmpfs next (rebind tmpfs.entry dir name (some node))
    (Function.update tmpfs.kindOf node (some kind))

/-- What a call that makes a node does to the tree. -/
def Makes (tmpfs next : Tmpfs) (root : NodeId) (path : Str) (kind : NodeKind) : Except Errno Unit → Prop
  | .error _ => Turns tmpfs next tmpfs.entry tmpfs.kindOf ∧
      ∀ dir, ParentEntry tmpfs root path dir (vfsBasename path) →
        ¬ (tmpfs.kindOf dir = some .dir ∧ tmpfs.entry dir (vfsBasename path) = none)
  | .ok () => ∃ dir node, ParentEntry tmpfs root path dir (vfsBasename path) ∧
      Created tmpfs next dir (vfsBasename path) node kind

section Calls

variable {stop : Fault → Prop} {state : VfsState} {held : VnodeId → Nat} {root : NodeId} {fuel : Nat} {path : Str}

/-- The part that adds the node keeps the cache sound as well. -/
theorem Ready.tmpfsAddNew (ready : Ready state held root) {dir : VnodeId} {parent : NodeId}
    (found : state.nodeOf dir = some parent) {name : Str} {data : TmpfsData}
    (plain : ∀ entries count, data = .dir entries count → entries = [] ∧ count = 0) (mode : BitVec 32) :
    Post stop (tmpfsAddNew dir name data mode) (fun answer next => Ready next held root ∧ match answer with
      | .error _ => Turns state.tmpfs next.tmpfs state.tmpfs.entry state.tmpfs.kindOf ∧
          ¬ (state.tmpfs.kindOf parent = some .dir ∧ state.tmpfs.entry parent name = none)
      | .ok node => next.tmpfs.dataOf node = some data ∧
          Created state.tmpfs next.tmpfs parent name node data.kind) state := by
  obtain ⟨there, live⟩ := ready.dataOf found
  apply (ready.tree.tmpfsAddNew_effect found live plain mode).mono
  rintro answer next ⟨⟨mutated, stored⟩, effect⟩
  refine ⟨ready.mutate mutated, ?_⟩
  cases answer with
  | error code => exact ⟨effect.2.toTurns, effect.1⟩
  | ok node =>
      obtain ⟨⟨directory, absent⟩, fresh, becomes⟩ := effect
      exact ⟨stored node rfl, directory, absent, fresh, becomes.toTurns⟩

/-- A call on the parent directory makes a node when the call on the directory does. -/
theorem Ready.withParent_makes (ready : Ready state held root) {kind : NodeKind}
    {call : VnodeId → Str → Exec (Except Errno Unit)}
    (allowed : ∀ dirname, resolve state.tmpfs root fuel dirname true = none → stop .outOfFuel)
    (body : ∀ parent dir middle, Ready middle (held + Pi.single parent 1) root →
      middle.nodeOf parent = some dir → Post stop (call parent (vfsBasename path))
        (fun answer next => Ready next (held + Pi.single parent 1) root ∧ match answer with
          | .error _ => Turns middle.tmpfs next.tmpfs middle.tmpfs.entry middle.tmpfs.kindOf ∧
              ¬ (middle.tmpfs.kindOf dir = some .dir ∧ middle.tmpfs.entry dir (vfsBasename path) = none)
          | .ok () => ∃ node, Created middle.tmpfs next.tmpfs dir (vfsBasename path) node kind) middle) :
    Post stop (Vfs.withParent fuel path call) (fun answer next => Ready next held root ∧
      Makes state.tmpfs next.tmpfs root path kind answer) state := by
  refine ready.withParent_post allowed ?_ ?_
  · intro code next kept same nowhere
    exact ⟨kept, by rw [same]; exact .refl _, fun dir entry => absurd entry (nowhere dir _)⟩
  · intro parent dir middle taken looked found entry
    have same : middle.tmpfs = state.tmpfs := looked.keeps.tmpfs
    apply (body parent dir middle taken found).seq
    rintro answer next ⟨kept, effect⟩
    apply kept.vfsVnodeUnref.seq
    rintro _ final ⟨after, released⟩
    have unchanged : final.tmpfs = next.tmpfs := released.keeps.tmpfs
    rw [same] at effect
    refine ⟨after, ?_⟩
    rw [unchanged]
    cases answer with
    | error code => exact ⟨effect.1, fun other again => entry.unique again ▸ effect.2⟩
    | ok _ =>
        obtain ⟨node, created⟩ := effect
        exact ⟨dir, node, entry, created⟩

theorem Ready.withParent_addNew (ready : Ready state held root) {data : TmpfsData} {mode : BitVec 32}
    (plain : ∀ entries count, data = .dir entries count → entries = [] ∧ count = 0)
    (allowed : ∀ dirname, resolve state.tmpfs root fuel dirname true = none → stop .outOfFuel) :
    Post stop (Vfs.withParent fuel path fun parent name => do
        return (← Vfs.tmpfsAddNew parent name data mode).map fun _ => ())
      (fun answer next => Ready next held root ∧ Makes state.tmpfs next.tmpfs root path data.kind answer) state := by
  refine ready.withParent_makes allowed fun parent dir middle ready found => ?_
  simp only [bind_pure_comp, post_map]
  apply (ready.tmpfsAddNew found plain _).mono
  rintro answer next ⟨kept, effect⟩
  cases answer with
  | error code => exact ⟨kept, effect⟩
  | ok node => exact ⟨kept, node, effect.2⟩

/-- `vfs_create`, `vfs_mkdir` and `vfs_symlink` make a node in the parent directory or change no entry. -/
theorem Ready.makes (ready : Ready state held root) {op : NameOp} (new : op.newPath = some path)
    (allowed : ∀ dirname, resolve state.tmpfs root fuel dirname true = none → stop .outOfFuel) :
    Post stop (Vfs.nameCall fuel op) (fun answer next => Ready next held root ∧
      Makes state.tmpfs next.tmpfs root path op.newKind answer) state := by
  cases op with
  | create path mode =>
      cases new
      refine ready.withParent_makes allowed fun parent dir middle ready found => ?_
      simp only [Vfs.tmpfsCreate, post_bind]
      apply (ready.tmpfsAddNew found (by simp) _).mono
      rintro answer next ⟨kept, effect⟩
      cases answer with
      | error code => exact ⟨kept, effect⟩
      | ok node =>
          obtain ⟨stored, created⟩ := effect
          obtain ⟨inode, there, _⟩ := Option.map_eq_some_iff.mp stored
          simp only [post_bind]
          apply (kept.sound.counted.tmpfsNodeToVnode there).mono
          rintro vnode opened ⟨counted, keeps, chains, _⟩
          apply (kept.keep keeps counted chains).vfsVnodeUnref.seq
          rintro _ final ⟨after, released⟩
          refine ⟨after, node, ?_⟩
          rw [released.keeps.tmpfs, keeps.tmpfs]
          exact created
  | mkdir path mode =>
      cases new
      exact ready.withParent_addNew (by simp) allowed
  | symlink target linkpath =>
      cases new
      exact ready.withParent_addNew (by simp) allowed
  | _ => exact absurd new (by simp [NameOp.newPath])

end Calls

section Findable

variable {tmpfs next : Tmpfs} {root dir node : NodeId} {path name : Str} {kind : NodeKind}

theorem Created.preserves (created : Created tmpfs next dir name node kind) :
    Preserves tmpfs next fun _ _ => False where
  kinds := by
    intro id found known
    have differs : id ≠ node := by
      rintro rfl
      rw [created.fresh] at known
      exact absurd known (by simp)
    rw [created.turns.kinds, Function.update_of_ne differs, known]
  entries := by
    intro other key target _ found
    rw [← entry_some] at found ⊢
    have differs : ¬ (other = dir ∧ key = name) := by
      rintro ⟨rfl, rfl⟩
      rw [created.absent] at found
      exact absurd found (by simp)
    rw [created.turns.entry, rebind_of_ne differs, found]

/-- What resolves before an entry is added resolves in the same way behind it. -/
theorem Preserves.resolves (preserves : Preserves tmpfs next fun _ _ => False) (tree : Tree tmpfs)
    (resolved : Resolves tmpfs root path true (.ok node)) : Resolves next root path true (.ok node) := by
  obtain ⟨absolute, fits⟩ := resolved.absolute
  rw [resolves_iff_walks absolute fits] at resolved ⊢
  exact preserves.walks_kept tree.to_closed resolved

theorem vfsIsValidFilename_proper {name : Str} (valid : vfsIsValidFilename name = true) : ProperName name := by
  unfold vfsIsValidFilename at valid
  split at valid
  · exact absurd valid (by simp)
  · split at valid
    · exact absurd valid (by simp)
    · split at valid
      · exact absurd valid (by simp)
      · split at valid
        · exact absurd valid (by simp)
        · rename_i nonempty _ free dots
          rw [not_or] at dots
          refine ⟨nonempty, fun member => free ?_, dots.1, dots.2⟩
          rw [List.any_eq_true]
          exact ⟨slash, member, by simp⟩

/-- The lookup of a path with too many components ends in an older node, because the name of the new one
is not reached. -/
theorem Created.not_resolves (created : Created tmpfs next dir (vfsBasename path) node kind) (tree : Tree tmpfs)
    (parent : ParentEntry tmpfs root path dir (vfsBasename path)) (proper : ProperName (vfsBasename path))
    {dirname : Str} (named : vfsDirname path = some dirname) (long : maxComponents ≤ (normalWords dirname).length) :
    ¬ Resolves next root path false (.ok node) := by
  intro found
  obtain ⟨other, same, resolved, _⟩ := parent
  rw [named, Option.some.injEq] at same
  subst same
  obtain ⟨absolute, short⟩ := resolved.absolute
  have splits := splits_of_vfsDirname named absolute
  have fits := found.absolute.2
  rw [resolves_iff_walks splits.absolute fits, splits.words_proper proper,
    List.take_append_of_le_length long] at found
  rw [resolves_iff_walks absolute short] at resolved
  have filled : (normalWords dirname).take maxComponents ≠ [] := by
    rw [← List.length_pos_iff_ne_nil, List.length_take, Nat.min_eq_left long]
    decide
  -- Both walks read the last component in the same directory of the older tree.
  obtain ⟨front, last, split⟩ := (List.eq_nil_or_concat' _).resolve_left filled
  rw [split] at found resolved
  obtain ⟨reached, links, crosses⟩ := resolved.crosses_front (Or.inr rfl)
  have final := (crosses.walks_append (Or.inr rfl)).mp resolved
  obtain ⟨target, bound⟩ : ∃ target, tmpfs.entry reached last = some target := by
    cases missing : entryOf tmpfs reached last with
    | error code =>
        rw [walks_missing missing] at final
        exact absurd final (by simp)
    | ok target => exact ⟨target, entry_some.mpr missing⟩
  have preserves := created.preserves
  obtain ⟨more, again⟩ := (preserves.walks_kept tree.to_closed crosses.walks).crosses
  have still : next.entry reached last = some target :=
    entry_some.mpr (preserves.entries reached last target id (entry_some.mp bound))
  rw [again.walks_append (Or.inl (by simp)), walks_last still (Or.inl rfl)] at found
  obtain ⟨data, live⟩ := tree.entry_target (entry_some.mp bound)
  cases found
  have fresh := created.fresh
  rw [Tmpfs.kindOf, live] at fresh
  exact absurd fresh (by simp)

/-- A new node is found under its path if and only if the name is valid, the path fits, and its
directory has fewer components than the lookup can hold. -/
theorem Created.findable_iff (created : Created tmpfs next dir (vfsBasename path) node kind) (tree : Tree tmpfs)
    (parent : ParentEntry tmpfs root path dir (vfsBasename path)) :
    (vfsIsValidFilename (vfsBasename path) = true ∧ Resolves next root path false (.ok node)) ↔
      (vfsIsValidFilename (vfsBasename path) = true ∧ path.length < vfsMaxPath ∧
        ∀ dirname, vfsDirname path = some dirname → (normalWords dirname).length < maxComponents) := by
  constructor
  · rintro ⟨valid, found⟩
    refine ⟨valid, found.absolute.2, fun dirname named => ?_⟩
    by_contra long
    exact created.not_resolves tree parent (vfsIsValidFilename_proper valid) named (Nat.not_lt.mp long) found
  · rintro ⟨valid, fits, room⟩
    refine ⟨valid, ?_⟩
    have still : ParentEntry next root path dir (vfsBasename path) := by
      obtain ⟨dirname, named, resolved, _⟩ := parent
      exact ⟨dirname, named, created.preserves.resolves tree resolved, rfl⟩
    obtain ⟨before, links, iff⟩ := still.resolves_iff ⟨fits, vfsIsValidFilename_proper valid, room⟩
    rw [iff, walks_last (by rw [created.turns.entry, rebind_self]) (Or.inl rfl)]

end Findable

/-- For every tree with a sound cache and every call that makes a node: the name is valid and the node
is found by `vfs_lookup_internal` if and only if the name is valid, the path is shorter than
`VFS_MAX_PATH`, and the normal form of the directory has fewer components than the array of the lookup. -/
theorem created_findable_iff {state next : VfsState} {held : VnodeId → Nat} {root : NodeId}
    (ready : Ready state held root) {fuel : Nat} {op : NameOp} {path : Str} (new : op.newPath = some path)
    (made : nameCall fuel op state = .ok (.ok ()) next) :
    ∃ dir node, Created state.tmpfs next.tmpfs dir (vfsBasename path) node op.newKind ∧
      ((vfsIsValidFilename (vfsBasename path) = true ∧
          ∃ fuel, internalOutcome next fuel path false = some (.ok node)) ↔
        (vfsIsValidFilename (vfsBasename path) = true ∧ path.length < vfsMaxPath ∧
          ∀ dirname, vfsDirname path = some dirname → (normalWords dirname).length < maxComponents)) := by
  have run : Post (· = .outOfFuel) (nameCall fuel op) (fun answer next => Ready next held root ∧
      Makes state.tmpfs next.tmpfs root path op.newKind answer) state := ready.makes new fun _ _ => rfl
  rw [Post, made] at run
  obtain ⟨kept, dir, node, parent, created⟩ := run
  refine ⟨dir, node, created, ?_⟩
  rw [kept.sound.exists_internal]
  exact created.findable_iff ready.tree parent

/-- The state after the directory `/d` was made. -/
def afterMkdir : VfsState := finalState (nameCall 1 (.mkdir [47, 100] 0x1ED)) mountedRoot

/-- The directory `/d` is found. -/
theorem created_findable_iff_mkdir :
    ∃ dir node, Created mountedRoot.tmpfs afterMkdir.tmpfs dir [100] node .dir ∧
      ∃ fuel, internalOutcome afterMkdir fuel [47, 100] false = some (.ok node) := by
  have made : nameCall 1 (.mkdir [47, 100] 0x1ED) mountedRoot = .ok (.ok ()) afterMkdir := by
    with_unfolding_all rfl
  obtain ⟨dir, node, created, findable⟩ := created_findable_iff ready_mountedRoot (by rfl) made
  have named : vfsBasename [47, 100] = [100] := by decide
  rw [named] at created findable
  refine ⟨dir, node, created, (findable.mpr ⟨by decide, by decide, ?_⟩).2⟩
  intro dirname parent
  have root : vfsDirname [47, 100] = some [slash] := by decide
  rw [root, Option.some.injEq] at parent
  subst parent
  decide

/-- The state after the file `/d/` was created as well. -/
def afterSlash : VfsState := finalState (nameCall 1 (.create [47, 100, 47] 0x1A4)) afterMkdir

/-- The file `/d/` is created as the node two with an empty name, and the lookup finds the directory. -/
theorem vfsCreate_empty_name :
    (match nameCall 1 (.create [47, 100, 47] 0x1A4) afterMkdir with
      | .ok answer _ => some answer
      | .error _ _ => none) = some (.ok ()) ∧
    afterSlash.tmpfs.entry 1 [] = some 2 ∧ vfsIsValidFilename [] = false ∧
    internalOutcome afterSlash 1 [47, 100, 47] false = some (.ok 1) := by
  refine ⟨by decide +kernel, by decide +kernel, by decide, by decide +kernel⟩

end Uesi.Vfs
