import Uesi.Proof.Vfs.Stale
import Uesi.Proof.Vfs.Effects

namespace Uesi.Vfs

open Library

/-- The entry that a call on the parent directory of a path works on. -/
def ParentEntry (tmpfs : Tmpfs) (root : NodeId) (path : Str) (dir : NodeId) (name : Str) : Prop :=
  ∃ dirname, vfsDirname path = some dirname ∧ Resolves tmpfs root dirname true (.ok dir) ∧
    name = vfsBasename path

theorem ParentEntry.unique {tmpfs : Tmpfs} {root dir other : NodeId} {path name another : Str}
    (first : ParentEntry tmpfs root path dir name) (second : ParentEntry tmpfs root path other another) :
    dir = other := by
  obtain ⟨dirname, named, resolved, _⟩ := first
  obtain ⟨again, same, resolved', _⟩ := second
  rw [named, Option.some.injEq] at same
  subst same
  cases resolved.unique resolved'
  rfl

/-- The lookups of some paths may add a key to the cache. -/
def LooksUp (tmpfs : Tmpfs) (root : NodeId) (paths : List Str) (key : Str) : Prop :=
  ∃ path ∈ paths, Caches tmpfs root true path key

/-- A call stops only when a resolution of links runs out of fuel. -/
abbrev Returns (action : Exec (Except Errno Unit)) (after : VfsState → Prop) (state : VfsState) : Prop :=
  Post (· = .outOfFuel) action (fun _ next => after next) state

section Rules

variable {stop : Fault → Prop} {state middle next : VfsState} {held : VnodeId → Nat} {root : NodeId}
  {id : VnodeId} {node : NodeId} {path : Str} {fuel : Nat}

theorem Ready.keep {later : VnodeId → Nat} (ready : Ready state held root) (keeps : Keeps state next)
    (counted : Counted next later) (chains : next.dentryHash = state.dentryHash) : Ready next later root :=
  ⟨ready.sound.keep keeps counted chains, keeps.tmpfs ▸ ready.tree⟩

/-- New entries keep the cache sound. -/
theorem Ready.mutate (ready : Ready state held root) (mutated : Mutated state next fun _ _ => False) :
    Ready next held root :=
  (ready.behind.mutate mutated).ready fun _ _ _ _ _ lost => lost.elim id id

theorem Ready.vfsVnodeUnref (ready : Ready state (held + Pi.single id 1) root) :
    Post stop (vfsVnodeUnref id) (fun _ next => Ready next held root ∧ Looked state next fun _ => False)
      state := by
  apply ready.sound.vfsVnodeUnref.mono
  rintro _ next ⟨sound, looked⟩
  exact ⟨⟨sound, looked.keeps.tmpfs ▸ ready.tree⟩, looked⟩

/-- A reference is given back before a call returns. -/
theorem Ready.release {α : Type} {answer : α} {after : α → VfsState → Prop}
    (ready : Ready state (held + Pi.single id 1) root) (implies : ∀ next, Ready next held root → after answer next) :
    Post stop (do Vfs.vfsVnodeUnref id; return answer) after state := by
  apply ready.vfsVnodeUnref.seq
  rintro _ next ⟨kept, _⟩
  exact implies next kept

/-- A vnode in use stands for a node. -/
theorem Counted.dataOf (counted : Counted state held) (found : state.nodeOf id = some node) :
    ∃ data, state.tmpfs.dataOf node = some data := by
  obtain ⟨vnode, live, rfl⟩ := nodeOf_some.mp found
  obtain ⟨stored, there, _⟩ := counted.typed id vnode live
  exact ⟨stored.data, by rw [Tmpfs.dataOf, there]; rfl⟩

variable (ready : Ready state held root)

include ready

theorem Ready.dataOf (found : state.nodeOf id = some node) : ∃ data, state.tmpfs.dataOf node = some data :=
  ready.sound.counted.dataOf found

/-- A vnode that a caller holds stands for the same node after a lookup. -/
theorem Ready.nodeOf {visits : Str → Prop} {later : VnodeId → Nat} (looked : Looked state next visits)
    (after : Ready next later root) (holds : 0 < later id) (found : state.nodeOf id = some node) :
    next.nodeOf id = some node :=
  looked.keeps.nodeOf_eq ready.sound.counted after.sound.counted found (by omega)

/-- `vfs_lookup` answers as the tree does, and stops only when the resolution in the tree lacks fuel. -/
theorem Ready.vfsLookup_post (allowed : resolve state.tmpfs root fuel path true = none → stop .outOfFuel) :
    Post stop (vfsLookup fuel path) (fun answer next =>
      Looked state next (Caches state.tmpfs root true path) ∧ match answer with
        | .error code => Ready next held root ∧ Resolves state.tmpfs root path true (.error code)
        | .ok id => Ready next (held + Pi.single id 1) root ∧
            ∃ node, next.nodeOf id = some node ∧ Resolves state.tmpfs root path true (.ok node)) state := by
  refine ((vfsLookupInternal_answers fuel path true state held ready.sound rfl).weaken ?_).mono ?_
  · rintro fault ⟨rfl, exhausted⟩
    exact allowed exhausted
  · rintro answer next ⟨looked, answered⟩
    have tree : Tree next.tmpfs := looked.keeps.tmpfs ▸ ready.tree
    refine ⟨looked, ?_⟩
    cases answer with
    | error code => exact ⟨⟨answered.1, tree⟩, answered.2⟩
    | ok id => exact ⟨⟨answered.1, tree⟩, answered.2⟩

theorem Ready.vfsLookup (fuel : Nat) (path : Str) :
    Post (· = .outOfFuel) (vfsLookup fuel path) (fun answer next =>
      Looked state next (Caches state.tmpfs root true path) ∧ match answer with
        | .error code => Ready next held root ∧ Resolves state.tmpfs root path true (.error code)
        | .ok id => Ready next (held + Pi.single id 1) root ∧
            ∃ node, next.nodeOf id = some node ∧ Resolves state.tmpfs root path true (.ok node)) state :=
  ready.vfsLookup_post fun _ => rfl

/-- A call on the parent directory does what the call on the directory does, or it fails because there
is no such directory. -/
theorem Ready.withParent_post {call : VnodeId → Str → Exec (Except Errno Unit)}
    {after : Except Errno Unit → VfsState → Prop}
    (allowed : ∀ dirname, resolve state.tmpfs root fuel dirname true = none → stop .outOfFuel)
    (failed : ∀ code next, Ready next held root → next.tmpfs = state.tmpfs →
      (∀ dir name, ¬ ParentEntry state.tmpfs root path dir name) → after (.error code) next)
    (body : ∀ parent dir middle, Ready middle (held + Pi.single parent 1) root →
      Looked state middle (LooksUp state.tmpfs root (vfsDirname path).toList) →
      middle.nodeOf parent = some dir → ParentEntry state.tmpfs root path dir (vfsBasename path) →
      Post stop (do
        let answer ← call parent (vfsBasename path)
        Vfs.vfsVnodeUnref parent
        return answer) after middle) :
    Post stop (withParent fuel path call) after state := by
  simp only [Vfs.withParent, vfsLookupParent, post_bind]
  cases dirname : vfsDirname path with
  | none =>
      refine failed .enametoolong state ready rfl ?_
      rintro dir name ⟨text, found, _⟩
      rw [dirname] at found
      exact absurd found (by simp)
  | some parent =>
      simp only [post_bind]
      apply (ready.vfsLookup_post (allowed parent)).mono
      rintro answer middle ⟨looked, answered⟩
      cases answer with
      | error code =>
          refine failed code middle answered.1 looked.keeps.tmpfs ?_
          rintro dir name ⟨text, found, resolved, _⟩
          rw [dirname, Option.some.injEq] at found
          subst found
          exact absurd (resolved.unique answered.2) (by simp)
      | ok id =>
          obtain ⟨taken, dir, found, resolved⟩ := answered
          have looking : Looked state middle (LooksUp state.tmpfs root (vfsDirname path).toList) :=
            looked.mono fun key caches => ⟨parent, by simp [dirname], caches⟩
          exact (post_bind _ _).mp (body id dir middle taken looking found ⟨parent, dirname, resolved, rfl⟩)

/-- A call on the parent directory keeps what the call on the directory keeps. -/
theorem Ready.withParent {call : VnodeId → Str → Exec (Except Errno Unit)}
    (body : ∀ parent dir middle, Ready middle (held + Pi.single parent 1) root →
      Looked state middle (LooksUp state.tmpfs root (vfsDirname path).toList) →
      middle.nodeOf parent = some dir → ParentEntry state.tmpfs root path dir (vfsBasename path) →
      Returns (call parent (vfsBasename path)) (Ready · (held + Pi.single parent 1) root) middle) :
    Returns (withParent fuel path call) (Ready · held root) state := by
  refine ready.withParent_post (fun _ _ => rfl) (fun _ _ kept _ _ => kept)
    fun parent dir middle taken looking found entry => ?_
  apply (body parent dir middle taken looking found entry).seq
  intro answer next kept
  exact kept.release fun _ kept => kept

end Rules

section Additions

variable {state : VfsState} {held : VnodeId → Nat} {root : NodeId} {fuel : Nat} {path : Str}

variable (ready : Ready state held root)

include ready

/-- `tmpfs_create` returns a vnode of the new file. -/
theorem Ready.tmpfsCreate {stop : Fault → Prop} {dir : VnodeId} {parent : NodeId}
    (found : state.nodeOf dir = some parent) (name : Str) (mode : BitVec 32) :
    Post stop (tmpfsCreate dir name mode) (fun answer next => match answer with
      | .error _ => Ready next held root
      | .ok id => Ready next (held + Pi.single id 1) root) state := by
  obtain ⟨there, live⟩ := ready.dataOf found
  simp only [Vfs.tmpfsCreate, post_bind]
  apply (ready.tree.tmpfsAddNew_effect found live (by simp) mode).mono
  rintro answer next ⟨⟨mutated, created⟩, _⟩
  have kept := ready.mutate mutated
  cases answer with
  | error code => exact kept
  | ok node =>
      obtain ⟨stored, at_, _⟩ := Option.map_eq_some_iff.mp (created node rfl)
      simp only [post_bind]
      apply (kept.sound.counted.tmpfsNodeToVnode at_).mono
      rintro id final ⟨counted, keeps, chains, _⟩
      exact kept.keep keeps counted chains

theorem Ready.vfsCreate (mode : BitVec 32) : Returns (vfsCreate fuel path mode) (Ready · held root) state := by
  refine ready.withParent fun parent dir middle ready _ found _ => ?_
  simp only [Returns, post_bind]
  apply (ready.tmpfsCreate found _ _).mono
  intro answer next result
  cases answer with
  | error code => exact result
  | ok id =>
      exact Ready.release result fun _ kept => kept

/-- A call that adds a node without entries keeps the cache sound. -/
theorem Ready.addNew {dir : VnodeId} {parent : NodeId} (found : state.nodeOf dir = some parent) {name : Str}
    {data : TmpfsData} {mode : BitVec 32}
    (plain : ∀ entries count, data = .dir entries count → entries = [] ∧ count = 0) :
    Returns (do return (← tmpfsAddNew dir name data mode).map fun _ => ()) (Ready · held root) state := by
  obtain ⟨there, live⟩ := ready.dataOf found
  simp only [Returns, bind_pure_comp, post_map]
  apply (ready.tree.tmpfsAddNew_effect found live plain mode).mono
  rintro answer next ⟨⟨mutated, _⟩, _⟩
  exact ready.mutate mutated

theorem Ready.vfsMkdir (mode : BitVec 32) : Returns (vfsMkdir fuel path mode) (Ready · held root) state :=
  ready.withParent fun _ _ _ ready _ found _ => ready.addNew found (by simp)

theorem Ready.vfsSymlink (target : Str) : Returns (vfsSymlink fuel target path) (Ready · held root) state :=
  ready.withParent fun _ _ _ ready _ found _ => ready.addNew found (by simp)

theorem Ready.vfsLink (few : FewLinks state.tmpfs) (oldpath : Str) :
    Returns (vfsLink fuel oldpath path) (Ready · held root) state := by
  simp only [Returns, Vfs.vfsLink, post_bind]
  apply (ready.vfsLookup fuel oldpath).mono
  rintro answer opened ⟨looked, answered⟩
  cases answer with
  | error code => exact answered.1
  | ok target =>
      obtain ⟨ready, node, pointed, _⟩ := answered
      have few : FewLinks opened.tmpfs := looked.keeps.tmpfs ▸ few
      simp only [post_bind]
      have linked : Returns (Vfs.withParent fuel path fun parent name => tmpfsLink parent name target)
          (Ready · (held + Pi.single target 1) root) opened := by
        refine ready.withParent fun parent dir middle inner looked found _ => ?_
        have still : middle.nodeOf target = some node := by
          refine ready.nodeOf looked inner ?_ pointed
          simp only [Pi.add_apply, Pi.single_eq_same]
          omega
        obtain ⟨there, live⟩ := inner.dataOf found
        obtain ⟨data, kind⟩ := inner.dataOf still
        apply (inner.tree.tmpfsLink found live still kind (looked.keeps.tmpfs ▸ few node)).mono
        rintro answer next (⟨_, mutated, _⟩ | ⟨_, rfl, _⟩)
        · exact inner.mutate mutated
        · exact inner
      apply linked.mono
      intro answer next kept
      exact kept.release fun _ kept => kept

/-- `tmpfs_truncate` to no bytes keeps the tree and the vnode. -/
theorem Ready.tmpfsTruncate {stop : Fault → Prop} {id : VnodeId} {node : NodeId} (found : state.nodeOf id = some node) :
    Post stop (onRegular id (Vfs.tmpfsTruncate 0 none)) (fun _ next => Ready next held root) state := by
  obtain ⟨vnode, live, rfl⟩ := nodeOf_some.mp found
  obtain ⟨stored, there, type⟩ := ready.sound.counted.typed id vnode live
  simp only [onRegular, post_bind, post_readVnode live, post_readNode there]
  cases data : stored.data with
  | dir entries count => exact ready
  | symlink text => exact ready
  | file contents =>
      have emptied : Vfs.tmpfsTruncate 0 none ⟨contents, vnode.size⟩ = .ok (.ok ()) ⟨{}, 0⟩ := rfl
      simp only [emptied, post_bind, post_writeNode, post_writeVnode]
      set cut := state.setNode vnode.node (some { stored with data := .file {} }) with cutEq
      have kept : Ready cut held root := ready.mutate (ready.tree.setFile there data _)
      have open_ : cut.vnodes id = some vnode := live
      refine kept.keep ⟨rfl, rfl, le_rfl, ?_⟩ (kept.sound.counted.store ?_ ?_ (fun _ _ => rfl) ?_) rfl
      · intro other _
        left
        by_cases same : other = id
        · subst same
          simp [VfsState.nodeOf, open_]
        · exact setVnode_nodeOf_of_ne _ same
      · exact kept.sound.counted.lt_fresh open_
      · have count := kept.sound.counted.refs id
        rw [VfsState.refs, open_] at count
        exact count
      · rintro changed ⟨⟩
        exact ⟨kept.sound.counted.positive id vnode open_, kept.sound.counted.typed id vnode open_⟩

/-- `vfs_open` returns a vnode with a reference for the file. -/
theorem Ready.vfsOpen (flags mode : BitVec 32) :
    Post (· = .outOfFuel) (vfsOpen fuel path flags mode) (fun answer next => match answer with
      | .error _ => Ready next held root
      | .ok id => Ready next (held + Pi.single id 1) root) state := by
  have opened : Post (· = .outOfFuel) (openVnode fuel path flags mode) (fun answer next => match answer with
      | .error _ => Ready next held root
      | .ok id => Ready next (held + Pi.single id 1) root ∧ ∃ node, next.nodeOf id = some node) state := by
    have again {middle : VfsState} (ready : Ready middle held root) :
        Post (· = .outOfFuel) (Vfs.vfsLookup fuel path) (fun answer next => match answer with
          | .error _ => Ready next held root
          | .ok id => Ready next (held + Pi.single id 1) root ∧ ∃ node, next.nodeOf id = some node) middle := by
      apply (ready.vfsLookup fuel path).mono
      rintro answer next ⟨_, answered⟩
      cases answer with
      | error code => exact answered.1
      | ok id => exact ⟨answered.1, answered.2.imp fun _ => And.left⟩
    simp only [openVnode, post_bind]
    apply (again ready).mono
    intro answer next result
    cases answer with
    | ok id =>
        obtain ⟨taken, found⟩ := result
        by_cases exclusive : flags &&& vfsOCreat ≠ 0 ∧ flags &&& vfsOExcl ≠ 0
        · simp only [if_pos exclusive]
          exact taken.release fun _ kept => kept
        · simp only [if_neg exclusive]
          exact ⟨taken, found⟩
    | error code =>
        by_cases missing : code = .enoent
        · subst missing
          by_cases create : flags &&& vfsOCreat = 0
          · simp only [if_pos create]
            exact result
          · simp only [if_neg create, post_bind]
            apply (Ready.vfsCreate result mode).mono
            intro answer created kept
            cases answer with
            | error code => exact kept
            | ok _ => exact again kept
        · cases code <;> first | exact absurd rfl missing | exact result
  simp only [Vfs.vfsOpen, post_bind]
  apply opened.mono
  intro answer next result
  cases answer with
  | error code => exact result
  | ok id =>
      obtain ⟨taken, node, found⟩ := result
      by_cases keep : flags &&& vfsOTrunc = 0
      · simp only [if_pos keep]
        exact taken
      · simp only [if_neg keep, post_bind]
        apply (taken.tmpfsTruncate found).mono
        intro answer cut kept
        cases answer with
        | ok _ => exact kept
        | error code =>
            exact kept.release fun _ kept => kept

end Additions

end Uesi.Vfs
