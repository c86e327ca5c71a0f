import Uesi.Proof.Vfs.Creation

namespace Uesi.Vfs

open Library

/-- The stored link count of every node but the root is the number of the entries for it. -/
def LinksExact (tmpfs : Tmpfs) : Prop :=
  ∀ id nlink, id ≠ 0 → tmpfs.nlinkOf id = some nlink → nlink = tmpfs.links id

/-- A step frees a file or a symbolic link exactly when it removes the last entry for it. -/
def FreesExactly (tmpfs next : Tmpfs) : Prop :=
  ∀ id kind, tmpfs.kindOf id = some kind → kind ≠ .dir →
    (next.kindOf id = none ↔ 0 < tmpfs.links id ∧ next.links id = 0)

/-- The link counts are exact in every state of a run, and every call frees nodes exactly. -/
def ExactRun (fuel : Nat) : VfsState → List NameOp → Prop
  | state, [] => LinksExact state.tmpfs
  | state, op :: rest => LinksExact state.tmpfs ∧ ∀ answer next, nameCall fuel op state = .ok answer next →
      FreesExactly state.tmpfs next.tmpfs ∧ ExactRun fuel next rest

/-- The text of a path says that its parent directory is the root. -/
def InRoot (path : Str) : Prop :=
  ∃ dirname, vfsDirname path = some dirname ∧ vfsIsAbsolutePath (some dirname) = true ∧
    splitComponents (normalForm dirname) = []

/-- The root is the only node and has no entries. -/
def Bare (tmpfs : Tmpfs) : Prop :=
  ∀ id, tmpfs.dataOf id = if id = 0 then some (.dir [] 0) else none

section Bare

variable {tmpfs : Tmpfs}

variable (bare : Bare tmpfs)

include bare

theorem Bare.kindOf (id : NodeId) : tmpfs.kindOf id = if id = 0 then some .dir else none := by
  rw [Tmpfs.kindOf, bare]
  split
  · rfl
  · rfl

theorem Bare.entry (dir : NodeId) (name : Str) : tmpfs.entry dir name = none := by
  rw [Tmpfs.entry, bare]
  by_cases root : dir = 0
  · rw [if_pos root]
    rfl
  · rw [if_neg root]

theorem Bare.linksExact : LinksExact tmpfs := by
  intro id nlink other stored
  obtain ⟨node, found, _⟩ := Option.map_eq_some_iff.mp stored
  have data := bare id
  rw [if_neg other, dataOf_eq_none, found] at data
  exact absurd data (by simp)

theorem Bare.freesExactly (next : Tmpfs) : FreesExactly tmpfs next := by
  intro id kind found plain
  rw [bare.kindOf] at found
  split at found
  · exact absurd (Option.some.inj found).symm plain
  · exact absurd found (by simp)

/-- Every resolution in a bare tree ends at once. -/
theorem Bare.resolve (fuel : Nat) (path : Str) :
    ∃ outcome, Vfs.resolve tmpfs 0 (fuel + 1) path true = some outcome ∧
      (∀ node, outcome = .ok node → node = 0 ∧ vfsIsAbsolutePath (some path) = true ∧
        splitComponents (normalForm path) = []) := by
  unfold Vfs.resolve
  by_cases relative : vfsIsAbsolutePath (some path) = false
  · rw [if_pos relative]
    exact ⟨_, rfl, by simp⟩
  · rw [if_neg relative]
    by_cases long : vfsMaxPath ≤ path.length
    · rw [if_pos long]
      exact ⟨_, rfl, by simp⟩
    · rw [if_neg long]
      cases components : splitComponents (normalForm path) with
      | nil =>
          refine ⟨_, rfl, ?_⟩
          rintro node ⟨⟩
          exact ⟨rfl, by simpa using relative, rfl⟩
      | cons component rest =>
          have missing : entryOf tmpfs 0 component = .error .enoent := by
            rw [entryOf, bare 0]
            rfl
          rw [walkNodes, advance_error missing]
          exact ⟨_, rfl, by simp⟩

theorem Bare.resolves {path : Str} {node : NodeId} (resolved : Resolves tmpfs 0 path true (.ok node)) :
    node = 0 ∧ vfsIsAbsolutePath (some path) = true ∧ splitComponents (normalForm path) = [] := by
  obtain ⟨outcome, found, root⟩ := bare.resolve 0 path
  obtain rfl := Resolves.unique ⟨1, found⟩ resolved
  exact root node rfl

theorem Bare.not_exhausted {fuel : Nat} {path : Str} : Vfs.resolve tmpfs 0 (fuel + 1) path true = none → False := by
  obtain ⟨outcome, found, _⟩ := bare.resolve fuel path
  rw [found]
  simp

end Bare

/-- A call fails and changes nothing. -/
def Refused (action : Exec (Except Errno Unit)) (state : VfsState) : Prop :=
  Post (fun _ => False) action (fun answer next => (∃ code, answer = .error code) ∧ next = state) state

/-- A call on a bare tree returns and leaves the tree as it is. -/
def Idle {α : Type} (state : VfsState) (held : VnodeId → Nat) (action : Exec α) : Prop :=
  Post (fun _ => False) action (fun _ next => Ready next held 0 ∧ next.tmpfs = state.tmpfs) state

section Calls

variable {state : VfsState} {held : VnodeId → Nat} {fuel : Nat}

/-- A reference is given back in the end. -/
theorem Ready.idle_release {middle : VfsState} {id : VnodeId} (ready : Ready middle (held + Pi.single id 1) 0)
    (same : middle.tmpfs = state.tmpfs) {α : Type} {answer : α} :
    Post (fun _ => False) (do Vfs.vfsVnodeUnref id; return answer)
      (fun _ next => Ready next held 0 ∧ next.tmpfs = state.tmpfs) middle := by
  apply ready.vfsVnodeUnref.seq
  rintro _ final ⟨after, released⟩
  exact ⟨after, released.keeps.tmpfs.trans same⟩

theorem Bare.withParent (bare : Bare state.tmpfs) (ready : Ready state held 0) {path : Str}
    {call : VnodeId → Str → Exec (Except Errno Unit)}
    (body : ∀ parent middle, InRoot path → Ready middle (held + Pi.single parent 1) 0 →
      middle.tmpfs = state.tmpfs → middle.nodeOf parent = some 0 →
      (∀ id, 0 < held id → ∀ node, state.nodeOf id = some node → middle.nodeOf id = some node) →
      Idle middle (held + Pi.single parent 1) (call parent (vfsBasename path))) :
    Idle state held (withParent (fuel + 1) path call) := by
  refine ready.withParent_post (fun _ => bare.not_exhausted) (fun _ next kept same _ => ⟨kept, same⟩) ?_
  rintro parent dir middle taken looked found ⟨dirname, named, resolved, _⟩
  obtain ⟨rfl, absolute, empty⟩ := bare.resolves resolved
  have same : middle.tmpfs = state.tmpfs := looked.keeps.tmpfs
  refine (body parent middle ⟨dirname, named, absolute, empty⟩ taken same found ?_).seq ?_
  · intro id holds node at_
    exact ready.nodeOf looked taken (by rw [Pi.add_apply]; omega) at_
  · rintro answer next ⟨kept, unchanged⟩
    exact kept.idle_release (unchanged.trans same)

theorem Bare.vfsLookup (bare : Bare state.tmpfs) (ready : Ready state held 0) (path : Str) :
    Post (fun _ => False) (vfsLookup (fuel + 1) path) (fun answer next => next.tmpfs = state.tmpfs ∧
      match answer with
      | .error _ => Ready next held 0 ∧ ∀ id, 0 < held id → ∀ node, state.nodeOf id = some node →
          next.nodeOf id = some node
      | .ok target => Ready next (held + Pi.single target 1) 0 ∧ next.nodeOf target = some 0 ∧
          ∀ id, 0 < held id → ∀ node, state.nodeOf id = some node → next.nodeOf id = some node) state := by
  apply (ready.vfsLookup_post fun none => bare.not_exhausted none).mono
  rintro answer next ⟨looked, answered⟩
  refine ⟨looked.keeps.tmpfs, ?_⟩
  cases answer with
  | error code => exact ⟨answered.1, fun id holds node at_ => ready.nodeOf looked answered.1 holds at_⟩
  | ok target =>
      obtain ⟨taken, node, found, resolved⟩ := answered
      refine ⟨taken, (bare.resolves resolved).1 ▸ found, fun id holds node at_ => ?_⟩
      exact ready.nodeOf looked taken (by rw [Pi.add_apply]; omega) at_

section Tmpfs

variable {dir : VnodeId} {name : Str}

theorem Bare.refused_of_unbound {present : Prop} (absent : ¬ present) {action : Exec (Except Errno Unit)}
    (removal : Post (fun _ => False) action (fun answer next => Unbound state next 0 name present answer ∧
      (Tree state.tmpfs → Removed state next 0 name answer)) state) :
    Refused action state := by
  apply removal.mono
  rintro answer next ⟨unbound, _⟩
  cases answer with
  | error code => exact ⟨⟨code, rfl⟩, unbound.1⟩
  | ok _ => exact absurd unbound.1 absent

theorem Bare.tmpfsUnlink (bare : Bare state.tmpfs) (ready : Ready state held 0)
    (found : state.nodeOf dir = some 0) : Refused (tmpfsUnlink dir name) state :=
  refused_of_unbound (by simp [bare.entry]) (ready.tree.firm.tmpfsUnlink found (bare 0))

theorem Bare.tmpfsRmdir (bare : Bare state.tmpfs) (ready : Ready state held 0)
    (found : state.nodeOf dir = some 0) : Refused (tmpfsRmdir dir name) state := by
  refine refused_of_unbound ?_ (ready.tree.firm.tmpfsRmdir found (bare 0))
  rintro ⟨target, entries, bound, _⟩
  rw [bare.entry] at bound
  exact absurd bound (by simp)

theorem Bare.tmpfsLink (bare : Bare state.tmpfs) (ready : Ready state held 0)
    (found : state.nodeOf dir = some 0) {target : VnodeId} (pointed : state.nodeOf target = some 0) :
    Refused (tmpfsLink dir name target) state := by
  apply (ready.tree.tmpfsLink_effect found (bare 0) pointed (bare 0)).mono
  intro answer next linked
  cases answer with
  | error code => exact ⟨⟨code, rfl⟩, linked.1⟩
  | ok _ => exact absurd (bare.kindOf 0) linked.1.1

end Tmpfs

theorem Refused.idle {action : Exec (Except Errno Unit)} (refused : Refused action state)
    (ready : Ready state held 0) : Idle state held action := by
  apply Post.mono refused
  rintro answer next ⟨_, rfl⟩
  exact ⟨ready, rfl⟩

section Idle

variable (bare : Bare state.tmpfs) (ready : Ready state held 0)

include bare ready

theorem Bare.vfsRmdir (path : Str) : Idle state held (vfsRmdir (fuel + 1) path) := by
  refine bare.withParent ready fun parent middle _ taken same found _ => ?_
  rw [← same] at bare
  apply (bare.tmpfsRmdir taken found).seq
  rintro answer next ⟨⟨code, rfl⟩, rfl⟩
  exact ⟨taken, rfl⟩

theorem Bare.vfsUnlink (path : Str) : Idle state held (vfsUnlink (fuel + 1) path) := by
  refine bare.withParent ready fun parent middle _ taken same found _ => ?_
  rw [← same] at bare
  apply (bare.vfsLookup taken path).seq
  rintro answer opened ⟨unchanged, answered⟩
  cases answer with
  | error code => exact ⟨answered.1, unchanged⟩
  | ok target =>
      obtain ⟨kept, _, still⟩ := answered
      have parentAt := still parent (by simp) 0 found
      rw [← unchanged] at bare
      apply (bare.tmpfsUnlink kept parentAt).seq
      rintro answer next ⟨_, rfl⟩
      exact kept.idle_release unchanged

theorem Bare.vfsLink (oldpath newpath : Str) : Idle state held (vfsLink (fuel + 1) oldpath newpath) := by
  apply (bare.vfsLookup ready oldpath).seq
  rintro answer opened ⟨unchanged, answered⟩
  cases answer with
  | error code => exact ⟨answered.1, unchanged⟩
  | ok target =>
      obtain ⟨kept, pointed, _⟩ := answered
      rw [← unchanged] at bare
      have linked : Idle opened (held + Pi.single target 1)
          (Vfs.withParent (fuel + 1) newpath fun parent name => Vfs.tmpfsLink parent name target) := by
        refine bare.withParent kept fun parent middle _ taken same found still => ?_
        have targetAt := still target (by simp) 0 pointed
        rw [← same] at bare
        exact (bare.tmpfsLink taken found targetAt).idle taken
      apply Post.seq linked
      rintro answer next ⟨after, same⟩
      exact after.idle_release (same.trans unchanged)

theorem Bare.vfsRename (oldpath newpath : Str) : Idle state held (vfsRename (fuel + 1) oldpath newpath) := by
  unfold Vfs.vfsRename
  refine @Ready.vfsRename_post _ _ _ _ _ _ _ _ ready (fun held _ next => Ready next held 0 ∧
    next.tmpfs = state.tmpfs) (fun _ => bare.not_exhausted) (fun _ _ _ _ kept => kept.1.idle_release kept.2)
    (fun _ _ _ kept same _ => ⟨kept, same⟩) ?_
  intro oldVnode oldParent newParent source oldDir newDir third taken looking nodes sourceAt oldAt newAt
  obtain ⟨rfl, _⟩ := bare.resolves nodes.source
  obtain ⟨_, _, parent, _⟩ := nodes.new
  obtain ⟨rfl, _⟩ := bare.resolves parent
  have same : third.tmpfs = state.tmpfs := looking.tmpfs
  refine (taken.removeTarget (same ▸ bare.not_exhausted) newAt (by simp) sourceAt (by simp)).seq ?_
  rintro answer next ⟨removed, behind, _, _, kept, outcome⟩
  rw [same] at outcome
  -- A bare tree has no entry to replace.
  obtain ⟨nothing, unchanged⟩ : (∀ dir name, ¬ removed dir name) ∧ next.tmpfs = state.tmpfs := by
    cases answer with
    | error code => exact ⟨outcome.1, outcome.2.1⟩
    | ok _ =>
        obtain ⟨_, replaces, _⟩ | ⟨nothing, unchanged, _⟩ := outcome
        · exact absurd (bare.entry _ _) replaces.entry_ne
        · exact ⟨nothing, unchanged⟩
  have after := behind.ready fun _ _ dir name _ => nothing dir name
  cases answer with
  | error code => exact ⟨after, unchanged⟩
  | ok _ =>
      rw [← unchanged] at bare
      apply (bare.tmpfsLink after (kept newParent 0 (by simp) newAt) (kept oldVnode 0 (by simp) sourceAt)).seq
      rintro answer final ⟨⟨code, rfl⟩, rfl⟩
      exact ⟨after, unchanged⟩

/-- A call on a bare tree that makes no node in the root leaves the tree as it is. -/
theorem Bare.nameCall {op : NameOp} (named : op.Names) (away : ∀ path, op.newPath = some path → ¬ InRoot path) :
    Idle state held (nameCall (fuel + 1) op) := by
  cases op with
  | create path mode => exact bare.withParent ready fun _ _ inRoot => absurd inRoot (away path rfl)
  | mkdir path mode => exact bare.withParent ready fun _ _ inRoot => absurd inRoot (away path rfl)
  | symlink target linkpath => exact bare.withParent ready fun _ _ inRoot => absurd inRoot (away linkpath rfl)
  | openFile path flags mode => exact named.elim
  | link oldpath newpath => exact bare.vfsLink ready oldpath newpath
  | unlink path => exact bare.vfsUnlink ready path
  | rmdir path => exact bare.vfsRmdir ready path
  | rename oldpath newpath => exact bare.vfsRename ready oldpath newpath

end Idle

/-- The tree has a node besides the root. -/
def Crowded (tmpfs : Tmpfs) : Prop := ∃ id kind, id ≠ 0 ∧ tmpfs.kindOf id = some kind

/-- The link count of a new node starts at one, so that no node besides the root has an exact one. -/
theorem Crowded.not_linksExact {tmpfs : Tmpfs} (crowded : Crowded tmpfs) (tree : Tree tmpfs) :
    ¬ LinksExact tmpfs := by
  intro exact_
  obtain ⟨id, kind, other, found⟩ := crowded
  obtain ⟨data, there, _⟩ := Option.map_eq_some_iff.mp found
  obtain ⟨nlink, stored⟩ := exists_nlinkOf there
  have below := (tree.linked id nlink stored).1
  rw [← exact_ id nlink other stored] at below
  exact absurd below (lt_irrefl nlink)

/-- A call that makes a node in the root of a bare tree makes it crowded. -/
theorem Bare.nameCall_crowds (bare : Bare state.tmpfs) (ready : Ready state held 0) {op : NameOp} {path : Str}
    (new : op.newPath = some path) (inRoot : InRoot path) :
    Post (fun _ => False) (Vfs.nameCall (fuel + 1) op) (fun _ next => Ready next held 0 ∧ Crowded next.tmpfs)
      state := by
  apply (ready.makes new fun _ => bare.not_exhausted).mono
  rintro answer next ⟨kept, makes⟩
  refine ⟨kept, ?_⟩
  cases answer with
  | error code =>
      obtain ⟨dirname, named, absolute, empty⟩ := inRoot
      have found : Resolves state.tmpfs 0 dirname true (.ok 0) := by
        refine ⟨1, ?_⟩
        rw [resolve_walk absolute (vfsDirname_length named), empty]
        rfl
      exact absurd ⟨bare.kindOf 0, bare.entry 0 _⟩ (makes.2 0 ⟨dirname, named, found, rfl⟩)
  | ok _ =>
      obtain ⟨dir, node, _, created⟩ := makes
      refine ⟨node, op.newKind, ?_, by rw [created.turns.kinds, Function.update_self]⟩
      rintro rfl
      exact absurd created.fresh (by simp [bare.kindOf 0])

end Calls

/-- The link counts along a run on a new tmpfs are exact if and only if no call makes a node: that is,
no path of `vfs_create`, `vfs_mkdir` or `vfs_symlink` lies in the root. -/
theorem linksExact_iff (fuel : Nat) (ops : List NameOp) (named : ∀ op ∈ ops, op.Names) :
    ExactRun (fuel + 1) mountedRoot ops ↔ ∀ op ∈ ops, ∀ path, op.newPath = some path → ¬ InRoot path := by
  have bare : Bare mountedRoot.tmpfs := by
    intro id
    rw [Tmpfs.dataOf, mountedRoot_nodes]
    by_cases zero : id = 0
    · subst zero
      rfl
    · rw [Function.update_of_ne zero, if_neg zero]
      rfl
  have ready := ready_mountedRoot
  generalize mountedRoot = state at bare ready
  induction ops generalizing state with
  | nil => simpa [ExactRun] using bare.linksExact
  | cons op rest ih =>
      have later := ih fun op member => named op (List.mem_cons_of_mem _ member)
      rw [List.forall_mem_cons, ExactRun]
      by_cases away : ∀ path, op.newPath = some path → ¬ InRoot path
      · -- The call leaves the tree bare.
        obtain ⟨answer, next, ran, kept, same⟩ :=
          (bare.nameCall ready (named op List.mem_cons_self) away : Idle state 0 (nameCall (fuel + 1) op)).result
        have rest_iff := later next (same ▸ bare) kept
        constructor
        · rintro ⟨_, run⟩
          exact ⟨away, rest_iff.mp (run answer next ran).2⟩
        · rintro ⟨_, others⟩
          refine ⟨bare.linksExact, fun value final result => ⟨bare.freesExactly _, ?_⟩⟩
          rw [ran] at result
          cases result
          exact rest_iff.mpr others
      · -- The call makes a node, whose link count is above the number of its entries.
        refine ⟨fun run => ?_, fun outside => absurd outside.1 away⟩
        push Not at away
        obtain ⟨path, new, inRoot⟩ := away
        have crowds : Post (fun _ => False) (nameCall (fuel + 1) op) (fun _ next => Ready next 0 0 ∧
          Crowded next.tmpfs) state := bare.nameCall_crowds ready new inRoot
        obtain ⟨answer, next, ran, kept, crowded⟩ := crowds.result
        have exact_ : LinksExact next.tmpfs := by
          have after := (run.2 answer next ran).2
          cases rest with
          | nil => exact after
          | cons other others => exact after.1
        exact absurd exact_ (crowded.not_linksExact kept.tree)

/-- The link counts stay exact when `/a` is removed before it exists and the relative path `a` is refused, and
they do not when `/a` is created. -/
theorem linksExact_iff_refused :
    ExactRun 1 mountedRoot [.rmdir [47, 97], .mkdir [97] 0x1ED] ∧
      ¬ ExactRun 1 mountedRoot [.create [47, 97] 0x1A4] := by
  constructor
  · refine (linksExact_iff 0 _ (by simp [NameOp.Names])).mpr ?_
    simp only [List.forall_mem_cons, NameOp.newPath]
    refine ⟨by simp, ?_, by simp⟩
    rintro path ⟨⟩ ⟨dirname, named, absolute, _⟩
    have dotted : vfsDirname [97] = some [dot] := by decide
    rw [dotted, Option.some.injEq] at named
    subst named
    exact absurd absolute (by decide)
  · intro exact_
    refine (linksExact_iff 0 _ (by simp [NameOp.Names])).mp exact_ _ List.mem_cons_self [47, 97] rfl ?_
    exact ⟨[slash], by decide, by decide, by decide⟩

/-- The file `/a` has one entry and the link count two, and it stays when its last entry is removed. -/
theorem vfsCreate_links_twice :
    afterCreate.tmpfs.links 1 = 1 ∧ afterCreate.tmpfs.nlinkOf 1 = some 2 ∧
    (finalState (nameCall 1 (.unlink [47, 97])) afterCreate).tmpfs.links 1 = 0 ∧
    (finalState (nameCall 1 (.unlink [47, 97])) afterCreate).tmpfs.nlinkOf 1 = some 1 ∧
    ¬ LinksExact afterCreate.tmpfs := by
  have entries : afterCreate.tmpfs.links 1 = 1 := by decide +kernel
  have stored : afterCreate.tmpfs.nlinkOf 1 = some 2 := by decide +kernel
  refine ⟨entries, stored, by decide +kernel, by decide +kernel, fun exact_ => ?_⟩
  have same := exact_ 1 2 (by decide) stored
  rw [entries] at same
  exact absurd same (by decide)

end Uesi.Vfs
