import Uesi.Proof.Vfs.Coherence

namespace Uesi.Vfs

open Library

/-- A vnode was allocated and is no symbolic link. -/
def VfsState.Plain (state : VfsState) (id : VnodeId) : Prop :=
  id < state.freshVnode ∧ ∀ vnode, state.vnodes id = some vnode → vnode.hasType vfsIflnk = false

/-- The root and the cached vnodes are no symbolic links. -/
structure Settled (state : VfsState) : Prop where
  unused : ∀ id, state.freshVnode ≤ id → state.vnodes id = none
  root : ∀ id, state.root = some id → state.Plain id
  dentries : ∀ hash, ∀ dentry ∈ state.dentryHash hash, state.Plain dentry.vnode

/-- A step keeps the vnodes that are no symbolic links, and caches no others. -/
structure Steady (state next : VfsState) : Prop where
  plain : ∀ id, state.Plain id → next.Plain id
  settled : Settled next

/-- An action leads to a steady step whenever it returns. -/
def Quiet {α : Type} (action : Exec α) : Prop :=
  ∀ state, Settled state → Post (fun _ => True) action (fun _ next => Steady state next) state

section Rules

variable {α β : Type} {state next : VfsState}

theorem Settled.steady (settled : Settled state) : Steady state state := ⟨fun _ plain => plain, settled⟩

theorem Steady.trans {final : VfsState} (first : Steady state next) (second : Steady next final) :
    Steady state final :=
  ⟨fun id plain => second.plain id (first.plain id plain), second.settled⟩

/-- A step that keeps the root and the chains is steady when it keeps the vnodes. -/
theorem Settled.step (settled : Settled state) (plain : ∀ id, state.Plain id → next.Plain id)
    (unused : ∀ id, next.freshVnode ≤ id → next.vnodes id = none) (root : next.root = state.root)
    (chains : next.dentryHash = state.dentryHash) : Steady state next where
  plain := plain
  settled :=
    { unused
      root := fun id mounted => plain id (settled.root id (root ▸ mounted))
      dentries := fun hash dentry member => plain _ (settled.dentries hash dentry (chains ▸ member)) }

theorem quiet_pure (value : α) : Quiet (pure value) := fun _ settled => settled.steady

theorem Quiet.bind {action : Exec α} {rest : α → Exec β} (first : Quiet action)
    (later : ∀ value, Quiet (rest value)) : Quiet (action >>= rest) := by
  intro state settled
  apply (first state settled).seq
  intro value middle steady
  exact (later value middle steady.settled).mono fun _ _ more => steady.trans more

end Rules

section Primitives

variable {state : VfsState}

theorem quiet_get : Quiet (get : Exec VfsState) := fun _ settled => settled.steady

theorem quiet_throw {α : Type} (fault : Fault) : Quiet (throw fault : Exec α) := fun _ _ => trivial

theorem quiet_readNode (id : NodeId) : Quiet (readNode id) := by
  refine quiet_get.bind fun state => ?_
  split
  · exact quiet_pure _
  · exact quiet_throw _

theorem quiet_readVnode (id : VnodeId) : Quiet (readVnode id) := by
  refine quiet_get.bind fun state => ?_
  split
  · exact quiet_pure _
  · exact quiet_throw _

theorem quiet_writeNode (id : NodeId) (node : Option TmpfsNode) : Quiet (writeNode id node) :=
  fun _ settled => settled.step (fun _ plain => plain) settled.unused rfl rfl

/-- A vnode may be stored with its own mode, and freed. -/
theorem Settled.setVnode (settled : Settled state) {id : VnodeId} {stored : Option Vnode}
    (same : ∀ vnode, stored = some vnode → ∃ old, state.vnodes id = some old ∧ vnode.mode = old.mode) :
    Steady state (state.setVnode id stored) := by
  refine settled.step ?_ ?_ rfl rfl
  · rintro other ⟨allocated, plain⟩
    refine ⟨allocated, fun vnode found => ?_⟩
    change Function.update state.vnodes id stored other = some vnode at found
    by_cases self : other = id
    · subst self
      rw [Function.update_self] at found
      obtain ⟨old, there, mode⟩ := same vnode found
      rw [Vnode.hasType, mode]
      exact plain old there
    · rw [Function.update_of_ne self] at found
      exact plain vnode found
  · intro other above
    change Function.update state.vnodes id stored other = none
    have absent := settled.unused other above
    by_cases self : other = id
    · subst self
      rw [Function.update_self]
      by_contra live
      obtain ⟨vnode, store⟩ := Option.ne_none_iff_exists'.mp live
      obtain ⟨old, there, _⟩ := same vnode store
      rw [absent] at there
      exact absurd there (by simp)
    · rw [Function.update_of_ne self, absent]

/-- A vnode in use that is no symbolic link is plain. -/
theorem Settled.plain_of_live (settled : Settled state) {id : VnodeId} {vnode : Vnode}
    (found : state.vnodes id = some vnode) (plain : vnode.hasType vfsIflnk = false) : state.Plain id := by
  constructor
  · by_contra above
    rw [settled.unused id (Nat.le_of_not_lt above)] at found
    exact absurd found (by simp)
  · intro other there
    rw [found] at there
    cases there
    exact plain

theorem quiet_vfsVnodeRef (id : VnodeId) : Quiet (vfsVnodeRef id) := by
  intro state settled
  cases found : state.vnodes id with
  | none => simp [vfsVnodeRef, readVnode, found]
  | some vnode =>
      simp only [vfsVnodeRef, post_bind, post_readVnode found, post_get, post_modify, post_writeVnode]
      have recorded (wrapped : Bool) : Steady state { state with wrapped } :=
        settled.step (fun _ plain => plain) settled.unused rfl rfl
      refine (recorded _).trans ((recorded _).settled.setVnode ?_)
      rintro _ ⟨⟩
      exact ⟨vnode, found, rfl⟩

theorem quiet_vfsVnodeUnref (id : VnodeId) : Quiet (vfsVnodeUnref id) := by
  intro state settled
  cases found : state.vnodes id with
  | none => simp [vfsVnodeUnref, readVnode, found]
  | some vnode =>
      simp only [vfsVnodeUnref, post_bind, post_readVnode found]
      split
      · exact settled.steady
      · split
        · rw [post_writeVnode]
          exact settled.setVnode (by simp)
        · rw [post_writeVnode]
          refine settled.setVnode ?_
          rintro _ ⟨⟩
          exact ⟨vnode, found, rfl⟩

/-- The address of a new vnode was not in use. -/
theorem quiet_vfsVnodeAlloc (vnode : Vnode) : Quiet (vfsVnodeAlloc vnode) := by
  intro state settled
  simp only [vfsVnodeAlloc, post_bind, post_get, post_modify, post_writeVnode, post_pure]
  refine settled.step ?_ ?_ rfl rfl
  · rintro id ⟨allocated, plain⟩
    refine ⟨Nat.lt_succ_of_lt allocated, fun found there => plain found ?_⟩
    change Function.update state.vnodes state.freshVnode _ id = some found at there
    rwa [Function.update_of_ne allocated.ne] at there
  · intro id above
    change Function.update state.vnodes state.freshVnode _ id = none
    rw [Function.update_of_ne (Nat.lt_of_succ_le above).ne', settled.unused id (Nat.le_of_succ_le above)]

theorem quiet_tmpfsNodeAlloc (data : TmpfsData) (mode : BitVec 32) : Quiet (tmpfsNodeAlloc data mode) :=
  fun _ settled => settled.step (fun _ plain => plain) settled.unused rfl rfl

theorem inherited_quiet : Inherited fun _ action => Quiet action where
  pure := quiet_pure
  bind := Quiet.bind
  readNode := quiet_readNode
  writeNode := quiet_writeNode
  readVnode := quiet_readVnode
  vfsVnodeAlloc := quiet_vfsVnodeAlloc
  vfsVnodeUnref := quiet_vfsVnodeUnref
  tmpfsNodeAlloc := quiet_tmpfsNodeAlloc

theorem quiet_onRegular {α : Type} (id : VnodeId) (action : FileExec (Except Errno α)) :
    Quiet (onRegular id action) := by
  intro state settled
  cases found : state.vnodes id with
  | none => simp [onRegular, readVnode, found]
  | some vnode =>
      simp only [onRegular, post_bind, post_readVnode found]
      cases there : state.tmpfs.nodes vnode.node with
      | none => simp [readNode, there]
      | some node =>
          rw [post_readNode there]
          cases node.data with
          | dir entries count => exact settled.steady
          | symlink target => exact settled.steady
          | file contents =>
              simp only
              cases action ⟨contents, vnode.size⟩ with
              | error fault _ => trivial
              | ok answer changed =>
                  simp only [post_bind, post_writeNode, post_writeVnode]
                  have stored := quiet_writeNode vnode.node (some { node with data := .file changed.node }) state settled
                  rw [post_writeNode] at stored
                  refine stored.trans (stored.settled.setVnode ?_)
                  rintro _ ⟨⟩
                  exact ⟨vnode, found, rfl⟩

end Primitives

section Lookup

/-- A lookup answers with a vnode that is no symbolic link. -/
def Follows (lookup : Exec (Except Errno VnodeId)) : Prop :=
  ∀ state, Settled state → Post (fun _ => True) lookup
    (fun answer next => Steady state next ∧ ∀ id, answer = .ok id → next.Plain id) state

theorem Follows.quiet {lookup : Exec (Except Errno VnodeId)} (follows : Follows lookup) : Quiet lookup :=
  fun state settled => (follows state settled).mono fun _ _ => And.left

theorem follows_error (code : Errno) : Follows (pure (.error code)) :=
  fun _ settled => ⟨settled.steady, by simp⟩

/-- What an action does before a lookup is steady. -/
theorem Quiet.follows {α : Type} {action : Exec α} {rest : α → Exec (Except Errno VnodeId)}
    (first : Quiet action) (later : ∀ value, Follows (rest value)) : Follows (action >>= rest) := by
  intro state settled
  apply (first state settled).seq
  intro value middle steady
  apply (later value middle steady.settled).mono
  rintro answer next ⟨more, plain⟩
  exact ⟨steady.trans more, plain⟩

/-- A vnode that is no symbolic link stays one until an action answers with it. -/
theorem Quiet.follows_plain {α : Type} {action : Exec α} {rest : α → Exec (Except Errno VnodeId)}
    {state : VfsState} (first : Quiet action) (settled : Settled state) {id : VnodeId} (plain : state.Plain id)
    (later : ∀ value middle, Settled middle → middle.Plain id → Post (fun _ => True) (rest value)
      (fun answer next => Steady middle next ∧ ∀ id, answer = .ok id → next.Plain id) middle) :
    Post (fun _ => True) (action >>= rest)
      (fun answer next => Steady state next ∧ ∀ id, answer = .ok id → next.Plain id) state := by
  apply (first state settled).seq
  intro value middle steady
  apply (later value middle steady.settled (steady.plain id plain)).mono
  rintro answer next ⟨more, plain⟩
  exact ⟨steady.trans more, plain⟩

/-- The walk enters no symbolic link, it goes on behind the vnode that the link stands for. -/
theorem walkComponents_follows {lookup : Str → Exec (Except Errno VnodeId)} (follows : ∀ path, Follows (lookup path))
    (components before : List Str) (depth : Nat) (current : VnodeId) (state : VfsState) (settled : Settled state)
    (plain : state.Plain current) :
    Post (fun _ => True) (walkComponents lookup true before components depth current)
      (fun answer next => Steady state next ∧ ∀ id, answer = .ok id → next.Plain id) state := by
  induction components generalizing before depth current state with
  | nil =>
      refine ⟨settled.steady, ?_⟩
      rintro id ⟨⟩
      exact plain
  | cons component rest ih =>
      unfold walkComponents
      refine (quiet_readVnode current).follows_plain settled plain fun vnode state settled plain => ?_
      by_cases directory : vnode.hasType vfsIfdir
      · simp only [directory, Bool.not_true, Bool.false_eq_true, if_false]
        refine Quiet.follows (inherited_quiet.tmpfsLookup current component) (fun found => ?_) state settled
        refine (quiet_vfsVnodeUnref current).follows fun _ => ?_
        cases found with
        | error code => exact follows_error code
        | ok next =>
            intro state settled
            cases there : state.vnodes next with
            | none => simp [readVnode, there]
            | some vnode =>
                simp only [post_bind, post_readVnode there, Bool.true_eq_false, and_false, if_false]
                cases link : vnode.hasType vfsIflnk with
                | false => exact ih _ _ next state settled (settled.plain_of_live there link)
                | true =>
                    simp only [Bool.not_true, Bool.false_eq_true, if_false]
                    split
                    · exact (quiet_vfsVnodeUnref next).follows (fun _ => follows_error .eloop) state settled
                    · refine Quiet.follows (inherited_quiet.tmpfsReadlink next vfsMaxPath)
                        (fun target => ?_) state settled
                      refine (quiet_vfsVnodeUnref next).follows fun _ => ?_
                      split
                      · exact follows_error _
                      · intro state settled
                        apply (follows _ state settled).seq
                        rintro answer middle ⟨steady, plain⟩
                        cases answer with
                        | error code => exact ⟨steady, by simp⟩
                        | ok entered =>
                            apply (ih _ _ entered middle steady.settled (plain entered rfl)).mono
                            rintro answer final ⟨more, reached⟩
                            exact ⟨steady.trans more, reached⟩
      · simp only [directory, Bool.not_false, if_true]
        exact (quiet_vfsVnodeUnref current).follows (fun _ => follows_error .enotdir) state settled

theorem quiet_normalizePath (path : Str) : Quiet (normalizePath path) := by
  unfold normalizePath
  split
  · exact quiet_pure _
  · exact quiet_pure _
  · exact quiet_throw _

/-- A dentry is added for a vnode that is no symbolic link. -/
theorem Settled.vfsDentryAdd {state : VfsState} (settled : Settled state) {id : VnodeId} (plain : state.Plain id)
    (path : Str) : Post (fun _ => True) (vfsDentryAdd path id) (fun _ next => Steady state next) state := by
  apply (quiet_vfsVnodeRef id state settled).seq
  intro _ middle steady
  simp only [writeChain, post_bind, post_get, post_modify]
  refine ⟨steady.plain, steady.settled.unused, steady.settled.root, ?_⟩
  intro hash dentry member
  change dentry ∈ Function.update middle.dentryHash (dentryHashFunc path) _ hash at member
  by_cases same : hash = dentryHashFunc path
  · subst same
    rw [Function.update_self, List.mem_cons] at member
    obtain rfl | earlier := member
    · exact steady.plain id plain
    · exact steady.settled.dentries _ dentry earlier
  · rw [Function.update_of_ne same] at member
    exact steady.settled.dentries hash dentry member

theorem quiet_vfsDentryRemove (path : Str) : Quiet (vfsDentryRemove path) := by
  intro state settled
  simp only [vfsDentryRemove, post_bind, post_get]
  split
  · exact settled.steady
  · rename_i dentry rest found
    obtain ⟨_, front, back, split, rfl⟩ := unlinkNamed_some found
    simp only [writeChain, post_bind, post_modify]
    have fewer : Steady state
        { state with dentryHash := Function.update state.dentryHash (dentryHashFunc path) (front ++ back) } := by
      refine ⟨fun _ plain => plain, settled.unused, settled.root, ?_⟩
      intro hash other member
      change other ∈ Function.update state.dentryHash (dentryHashFunc path) (front ++ back) hash at member
      by_cases same : hash = dentryHashFunc path
      · subst same
        rw [Function.update_self] at member
        refine settled.dentries (dentryHashFunc path) other ?_
        rw [split]
        simp only [List.mem_append, List.mem_cons] at member ⊢
        tauto
      · rw [Function.update_of_ne same] at member
        exact settled.dentries hash other member
    exact (quiet_vfsVnodeUnref dentry.vnode _ fewer.settled).mono fun _ _ more => fewer.trans more

theorem walkPath_follows {lookup : Str → Exec (Except Errno VnodeId)} (follows : ∀ path, Follows (lookup path))
    (root : VnodeId) (normalized : Str) {state : VfsState} (settled : Settled state) (plain : state.Plain root) :
    Post (fun _ => True) (walkPath lookup root normalized true)
      (fun answer next => Steady state next ∧ ∀ id, answer = .ok id → next.Plain id) state := by
  refine (quiet_vfsVnodeRef root).follows_plain settled plain fun _ state settled plain => ?_
  split
  · refine ⟨settled.steady, ?_⟩
    rintro id ⟨⟩
    exact plain
  · apply (walkComponents_follows follows _ _ _ root state settled plain).seq
    rintro answer middle ⟨steady, reached⟩
    cases answer with
    | error code => exact ⟨steady, by simp⟩
    | ok current =>
        simp only [if_true, post_bind]
        apply (steady.settled.vfsDentryAdd (reached current rfl) normalized).mono
        intro _ next more
        refine ⟨steady.trans more, ?_⟩
        rintro id ⟨⟩
        exact more.plain current (reached current rfl)

/-- `vfs_lookup` never returns a symbolic link. -/
theorem vfsLookup_follows (fuel : Nat) (path : Str) : Follows (vfsLookup fuel path) := by
  induction fuel generalizing path with
  | zero => exact fun _ _ => trivial
  | succ fuel ih =>
      unfold vfsLookup vfsLookupInternal
      split
      · exact follows_error _
      · intro state settled
        simp only [post_bind, post_get]
        cases mounted : state.root with
        | none => exact ⟨settled.steady, by simp⟩
        | some root =>
            refine (quiet_normalizePath path).follows_plain settled (settled.root root mounted)
              fun answer state settled plain => ?_
            cases answer with
            | error code => exact ⟨settled.steady, by simp⟩
            | ok normalized =>
                simp only [cachedDentry, vfsDentryLookup, post_bind, post_get, post_pure]
                cases search : findDentry normalized (state.dentryHash (dentryHashFunc normalized)) with
                | none => exact walkPath_follows ih root normalized settled plain
                | some dentry =>
                    have cached := settled.dentries _ dentry (findDentry_some search).1
                    apply (quiet_vfsVnodeRef dentry.vnode state settled).seq
                    intro _ next steady
                    refine ⟨steady, ?_⟩
                    rintro id ⟨⟩
                    exact steady.plain _ cached

end Lookup

section Calls

variable {fuel : Nat}

theorem quiet_calls : CallsInherit fun _ action => Quiet action where
  toInherited := inherited_quiet
  vfsLookup fuel path := (vfsLookup_follows fuel path).quiet
  vfsDentryRemove := quiet_vfsDentryRemove
  onRegular := quiet_onRegular

theorem quiet_callAll {α Op : Type} {call : Op → Exec α} (quiet : ∀ op, Quiet (call op)) (ops : List Op) :
    Quiet (callAll call ops) := by
  induction ops with
  | nil => exact quiet_pure _
  | cons op rest ih => exact (quiet op).bind fun _ => ih.bind fun _ => quiet_pure _

/-- `vfs_readlink` follows the link that it should read, and refuses what it finds behind it. -/
theorem Settled.vfsReadlink {state : VfsState} (settled : Settled state) (fuel : Nat) (path : Str) (bufsize : Nat) :
    Post (fun _ => True) (vfsReadlink fuel path bufsize) (fun answer _ => ∃ code, answer = .error code) state := by
  unfold Vfs.vfsReadlink
  split
  · exact ⟨_, rfl⟩
  · apply (vfsLookup_follows fuel path state settled).seq
    rintro answer middle ⟨_, plain⟩
    cases answer with
    | error code => exact ⟨code, rfl⟩
    | ok id =>
        cases found : middle.vnodes id with
        | none => simp [readVnode, found]
        | some vnode =>
            simp only [post_bind, post_readVnode found, (plain id rfl).2 vnode found, Bool.not_false, if_true]
            refine (Post.anything _ _).mono fun _ _ _ => ⟨_, rfl⟩

theorem settled_mountedRoot : Settled mountedRoot where
  unused := ready_mountedRoot.sound.counted.unused
  root := by
    intro id mounted
    obtain rfl : 0 = id := Option.some.inj mounted
    refine ⟨by decide, fun vnode found => ?_⟩
    rw [mountedRoot_vnodes, Function.update_self, Option.some.injEq] at found
    subst found
    decide
  dentries := fun _ _ member => absurd member List.not_mem_nil

end Calls

/-- After every sequence of calls on a new tmpfs, a symbolic link that was made cannot be read back:
whatever the fuel and the size of the buffer are, `vfs_readlink` returns no text. -/
theorem vfsReadlink_never_reads (fuel : Nat) (ops : List NameOp) (target path : Str) :
    Post (fun _ => True) (callAll (nameCall fuel) ops) (fun _ state => ∀ next,
      vfsSymlink fuel target path state = .ok (.ok ()) next → ∀ more bufsize text final,
        vfsReadlink more path bufsize next ≠ .ok (.ok text) final) mountedRoot := by
  apply (quiet_callAll quiet_calls.nameCall ops _ settled_mountedRoot).mono
  intro _ state steady next made more bufsize text final read
  have quiet : Quiet (vfsSymlink fuel target path) := quiet_calls.vfsSymlink target path
  have kept := quiet state steady.settled
  rw [Post, made] at kept
  have refused := kept.settled.vfsReadlink more path bufsize
  rw [Post, read] at refused
  obtain ⟨code, never⟩ := refused
  exact absurd never (by simp)

/-- The link `/l` is made, and the read follows it to the missing file `/x`. -/
theorem vfsReadlink_follows_link :
    (match vfsSymlink 1 [120] [47, 108] mountedRoot with
      | .ok answer _ => some answer
      | .error _ _ => none) = some (.ok ()) ∧
    (match vfsReadlink 2 [47, 108] 16 (finalState (vfsSymlink 1 [120] [47, 108]) mountedRoot) with
      | .ok answer _ => some answer
      | .error _ _ => none) = some (.error .enoent) := by
  constructor <;> decide +kernel

end Uesi.Vfs
