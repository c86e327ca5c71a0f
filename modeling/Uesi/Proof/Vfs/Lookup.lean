import Uesi.Proof.Vfs.Resolve

namespace Uesi.Vfs

open Library

variable {lookup : Str → Exec (Except Errno VnodeId)} {path : Str} {dentry : Dentry} {state : VfsState}
  {hash fuel : Nat}

/-- The vnodes are counted, the tree is closed below the root, and each cached path resolves to the node
of its vnode and is cached once. -/
structure Sound (state : VfsState) (held : VnodeId → Nat) (root : NodeId) : Prop where
  counted : Counted state held
  closed : Closed state.tmpfs
  rooted : ∃ id, state.root = some id ∧ state.nodeOf id = some root
  hashed : ∀ hash, ∀ dentry ∈ state.dentryHash hash, hash = dentryHashFunc dentry.name
  distinct : ∀ hash, ((state.dentryHash hash).map (·.name)).Nodup
  resolves : ∀ hash, ∀ dentry ∈ state.dentryHash hash, ∃ node, state.nodeOf dentry.vnode = some node ∧
    Walks state.tmpfs root true [] (splitComponents dentry.name) 0 root (.ok node)

/-- A lookup changes no node and caches only paths that it resolves. -/
structure Looked (state next : VfsState) (visits : Str → Prop) : Prop where
  keeps : Keeps state next
  dentries : ∀ hash, ∀ dentry ∈ next.dentryHash hash, dentry ∈ state.dentryHash hash ∨ visits dentry.name

/-- A lookup answers with an outcome of the tree, and with a reference to the vnode of the node. -/
def Answered (next : VfsState) (held : VnodeId → Nat) (root : NodeId) (answer : Except Errno VnodeId)
    (outcome : Except Errno NodeId → Prop) : Prop :=
  match answer with
  | .error code => Sound next held root ∧ outcome (.error code)
  | .ok id => Sound next (held + Pi.single id 1) root ∧ ∃ node, next.nodeOf id = some node ∧ outcome (.ok node)

section Looked

variable {state middle next : VfsState} {visits : Str → Prop}

theorem Looked.of_keeps (keeps : Keeps state next) (chains : next.dentryHash = state.dentryHash) :
    Looked state next visits :=
  ⟨keeps, fun _ _ member => Or.inl (chains ▸ member)⟩

theorem Looked.trans (first : Looked state middle visits) (second : Looked middle next visits) :
    Looked state next visits where
  keeps := first.keeps.trans second.keeps
  dentries := by
    intro hash dentry member
    obtain earlier | visited := second.dentries hash dentry member
    · exact first.dentries hash dentry earlier
    · exact Or.inr visited

theorem Looked.mono {more : Str → Prop} (looked : Looked state next visits) (implies : ∀ key, visits key → more key) :
    Looked state next more :=
  ⟨looked.keeps, fun hash dentry member => (looked.dentries hash dentry member).imp_right (implies _)⟩

end Looked

section Sound

variable {state next : VfsState} {held later : VnodeId → Nat} {root : NodeId}

theorem cached_pos (inside : hash < dentryHashSize) (member : dentry ∈ state.dentryHash hash) :
    0 < state.cached dentry.vnode := by
  have one : 0 < (state.dentryHash hash).countP (·.vnode = dentry.vnode) := by
    rw [List.countP_pos_iff]
    exact ⟨dentry, member, by simp⟩
  exact lt_of_lt_of_le one (Finset.single_le_sum (f := fun index =>
    (state.dentryHash index).countP (·.vnode = dentry.vnode)) (fun _ _ => Nat.zero_le _)
      (Finset.mem_range.mpr inside))

theorem Sound.hash_lt (sound : Sound state held root) (member : dentry ∈ state.dentryHash hash) :
    hash < dentryHashSize :=
  sound.hashed hash dentry member ▸ dentryHashFunc_lt _

/-- A dentry keeps its vnode in use. -/
theorem Keeps.dentry_nodeOf (keeps : Keeps state next) (before : Counted state held) (counted : Counted next later)
    {node : NodeId} (inside : hash < dentryHashSize) (still : dentry ∈ next.dentryHash hash)
    (found : state.nodeOf dentry.vnode = some node) : next.nodeOf dentry.vnode = some node := by
  apply keeps.nodeOf_eq before counted found
  have positive := cached_pos inside still
  omega

/-- The root is in use as long as the mount exists. -/
theorem Keeps.rooted (keeps : Keeps state next) (before : Counted state held)
    (was : ∃ id, state.root = some id ∧ state.nodeOf id = some root) (counted : Counted next later) :
    ∃ id, next.root = some id ∧ next.nodeOf id = some root := by
  obtain ⟨id, mounted, node⟩ := was
  refine ⟨id, keeps.root.trans mounted, keeps.nodeOf_eq before counted node ?_⟩
  have one : next.mounted id = 1 := if_pos (keeps.root.trans mounted)
  omega

/-- A step that keeps the nodes and the chains keeps the cache sound. -/
theorem Sound.keep (sound : Sound state held root) (keeps : Keeps state next) (counted : Counted next later)
    (chains : next.dentryHash = state.dentryHash) : Sound next later root where
  counted := counted
  closed := keeps.tmpfs ▸ sound.closed
  rooted := keeps.rooted sound.counted sound.rooted counted
  hashed := chains ▸ sound.hashed
  distinct := chains ▸ sound.distinct
  resolves := by
    intro hash dentry member
    have was := chains ▸ member
    obtain ⟨node, found, walks⟩ := sound.resolves hash dentry was
    exact ⟨node, keeps.dentry_nodeOf sound.counted counted (sound.hash_lt was) member found, keeps.tmpfs ▸ walks⟩

variable {stop : Fault → Prop} {id : VnodeId} {node : NodeId}

theorem Sound.vfsVnodeRef (sound : Sound state held root) (found : state.nodeOf id = some node) :
    Post stop (vfsVnodeRef id) (fun _ next => Sound next (held + Pi.single id 1) root ∧
      Looked state next (fun _ => False) ∧ next.nodeOf id = some node) state := by
  obtain ⟨vnode, live, _⟩ := nodeOf_some.mp found
  apply (sound.counted.vfsVnodeRef live).mono
  rintro _ next ⟨counted, keeps, chains⟩
  refine ⟨sound.keep keeps counted chains, .of_keeps keeps chains, keeps.nodeOf_eq sound.counted counted found ?_⟩
  rw [Pi.add_apply, Pi.single_eq_same]
  omega

theorem Sound.vfsVnodeUnref (sound : Sound state (held + Pi.single id 1) root) :
    Post stop (vfsVnodeUnref id) (fun _ next => Sound next held root ∧
      Looked state next (fun _ => False)) state := by
  apply sound.counted.vfsVnodeUnref.mono
  rintro _ next ⟨counted, keeps, chains⟩
  exact ⟨sound.keep keeps counted chains, .of_keeps keeps chains⟩

/-- A cached path that resolves, and was not cached before, keeps the cache sound. -/
theorem Sound.vfsDentryAdd (sound : Sound state held root) {key : Str} (found : state.nodeOf id = some node)
    (absent : key ∉ (state.dentryHash (dentryHashFunc key)).map (·.name))
    (walks : Walks state.tmpfs root true [] (splitComponents key) 0 root (.ok node))
    (referenced : 0 < state.mounted id + held id) :
    Post stop (vfsDentryAdd key id) (fun _ next => Sound next held root ∧
      Looked state next (· = key) ∧ next.nodeOf id = some node) state := by
  obtain ⟨vnode, live, _⟩ := nodeOf_some.mp found
  apply (sound.counted.vfsDentryAdd live).mono
  rintro _ next ⟨counted, keeps, chains⟩
  have entries (hash : Nat) (dentry : Dentry) (member : dentry ∈ next.dentryHash hash) :
      dentry ∈ state.dentryHash hash ∨ (hash = dentryHashFunc key ∧ dentry = ⟨key, id⟩) := by
    rw [chains] at member
    by_cases same : hash = dentryHashFunc key
    · subst same
      rw [Function.update_self, List.mem_cons] at member
      exact member.symm.imp_right fun equal => ⟨rfl, equal⟩
    · rw [Function.update_of_ne same] at member
      exact Or.inl member
  have kept : next.nodeOf id = some node := by
    apply keeps.nodeOf_eq sound.counted counted found
    have mounted : next.mounted id = state.mounted id := by rw [VfsState.mounted, keeps.root]; rfl
    omega
  refine ⟨⟨counted, keeps.tmpfs ▸ sound.closed, keeps.rooted sound.counted sound.rooted counted, ?_, ?_, ?_⟩,
    ⟨keeps, ?_⟩, kept⟩
  · intro hash dentry member
    obtain earlier | ⟨rfl, rfl⟩ := entries hash dentry member
    · exact sound.hashed hash dentry earlier
    · rfl
  · intro hash
    rw [chains]
    by_cases same : hash = dentryHashFunc key
    · subst same
      rw [Function.update_self, List.map_cons, List.nodup_cons]
      exact ⟨absent, sound.distinct _⟩
    · rw [Function.update_of_ne same]
      exact sound.distinct hash
  · intro hash dentry member
    obtain earlier | ⟨_, rfl⟩ := entries hash dentry member
    · obtain ⟨target, was, resolved⟩ := sound.resolves hash dentry earlier
      exact ⟨target, keeps.dentry_nodeOf sound.counted counted (sound.hash_lt earlier) member was, keeps.tmpfs ▸ resolved⟩
    · exact ⟨node, kept, keeps.tmpfs ▸ walks⟩
  · intro hash dentry member
    obtain earlier | ⟨_, rfl⟩ := entries hash dentry member
    · exact Or.inl earlier
    · exact Or.inr rfl

/-- The type test of a vnode reads the type of its node. -/
theorem Counted.hasType (counted : Counted state held) {vnode : Vnode} {data : TmpfsData}
    (found : state.vnodes id = some vnode) (kind : state.tmpfs.dataOf vnode.node = some data)
    (type : BitVec 32) : vnode.hasType type = (data.vfsType == type) := by
  obtain ⟨node, live, bits⟩ := counted.typed id vnode found
  rw [Tmpfs.dataOf, live] at kind
  cases kind
  rw [Vnode.hasType, bits]

theorem vfsType_ifdir (data : TmpfsData) :
    (data.vfsType == vfsIfdir) = match data with | .dir _ _ => true | _ => false := by
  cases data <;> simp [TmpfsData.vfsType, vfsIfreg, vfsIfdir, vfsIflnk]

theorem vfsType_iflnk (data : TmpfsData) :
    (data.vfsType == vfsIflnk) = match data with | .symlink _ => true | _ => false := by
  cases data <;> simp [TmpfsData.vfsType, vfsIfreg, vfsIfdir, vfsIflnk]

/-- `tmpfs_lookup` in a directory answers as the tree does, with a new vnode. -/
theorem Counted.tmpfsLookup (counted : Counted state held) (closed : Closed state.tmpfs)
    (found : state.nodeOf id = some node) {entries : List TmpfsDirent} {count : Nat}
    (kind : state.tmpfs.dataOf node = some (.dir entries count)) (name : Str) :
    Post stop (tmpfsLookup id name) (fun answer next => match entryOf state.tmpfs node name with
      | .error code => answer = .error code ∧ next = state
      | .ok target => ∃ opened, answer = .ok opened ∧ Counted next (held + Pi.single opened 1) ∧
          Keeps state next ∧ next.dentryHash = state.dentryHash ∧ next.nodeOf opened = some target) state := by
  obtain ⟨vnode, live, same⟩ := nodeOf_some.mp found
  obtain ⟨stored, at_, data⟩ := Option.map_eq_some_iff.mp kind
  have directory : DirectoryAt state id node entries count := ⟨⟨vnode, live, same⟩, stored, at_, data⟩
  simp only [Vfs.tmpfsLookup, post_bind, directory.post_directoryNode, directory.post_tmpfsDirentFind,
    entryOf, kind]
  cases search : findEntry name entries with
  | none => simp
  | some entry =>
      obtain ⟨target, there⟩ := closed node stored entries count at_ data entry (findEntry_some search).1
      simp only [post_bind]
      apply (counted.tmpfsNodeToVnode there).mono
      rintro opened next ⟨counted, keeps, chains, fresh⟩
      exact ⟨opened, rfl, counted, keeps, chains, fresh⟩

end Sound

section Walk

variable {tmpfs : Tmpfs} {root : NodeId} {followFinal : Bool}

/-- The recursive call of a lookup answers as the tree does and runs out of fuel only when the
resolution in the tree does. -/
def Calls (tmpfs : Tmpfs) (root : NodeId) (fuel : Nat) (lookup : Str → Exec (Except Errno VnodeId)) : Prop :=
  ∀ state held path, Sound state held root → state.tmpfs = tmpfs → vfsIsAbsolutePath (some path) = true →
    path.length < vfsMaxPath →
    Post (fun fault => fault = .outOfFuel ∧ resolve tmpfs root fuel path true = none) (lookup path)
      (fun answer next => Looked state next (fun key => key = normalForm path ∨
        Visits tmpfs root true [] (splitComponents (normalForm path)) 0 root key) ∧
        Answered next held root answer (Resolves tmpfs root path true)) state

/-- An action ends a walk as the tree says, counted from the state in which the walk began. -/
def Ends (tmpfs : Tmpfs) (root : NodeId) (fuel : Nat) (followFinal : Bool) (before components : List Str)
    (depth : Nat) (node : NodeId) (held : VnodeId → Nat) (origin state : VfsState)
    (action : Exec (Except Errno VnodeId)) : Prop :=
  Post (fun fault => fault = .outOfFuel ∧
      walkNodes (resolve tmpfs root fuel · true) tmpfs followFinal before components depth node = none)
    action
    (fun answer next => Looked origin next (Visits tmpfs root followFinal before components depth node) ∧
      Answered next held root answer (Walks tmpfs root followFinal before components depth node)) state

section Cases

variable {fuel depth : Nat} {before rest : List Str} {component : Str} {node : NodeId}
  {held : VnodeId → Nat} {origin state : VfsState}

theorem Ends.stop {outcome : Except Errno NodeId} {answer : Except Errno VnodeId}
    (taken : advance tmpfs followFinal before component rest depth node = .stop outcome)
    (entered : Looked origin state fun _ => False) (answered : Answered state held root answer (· = outcome)) :
    Ends tmpfs root fuel followFinal before (component :: rest) depth node held origin state (pure answer) := by
  refine ⟨entered.mono fun _ => False.elim, ?_⟩
  cases answer with
  | error code => exact ⟨answered.1, answered.2 ▸ .stop taken⟩
  | ok id =>
      obtain ⟨sound, target, reached, same⟩ := answered
      exact ⟨sound, target, reached, same ▸ .stop taken⟩

theorem Ends.enter {next : NodeId} {action : Exec (Except Errno VnodeId)}
    (taken : advance tmpfs followFinal before component rest depth node = .enter next)
    (entered : Looked origin state fun _ => False)
    (ends : Ends tmpfs root fuel followFinal (before ++ [component]) rest depth next held state state action) :
    Ends tmpfs root fuel followFinal before (component :: rest) depth node held origin state action := by
  refine (ends.mono ?_).weaken ?_
  · rintro answer final ⟨looked, answered⟩
    refine ⟨(entered.mono fun _ => False.elim).trans (looked.mono fun _ => .enter taken), ?_⟩
    cases answer with
    | error code => exact ⟨answered.1, .enter taken answered.2⟩
    | ok id =>
        obtain ⟨sound, target, reached, walks⟩ := answered
        exact ⟨sound, target, reached, .enter taken walks⟩
  · rintro fault ⟨rfl, exhausted⟩
    exact ⟨rfl, by rw [walkNodes, taken]; exact exhausted⟩

theorem Ends.follow {continue_ : VnodeId → Exec (Except Errno VnodeId)} (calls : Calls tmpfs root fuel lookup)
    (taken : advance tmpfs followFinal before component rest depth node = .follow path)
    (entered : Looked origin state fun _ => False) (sound : Sound state held root) (tree : state.tmpfs = tmpfs)
    (ends : ∀ id next middle, Sound middle (held + Pi.single id 1) root → middle.tmpfs = tmpfs →
      middle.nodeOf id = some next → Ends tmpfs root fuel followFinal (before ++ [component]) rest (depth + 1)
        next held middle middle (continue_ id)) :
    Ends tmpfs root fuel followFinal before (component :: rest) depth node held origin state
      (lookup path >>= fun answer => match answer with
        | .error code => pure (.error code)
        | .ok id => continue_ id) := by
  obtain ⟨absolute, fits⟩ := advance_follow taken
  refine ((calls state held path sound tree absolute fits).weaken ?_).seq ?_
  · rintro fault ⟨rfl, exhausted⟩
    exact ⟨rfl, by simp only [walkNodes, taken, exhausted]⟩
  · rintro answer middle ⟨looked, answered⟩
    have reaching : Looked origin middle (Visits tmpfs root followFinal before (component :: rest) depth node) := by
      refine (entered.mono fun _ => False.elim).trans (looked.mono ?_)
      rintro key (rfl | inner)
      · exact .link taken
      · exact .inside taken inner
    cases answer with
    | error code => exact ⟨reaching, answered.1, .failed taken answered.2⟩
    | ok id =>
        obtain ⟨kept, next, reached, resolved⟩ := answered
        refine ((ends id next middle kept (looked.keeps.tmpfs.trans tree) reached).mono ?_).weaken ?_
        · rintro answer final ⟨later, answered⟩
          refine ⟨reaching.trans (later.mono fun _ => .after taken resolved), ?_⟩
          cases answer with
          | error code => exact ⟨answered.1, .follow taken resolved answered.2⟩
          | ok id =>
              obtain ⟨sound, target, arrived, walks⟩ := answered
              exact ⟨sound, target, arrived, .follow taken resolved walks⟩
        · rintro fault ⟨rfl, exhausted⟩
          refine ⟨rfl, ?_⟩
          simp only [walkNodes, taken]
          cases known : resolve tmpfs root fuel path true with
          | none => rfl
          | some outcome =>
              obtain rfl := Resolves.unique ⟨fuel, known⟩ resolved
              exact exhausted

end Cases

/-- An answer hands its vnode to the caller, and it stands for the node of an outcome of the tree. -/
def Handed (next : VfsState) (held : VnodeId → Nat) (outcome : Except Errno NodeId) :
    Except Errno VnodeId → Prop
  | .error code => Counted next held ∧ outcome = .error code
  | .ok id => Counted next (held + Pi.single id 1) ∧ ∃ node, next.nodeOf id = some node ∧ outcome = .ok node

/-- One component of the walk does what the tree says, and it gives up the reference to the vnode it came from. -/
theorem Counted.walkComponents_cons {stop : Fault → Prop} {after : Except Errno VnodeId → VfsState → Prop}
    {held : VnodeId → Nat} {before rest : List Str} {component : Str} {depth : Nat} {current : VnodeId}
    {node : NodeId} (counted : Counted state (held + Pi.single current 1)) (closed : Closed state.tmpfs)
    (at_ : state.nodeOf current = some node)
    (stops : ∀ outcome answer next, advance state.tmpfs followFinal before component rest depth node = .stop outcome →
      Keeps state next → next.dentryHash = state.dentryHash → Handed next held outcome answer → after answer next)
    (enters : ∀ target id next, advance state.tmpfs followFinal before component rest depth node = .enter target →
      Keeps state next → next.dentryHash = state.dentryHash → Counted next (held + Pi.single id 1) →
      next.nodeOf id = some target →
      Post stop (walkComponents lookup followFinal (before ++ [component]) rest depth id) after next)
    (follows : ∀ path next, advance state.tmpfs followFinal before component rest depth node = .follow path →
      Keeps state next → next.dentryHash = state.dentryHash → Counted next held →
      Post stop (lookup path >>= fun answer => match answer with
        | .error code => pure (.error code)
        | .ok id => walkComponents lookup followFinal (before ++ [component]) rest (depth + 1) id) after next) :
    Post stop (walkComponents lookup followFinal before (component :: rest) depth current) after state := by
  obtain ⟨vnode, live, rfl⟩ := nodeOf_some.mp at_
  obtain ⟨stored, there, _⟩ := counted.typed current vnode live
  have kind : state.tmpfs.dataOf vnode.node = some stored.data := by rw [Tmpfs.dataOf, there]; rfl
  simp only [walkComponents, post_bind, post_readVnode live, counted.hasType live kind, vfsType_ifdir]
  have refused (code : Errno) (failed : entryOf state.tmpfs vnode.node component = .error code) :
      Post stop (Vfs.vfsVnodeUnref current >>= fun _ => pure (.error code)) after state := by
    apply counted.vfsVnodeUnref.seq
    rintro _ next ⟨left, keeps, chains⟩
    exact stops _ (.error code) next (advance_error failed) keeps chains ⟨left, rfl⟩
  cases data : stored.data with
  | file contents => exact refused .enotdir (by rw [entryOf, kind, data])
  | symlink text => exact refused .enotdir (by rw [entryOf, kind, data])
  | dir entries count =>
      rw [data] at kind
      simp only [Bool.not_true, Bool.false_eq_true, if_false]
      apply (counted.tmpfsLookup closed at_ kind component).seq
      intro answer opened result
      cases found : entryOf state.tmpfs vnode.node component with
      | error code =>
          rw [found] at result
          obtain ⟨rfl, rfl⟩ := result
          exact refused code found
      | ok target =>
          rw [found] at result
          obtain ⟨next, rfl, taken, opening, unopened, reached⟩ := result
          rw [add_right_comm] at taken
          apply taken.vfsVnodeUnref.seq
          rintro _ entered ⟨left, releasing, unreleased⟩
          have keeps := opening.trans releasing
          have chains := unreleased.trans unopened
          replace reached : entered.nodeOf next = some target := by
            apply releasing.nodeOf_eq taken left reached
            rw [Pi.add_apply, Pi.single_eq_same]
            omega
          obtain ⟨nextVnode, live, rfl⟩ := nodeOf_some.mp reached
          obtain ⟨nextNode, there, _⟩ := left.typed next nextVnode live
          have kind : entered.tmpfs.dataOf nextVnode.node = some nextNode.data := by rw [Tmpfs.dataOf, there]; rfl
          simp only [post_bind, post_readVnode live, left.hasType live kind, vfsType_iflnk]
          rw [keeps.tmpfs] at kind
          cases data : nextNode.data with
          | file contents =>
              exact enters _ next entered (advance_enter found (by simp [kind, data])) keeps chains left reached
          | dir entries count =>
              exact enters _ next entered (advance_enter found (by simp [kind, data])) keeps chains left reached
          | symlink text =>
              rw [data] at kind
              simp only [Bool.not_true, Bool.false_eq_true, if_false]
              by_cases final : rest = [] ∧ followFinal = false
              · rw [if_pos final]
                exact stops _ (.ok next) entered (by simp only [advance, found, kind, if_pos final]) keeps chains
                  ⟨left, _, reached, rfl⟩
              · rw [if_neg final]
                -- Behind a link the reference to it is given up in any case.
                have unref {after : VfsState → Prop} (rest : ∀ next, Keeps state next →
                    next.dentryHash = state.dentryHash → Counted next held → after next) :
                    Post stop (Vfs.vfsVnodeUnref next) (fun _ => after) entered := by
                  apply left.vfsVnodeUnref.mono
                  rintro _ last ⟨counted, released, unchanged⟩
                  exact rest last (keeps.trans released) (unchanged.trans chains) counted
                by_cases deep : vfsMaxSymlinkDepth ≤ depth
                · rw [if_pos deep]
                  refine (unref fun last keeps chains counted => ?_).seq fun _ _ done => done
                  exact stops _ (.error .eloop) last
                    (by simp only [advance, found, kind, if_neg final, if_pos deep]) keeps chains ⟨counted, rfl⟩
                · rw [if_neg deep]
                  simp only [post_bind, post_tmpfsReadlink live there data (by decide : vfsMaxPath ≠ 0), Except.bind]
                  refine unref fun last keeps chains counted => ?_
                  cases linked : linkPath before (text.take (vfsMaxPath - 1)) with
                  | error code =>
                      exact stops _ (.error code) last
                        (by simp only [advance, found, kind, if_neg final, if_neg deep, linked]) keeps chains
                        ⟨counted, rfl⟩
                  | ok path =>
                      exact follows path last
                        (by simp only [advance, found, kind, if_neg final, if_neg deep, linked]) keeps chains counted

/-- The loop of `vfs_lookup_internal` walks as the tree says. -/
theorem walkComponents_ends (calls : Calls tmpfs root fuel lookup) (components before : List Str) (depth : Nat)
    (current : VnodeId) (node : NodeId) (state : VfsState) (held : VnodeId → Nat)
    (sound : Sound state (held + Pi.single current 1) root) (same : state.tmpfs = tmpfs)
    (at_ : state.nodeOf current = some node) :
    Ends tmpfs root fuel followFinal before components depth node held state state
      (walkComponents lookup followFinal before components depth current) := by
  induction components generalizing before depth current node state held with
  | nil => exact ⟨.of_keeps (.refl state) rfl, sound, node, at_, 0, rfl⟩
  | cons component rest ih =>
      subst same
      refine sound.counted.walkComponents_cons sound.closed at_ ?_ ?_ ?_
      · intro outcome answer next taken keeps chains handed
        refine @Ends.stop _ _ _ fuel _ _ _ _ _ _ _ _ _ _ taken (.of_keeps keeps chains) ?_
        cases answer with
        | error code => exact ⟨sound.keep keeps handed.1 chains, handed.2.symm⟩
        | ok id =>
            obtain ⟨counted, target, reached, rfl⟩ := handed
            exact ⟨sound.keep keeps counted chains, target, reached, rfl⟩
      · intro target id next taken keeps chains counted reached
        exact Ends.enter taken (.of_keeps keeps chains)
          (ih _ _ id target next held (sound.keep keeps counted chains) keeps.tmpfs reached)
      · intro path next taken keeps chains counted
        exact Ends.follow calls taken (.of_keeps keeps chains) (sound.keep keeps counted chains) keeps.tmpfs
          fun id target middle sound tree reached => ih _ _ id target middle held sound tree reached

end Walk

section Internal

variable {tmpfs : Tmpfs} {root : NodeId}

theorem post_normalizePath {stop : Fault → Prop} {after : Except Errno Str → VfsState → Prop}
    (absolute : vfsIsAbsolutePath (some path) = true) :
    Post stop (normalizePath path) after state ↔
      after (if vfsMaxPath ≤ path.length then .error .enametoolong else .ok (normalForm path)) state := by
  unfold normalizePath
  by_cases long : vfsMaxPath ≤ path.length
  · have refused : vfsNormalizePath (some path) (some fun _ => 0) = .error (.errno .enametoolong) := by
      rw [vfsNormalizePath, if_neg (by simp [absolute]), if_pos long]
    rw [refused, if_pos long]
    exact Iff.rfl
  · obtain ⟨out, normalized, spelled, _⟩ := vfsNormalizePath_ok path (fun _ => 0) absolute (Nat.not_le.mp long)
    rw [normalized, if_neg long, ← show out.text = normalForm path from spelled.text_eq]
    exact Iff.rfl

theorem findDentry_some {chain : List Dentry} (found : findDentry path chain = some dentry) :
    dentry ∈ chain ∧ dentry.name = path := by
  induction chain with
  | nil => exact absurd found (by simp [findDentry])
  | cons first rest ih =>
      by_cases same : first.name = path
      · rw [findDentry, if_pos same] at found
        cases found
        exact ⟨List.mem_cons_self, same⟩
      · rw [findDentry, if_neg same] at found
        obtain ⟨member, named⟩ := ih found
        exact ⟨List.mem_cons_of_mem _ member, named⟩

theorem findDentry_none {chain : List Dentry} (missing : findDentry path chain = none) :
    path ∉ chain.map (·.name) := by
  induction chain with
  | nil => simp
  | cons first rest ih =>
      by_cases same : first.name = path
      · rw [findDentry, if_pos same] at missing
        exact absurd missing (by simp)
      · rw [findDentry, if_neg same] at missing
        simpa [Ne.symm same] using ih missing

theorem splitComponents_root : splitComponents [slash] = [] := by decide

theorem Walks.resolves {followFinal : Bool} {outcome : Except Errno NodeId}
    (absolute : vfsIsAbsolutePath (some path) = true) (fits : path.length < vfsMaxPath)
    (walks : Walks tmpfs root followFinal [] (splitComponents (normalForm path)) 0 root outcome) :
    Resolves tmpfs root path followFinal outcome := by
  obtain ⟨fuel, walked⟩ := walks
  exact ⟨fuel + 1, by rw [resolve_walk absolute fits, walked]⟩

/-- The paths that a lookup may add to the cache. -/
def Caches (tmpfs : Tmpfs) (root : NodeId) (followFinal : Bool) (path key : Str) : Prop :=
  key = normalForm path ∨ Visits tmpfs root followFinal [] (splitComponents (normalForm path)) 0 root key

/-- Behind a miss of the cache the components are walked and the path is cached. -/
theorem walkPath_answers {followFinal : Bool} {held : VnodeId → Nat} {top : VnodeId}
    (calls : Calls tmpfs root fuel lookup) (absolute : vfsIsAbsolutePath (some path) = true)
    (fits : path.length < vfsMaxPath) (sound : Sound state held root) (tree : state.tmpfs = tmpfs)
    (rootAt : state.nodeOf top = some root) (missing : followFinal = true →
      normalForm path ∉ (state.dentryHash (dentryHashFunc (normalForm path))).map (·.name)) :
    Post (fun fault => fault = .outOfFuel ∧ resolve tmpfs root (fuel + 1) path followFinal = none)
      (walkPath lookup top (normalForm path) followFinal)
      (fun answer next => Looked state next (Caches tmpfs root followFinal path) ∧
        Answered next held root answer (Resolves tmpfs root path followFinal)) state := by
  unfold walkPath
  apply (sound.vfsVnodeRef rootAt).seq
  rintro _ started ⟨taken, silent, reached⟩
  have entered : Looked state started (Caches tmpfs root followFinal path) := silent.mono fun _ => False.elim
  by_cases short : normalForm path = [slash] ∨ splitComponents (normalForm path) = []
  · have none : splitComponents (normalForm path) = [] := by
      obtain single | none := short
      · rw [single, splitComponents_root]
      · exact none
    simp only [if_pos short]
    exact ⟨entered, taken, root, reached, Walks.resolves absolute fits ⟨0, by rw [none, walkNodes]⟩⟩
  · simp only [if_neg short]
    have walk : Ends tmpfs root fuel followFinal [] (splitComponents (normalForm path)) 0 root held started
        started _ := walkComponents_ends calls _ [] 0 top root started held taken
          (entered.keeps.tmpfs.trans tree) reached
    refine (walk.weaken ?_).seq ?_
    · rintro fault ⟨rfl, exhausted⟩
      exact ⟨rfl, by rw [resolve_walk absolute fits, exhausted]⟩
    · rintro answer walked ⟨looked, answered⟩
      have looking : Looked state walked (Caches tmpfs root followFinal path) :=
        entered.trans (looked.mono fun _ => Or.inr)
      cases answer with
      | error code => exact ⟨looking, answered.1, answered.2.resolves absolute fits⟩
      | ok id =>
          obtain ⟨kept, node, arrived, walks⟩ := answered
          cases followFinal with
          | false => exact ⟨looking, kept, node, arrived, walks.resolves absolute fits⟩
          | true =>
              have absent : normalForm path ∉
                  (walked.dentryHash (dentryHashFunc (normalForm path))).map (·.name) := by
                intro member
                obtain ⟨dentry, inside, named⟩ := List.mem_map.mp member
                obtain earlier | visited := looked.dentries _ dentry inside
                · obtain before | never := silent.dentries _ dentry earlier
                  · exact missing rfl (List.mem_map.mpr ⟨dentry, before, named⟩)
                  · exact never
                · exact walks.not_visits_self (named ▸ visited)
              simp only [if_true, post_bind]
              refine (kept.vfsDentryAdd arrived absent ?_ ?_).mono ?_
              · rw [looking.keeps.tmpfs, tree]
                exact walks
              · rw [Pi.add_apply, Pi.single_eq_same]
                omega
              · rintro _ next ⟨sound, added, still⟩
                exact ⟨looking.trans (added.mono fun _ => Or.inl), sound, node, still,
                  walks.resolves absolute fits⟩

/-- `vfs_lookup_internal` answers as the resolution in the tree does, keeps the cache sound, and runs out
of fuel only when the resolution does. -/
theorem vfsLookupInternal_answers (fuel : Nat) (path : Str) (followFinal : Bool) (state : VfsState)
    (held : VnodeId → Nat) (sound : Sound state held root) (tree : state.tmpfs = tmpfs) :
    Post (fun fault => fault = .outOfFuel ∧ resolve tmpfs root fuel path followFinal = none)
      (vfsLookupInternal fuel path followFinal)
      (fun answer next => Looked state next (Caches tmpfs root followFinal path) ∧
        Answered next held root answer (Resolves tmpfs root path followFinal)) state := by
  induction fuel generalizing path followFinal state held with
  | zero => exact ⟨rfl, rfl⟩
  | succ fuel ih =>
      have unchanged : Looked state state (Caches tmpfs root followFinal path) := .of_keeps (.refl state) rfl
      have calls : Calls tmpfs root fuel (vfsLookupInternal fuel · true) :=
        fun state held path sound tree _ _ => ih path true state held sound tree
      unfold vfsLookupInternal
      by_cases absolute : vfsIsAbsolutePath (some path) = true
      · obtain ⟨top, mounted, rootAt⟩ := sound.rooted
        simp only [absolute, Bool.not_true, Bool.false_eq_true, if_false, post_bind, post_get, mounted,
          post_normalizePath absolute]
        by_cases long : vfsMaxPath ≤ path.length
        · simp only [if_pos long]
          exact ⟨unchanged, sound, 1, by rw [resolve, if_neg (by simp [absolute]), if_pos long]⟩
        · have fits := Nat.not_le.mp long
          simp only [if_neg long, post_bind]
          cases followFinal with
          | false => exact walkPath_answers calls absolute fits sound tree rootAt (by simp)
          | true =>
              simp only [cachedDentry, vfsDentryLookup, post_bind, post_get, post_pure]
              cases search : findDentry (normalForm path) (state.dentryHash (dentryHashFunc (normalForm path))) with
              | none => exact walkPath_answers calls absolute fits sound tree rootAt fun _ => findDentry_none search
              | some dentry =>
                  obtain ⟨member, named⟩ := findDentry_some search
                  obtain ⟨node, found, walks⟩ := sound.resolves _ dentry member
                  simp only [post_bind]
                  apply (sound.vfsVnodeRef found).mono
                  rintro _ next ⟨taken, looked, reached⟩
                  rw [named, tree] at walks
                  exact ⟨looked.mono fun _ => False.elim, taken, node, reached, walks.resolves absolute fits⟩
      · simp only [absolute, Bool.not_false, if_true]
        exact ⟨unchanged, sound, 1, by rw [resolve, if_pos (by simpa using absolute)]⟩

/-- The outcome of `vfs_lookup`: an error number or the node behind the vnode that it returns. -/
def lookupOutcome (state : VfsState) (fuel : Nat) (path : Str) : Option (Except Errno NodeId) :=
  match vfsLookup fuel path state with
  | .ok (.ok id) next => (next.nodeOf id).map .ok
  | .ok (.error code) _ => some (.error code)
  | .error _ _ => none

/-- The outcome of `vfs_lookup_internal`. -/
def internalOutcome (state : VfsState) (fuel : Nat) (path : Str) (followFinal : Bool) :
    Option (Except Errno NodeId) :=
  match vfsLookupInternal fuel path followFinal state with
  | .ok (.ok id) next => (next.nodeOf id).map .ok
  | .ok (.error code) _ => some (.error code)
  | .error _ _ => none

section Outcomes

variable {state : VfsState} {held : VnodeId → Nat} {fuel : Nat} {path : Str} {followFinal : Bool}
  {outcome : Except Errno NodeId}

variable (sound : Sound state held root)

include sound

/-- An outcome of `vfs_lookup_internal` is the outcome in the tree. -/
theorem Sound.resolves_of_internal (looked : internalOutcome state fuel path followFinal = some outcome) :
    Resolves state.tmpfs root path followFinal outcome := by
  have answers := vfsLookupInternal_answers fuel path followFinal state held sound rfl
  unfold internalOutcome at looked
  unfold Post at answers
  cases result : vfsLookupInternal fuel path followFinal state with
  | error fault final =>
      rw [result] at looked
      exact absurd looked (by simp)
  | ok answer final =>
      rw [result] at looked answers
      obtain ⟨_, answered⟩ := answers
      cases answer with
      | error code =>
          cases looked
          exact answered.2
      | ok id =>
          obtain ⟨_, node, reached, resolved⟩ := answered
          simp only [reached, Option.map_some, Option.some.injEq] at looked
          exact looked ▸ resolved

/-- `vfs_lookup_internal` returns with fuel that suffices in the tree. -/
theorem Sound.internal_of_resolve (resolved : resolve state.tmpfs root fuel path followFinal = some outcome) :
    internalOutcome state fuel path followFinal = some outcome := by
  have answers := vfsLookupInternal_answers fuel path followFinal state held sound rfl
  cases looked : internalOutcome state fuel path followFinal with
  | some other => rw [(sound.resolves_of_internal looked).unique ⟨fuel, resolved⟩]
  | none =>
      unfold internalOutcome at looked
      unfold Post at answers
      cases result : vfsLookupInternal fuel path followFinal state with
      | error fault final =>
          rw [result] at answers
          rw [answers.2] at resolved
          exact absurd resolved (by simp)
      | ok answer final =>
          rw [result] at looked answers
          cases answer with
          | error code => exact absurd looked (by simp)
          | ok id =>
              obtain ⟨_, _, node, reached, _⟩ := answers
              exact absurd looked (by simp [reached])

theorem Sound.exists_internal :
    (∃ fuel, internalOutcome state fuel path followFinal = some outcome) ↔
      Resolves state.tmpfs root path followFinal outcome := by
  constructor
  · rintro ⟨fuel, looked⟩
    exact sound.resolves_of_internal looked
  · rintro ⟨fuel, resolved⟩
    exact ⟨fuel, sound.internal_of_resolve resolved⟩

theorem Sound.resolves_of_lookup (looked : lookupOutcome state fuel path = some outcome) :
    Resolves state.tmpfs root path true outcome :=
  sound.resolves_of_internal looked

theorem Sound.lookup_of_resolve (resolved : resolve state.tmpfs root fuel path true = some outcome) :
    lookupOutcome state fuel path = some outcome :=
  sound.internal_of_resolve resolved

end Outcomes

end Internal

end Uesi.Vfs
