import Uesi.Proof.Vfs.Lookup
import Uesi.Proof.Vfs.Tree
import Uesi.Construction.Vfs.Names

namespace Uesi.Vfs

open Library

variable {followFinal : Bool} {before components : List Str} {current node : NodeId} {depth : Nat} {dentry : Dentry}

/-- A walk in the tree reads an entry of a directory on its way. -/
inductive Reads (tmpfs : Tmpfs) (root : NodeId) :
    Bool → List Str → List Str → Nat → NodeId → NodeId → Str → Prop
  | here {followFinal before component rest depth current} :
      Reads tmpfs root followFinal before (component :: rest) depth current current component
  | enter {followFinal before component rest depth current next dir name}
      (taken : advance tmpfs followFinal before component rest depth current = .enter next)
      (later : Reads tmpfs root followFinal (before ++ [component]) rest depth next dir name) :
      Reads tmpfs root followFinal before (component :: rest) depth current dir name
  | inside {followFinal before component rest depth current path dir name}
      (taken : advance tmpfs followFinal before component rest depth current = .follow path)
      (inner : Reads tmpfs root true [] (splitComponents (normalForm path)) 0 root dir name) :
      Reads tmpfs root followFinal before (component :: rest) depth current dir name
  | after {followFinal before component rest depth current path next dir name}
      (taken : advance tmpfs followFinal before component rest depth current = .follow path)
      (resolved : Resolves tmpfs root path true (.ok next))
      (later : Reads tmpfs root followFinal (before ++ [component]) rest (depth + 1) next dir name) :
      Reads tmpfs root followFinal before (component :: rest) depth current dir name

/-- The resolution of a cached path reads an entry. -/
def KeyReads (tmpfs : Tmpfs) (root : NodeId) (key : Str) (dir : NodeId) (name : Str) : Prop :=
  Reads tmpfs root true [] (splitComponents key) 0 root dir name

section Frame

variable {tmpfs next : Tmpfs} {root : NodeId} {removed : NodeId → Str → Prop}

theorem kindOf_symlink {id : NodeId} {text : Str} :
    tmpfs.kindOf id = some (.symlink text) ↔ tmpfs.dataOf id = some (.symlink text) := by
  rw [Tmpfs.kindOf]
  cases tmpfs.dataOf id with
  | none => simp
  | some data => cases data <;> simp [TmpfsData.kind]

/-- A step of a walk depends on the entry that it reads and on the kind of its node. -/
theorem advance_congr {rest : List Str} {component : Str} {target : NodeId}
    (found : entryOf tmpfs current component = .ok target) (again : entryOf next current component = .ok target)
    (kinds : next.kindOf target = tmpfs.kindOf target) :
    advance next followFinal before component rest depth current =
      advance tmpfs followFinal before component rest depth current := by
  have links (text : Str) : next.dataOf target = some (.symlink text) ↔
      tmpfs.dataOf target = some (.symlink text) := by
    rw [← kindOf_symlink, ← kindOf_symlink, kinds]
  by_cases link : ∃ text, tmpfs.dataOf target = some (.symlink text)
  · obtain ⟨text, data⟩ := link
    simp only [advance, found, again, data, (links text).mpr data]
  · have plain (text : Str) : tmpfs.dataOf target ≠ some (.symlink text) := fun data => link ⟨text, data⟩
    rw [advance_enter found plain, advance_enter again fun text data => plain text ((links text).mp data)]

/-- A walk that succeeds does so again in a tree that preserves the entries that it reads. -/
theorem Preserves.walkNodes (preserves : Preserves tmpfs next removed) (closed : Closed tmpfs) {fuel : Nat}
    (spared : ∀ dir name, Reads tmpfs root followFinal before components depth current dir name →
      ¬ removed dir name)
    (walked : walkNodes (resolve tmpfs root fuel · true) tmpfs followFinal before components depth current =
      some (.ok node)) :
    walkNodes (resolve next root fuel · true) next followFinal before components depth current =
      some (.ok node) := by
  induction fuel using Nat.strong_induction_on generalizing followFinal before components depth current node with
  | _ fuel inner =>
      induction components generalizing before depth current with
      | nil => exact walked
      | cons component rest ih =>
          cases found : entryOf tmpfs current component with
          | error code => simp [Vfs.walkNodes, advance_error found] at walked
          | ok target =>
              obtain ⟨data, there⟩ := closed.entry_target found
              have kind : tmpfs.kindOf target = some data.kind := by rw [Tmpfs.kindOf, there]; rfl
              have again := preserves.entries current component target (spared current component .here) found
              have same : advance next followFinal before component rest depth current =
                  advance tmpfs followFinal before component rest depth current :=
                advance_congr found again ((preserves.kinds target data.kind kind).trans kind.symm)
              unfold Vfs.walkNodes at walked ⊢
              rw [same]
              cases taken : advance tmpfs followFinal before component rest depth current with
              | stop answer => simpa only [taken] using walked
              | enter later =>
                  simp only [taken] at walked ⊢
                  exact ih (fun dir name reads => spared dir name (.enter taken reads)) walked
              | follow path =>
                  simp only [taken] at walked ⊢
                  obtain ⟨absolute, fits⟩ := advance_follow taken
                  cases resolved : resolve tmpfs root fuel path true with
                  | none => simp [resolved] at walked
                  | some answer =>
                      cases answer with
                      | error code => simp [resolved] at walked
                      | ok entered =>
                          cases fuel with
                          | zero => simp [resolve] at resolved
                          | succ less =>
                              have followed := resolved
                              rw [resolve_walk absolute fits] at followed
                              have repeated := inner less (Nat.lt_succ_self less)
                                (fun dir name reads => spared dir name (.inside taken reads)) followed
                              rw [← resolve_walk absolute fits] at repeated
                              simp only [resolved] at walked
                              simp only [repeated]
                              exact ih (fun dir name reads =>
                                spared dir name (.after taken ⟨_, resolved⟩ reads)) walked

theorem Preserves.walks_spared (preserves : Preserves tmpfs next removed) (closed : Closed tmpfs)
    (spared : ∀ dir name, Reads tmpfs root followFinal before components depth current dir name →
      ¬ removed dir name) (walks : Walks tmpfs root followFinal before components depth current (.ok node)) :
    Walks next root followFinal before components depth current (.ok node) := by
  obtain ⟨fuel, walked⟩ := walks
  exact ⟨fuel, preserves.walkNodes closed spared walked⟩

/-- A walk that succeeds does so again in a tree with the same entries and more. -/
theorem Preserves.walks_kept (preserves : Preserves tmpfs next fun _ _ => False) (closed : Closed tmpfs)
    (walks : Walks tmpfs root followFinal before components depth current (.ok node)) :
    Walks next root followFinal before components depth current (.ok node) :=
  preserves.walks_spared closed (fun _ _ _ => id) walks

end Frame

/-- The cache is sound for an older tree, from which the tree differs by the entries that were removed
and by new ones. -/
structure Behind (origin : Tmpfs) (removed : NodeId → Str → Prop) (state : VfsState)
    (held : VnodeId → Nat) (root : NodeId) : Prop where
  counted : Counted state held
  before : Tree origin
  tree : Tree state.tmpfs
  preserves : Preserves origin state.tmpfs removed
  rooted : ∃ id, state.root = some id ∧ state.nodeOf id = some root
  hashed : ∀ hash, ∀ dentry ∈ state.dentryHash hash, hash = dentryHashFunc dentry.name
  distinct : ∀ hash, ((state.dentryHash hash).map (·.name)).Nodup
  resolves : ∀ hash, ∀ dentry ∈ state.dentryHash hash, ∃ node, state.nodeOf dentry.vnode = some node ∧
    Walks origin root true [] (splitComponents dentry.name) 0 root (.ok node)

/-- The cache is sound for the tree. -/
structure Ready (state : VfsState) (held : VnodeId → Nat) (root : NodeId) : Prop where
  sound : Sound state held root
  tree : Tree state.tmpfs

/-- A path is a key of the cache. -/
def VfsState.Cached (state : VfsState) (key : Str) : Prop :=
  ∃ hash, ∃ dentry ∈ state.dentryHash hash, dentry.name = key

section Behind

variable {stop : Fault → Prop} {origin : Tmpfs} {removed more : NodeId → Str → Prop}
  {state next : VfsState} {held later : VnodeId → Nat} {root : NodeId} {id : VnodeId}

theorem Ready.behind (ready : Ready state held root) :
    Behind state.tmpfs (fun _ _ => False) state held root where
  counted := ready.sound.counted
  before := ready.tree
  tree := ready.tree
  preserves := .refl _ _
  rooted := ready.sound.rooted
  hashed := ready.sound.hashed
  distinct := ready.sound.distinct
  resolves := ready.sound.resolves

/-- The cache is sound for the tree again when no cached path reads an entry that was removed. -/
theorem Behind.ready (behind : Behind origin removed state held root)
    (spared : ∀ key, state.Cached key → ∀ dir name, KeyReads origin root key dir name → ¬ removed dir name) :
    Ready state held root where
  sound :=
    { counted := behind.counted
      closed := behind.tree.to_closed
      rooted := behind.rooted
      hashed := behind.hashed
      distinct := behind.distinct
      resolves := by
        intro hash dentry member
        obtain ⟨node, found, walks⟩ := behind.resolves hash dentry member
        exact ⟨node, found, behind.preserves.walks_spared behind.before.to_closed
          (spared dentry.name ⟨hash, dentry, member, rfl⟩) walks⟩ }
  tree := behind.tree

theorem Mutated.cached (mutated : Mutated state next removed) {key : Str} (cached : next.Cached key) :
    state.Cached key := by
  rw [VfsState.Cached, mutated.dentryHash] at cached
  exact cached

theorem vfsType_of_kind {data other : TmpfsData} (same : data.kind = other.kind) : data.vfsType = other.vfsType := by
  cases data <;> cases other <;> simp_all [TmpfsData.kind, TmpfsData.vfsType]

/-- A change of the tree that keeps the kinds of the nodes keeps the vnodes counted. -/
theorem Counted.retree (counted : Counted state held) (only : next = { state with tmpfs := next.tmpfs })
    (kinds : ∀ id kind, state.tmpfs.kindOf id = some kind → next.tmpfs.kindOf id = some kind) :
    Counted next held := by
  have vnodes : next.vnodes = state.vnodes := by rw [only]
  have chains : next.dentryHash = state.dentryHash := by rw [only]
  have root : next.root = state.root := by rw [only]
  have fresh : next.freshVnode = state.freshVnode := by rw [only]
  refine ⟨by rw [only]; exact counted.unbounded, ?_, vnodes ▸ counted.positive, ?_, ?_⟩
  · intro id
    have cached : next.cached id = state.cached id := by
      simp only [VfsState.cached, chains]
    have mounted : next.mounted id = state.mounted id := by
      simp only [VfsState.mounted, root]
    rw [VfsState.refs, vnodes, cached, mounted]
    exact counted.refs id
  · intro id vnode found
    rw [vnodes] at found
    obtain ⟨node, there, type⟩ := counted.typed id vnode found
    have kind : state.tmpfs.kindOf vnode.node = some node.data.kind := by
      rw [Tmpfs.kindOf, Tmpfs.dataOf, there]
      rfl
    obtain ⟨data, again, same⟩ := Option.map_eq_some_iff.mp (kinds _ _ kind)
    obtain ⟨kept, live, rfl⟩ := Option.map_eq_some_iff.mp again
    exact ⟨kept, live, type.trans (vfsType_of_kind same).symm⟩
  · intro id above
    rw [vnodes]
    exact counted.unused id (fresh ▸ above)

theorem Counted.mutate (counted : Counted state held) (mutated : Mutated state next removed) : Counted next held :=
  counted.retree mutated.only mutated.preserves.kinds

theorem Counted.becomes {entry : NodeId → Str → Option NodeId} {kinds : NodeId → Option NodeKind}
    (counted : Counted state held) (becomes : Becomes state next entry kinds)
    (kept : ∀ id kind, state.tmpfs.kindOf id = some kind → kinds id = some kind) : Counted next held :=
  counted.retree becomes.only fun id kind found => by rw [becomes.kinds, kept id kind found]

section Keep

variable (behind : Behind origin removed state held root)

include behind

/-- A change of the tree leaves the cache behind. -/
theorem Behind.mutate (mutated : Mutated state next more) :
    Behind origin (fun dir name => removed dir name ∨ more dir name) next held root where
  counted := behind.counted.mutate mutated
  before := behind.before
  tree := mutated.tree
  preserves := behind.preserves.trans mutated.preserves
  rooted := by
    obtain ⟨id, mounted, node⟩ := behind.rooted
    exact ⟨id, by rw [mutated.root, mounted], by rw [mutated.nodeOf, node]⟩
  hashed := mutated.dentryHash ▸ behind.hashed
  distinct := mutated.dentryHash ▸ behind.distinct
  resolves := by
    intro hash dentry member
    obtain ⟨node, found, walks⟩ := behind.resolves hash dentry (mutated.dentryHash ▸ member)
    exact ⟨node, by rw [mutated.nodeOf, found], walks⟩

theorem Behind.weaken
    (implies : ∀ dir name target, removed dir name → entryOf origin dir name = .ok target → more dir name) :
    Behind origin more state held root :=
  { behind with preserves := behind.preserves.weaken implies }

theorem Behind.hash_lt {hash : Nat} (member : dentry ∈ state.dentryHash hash) : hash < dentryHashSize :=
  behind.hashed hash dentry member ▸ dentryHashFunc_lt _

/-- A step that keeps the nodes and adds no dentry leaves the cache behind the same tree. -/
theorem Behind.keep (keeps : Keeps state next) (counted : Counted next later)
    (chains : ∀ hash, (next.dentryHash hash).Sublist (state.dentryHash hash)) :
    Behind origin removed next later root where
  counted := counted
  before := behind.before
  tree := keeps.tmpfs ▸ behind.tree
  preserves := keeps.tmpfs ▸ behind.preserves
  rooted := keeps.rooted behind.counted behind.rooted counted
  hashed := fun hash dentry member => behind.hashed hash dentry ((chains hash).subset member)
  distinct := fun hash => (behind.distinct hash).sublist ((chains hash).map _)
  resolves := by
    intro hash dentry member
    have was := (chains hash).subset member
    obtain ⟨node, found, walks⟩ := behind.resolves hash dentry was
    exact ⟨node, keeps.dentry_nodeOf behind.counted counted (behind.hash_lt was) member found, walks⟩

end Keep

theorem Behind.vfsVnodeUnref (behind : Behind origin removed state (held + Pi.single id 1) root) :
    Post stop (vfsVnodeUnref id) (fun _ next => Behind origin removed next held root ∧
      Keeps state next ∧ next.dentryHash = state.dentryHash) state := by
  apply behind.counted.vfsVnodeUnref.mono
  rintro _ next ⟨counted, keeps, chains⟩
  exact ⟨behind.keep keeps counted fun hash => by rw [chains], keeps, chains⟩

/-- A shorter chain gives the reference of its dentry back to the caller. -/
theorem Counted.dropDentry (counted : Counted state held) {hash : Nat} (inside : hash < dentryHashSize)
    {front back : List Dentry} (chain : state.dentryHash hash = front ++ dentry :: back) :
    Counted (state.setChain hash (front ++ back)) (held + Pi.single dentry.vnode 1) where
  unbounded := counted.unbounded
  refs := by
    intro other
    have total := counted.refs other
    have change := setChain_cached state inside (front ++ back) other
    have fewer : (front ++ dentry :: back).countP (·.vnode = other) =
        (front ++ back).countP (·.vnode = other) + (Pi.single dentry.vnode 1 : VnodeId → Nat) other := by
      rw [List.countP_append, List.countP_append, List.countP_cons]
      by_cases same : dentry.vnode = other
      · subst same
        simp only [decide_true, if_true, Pi.single_eq_same]
        omega
      · simp [same]
    rw [chain, fewer] at change
    change state.refs other = _ + state.mounted other + _
    rw [Pi.add_apply]
    omega
  positive := counted.positive
  typed := counted.typed
  unused := counted.unused

/-- `vfs_dentry_remove` takes a dentry with the path out of its chain, if there is one. -/
theorem Counted.vfsDentryRemove (counted : Counted state held) (path : Str) :
    Post stop (vfsDentryRemove path) (fun _ next => Counted next held ∧ Keeps state next ∧
      ∃ chain, chain.Sublist (state.dentryHash (dentryHashFunc path)) ∧
        next.dentryHash = Function.update state.dentryHash (dentryHashFunc path) chain ∧
        (((state.dentryHash (dentryHashFunc path)).map (·.name)).Nodup → path ∉ chain.map (·.name))) state := by
  simp only [Vfs.vfsDentryRemove, post_bind, post_get]
  cases search : unlinkDentry path (state.dentryHash (dentryHashFunc path)) with
  | none =>
      exact ⟨counted, .refl state, _, List.Sublist.refl _, (Function.update_eq_self _ _).symm,
        fun _ => unlinkNamed_none search⟩
  | some found =>
      obtain ⟨dentry, rest⟩ := found
      obtain ⟨rfl, front, back, split, rfl⟩ := unlinkNamed_some search
      simp only [post_bind, post_writeChain]
      have keeps : Keeps state (state.setChain (dentryHashFunc dentry.name) (front ++ back)) :=
        ⟨rfl, rfl, le_rfl, fun _ _ => Or.inl rfl⟩
      apply (counted.dropDentry (dentryHashFunc_lt dentry.name) split).vfsVnodeUnref.mono
      rintro _ next ⟨after, kept, chains⟩
      refine ⟨after, keeps.trans kept, front ++ back, ?_, by rw [chains, VfsState.setChain_dentryHash], ?_⟩
      · rw [split]
        exact (List.sublist_cons_self dentry back).append_left front
      · intro unique
        rw [split, List.map_append, List.map_cons, List.nodup_middle, List.nodup_cons, ← List.map_append] at unique
        exact unique.1

/-- `vfs_dentry_remove` drops the path from the cache. -/
theorem Behind.vfsDentryRemove (behind : Behind origin removed state held root) (path : Str) :
    Post stop (vfsDentryRemove path) (fun _ next => Behind origin removed next held root ∧
      (∀ key, next.Cached key → state.Cached key ∧ key ≠ path) ∧ Keeps state next) state := by
  apply (behind.counted.vfsDentryRemove path).mono
  rintro _ next ⟨counted, keeps, chain, smaller, chains, gone⟩
  have fewer (hash : Nat) : (next.dentryHash hash).Sublist (state.dentryHash hash) := by
    rw [chains]
    by_cases same : hash = dentryHashFunc path
    · subst same
      rw [Function.update_self]
      exact smaller
    · rw [Function.update_of_ne same]
  refine ⟨behind.keep keeps counted fewer, ?_, keeps⟩
  rintro key ⟨hash, dentry, member, rfl⟩
  refine ⟨⟨hash, dentry, (fewer hash).subset member, rfl⟩, ?_⟩
  rintro rfl
  obtain rfl := behind.hashed hash dentry ((fewer hash).subset member)
  rw [chains, Function.update_self] at member
  exact gone (behind.distinct _) (List.mem_map_of_mem member)

end Behind

end Uesi.Vfs
