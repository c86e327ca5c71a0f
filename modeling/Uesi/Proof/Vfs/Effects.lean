import Uesi.Proof.Vfs.Tree

namespace Uesi.Vfs

open Library

/-- What a removal does to the tree: an entry is gone, or nothing happened. -/
def Removed (state next : VfsState) (parent : NodeId) (name : Str) (answer : Except Errno Unit) : Prop :=
  (answer = .ok () ∧ Mutated state next (fun lost gone => lost = parent ∧ gone = name) ∧
    entryOf next.tmpfs parent name = .error .enoent ∧ (FewLinks state.tmpfs → FewLinks next.tmpfs)) ∨
  ((∃ code, answer = .error code) ∧ next = state)

/-- What a removal did: the entry was there and is gone, or nothing happened. -/
def Unbound (state next : VfsState) (dir : NodeId) (name : Str) (present : Prop) :
    Except Errno Unit → Prop
  | .error _ => next = state ∧ ¬ present
  | .ok () => present ∧ Becomes state next (rebind state.tmpfs.entry dir name none) state.tmpfs.kindOf

/-- A name stands for a directory whose stored count is zero. -/
def Tmpfs.Vacant (tmpfs : Tmpfs) (dir : NodeId) (name : Str) : Prop :=
  ∃ target entries, tmpfs.entry dir name = some target ∧ tmpfs.dataOf target = some (.dir entries 0)

section Calls

variable {stop : Fault → Prop} {state : VfsState} {dir : VnodeId} {parent : NodeId} {name : Str}
  {there : TmpfsData}

theorem kindOf_of_dataOf (live : state.tmpfs.dataOf parent = some there) :
    state.tmpfs.kindOf parent = some there.kind := by
  rw [Tmpfs.kindOf, live]
  rfl

theorem post_directoryNode {data : TmpfsData} (found : state.nodeOf dir = some parent)
    (kind : state.tmpfs.dataOf parent = some data) {after : Option NodeId → VfsState → Prop} :
    Post stop (directoryNode dir) after state ↔
      after (if data.kind = .dir then some parent else none) state := by
  obtain ⟨vnode, live, rfl⟩ := nodeOf_some.mp found
  obtain ⟨node, at_, rfl⟩ := Option.map_eq_some_iff.mp kind
  simp only [directoryNode, post_bind, post_readVnode live, post_readNode at_]
  cases node.data <;> simp [TmpfsData.kind]

theorem removed_of_error {code : Errno} : Removed state state parent name (.error code) :=
  Or.inr ⟨⟨code, rfl⟩, rfl⟩

/-- `tmpfs_dirent_remove` removes an entry that is there, and else does nothing. -/
theorem Firm.tmpfsDirentRemove (firm : Firm state.tmpfs) {entries : List TmpfsDirent} {count : Nat}
    (kind : state.tmpfs.dataOf parent = some (.dir entries count)) :
    Post stop (tmpfsDirentRemove parent name) (fun answer next =>
      Unbound state next parent name (state.tmpfs.entry parent name ≠ none) answer ∧
        (Tree state.tmpfs → Removed state next parent name answer)) state := by
  have distinct := firm.distinct parent entries count kind
  cases search : unlinkEntry name entries with
  | none =>
      rw [post_tmpfsDirentRemove_none kind search]
      refine ⟨⟨rfl, ?_⟩, fun _ => removed_of_error⟩
      rw [entry_dir kind, bindings, findEntry_none.mpr (unlinkNamed_none search)]
      simp
  | some found =>
      obtain ⟨item, others⟩ := found
      obtain ⟨named, front, back, split, _⟩ := unlinkNamed_some search
      have bound : state.tmpfs.entry parent name = some item.node := by
        rw [entry_dir kind, ← mem_iff_bindings distinct, split, ← named]
        simp
      obtain ⟨nlink, stored, several, fits⟩ := firm.linked parent name item.node bound
      have nonzero : (nlink + 2 ^ 32 - 1) % 2 ^ 32 ≠ 0 := by omega
      apply (post_tmpfsDirentRemove_some kind search stored rfl nonzero).mono
      rintro answer next ⟨rfl, rebinds⟩
      refine ⟨⟨by simp [bound], rebinds.becomes_removed kind distinct search⟩, fun tree => ?_⟩
      have below := (tree.linked item.node nlink stored).1
      have less : (nlink + 2 ^ 32 - 1) % 2 ^ 32 = nlink - 1 := by omega
      rw [less] at rebinds
      refine Or.inl ⟨rfl, rebinds.removed tree kind search stored, ?_, rebinds.few stored⟩
      rw [rebinds.entryOf, bindings_unlink distinct search, Function.update_self]
      rfl

/-- `tmpfs_unlink` removes an entry that is there. -/
theorem Firm.tmpfsUnlink (firm : Firm state.tmpfs) (found : state.nodeOf dir = some parent)
    (live : state.tmpfs.dataOf parent = some there) :
    Post stop (tmpfsUnlink dir name) (fun answer next =>
      Unbound state next parent name (state.tmpfs.entry parent name ≠ none) answer ∧
        (Tree state.tmpfs → Removed state next parent name answer)) state := by
  simp only [Vfs.tmpfsUnlink, post_bind, post_directoryNode found live]
  by_cases directory : there.kind = .dir
  · obtain ⟨entries, count, rfl⟩ := kind_eq_dir.mp directory
    simp only [if_pos directory]
    exact firm.tmpfsDirentRemove live
  · simp only [if_neg directory]
    refine ⟨⟨rfl, ?_⟩, fun _ => removed_of_error⟩
    rw [entry_of_not_dir (by simpa [kindOf_of_dataOf live] using directory)]
    simp

theorem Tree.tmpfsUnlink (tree : Tree state.tmpfs) (found : state.nodeOf dir = some parent)
    (live : state.tmpfs.dataOf parent = some there) :
    Post stop (tmpfsUnlink dir name) (fun answer next => Removed state next parent name answer ∧
      ∀ target, entryOf state.tmpfs parent name = .ok target → answer = .ok ()) state := by
  apply (tree.firm.tmpfsUnlink found live).mono
  rintro answer next ⟨unbound, removed⟩
  refine ⟨removed tree, fun target present => ?_⟩
  cases answer with
  | error code => exact absurd (by simp [entry_some.mpr present]) unbound.2
  | ok _ => rfl

/-- `tmpfs_rmdir` removes the entry of a directory whose stored count is zero. -/
theorem Firm.tmpfsRmdir (firm : Firm state.tmpfs) (found : state.nodeOf dir = some parent)
    (live : state.tmpfs.dataOf parent = some there) :
    Post stop (tmpfsRmdir dir name) (fun answer next =>
      Unbound state next parent name (state.tmpfs.Vacant parent name) answer ∧
        (Tree state.tmpfs → Removed state next parent name answer)) state := by
  simp only [Vfs.tmpfsRmdir, post_bind, post_directoryNode found live]
  by_cases directory : there.kind = .dir
  · obtain ⟨entries, count, rfl⟩ := kind_eq_dir.mp directory
    obtain ⟨node, at_, data⟩ := Option.map_eq_some_iff.mp live
    simp only [if_pos directory, post_bind, tmpfsDirentFind, post_readNode at_, data, post_pure]
    have named : state.tmpfs.entry parent name = (findEntry name entries).map (·.node) := by
      rw [entry_dir live, bindings]
    cases search : findEntry name entries with
    | none =>
        refine ⟨⟨rfl, ?_⟩, fun _ => removed_of_error⟩
        rintro ⟨target, inner, bound, _⟩
        rw [named, search] at bound
        exact absurd bound (by simp)
    | some item =>
        rw [search] at named
        obtain ⟨nlink, stored, _⟩ := firm.linked parent name item.node named
        obtain ⟨target, there, _⟩ := Option.map_eq_some_iff.mp stored
        have pointed : state.tmpfs.dataOf item.node = some target.data := by rw [Tmpfs.dataOf, there]; rfl
        -- The entry is refused when its node is no directory or has a count.
        have refused (full : ∀ inner, target.data ≠ .dir inner 0) : ¬ state.tmpfs.Vacant parent name := by
          rintro ⟨other, inner, bound, empty⟩
          rw [named, Option.map_some, Option.some.injEq] at bound
          rw [← bound, pointed, Option.some.injEq] at empty
          exact full inner empty
        simp only [post_bind, post_readNode there]
        cases data : target.data with
        | file contents => exact ⟨⟨rfl, refused (by simp [data])⟩, fun _ => removed_of_error⟩
        | symlink text => exact ⟨⟨rfl, refused (by simp [data])⟩, fun _ => removed_of_error⟩
        | dir inner number =>
            by_cases full : 0 < number
            · simp only [if_pos full]
              exact ⟨⟨rfl, refused (by simp [data, full.ne'])⟩, fun _ => removed_of_error⟩
            · simp only [if_neg full]
              obtain rfl : number = 0 := Nat.eq_zero_of_not_pos full
              have vacant : state.tmpfs.Vacant parent name := ⟨item.node, inner, named, by rw [pointed, data]⟩
              apply (firm.tmpfsDirentRemove live).mono
              rintro answer next ⟨removal, removed⟩
              refine ⟨?_, removed⟩
              cases answer with
              | error code => exact absurd (by simp [named]) removal.2
              | ok _ => exact ⟨vacant, removal.2⟩
  · simp only [if_neg directory]
    refine ⟨⟨rfl, ?_⟩, fun _ => removed_of_error⟩
    rintro ⟨target, inner, bound, _⟩
    rw [entry_of_not_dir (by simpa [kindOf_of_dataOf live] using directory)] at bound
    exact absurd bound (by simp)

/-- A node can get one more entry under a name. -/
def Tmpfs.Linkable (tmpfs : Tmpfs) (dir : NodeId) (name : Str) (node : NodeId) : Prop :=
  tmpfs.kindOf node ≠ some .dir ∧ tmpfs.kindOf dir = some .dir ∧ tmpfs.entry dir name = none

/-- A new entry for a node that has one keeps the others firm, although a link count may wrap. -/
theorem Firm.added (firm : Firm state.tmpfs) {next : VfsState} {entries : List TmpfsDirent} {count nlink : Nat}
    {node : NodeId} (kind : state.tmpfs.dataOf parent = some (.dir entries count))
    (rebinds : Rebinds state next parent (⟨name, node⟩ :: entries) ((count + 1) % 2 ^ 32) node
      ((nlink + 1) % 2 ^ 32)) (stored : state.tmpfs.nlinkOf node = some nlink) (positive : 0 < nlink)
    (fits : nlink < 2 ^ 32) (absent : findEntry name entries = none) : Firm next.tmpfs where
  distinct := by
    intro other listed listedCount found
    obtain ⟨rfl, new⟩ | was := dir_of_update rebinds.data found
    · rw [Option.some.injEq, TmpfsData.dir.injEq] at new
      rw [← new.1, List.map_cons, List.nodup_cons]
      exact ⟨findEntry_none.mp absent, firm.distinct other entries count kind⟩
    · exact firm.distinct other listed listedCount was
  linked := by
    intro other key target found
    rw [(rebinds.becomes_added kind stored absent).entry] at found
    rw [rebinds.nlink]
    by_cases same : target = node
    · subst same
      exact ⟨_, Function.update_self .., by omega, by omega⟩
    · rw [Function.update_of_ne same]
      by_cases here : other = parent ∧ key = name
      · obtain ⟨rfl, rfl⟩ := here
        rw [rebind_self, Option.some.injEq] at found
        exact absurd found.symm same
      · rw [rebind_of_ne here] at found
        exact firm.linked other key target found

/-- `tmpfs_link` adds an entry for a node that is no directory, and the tree keeps its form when the link count has
room for one more. -/
theorem Tree.tmpfsLink_effect (tree : Tree state.tmpfs) (found : state.nodeOf dir = some parent)
    (live : state.tmpfs.dataOf parent = some there) {target : VnodeId} {node : NodeId}
    (pointed : state.nodeOf target = some node) {data : TmpfsData} (kind : state.tmpfs.dataOf node = some data) :
    Post stop (Vfs.tmpfsLink dir name target) (fun answer next => match answer with
      | .error _ => next = state ∧ ¬ state.tmpfs.Linkable parent name node
      | .ok () => state.tmpfs.Linkable parent name node ∧ Firm next.tmpfs ∧
          Becomes state next (rebind state.tmpfs.entry parent name (some node)) state.tmpfs.kindOf ∧
          ((∀ nlink, state.tmpfs.nlinkOf node = some nlink → nlink + 1 < 2 ^ 32) →
            Mutated state next fun _ _ => False)) state := by
  obtain ⟨vnode, open_, rfl⟩ := nodeOf_some.mp pointed
  obtain ⟨stored, at_, rfl⟩ := Option.map_eq_some_iff.mp kind
  have sourceKind := kindOf_of_dataOf kind
  have parentKind := kindOf_of_dataOf live
  simp only [Vfs.tmpfsLink, post_bind, post_readVnode open_, post_directoryNode found live]
  by_cases directory : there.kind = .dir
  · obtain ⟨entries, count, rfl⟩ := kind_eq_dir.mp directory
    simp only [if_pos directory, post_bind, post_readNode at_]
    by_cases source : stored.data.kind = .dir
    · obtain ⟨inner, number, data⟩ := kind_eq_dir.mp source
      simp only [data]
      exact ⟨rfl, fun linkable => linkable.1 (by rw [sourceKind, source])⟩
    · have nlink : state.tmpfs.nlinkOf vnode.node = some stored.nlink := by rw [Tmpfs.nlinkOf, at_]; rfl
      obtain ⟨below, fits⟩ := tree.linked _ _ nlink
      split
      · rename_i data
        exact absurd (by rw [data]; rfl) source
      · apply (post_tmpfsDirentAdd live nlink).mono
        intro answer next result
        split at result
        · rename_i present
          obtain ⟨rfl, rfl⟩ := result
          obtain ⟨item, search⟩ := Option.isSome_iff_exists.mp present
          refine ⟨rfl, fun linkable => ?_⟩
          have absent := linkable.2.2
          rw [entry_dir live, bindings, search] at absent
          exact absurd absent (by simp)
        · rename_i absent
          have missing : findEntry name entries = none := by simpa using absent
          obtain ⟨rfl, rebinds⟩ := result
          refine ⟨⟨by simpa [sourceKind] using source, by rw [parentKind, directory], ?_⟩,
            tree.firm.added live rebinds nlink (by omega) fits missing, rebinds.becomes_added live nlink missing,
            fun few => ?_⟩
          · rw [entry_dir live, bindings, missing]
            rfl
          · rw [Nat.mod_eq_of_lt (few _ nlink)] at rebinds
            exact rebinds.added tree live nlink (few _ nlink) missing
  · simp only [if_neg directory]
    exact ⟨rfl, fun linkable => directory (by simpa [parentKind] using linkable.2.1)⟩

theorem Tree.tmpfsLink (tree : Tree state.tmpfs) (found : state.nodeOf dir = some parent)
    (live : state.tmpfs.dataOf parent = some there) {target : VnodeId} {node : NodeId}
    (pointed : state.nodeOf target = some node) {data : TmpfsData} (kind : state.tmpfs.dataOf node = some data)
    (few : ∀ nlink, state.tmpfs.nlinkOf node = some nlink → nlink + 1 < 2 ^ 32) :
    Post stop (tmpfsLink dir name target) (fun answer next =>
      (answer = .ok () ∧ Mutated state next (fun _ _ => False) ∧ entryOf next.tmpfs parent name = .ok node ∧
        state.tmpfs.Linkable parent name node) ∨
      ((∃ code, answer = .error code) ∧ next = state ∧
        (data.kind = .dir ∨ entryOf state.tmpfs parent name ≠ .error .enoent))) state := by
  apply (tree.tmpfsLink_effect found live pointed kind).mono
  intro answer next result
  cases answer with
  | error code =>
      obtain ⟨rfl, refused⟩ := result
      refine Or.inr ⟨⟨code, rfl⟩, rfl, ?_⟩
      by_contra free
      rw [not_or, not_not, entryOf_enoent] at free
      exact refused ⟨by simpa [kindOf_of_dataOf kind] using free.1, free.2⟩
  | ok _ =>
      obtain ⟨linkable, _, becomes, mutated⟩ := result
      refine Or.inl ⟨rfl, mutated few, ?_, linkable⟩
      rw [← entry_some, becomes.entry, rebind_self]

/-- `tmpfs_create`, `tmpfs_mkdir` and `tmpfs_symlink` add a new node under a free name of a directory. -/
theorem Tree.tmpfsAddNew_effect (tree : Tree state.tmpfs) (found : state.nodeOf dir = some parent)
    (live : state.tmpfs.dataOf parent = some there) {data : TmpfsData}
    (plain : ∀ entries count, data = .dir entries count → entries = [] ∧ count = 0) (mode : BitVec 32) :
    Post stop (Vfs.tmpfsAddNew dir name data mode) (fun answer next =>
      (Mutated state next (fun _ _ => False) ∧ ∀ node, answer = .ok node → next.tmpfs.dataOf node = some data) ∧
      match answer with
      | .error _ => ¬ (state.tmpfs.kindOf parent = some .dir ∧ state.tmpfs.entry parent name = none) ∧
          Becomes state next state.tmpfs.entry state.tmpfs.kindOf
      | .ok node => (state.tmpfs.kindOf parent = some .dir ∧ state.tmpfs.entry parent name = none) ∧
          state.tmpfs.kindOf node = none ∧ Becomes state next (rebind state.tmpfs.entry parent name (some node))
            (Function.update state.tmpfs.kindOf node (some data.kind))) state := by
  have parentKind := kindOf_of_dataOf live
  simp only [Vfs.tmpfsAddNew, post_bind, post_directoryNode found live]
  by_cases directory : there.kind = .dir
  · obtain ⟨entries, count, rfl⟩ := kind_eq_dir.mp directory
    simp only [if_pos directory, post_bind, post_tmpfsNodeAlloc]
    set fresh := state.tmpfs.freshNode with freshEq
    set allocated : VfsState := ({ state with tmpfs := { state.tmpfs with
      freshNode := fresh + 1
      nextIno := (state.tmpfs.nextIno + 1) % 2 ^ 64 } } : VfsState).setNode fresh
        (some ⟨state.tmpfs.nextIno, mode, 1, data⟩) with allocatedEq
    have stored : allocated.tmpfs.dataOf = Function.update state.tmpfs.dataOf fresh (some data) := setNode_dataOf
    have nlink : allocated.tmpfs.nlinkOf fresh = some 1 := by
      rw [allocatedEq, setNode_nlinkOf, Function.update_self]
    have unused : state.tmpfs.kindOf fresh = none := by
      rw [Tmpfs.kindOf, tree.unused fresh le_rfl]
      rfl
    have differs : parent ≠ fresh := (tree.lt_fresh live).ne
    have kind : allocated.tmpfs.dataOf parent = some (.dir entries count) := by
      rw [stored, Function.update_of_ne differs, live]
    -- The kinds of the nodes in use stay, because the address of the new node is not in use.
    have kept (new : Option NodeKind) (id : NodeId) (old : NodeKind) (was : state.tmpfs.kindOf id = some old) :
        Function.update state.tmpfs.kindOf fresh new id = some old := by
      rw [Function.update_of_ne, was]
      rintro rfl
      rw [unused] at was
      exact absurd was (by simp)
    obtain ⟨grown, higher⟩ : Becomes state allocated state.tmpfs.entry
        (Function.update state.tmpfs.kindOf fresh (some data.kind)) ∧ Tree allocated.tmpfs := by
      refine @Tree.grow state allocated tree (some ⟨state.tmpfs.nextIno, mode, 1, data⟩) rfl rfl rfl ?_
      rintro node ⟨⟩
      exact ⟨rfl, plain⟩
    apply (post_tmpfsDirentAdd kind nlink).mono
    intro answer next result
    split at result
    · rename_i present
      obtain ⟨rfl, rfl⟩ := result
      simp only [tmpfsNodeFree, post_bind, post_writeNode]
      obtain ⟨item, search⟩ := Option.isSome_iff_exists.mp present
      have freed : (allocated.setNode fresh none).tmpfs.nodes = Function.update state.tmpfs.nodes fresh none := by
        rw [allocatedEq]
        simp only [VfsState.setNode_nodes, Function.update_idem]
      obtain ⟨becomes, shrunk⟩ := tree.grow freed rfl rfl (by simp)
      rw [Option.map_none, ← freshEq, ← unused, Function.update_eq_self] at becomes
      refine ⟨⟨becomes.mutated shrunk (fun _ _ was => was) fun _ _ _ _ was => was, by simp⟩, fun free => ?_, becomes⟩
      have absent := free.2
      rw [entry_dir live, bindings, search] at absent
      exact absurd absent (by simp)
    · rename_i absent
      obtain ⟨rfl, rebinds⟩ := result
      have missing : findEntry name entries = none := by simpa using absent
      have added := rebinds.added higher kind nlink (by decide) missing
      have becomes := rebinds.becomes_added kind nlink missing
      rw [grown.entry, grown.kinds] at becomes
      have unnamed : state.tmpfs.entry parent name = none := by
        rw [entry_dir live, bindings, missing]
        rfl
      refine ⟨⟨?_, ?_⟩, ⟨by rw [parentKind, directory], unnamed⟩, unused, grown.trans becomes⟩
      · exact ((grown.mutated higher (kept _) fun _ _ _ _ was => was).trans added).weaken
          fun _ _ _ lost _ => lost.elim id id
      · rintro node ⟨⟩
        rw [rebinds.data, Function.update_of_ne (Ne.symm differs), stored, Function.update_self]
  · simp only [if_neg directory]
    exact ⟨⟨.refl tree _, by simp⟩, fun free => directory (by simpa [parentKind] using free.1), .refl state⟩

end Calls

end Uesi.Vfs
