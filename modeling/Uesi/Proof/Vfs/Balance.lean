import Uesi.Proof.Vfs.Coherence

namespace Uesi.Vfs

open Library

/-- The sum of the reference counts of all vnodes in use. -/
def VfsState.totalRefs (state : VfsState) : Nat := ∑ id ∈ Finset.range state.freshVnode, state.refs id

/-- The number of dentries in the cache. -/
def VfsState.dentries (state : VfsState) : Nat :=
  ∑ hash ∈ Finset.range dentryHashSize, (state.dentryHash hash).length

/-- The reference that an answer hands to the caller. -/
def owed : Except Errno VnodeId → VnodeId → Nat
  | .error _ => 0
  | .ok id => Pi.single id 1

/-- A lookup changes no node and only adds dentries. -/
structure Extends (state next : VfsState) : Prop where
  keeps : Keeps state next
  chains : ∀ hash, state.dentryHash hash <:+ next.dentryHash hash

/-- A lookup leaves the references of others, and one more for the vnode that it answers with. -/
structure Balances (held : VnodeId → Nat) (state : VfsState) (answer : Except Errno VnodeId) (next : VfsState) :
    Prop where
  grown : Extends state next
  counted : Counted next (held + owed answer)

variable {state middle next : VfsState} {held : VnodeId → Nat} {id : VnodeId}

theorem Extends.of_keeps (keeps : Keeps state next) (chains : next.dentryHash = state.dentryHash) :
    Extends state next :=
  ⟨keeps, fun hash => by rw [chains]⟩

theorem Extends.trans (first : Extends state middle) (second : Extends middle next) : Extends state next :=
  ⟨first.keeps.trans second.keeps, fun hash => (first.chains hash).trans (second.chains hash)⟩

theorem Extends.closed (grown : Extends state next) (closed : Closed state.tmpfs) : Closed next.tmpfs :=
  grown.keeps.tmpfs ▸ closed

theorem Balances.after {answer : Except Errno VnodeId} (first : Extends state middle)
    (balances : Balances held middle answer next) : Balances held state answer next :=
  ⟨first.trans balances.grown, balances.counted⟩

theorem Counted.exists_of_held (counted : Counted state (held + Pi.single id 1)) :
    ∃ vnode, state.vnodes id = some vnode := by
  refine counted.exists_of_refs id ?_
  rw [Pi.add_apply, Pi.single_eq_same]
  omega

/-- The loop over the components trades its reference for one to the result. -/
theorem walkComponents_balances {lookup : Str → Exec (Except Errno VnodeId)}
    (calls : ∀ path state held, Counted state held → Closed state.tmpfs →
      Post (· = .outOfFuel) (lookup path) (Balances held state) state)
    (followFinal : Bool) (components before : List Str) (depth : Nat) (current : VnodeId) (state : VfsState)
    (held : VnodeId → Nat) (counted : Counted state (held + Pi.single current 1)) (closed : Closed state.tmpfs) :
    Post (· = .outOfFuel) (walkComponents lookup followFinal before components depth current)
      (Balances held state) state := by
  have same : Extends state state := .of_keeps (.refl state) rfl
  induction components generalizing before depth current state held with
  | nil => exact ⟨same, counted⟩
  | cons component rest ih =>
      obtain ⟨vnode, live⟩ := counted.exists_of_held
      refine counted.walkComponents_cons closed (nodeOf_some.mpr ⟨vnode, live, rfl⟩) ?_ ?_ ?_
      · intro outcome answer next _ keeps chains handed
        refine ⟨.of_keeps keeps chains, ?_⟩
        cases answer with
        | error code => exact handed.1
        | ok id => exact handed.1
      · intro target id next _ keeps chains counted _
        have grown := Extends.of_keeps keeps chains
        exact (ih _ _ id next held counted (grown.closed closed) (.of_keeps (.refl _) rfl)).mono
          fun _ _ => .after grown
      · intro path next _ keeps chains counted
        have grown := Extends.of_keeps keeps chains
        apply (calls path next held counted (grown.closed closed)).seq
        rintro answer arrived ⟨further, counted⟩
        have grown := grown.trans further
        cases answer with
        | error code => exact ⟨grown, counted⟩
        | ok id =>
            exact (ih _ _ id arrived held counted (grown.closed closed) (.of_keeps (.refl _) rfl)).mono
              fun _ _ => .after grown

/-- Behind a miss of the cache the walk starts with a reference to the root, and the new dentry takes its own. -/
theorem walkPath_balances {lookup : Str → Exec (Except Errno VnodeId)}
    (calls : ∀ path state held, Counted state held → Closed state.tmpfs →
      Post (· = .outOfFuel) (lookup path) (Balances held state) state)
    {root : VnodeId} (mounted : state.root = some root) (normalized : Str) (followFinal : Bool)
    (counted : Counted state held) (closed : Closed state.tmpfs) :
    Post (· = .outOfFuel) (walkPath lookup root normalized followFinal) (Balances held state) state := by
  obtain ⟨vnode, live⟩ := counted.exists_of_refs root (by rw [VfsState.mounted, if_pos mounted]; omega)
  unfold walkPath
  apply (counted.vfsVnodeRef live).seq
  rintro _ started ⟨taken, keeps, chains⟩
  have grown := Extends.of_keeps keeps chains
  split
  · exact ⟨grown, taken⟩
  · apply (walkComponents_balances calls followFinal _ [] 0 root started held taken (grown.closed closed)).seq
    rintro answer walked ⟨further, counted⟩
    have grown := grown.trans further
    cases answer with
    | error code => exact ⟨grown, counted⟩
    | ok id =>
        cases followFinal with
        | false => exact ⟨grown, counted⟩
        | true =>
            obtain ⟨vnode, live⟩ := Counted.exists_of_held counted
            simp only [if_true, post_bind]
            apply (Counted.vfsDentryAdd counted live).mono
            rintro _ next ⟨counted, keeps, chains⟩
            refine ⟨grown.trans ⟨keeps, fun hash => ?_⟩, counted⟩
            rw [chains]
            by_cases here : hash = dentryHashFunc normalized
            · rw [here, Function.update_self]
              exact List.suffix_cons _ _
            · rw [Function.update_of_ne here]

theorem vfsLookupInternal_balances (fuel : Nat) (path : Str) (followFinal : Bool) (state : VfsState)
    (held : VnodeId → Nat) (counted : Counted state held) (closed : Closed state.tmpfs) :
    Post (· = .outOfFuel) (vfsLookupInternal fuel path followFinal) (Balances held state) state := by
  induction fuel generalizing path followFinal state held with
  | zero => rfl
  | succ fuel ih =>
      have same : Extends state state := .of_keeps (.refl state) rfl
      have refused (code : Errno) : Balances held state (.error code) state := ⟨same, counted⟩
      unfold vfsLookupInternal
      by_cases absolute : vfsIsAbsolutePath (some path) = true
      · simp only [absolute, Bool.not_true, Bool.false_eq_true, if_false, post_bind, post_get]
        cases mounted : state.root with
        | none => exact refused .enoent
        | some root =>
            simp only [post_bind, post_normalizePath absolute]
            split
            · exact refused _
            · rename_i normalized _
              simp only [post_bind]
              have walks := walkPath_balances (fun path state held => ih path true state held) mounted normalized
                followFinal counted closed
              cases followFinal with
              | false => exact walks
              | true =>
                  simp only [cachedDentry, vfsDentryLookup, post_bind, post_get, post_pure]
                  cases search : findDentry normalized (state.dentryHash (dentryHashFunc normalized)) with
                  | none => exact walks
                  | some dentry =>
                      have cached := cached_pos (dentryHashFunc_lt _) (findDentry_some search).1
                      obtain ⟨vnode, live⟩ := counted.exists_of_refs dentry.vnode (by omega)
                      simp only [post_bind]
                      apply (counted.vfsVnodeRef live).mono
                      rintro _ next ⟨taken, keeps, chains⟩
                      exact ⟨.of_keeps keeps chains, taken⟩
      · simp only [absolute, Bool.not_false, if_true]
        exact refused .einval

/-- Every dentry of a chain is counted for one vnode. -/
theorem sum_countP {chain : List Dentry} {bound : Nat} (below : ∀ dentry ∈ chain, dentry.vnode < bound) :
    ∑ id ∈ Finset.range bound, chain.countP (·.vnode = id) = chain.length := by
  induction chain with
  | nil => simp
  | cons dentry rest ih =>
      have inside : dentry.vnode ∈ Finset.range bound := Finset.mem_range.2 (below dentry List.mem_cons_self)
      simp only [List.countP_cons, decide_eq_true_eq, Finset.sum_add_distrib, Finset.sum_ite_eq, if_pos inside,
        List.length_cons]
      rw [ih fun other member => below other (List.mem_cons_of_mem _ member)]

theorem Counted.sum_cached (counted : Counted state held) {bound : Nat} (above : state.freshVnode ≤ bound) :
    ∑ id ∈ Finset.range bound, state.cached id = state.dentries := by
  unfold VfsState.cached VfsState.dentries
  rw [Finset.sum_comm]
  refine Finset.sum_congr rfl fun hash inside => sum_countP fun dentry member => ?_
  have cached := cached_pos (Finset.mem_range.1 inside) member
  obtain ⟨vnode, live⟩ := counted.exists_of_refs dentry.vnode (by omega)
  exact (counted.lt_fresh live).trans_le above

theorem Counted.sum_refs (counted : Counted state held) {bound : Nat} (above : state.freshVnode ≤ bound) :
    ∑ id ∈ Finset.range bound, state.refs id = state.totalRefs := by
  refine (Finset.sum_subset (Finset.range_subset_range.2 above) fun id _ outside => ?_).symm
  rw [VfsState.refs, counted.unused id (by simpa using outside)]
  rfl

/-- Only an answer that succeeds hands out a reference. -/
theorem Counted.sum_owed {answer : Except Errno VnodeId} (counted : Counted next (held + owed answer)) :
    ∑ id ∈ Finset.range next.freshVnode, owed answer id = if answer.isOk then 1 else 0 := by
  cases answer with
  | error code => simp [owed, Except.isOk, Except.toBool]
  | ok id =>
      obtain ⟨vnode, live⟩ := Counted.exists_of_held counted
      have inside := Finset.mem_range.2 (counted.lt_fresh live)
      simp [owed, Finset.sum_pi_single', inside, Except.isOk, Except.toBool]

/-- A lookup that ends has added one reference for each new dentry and one for the vnode that it returns, and every
vnode that was in use still stands for its node. -/
def AddsReferences (state : VfsState) (answer : Except Errno VnodeId) (next : VfsState) : Prop :=
  (∀ hash, state.dentryHash hash <:+ next.dentryHash hash) ∧
    next.totalRefs + state.dentries = state.totalRefs + next.dentries + (if answer.isOk then 1 else 0) ∧
    ∀ id node, state.nodeOf id = some node → next.nodeOf id = some node

theorem Counted.vfsLookup_adds (counted : Counted state held) (closed : Closed state.tmpfs) (fuel : Nat)
    (path : Str) : Post (· = .outOfFuel) (vfsLookup fuel path) (AddsReferences state) state := by
  apply (vfsLookupInternal_balances fuel path true state held counted closed).mono
  rintro answer next ⟨⟨keeps, chains⟩, after⟩
  have each (id : VnodeId) : next.refs id + state.cached id = state.refs id + next.cached id + owed answer id := by
    have root : next.mounted id = state.mounted id := by rw [VfsState.mounted, keeps.root, VfsState.mounted]
    rw [after.refs id, counted.refs id, root, Pi.add_apply]
    omega
  refine ⟨chains, ?_, fun id node before => ?_⟩
  · have total := Finset.sum_congr (rfl : Finset.range next.freshVnode = _) fun id _ => each id
    simp only [Finset.sum_add_distrib] at total
    rwa [after.sum_refs le_rfl, after.sum_cached le_rfl, after.sum_owed, counted.sum_refs keeps.fresh,
      counted.sum_cached keeps.fresh] at total
  · obtain ⟨vnode, live, -⟩ := nodeOf_some.mp before
    refine keeps.nodeOf_eq counted after before ?_
    have positive := counted.positive id vnode live
    have kept : state.cached id ≤ next.cached id :=
      Finset.sum_le_sum fun hash _ => (chains hash).sublist.countP_le
    have same := each id
    have known := after.refs id
    have refs : state.refs id = vnode.refcount := by
      rw [VfsState.refs, live]
      rfl
    omega

theorem Counted.kernel_unbounded (counted : Counted state held) : state.kernel.unbounded = state := by
  have unbounded := counted.unbounded
  cases state
  cases unbounded
  rfl

/-- In a tree with any dentry cache, a lookup with the kernel's counts in which none of them wraps adds one reference
for each new dentry and one for the vnode that it returns. -/
theorem vfsLookup_balances_references (state : VfsState) (held : VnodeId → Nat) (counted : Counted state held)
    (closed : Closed state.tmpfs) (fuel : Nat) (path : Str)
    (unwrapped : (finalState (vfsLookup fuel path) state.kernel).wrapped = false) :
    Post (· = .outOfFuel) (vfsLookup fuel path) (AddsReferences state.kernel) state.kernel := by
  have numbers : Post (· = .outOfFuel) (vfsLookup fuel path) (AddsReferences state) state.kernel.unbounded := by
    rw [counted.kernel_unbounded]
    exact counted.vfsLookup_adds closed fuel path
  exact (counts_vfsLookupInternal fuel path true).post (Bool.eq_false_iff.mp unwrapped) numbers

/-- The lookup of `/s/l` follows two symbolic links and takes a reference to the file `/f`. -/
theorem vfsLookup_balances_references_links :
    ∃ next, vfsLookup 3 [47, 115, 47, 108] relativeTree.kernel = .ok (.ok 8) next ∧
      AddsReferences relativeTree.kernel (.ok 8) next := by
  obtain ⟨held, ready⟩ := ready_relativeTree
  have run := vfsLookup_balances_references relativeTree held ready.sound.counted ready.sound.closed 3
    [47, 115, 47, 108] (by decide +kernel)
  have ran := ran_of_answerOf (show answerOf (vfsLookup 3 [47, 115, 47, 108]) relativeTree.kernel = some (.ok 8) by
    decide +kernel)
  exact ⟨_, ran, run.apply ran⟩

/-- The new tmpfs with all but one of the references to its root that can be counted taken by others. -/
def crowdedRoot : VfsState := mountedRoot.setVnode 0 (some { rootNode.toVnode 0 with refcount := 2 ^ 32 - 1 })

/-- The lookup of `/` wraps the count of a root with `2^32 - 1` references. -/
theorem vfsLookup_wraps_reference :
    Counted crowdedRoot (Pi.single 0 (2 ^ 32 - 2)) ∧ Closed crowdedRoot.tmpfs ∧
    answerOf (vfsLookup 1 [slash]) crowdedRoot.kernel = some (.ok 0) ∧ crowdedRoot.kernel.totalRefs = 2 ^ 32 - 1 ∧
    (finalState (vfsLookup 1 [slash]) crowdedRoot.kernel).totalRefs = 0 ∧
    ¬ AddsReferences crowdedRoot.kernel (.ok 0) (finalState (vfsLookup 1 [slash]) crowdedRoot.kernel) := by
  have before : crowdedRoot.kernel.totalRefs = 2 ^ 32 - 1 := by decide +kernel
  have after : (finalState (vfsLookup 1 [slash]) crowdedRoot.kernel).totalRefs = 0 := by decide +kernel
  have cache : (finalState (vfsLookup 1 [slash]) crowdedRoot.kernel).dentries = 0 := by decide +kernel
  refine ⟨?_, ready_mountedRoot.sound.closed, by decide +kernel, before, after, ?_⟩
  · refine ready_mountedRoot.sound.counted.setRefcount rfl (by decide) (by decide +kernel) fun other differs => ?_
    rw [Pi.single_eq_of_ne differs, Pi.zero_apply]
  · rintro ⟨_, balance, _⟩
    rw [before, after, cache, show crowdedRoot.kernel.dentries = 0 by decide +kernel] at balance
    omega

end Uesi.Vfs
