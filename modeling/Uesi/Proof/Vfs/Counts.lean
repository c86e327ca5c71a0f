import Uesi.Proof.Vfs.Steps
import Uesi.Library.Simulation

namespace Uesi.Vfs

open Library

/-- An action does the same with counts that are numbers, unless a count wraps. -/
def CountsAsNumbers {α : Type} (action : Exec α) : Prop := Tracks VfsState.unbounded (·.wrapped = true) action

section Primitives

theorem counts_readNode (id : NodeId) : CountsAsNumbers (readNode id) := by
  refine Tracks.get (fun _ => rfl) fun state => ?_
  split
  · exact tracks_pure _
  · exact tracks_throw _

theorem counts_readVnode (id : VnodeId) : CountsAsNumbers (readVnode id) := by
  refine Tracks.get (fun _ => rfl) fun state => ?_
  split
  · exact tracks_pure _
  · exact tracks_throw _

theorem counts_writeNode (id : NodeId) (node : Option TmpfsNode) : CountsAsNumbers (writeNode id node) :=
  tracks_modify (fun _ => rfl) fun _ wrapped => wrapped

theorem counts_writeVnode (id : VnodeId) (vnode : Option Vnode) : CountsAsNumbers (writeVnode id vnode) :=
  tracks_modify (fun _ => rfl) fun _ wrapped => wrapped

theorem counts_writeChain (hash : Nat) (chain : List Dentry) : CountsAsNumbers (writeChain hash chain) :=
  tracks_modify (fun _ => rfl) fun _ wrapped => wrapped

theorem counts_vfsVnodeAlloc (vnode : Vnode) : CountsAsNumbers (vfsVnodeAlloc vnode) := by
  refine Tracks.get (fun _ => rfl) fun state => ?_
  refine Tracks.bind (tracks_modify (fun _ => rfl) fun _ wrapped => wrapped) fun _ => ?_
  exact (counts_writeVnode _ _).bind fun _ => tracks_pure _

theorem counts_tmpfsNodeAlloc (data : TmpfsData) (mode : BitVec 32) : CountsAsNumbers (tmpfsNodeAlloc data mode) := by
  refine Tracks.get (fun _ => rfl) fun state => ?_
  refine Tracks.bind (tracks_modify (fun _ => rfl) fun _ wrapped => wrapped) fun _ => ?_
  exact (counts_writeNode _ _).bind fun _ => tracks_pure _

/-- `vfs_vnode_ref` stores the number of references, or it records the wrap. -/
theorem counts_vfsVnodeRef (id : VnodeId) : CountsAsNumbers (vfsVnodeRef id) := by
  refine (counts_readVnode id).bind fun vnode => ?_
  intro start unwrapped
  change ¬ (start.wrapped || (vnode.refcount + 1) % start.refcountValues != vnode.refcount + 1) = true at unwrapped
  simp only [Bool.or_eq_true, bne_iff_ne, ne_eq, not_or, not_not] at unwrapped
  have number : (vnode.refcount + 1) % 0 = (vnode.refcount + 1) % start.refcountValues := by
    rw [unwrapped.2, Nat.mod_zero]
  exact ⟨unwrapped.1, congrArg (fun refcount => (.ok () (VfsState.setVnode { start with
    refcountValues := 0
    wrapped := start.wrapped || refcount != vnode.refcount + 1 } id (some { vnode with refcount })) :
      EStateM.Result Fault VfsState Unit)) number⟩

theorem counts_vfsVnodeUnref (id : VnodeId) : CountsAsNumbers (vfsVnodeUnref id) := by
  refine (counts_readVnode id).bind fun vnode => ?_
  exact Tracks.ite (tracks_pure _) (Tracks.ite (counts_writeVnode _ _) (counts_writeVnode _ _))

theorem inherited_counts : Inherited fun _ action => CountsAsNumbers action where
  pure := tracks_pure
  bind := Tracks.bind
  readNode := counts_readNode
  writeNode := counts_writeNode
  readVnode := counts_readVnode
  vfsVnodeAlloc := counts_vfsVnodeAlloc
  vfsVnodeUnref := counts_vfsVnodeUnref
  tmpfsNodeAlloc := counts_tmpfsNodeAlloc

end Primitives

section Lookup

theorem counts_vfsDentryAdd (path : Str) (vnode : VnodeId) : CountsAsNumbers (vfsDentryAdd path vnode) := by
  refine (counts_vfsVnodeRef vnode).bind fun _ => ?_
  exact Tracks.get (fun _ => rfl) fun state => counts_writeChain _ _

theorem counts_vfsDentryRemove (path : Str) : CountsAsNumbers (vfsDentryRemove path) := by
  refine Tracks.get (fun _ => rfl) fun state => ?_
  split
  · exact tracks_pure _
  · exact (counts_writeChain _ _).bind fun _ => counts_vfsVnodeUnref _

theorem counts_walkComponents {lookup : Str → Exec (Except Errno VnodeId)}
    (counts : ∀ path, CountsAsNumbers (lookup path)) (followFinal : Bool) (components before : List Str) (depth : Nat)
    (current : VnodeId) : CountsAsNumbers (walkComponents lookup followFinal before components depth current) := by
  induction components generalizing before depth current with
  | nil => exact tracks_pure _
  | cons component rest ih =>
      refine (counts_readVnode current).bind fun vnode => ?_
      refine Tracks.ite ((counts_vfsVnodeUnref _).bind fun _ => tracks_pure _) ?_
      refine (inherited_counts.tmpfsLookup current component).bind fun found => ?_
      refine (counts_vfsVnodeUnref _).bind fun _ => ?_
      cases found with
      | error code => exact tracks_pure _
      | ok next =>
          refine (counts_readVnode next).bind fun vnode => Tracks.ite (ih _ _ _) (Tracks.ite (tracks_pure _) ?_)
          refine Tracks.ite ((counts_vfsVnodeUnref _).bind fun _ => tracks_pure _) ?_
          refine (inherited_counts.tmpfsReadlink next vfsMaxPath).bind fun target => ?_
          refine (counts_vfsVnodeUnref _).bind fun _ => ?_
          split
          · exact tracks_pure _
          · refine (counts _).bind fun answer => ?_
            cases answer with
            | error code => exact tracks_pure _
            | ok entered => exact ih _ _ _

theorem counts_walkPath {lookup : Str → Exec (Except Errno VnodeId)} (counts : ∀ path, CountsAsNumbers (lookup path))
    (root : VnodeId) (normalized : Str) (followFinal : Bool) :
    CountsAsNumbers (walkPath lookup root normalized followFinal) := by
  refine (counts_vfsVnodeRef root).bind fun _ => Tracks.ite (tracks_pure _) ?_
  refine (counts_walkComponents counts _ _ _ _ _).bind fun answer => ?_
  cases answer with
  | error code => exact tracks_pure _
  | ok current =>
      exact Tracks.ite ((counts_vfsDentryAdd _ _).bind fun _ => tracks_pure _) (tracks_pure _)

theorem counts_vfsLookupInternal (fuel : Nat) (path : Str) (followFinal : Bool) :
    CountsAsNumbers (vfsLookupInternal fuel path followFinal) := by
  induction fuel generalizing path followFinal with
  | zero => exact tracks_throw _
  | succ fuel ih =>
      have normalize : CountsAsNumbers (normalizePath path) := by
        unfold normalizePath
        split
        · exact tracks_pure _
        · exact tracks_pure _
        · exact tracks_throw _
      refine Tracks.ite (tracks_pure _) (Tracks.get (fun _ => rfl) fun state => ?_)
      split
      · exact tracks_pure _
      · refine normalize.bind fun answer => ?_
        cases answer with
        | error code => exact tracks_pure _
        | ok normalized =>
            have cached : CountsAsNumbers (cachedDentry normalized followFinal) := by
              cases followFinal with
              | false => exact tracks_pure _
              | true => exact Tracks.get (fun _ => rfl) fun _ => tracks_pure _
            refine cached.bind fun found => ?_
            cases found with
            | some dentry => exact (counts_vfsVnodeRef _).bind fun _ => tracks_pure _
            | none => exact counts_walkPath (fun path => ih path true) _ _ _

end Lookup

theorem counts_calls : CallsInherit fun _ action => CountsAsNumbers action where
  toInherited := inherited_counts
  vfsLookup fuel path := counts_vfsLookupInternal fuel path true
  vfsDentryRemove := counts_vfsDentryRemove
  onRegular := by
    intro α id action
    refine (counts_readVnode id).bind fun vnode => (counts_readNode _).bind fun node => ?_
    split
    · split
      · exact (counts_writeNode _ _).bind fun _ => (counts_writeVnode _ _).bind fun _ => tracks_pure _
      · exact tracks_throw _
    · exact tracks_pure _

end Uesi.Vfs
