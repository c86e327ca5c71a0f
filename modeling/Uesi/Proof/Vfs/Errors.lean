import Uesi.Construction.Vfs.Names
import Uesi.Library.Exec

namespace Uesi.Vfs

open Library

/-- A result is no `EFAULT`. -/
def NoFault {α : Type} (answer : Except Errno α) : Prop := answer ≠ .error .efault

/-- A call never answers with `EFAULT`. -/
def Spares {σ α : Type} (action : EStateM Fault σ (Except Errno α)) : Prop :=
  ∀ start, Post (fun _ => True) action (fun answer _ => NoFault answer) start

section Rules

variable {σ α β : Type}

theorem noFault_ok (value : α) : NoFault (.ok value : Except Errno α) := nofun

theorem NoFault.error {code : Errno} (fine : NoFault (.error code : Except Errno α)) :
    NoFault (.error code : Except Errno β) := fun wrong => fine (by rw [Except.error.inj wrong])

theorem Spares.pure {answer : Except Errno α} (fine : NoFault answer) :
    Spares (Pure.pure answer : EStateM Fault σ (Except Errno α)) := fun _ => fine

theorem Spares.ok (value : α) : Spares (Pure.pure (.ok value) : EStateM Fault σ (Except Errno α)) :=
  Spares.pure (noFault_ok value)

theorem Spares.throw (fault : Fault) : Spares (throw fault : EStateM Fault σ (Except Errno α)) := fun _ => trivial

/-- A step before the answer does not matter. -/
theorem Spares.seq (action : EStateM Fault σ α) {next : α → EStateM Fault σ (Except Errno β)}
    (rest : ∀ value, Spares (next value)) : Spares (action >>= next) :=
  fun start => (Post.anything action start).seq fun value final _ => rest value final

/-- The answer of a call may be passed on. -/
theorem Spares.relay {action : EStateM Fault σ (Except Errno α)}
    {next : Except Errno α → EStateM Fault σ (Except Errno β)} (first : Spares action)
    (rest : ∀ answer, NoFault answer → Spares (next answer)) : Spares (action >>= next) :=
  fun start => (first start).seq fun answer final fine => rest answer fine final

theorem Spares.ite {condition : Prop} [Decidable condition] {first second : EStateM Fault σ (Except Errno α)}
    (yes : Spares first) (no : Spares second) : Spares (if condition then first else second) :=
  fun start => Post.ite (fun _ => yes start) fun _ => no start

end Rules

theorem appendComponents_noFault (components : List Str) (path : Str) : NoFault (appendComponents path components) := by
  induction components generalizing path with
  | nil => exact noFault_ok path
  | cons component rest ih =>
      rw [appendComponents]
      split_ifs
      · exact nofun
      · exact ih _
      · exact ih _

theorem linkPath_noFault (before : List Str) (target : Str) : NoFault (linkPath before target) := by
  unfold linkPath
  split_ifs
  · exact noFault_ok _
  · have path := appendComponents_noFault before [slash]
    cases found : appendComponents [slash] before with
    | error code =>
        rw [found] at path
        exact path.error
    | ok joined =>
        change NoFault (if vfsMaxPath ≤ joined.length + target.length + 2 then _ else _)
        split_ifs
        · exact nofun
        · exact noFault_ok _
        · exact noFault_ok _

theorem tmpfsLookup_spares (dir : VnodeId) (name : Str) : Spares (tmpfsLookup dir name) := by
  refine Spares.seq _ fun parent => ?_
  cases parent with
  | none => exact Spares.pure nofun
  | some parent =>
      refine Spares.seq _ fun entry => ?_
      cases entry with
      | none => exact Spares.pure nofun
      | some entry => exact Spares.seq _ fun vnode => Spares.ok vnode

theorem tmpfsReadlink_spares (vnode : VnodeId) (bufsize : Nat) : Spares (tmpfsReadlink vnode bufsize) := by
  unfold tmpfsReadlink
  refine Spares.ite (Spares.pure nofun) (Spares.seq _ fun found => Spares.seq _ fun node => ?_)
  cases node.data with
  | symlink target => exact Spares.ok _
  | file contents => exact Spares.pure nofun
  | dir entries count => exact Spares.pure nofun

theorem walkComponents_spares {lookup : Str → Exec (Except Errno VnodeId)} (spares : ∀ path, Spares (lookup path))
    (followFinal : Bool) (before components : List Str) (depth : Nat) (current : VnodeId) :
    Spares (walkComponents lookup followFinal before components depth current) := by
  induction components generalizing before depth current with
  | nil => exact Spares.ok current
  | cons component rest ih =>
      rw [walkComponents]
      refine Spares.seq _ fun vnode => Spares.ite (Spares.seq _ fun _ => Spares.pure nofun) ?_
      refine Spares.relay (tmpfsLookup_spares current component) fun found fine => Spares.seq _ fun _ => ?_
      cases found with
      | error code => exact Spares.pure fine.error
      | ok next =>
          refine Spares.seq _ fun vnode => Spares.ite (ih _ _ _) (Spares.ite (Spares.ok next) ?_)
          refine Spares.ite (Spares.seq _ fun _ => Spares.pure nofun) ?_
          refine Spares.relay (tmpfsReadlink_spares next vfsMaxPath) fun target read => Spares.seq _ fun _ => ?_
          have joined : NoFault (target.bind (linkPath before)) := by
            cases target with
            | error code => exact read.error
            | ok target => exact linkPath_noFault before target
          cases found : target.bind (linkPath before) with
          | error code =>
              rw [found] at joined
              exact Spares.pure joined.error
          | ok path =>
              refine Spares.relay (spares path) fun answer fine => ?_
              cases answer with
              | error code => exact Spares.pure fine.error
              | ok current => exact ih _ _ _

/-- The only error number of the path routines behind the checks is `ENAMETOOLONG`. -/
def HaltFine {α : Type} (result : Except Halt α) : Prop := result ≠ .error (.errno .efault)

theorem HaltFine.bind {α β : Type} {result : Except Halt α} {next : α → Except Halt β} (first : HaltFine result)
    (rest : ∀ value, HaltFine (next value)) : HaltFine (result >>= next) := by
  cases result with
  | error halt => exact fun wrong => first (by rw [Except.error.inj wrong])
  | ok value => exact rest value

theorem HaltFine.ite {α : Type} {condition : Prop} [Decidable condition] {first second : Except Halt α}
    (yes : HaltFine first) (no : HaltFine second) : HaltFine (if condition then first else second) := by
  split_ifs
  · exact yes
  · exact no

theorem Writer.put_fine (out : Writer) (byte : UInt8) : HaltFine (out.put byte) := HaltFine.ite nofun nofun

theorem Writer.store_fine (out : Writer) (byte : UInt8) : HaltFine (out.store byte) :=
  (out.put_fine byte).bind fun _ => nofun

theorem Writer.storeAll_fine (text : Str) (out : Writer) : HaltFine (out.storeAll text) := by
  induction text generalizing out with
  | nil => exact nofun
  | cons byte rest ih => exact (out.store_fine byte).bind ih

theorem normalizeComponent_fine (component : Str) (out : Writer) : HaltFine (normalizeComponent component out) := by
  have appended : ∀ out : Writer, HaltFine (if vfsMaxPath ≤ out.dst + component.length
      then .error (.errno .enametoolong) else out.storeAll component) :=
    fun out => HaltFine.ite nofun (out.storeAll_fine component)
  refine HaltFine.ite nofun (HaltFine.ite (HaltFine.ite nofun nofun) (HaltFine.ite ?_ (appended out)))
  exact (out.store_fine slash).bind appended

theorem normalizeLoop_fine (src : Str) (out : Writer) : HaltFine (normalizeLoop src out) := by
  induction src, out using normalizeLoop.induct with
  | case1 src out none =>
      rw [normalizeLoop]
      split
      · exact nofun
      · rename_i found
        rw [none] at found
        cases found
  | case2 src out byte rest found ih =>
      rw [normalizeLoop]
      split
      · exact nofun
      · rename_i same
        rw [found] at same
        cases same
        exact (normalizeComponent_fine _ _).bind ih

theorem normalizePath_spares (path : Str) : Spares (normalizePath path) := by
  have fine : HaltFine (vfsNormalizePath (some path) (some fun _ => 0)) := by
    refine HaltFine.ite nofun (HaltFine.ite nofun ?_)
    refine (Writer.store_fine _ _).bind fun out => (normalizeLoop_fine path out).bind fun out => ?_
    exact HaltFine.ite ((out.store_fine slash).bind fun out => Writer.put_fine _ 0) (Writer.put_fine _ 0)
  unfold normalizePath
  cases found : vfsNormalizePath (some path) (some fun _ => 0) with
  | ok out => exact Spares.ok _
  | error halt =>
      cases halt with
      | errno code =>
          refine Spares.pure fun wrong => fine ?_
          rw [found, Except.error.inj wrong]
      | outOfBounds => exact Spares.throw _

theorem vfsLookupInternal_spares (fuel : Nat) (path : Str) (followFinal : Bool) :
    Spares (vfsLookupInternal fuel path followFinal) := by
  induction fuel generalizing path followFinal with
  | zero => exact Spares.throw _
  | succ fuel ih =>
      rw [vfsLookupInternal]
      refine Spares.ite (Spares.pure nofun) (Spares.seq _ fun state => ?_)
      cases state.root with
      | none => exact Spares.pure nofun
      | some root =>
          refine Spares.relay (normalizePath_spares path) fun normalized fine => ?_
          cases normalized with
          | error code => exact Spares.pure fine.error
          | ok normalized =>
              refine Spares.seq _ fun cached => ?_
              cases cached with
              | some dentry => exact Spares.seq _ fun _ => Spares.ok _
              | none =>
                  refine Spares.seq _ fun _ => Spares.ite (Spares.ok root) ?_
                  refine Spares.relay (walkComponents_spares (fun path => ih path true) _ _ _ _ _) fun answer fine => ?_
                  cases answer with
                  | error code => exact Spares.pure fine.error
                  | ok current => exact Spares.ite (Spares.seq _ fun _ => Spares.ok _) (Spares.ok _)

theorem tmpfsDirentAdd_spares (dir : NodeId) (name : Str) (node : NodeId) : Spares (tmpfsDirentAdd dir name node) := by
  refine Spares.seq _ fun parent => ?_
  cases parent.data with
  | dir entries count =>
      refine Spares.seq _ fun found => Spares.ite (Spares.pure nofun) ?_
      exact Spares.seq _ fun _ => Spares.seq _ fun _ => Spares.seq _ fun _ => Spares.ok _
  | file contents => exact Spares.pure nofun
  | symlink target => exact Spares.pure nofun

theorem tmpfsCreate_spares (dir : VnodeId) (name : Str) (mode : BitVec 32) : Spares (tmpfsCreate dir name mode) := by
  have added : Spares (tmpfsAddNew dir name (.file {}) mode) := by
    refine Spares.seq _ fun parent => ?_
    cases parent with
    | none => exact Spares.pure nofun
    | some parent =>
        refine Spares.seq _ fun node => Spares.relay (tmpfsDirentAdd_spares parent name node) fun answer fine => ?_
        cases answer with
        | error code => exact Spares.seq _ fun _ => Spares.pure fine.error
        | ok _ => exact Spares.ok node
  refine Spares.relay added fun answer fine => ?_
  cases answer with
  | error code => exact Spares.pure fine.error
  | ok node => exact Spares.seq _ fun _ => Spares.ok _

theorem vfsCreate_spares (fuel : Nat) (path : Str) (mode : BitVec 32) : Spares (vfsCreate fuel path mode) := by
  have parent : Spares (vfsLookupParent fuel path) := by
    unfold vfsLookupParent
    cases vfsDirname path with
    | none => exact Spares.pure nofun
    | some dirname =>
        refine Spares.relay (vfsLookupInternal_spares fuel dirname true) fun answer fine => ?_
        cases answer with
        | error code => exact Spares.pure fine.error
        | ok vnode => exact Spares.ok _
  refine Spares.relay parent fun answer fine => ?_
  cases answer with
  | error code => exact Spares.pure fine.error
  | ok found =>
      refine Spares.relay ?_ fun answer fine => Spares.seq _ fun _ => Spares.pure fine
      refine Spares.relay (tmpfsCreate_spares _ _ _) fun answer fine => ?_
      cases answer with
      | error code => exact Spares.pure fine.error
      | ok vnode => exact Spares.seq _ fun _ => Spares.ok _

theorem tmpfsTruncate_spares (id : VnodeId) : Spares (onRegular id (tmpfsTruncate 0 none)) := by
  refine Spares.seq _ fun vnode => Spares.seq _ fun node => ?_
  cases node.data with
  | file contents => exact Spares.seq _ fun _ => Spares.seq _ fun _ => Spares.ok _
  | dir entries count => exact Spares.pure nofun
  | symlink target => exact Spares.pure nofun

theorem openVnode_spares (fuel : Nat) (path : Str) (flags mode : BitVec 32) :
    Spares (openVnode fuel path flags mode) := by
  refine Spares.relay (vfsLookupInternal_spares fuel path true) fun answer fine => ?_
  cases answer with
  | ok vnode => exact Spares.ite (Spares.seq _ fun _ => Spares.pure nofun) (Spares.ok vnode)
  | error code =>
      by_cases missing : code = .enoent
      · subst missing
        refine Spares.ite (Spares.pure nofun) (Spares.relay (vfsCreate_spares fuel path mode) fun answer fine => ?_)
        cases answer with
        | error code => exact Spares.pure fine.error
        | ok _ => exact vfsLookupInternal_spares fuel path true
      · cases code <;> first | exact absurd rfl missing | exact Spares.pure fine

/-- `vfs_open` never answers with `EFAULT`. -/
theorem vfsOpen_spares (fuel : Nat) (path : Str) (flags mode : BitVec 32) : Spares (vfsOpen fuel path flags mode) := by
  refine Spares.relay (openVnode_spares fuel path flags mode) fun answer fine => ?_
  cases answer with
  | error code => exact Spares.pure fine.error
  | ok vnode =>
      refine Spares.ite (Spares.ok vnode) (Spares.relay (tmpfsTruncate_spares vnode) fun answer fine => ?_)
      cases answer with
      | ok _ => exact Spares.ok vnode
      | error code => exact Spares.seq _ fun _ => Spares.pure fine.error

end Uesi.Vfs
