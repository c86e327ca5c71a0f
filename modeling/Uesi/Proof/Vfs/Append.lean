import Uesi.Proof.Vfs.Buffer
import Uesi.Proof.Syscall.Access

namespace Uesi.Vfs

open Library

variable {buf fresh : Nat → UInt8} {count position newSize : SizeT} {index : Nat}

/-- What a completed append does: it leaves the bytes below the old size as they are, and its own bytes are
stored from that size on, inside of the file. -/
structure Appended (before after : TmpfsFile) (buf : Nat → UInt8) (count : SizeT) : Prop where
  below : ∀ index < before.size.toNat, after.bytes index = before.bytes index
  stored : ∀ index < count.toNat, after.bytes (before.size.toNat + index) = buf index
  inside : before.size.toNat + count.toNat ≤ after.size.toNat

section Write

variable {stop : Fault → Prop} {vnode : FileVnode}

/-- The old bytes lie under the write. -/
theorem TmpfsFile.Bounded.base {node : TmpfsFile} (bounded : node.Bounded) (newSize : SizeT) (fresh : Nat → UInt8)
    (inside : index < node.size.toNat) :
    node.base newSize fresh index = node.bytes index := by
  unfold TmpfsFile.base
  split
  · cases data : node.data with
    | none =>
        have fits := bounded.fits
        rw [bounded.null data] at fits
        have empty : node.size.toNat ≤ 0 := fits
        omega
    | some old => simp [TmpfsFile.moved, TmpfsFile.bytes, data, memcpyAt, inside]
  · rfl

/-- A check that passes has its bytes inside. -/
theorem check_returns {size start : SizeT} (some_ : count ≠ 0) :
    Post (fun _ => True) (check size start count) (fun _ next => next = vnode ∧
      start.toNat + count.toNat ≤ size.toNat) vnode := by
  unfold check
  split
  case isTrue inside => exact ⟨rfl, inside.resolve_left some_⟩
  case isFalse => trivial

/-- A copy into a block that returns has its bytes inside. -/
theorem storeData_returns {data : Option Block} (some_ : count ≠ 0) :
    Post (fun _ => True) (storeData data position count buf) (fun _ next => next = vnode ∧
      ∃ block, data = some block ∧ position.toNat + count.toNat ≤ block.size.toNat) vnode := by
  have positive : count.toNat ≠ 0 := fun zero => some_ (BitVec.eq_of_toNat_eq zero)
  cases data with
  | none =>
      apply (check_returns some_).seq
      rintro _ next ⟨_, inside⟩
      rw [show (0 : SizeT).toNat = 0 from rfl] at inside
      omega
  | some block =>
      simp only [storeData, Block.store, post_bind]
      apply (check_returns some_).mono
      rintro _ next ⟨rfl, inside⟩
      exact ⟨rfl, block, rfl, inside⟩

theorem moveData_returns (node : TmpfsFile) (block : Block) :
    Post (fun _ => True) (moveData node block) (fun moved next => next = vnode ∧ moved.size = block.size) vnode := by
  have checked (size start count : SizeT) (now : FileVnode) :
      Post (fun _ => True) (check size start count) (fun _ next => next = now) now := by
    unfold check
    split
    · rfl
    · trivial
  unfold moveData
  cases node.data with
  | none => exact ⟨rfl, rfl⟩
  | some old =>
      simp only [Block.load, Block.store, post_bind]
      apply (checked ..).mono
      rintro _ next rfl
      rw [post_pure, post_bind]
      apply (checked ..).mono
      rintro _ last rfl
      exact ⟨rfl, rfl⟩

/-- A reallocation that returns keeps the size, and the capacity is that of the block. -/
theorem FileVnode.Bounded.growForWrite_returns {bytes : Nat → UInt8} (bounded : vnode.Bounded) :
    Post (fun _ => True) (Vfs.growForWrite newSize (some bytes)) (fun answer next => answer = .ok () ∧
      next.node.size = vnode.node.size ∧ ∀ block, next.node.data = some block →
        block.size = if vnode.node.capacity < newSize then newSize * 2 else vnode.node.capacity) vnode := by
  unfold Vfs.growForWrite
  simp only [post_bind, post_get]
  by_cases small : vnode.node.capacity < newSize
  · simp only [if_pos small, post_bind]
    apply (moveData_returns vnode.node _).mono
    rintro moved next ⟨rfl, size⟩
    refine ⟨rfl, rfl, ?_⟩
    rintro _ ⟨⟩
    exact size
  · simp only [if_neg small]
    exact ⟨rfl, rfl, bounded.node.block⟩

/-- A write that ends behind all offsets makes no file longer. -/
theorem FileVnode.Bounded.tmpfsWrite_too_long {bytes : Nat → UInt8} {position : OffT} (bounded : vnode.Bounded)
    (some_ : count ≠ 0) (beyond : 2 ^ 63 ≤ position.toNat + count.toNat) :
    Post (fun _ => True) (Vfs.tmpfsWrite buf count position (some bytes)) (fun answer next =>
      answer = .ok count ∧ next.node.size = vnode.node.size) vnode := by
  unfold Vfs.tmpfsWrite
  apply bounded.growForWrite_returns.seq
  rintro _ grown ⟨rfl, size, blocks⟩
  simp only [post_bind, post_get]
  apply (storeData_returns some_).mono
  rintro data next ⟨rfl, block, stored, inside⟩
  -- The doubled sum wraps, so the old block holds the write, and the sum is negative as a size.
  rw [blocks block stored] at inside
  have large : (position + count).toNat = position.toNat + count.toNat ∧
      position.toNat + count.toNat < 2 ^ 64 := by
    split at inside
    · rw [BitVec.toNat_mul, BitVec.toNat_add, show (2 : SizeT).toNat = 2 from rfl] at inside
      omega
    · have bound := vnode.node.capacity.isLt
      exact ⟨BitVec.toNat_add_of_lt (by omega), by omega⟩
  have shorter : ¬ next.node.size.slt (position + count) = true := by
    have positive := bounded.node.positive
    rw [size, BitVec.slt, decide_eq_true_iff, BitVec.toInt_eq_toNat_of_lt (by omega), BitVec.toInt_eq_toNat_cond,
      large.1]
    split <;> omega
  rw [if_neg shorter]
  exact ⟨rfl, size⟩

theorem memcpyAt_inside {target source : Nat → UInt8} {start length : Nat} (inside : index < length) :
    memcpyAt target start length source (start + index) = source index := by
  rw [memcpyAt, if_pos ⟨Nat.le_add_right _ _, by omega⟩, Nat.add_sub_cancel_left]

theorem memcpyAt_outside {target source : Nat → UInt8} {start length : Nat}
    (outside : index < start ∨ start + length ≤ index) :
    memcpyAt target start length source index = target index :=
  if_neg (by omega)

/-- A write at the size of the node, and a write of nothing, are appends. -/
theorem Written.appended {before after : TmpfsFile} (written : Written before after position count buf fresh)
    (bounded : before.Bounded) (ends : count = 0 ∨ position = before.size) : Appended before after buf count := by
  have size := written.size
  rw [writtenSize] at size
  refine ⟨?_, ?_, ?_⟩
  · intro index inside
    rw [written.bytes, memcpyAt_outside, bounded.base _ _ inside]
    rcases ends with rfl | rfl
    · rw [show (0 : SizeT).toNat = 0 from rfl]
      omega
    · exact Or.inl inside
  · intro index inside
    rcases ends with rfl | rfl
    · exact absurd inside (Nat.not_lt_zero _)
    · rw [written.bytes, memcpyAt_inside inside]
  · rcases ends with rfl | rfl
    · rw [show (0 : SizeT).toNat = 0 from rfl] at size ⊢
      omega
    · omega

end Write

end Uesi.Vfs

namespace Uesi.Buffer

open Library
open Vfs (OffT SizeT Fault TmpfsFile FileVnode Fresh Appended Written writtenSize
  memcpyAt_outside vfsOWronly vfsORdwr vfsOAppend)

/-- A write through an open file returns, and if it is completed it is an append. -/
def AppendsOnly (state : State) (index : Nat) (buf : Nat → UInt8) (count : SizeT) (fresh : Fresh) : Prop :=
  Post (fun _ => False) (vfsWrite index buf count fresh)
    (fun answer next => ∀ bytes, answer = .ok bytes → Appended state.node next.node buf bytes) state

section Append

variable {state : State} {index : Nat} {file : VfsFile} {count : SizeT}

/-- What `tmpfs_write` does to the node is what `vfs_write` does to it. -/
theorem vfsWrite_node {stop : Fault → Prop} {fresh : Fresh} (after : Except Errno SizeT → TmpfsFile → Prop)
    (opened : state.files[index]? = some file) (writable : file.flags &&& (vfsOWronly ||| vfsORdwr) ≠ 0)
    (written : Post stop (Vfs.tmpfsWrite buf count (state.position file) fresh)
      (fun answer next => after answer next.node) (state.vnode file.vnode)) :
    Post stop (vfsWrite index buf count fresh) (fun answer next => after answer next.node) state := by
  simp only [vfsWrite, onFile, post_bind, post_get, opened]
  exact vfsWrite_post writable (written.mono fun _ _ holds => ⟨holds, fun _ _ => holds⟩)

section Opened

variable (bounded : Bounded state) (opened : state.files[index]? = some file)
  (writable : file.flags &&& (vfsOWronly ||| vfsORdwr) ≠ 0)

include bounded opened writable

theorem Bounded.vfsWrite_written {fresh : Fresh} (ends : (state.position file).toNat + count.toNat < 2 ^ 63) :
    Post (fun _ => False) (Buffer.vfsWrite index buf count fresh) (fun answer next =>
      answer = .error .enomem ∧ fresh = none ∨ answer = .ok count ∧
        Written state.node next.node (state.position file) count buf (fresh.getD fun _ => 0)) state :=
  vfsWrite_node (fun answer node => answer = .error .enomem ∧ fresh = none ∨ answer = .ok count ∧
    Written state.node node (state.position file) count buf (fresh.getD fun _ => 0)) opened writable
      (((bounded.vnode file.vnode).tmpfsWrite ends).mono fun _ _ written => written.2)

/-- A write that is an append for all bytes starts at the size of the node. -/
theorem Bounded.position_eq (some_ : count ≠ 0) (ends : (state.position file).toNat + count.toNat < 2 ^ 63)
    (appends : ∀ buf fresh, AppendsOnly state index buf count fresh) :
    state.position file = state.node.size := by
  have positive : count.toNat ≠ 0 := fun zero => some_ (BitVec.eq_of_toNat_eq zero)
  -- The byte at the old size does not depend on the bytes that are written behind it.
  let under := state.node.base (state.position file + count) (fun _ => 0) state.node.size.toNat
  have both := (appends (fun _ => under + 1) (some fun _ => 0)).and
    (bounded.vfsWrite_written opened writable ends)
  obtain ⟨answer, next, _, appended, ⟨_, failed⟩ | ⟨rfl, written⟩⟩ := both.result
  · exact absurd failed (by simp)
  · have append := appended count rfl
    have size := written.size
    have inside := append.inside
    rw [writtenSize] at size
    by_contra differs
    have apart : (state.position file).toNat ≠ state.node.size.toNat := fun same =>
      differs (BitVec.eq_of_toNat_eq same)
    have first := append.stored 0 (Nat.pos_of_ne_zero positive)
    rw [written.bytes, Nat.add_zero, memcpyAt_outside (Or.inl (by omega))] at first
    have next : under = under + 1 := first
    exact absurd next (by simp)

/-- A write that ends behind all offsets is no append. -/
theorem Bounded.not_appendsOnly (some_ : count ≠ 0)
    (beyond : 2 ^ 63 ≤ (state.position file).toNat + count.toNat) :
    ¬ AppendsOnly state index (fun _ => 0) count (some fun _ => 0) := by
  intro appends
  have positive : count.toNat ≠ 0 := fun zero => some_ (BitVec.eq_of_toNat_eq zero)
  have long : Post (fun _ => True) (Buffer.vfsWrite index (fun _ => 0) count (some fun _ => 0))
      (fun answer next => answer = .ok count ∧ next.node.size = state.node.size) state :=
    vfsWrite_node (fun answer node => answer = .ok count ∧ node.size = state.node.size) opened writable
      ((bounded.vnode file.vnode).tmpfsWrite_too_long some_ beyond)
  obtain ⟨answer, next, _, appended, rfl, same⟩ := (appends.also long).result
  have inside := (appended count rfl).inside
  rw [same] at inside
  omega

/-- A write to an open file is an append exactly when it writes nothing, or it starts at the size of the node
and the end is an offset. -/
theorem Bounded.appendsOnly_iff (start : (state.position file).toNat < 2 ^ 63) :
    (∀ buf fresh, AppendsOnly state index buf count fresh) ↔
      count = 0 ∨ state.position file = state.node.size ∧ state.node.size.toNat + count.toNat < 2 ^ 63 := by
  constructor
  · intro appends
    by_cases empty : count = 0
    · exact Or.inl empty
    · have ends : (state.position file).toNat + count.toNat < 2 ^ 63 := by
        by_contra long
        exact bounded.not_appendsOnly opened writable empty (Nat.not_lt.mp long) (appends _ _)
      have same := bounded.position_eq opened writable empty ends appends
      rw [same] at ends
      exact Or.inr ⟨same, ends⟩
  · intro fits buf fresh
    have ends : (state.position file).toNat + count.toNat < 2 ^ 63 := by
      rcases fits with rfl | ⟨same, ends⟩
      · exact start
      · rwa [same]
    apply (bounded.vfsWrite_written opened writable ends).mono
    rintro answer next (⟨rfl, _⟩ | ⟨rfl, written⟩)
    · exact fun _ never => absurd never (by simp)
    · rintro _ ⟨⟩
      exact written.appended bounded.node (fits.imp_right And.left)

end Opened

end Append

/-- In every run whose writes end at offsets, a write of a file in append mode is an append, whatever its bytes
are, exactly when it writes nothing, or `v_size` is the size of the node and the end is an offset. -/
theorem fileCalls_append_iff (ops : List FileOp) (guarded : CallGuarded fileCall Representable newFile ops)
    (answers : List (Except Errno SizeT)) (state : State) (reached : callAll fileCall ops newFile = .ok answers state)
    (index : Nat) (file : VfsFile) (opened : state.files[index]? = some file)
    (writable : file.flags &&& (vfsOWronly ||| vfsORdwr) ≠ 0) (append : file.flags &&& vfsOAppend ≠ 0)
    (count : SizeT) :
    (∀ buf fresh, AppendsOnly state index buf count fresh) ↔
      count = 0 ∨ state.vnodes.getD file.vnode 0 = state.node.size ∧
        state.node.size.toNat + count.toNat < 2 ^ 63 := by
  have run : Post (fun _ => False) (callAll fileCall ops) (fun _ final => Bounded final) newFile :=
    callAll_invariant (fun _ state => Bounded state)
      (fun _ _ _ bounded ends => bounded.fileCall ends) bounded_newFile guarded
  unfold Post at run
  rw [reached] at run
  have position : state.position file = state.vnodes.getD file.vnode 0 := if_pos append
  rw [← position]
  exact run.appendsOnly_iff opened writable (run.position (List.mem_of_getElem? opened))

/-- A file is opened in append mode and a byte is written. -/
def openAndAppend : List FileOp :=
  [.openFile none (vfsORdwr ||| vfsOAppend) true, .write 0 (fun _ => 7) 1 (some fun _ => 0)]

/-- The state behind the first append. -/
def appendedState : State := finalState (callAll fileCall openAndAppend) newFile

/-- A second append of one byte through the same file. -/
theorem fileCalls_append_second : AppendsOnly appendedState 0 (fun _ => 98) 1 none := by
  have guarded : CallGuarded fileCall Representable newFile openAndAppend := by
    refine .cons trivial (.cons ?_ trivial)
    rintro file ⟨⟩ -
    decide
  have reached : callAll fileCall openAndAppend newFile = .ok [.ok 0, .ok 1] appendedState := rfl
  exact (fileCalls_append_iff openAndAppend guarded [.ok 0, .ok 1] appendedState reached 0
    ⟨⟨1, vfsORdwr ||| vfsOAppend⟩, 0⟩ rfl (by decide) (by decide) 1).mpr (Or.inr ⟨by decide, by decide⟩) _ _

end Uesi.Buffer

namespace Uesi.Files

open Library Vfs

/-- The size and the first byte of a regular file. -/
def sizeAndFirst (kernel : Kernel) (id : NodeId) : Option (OffT × UInt8) :=
  (kernel.vfs.tmpfs.nodes id).bind fun node => match node.data with
    | .file contents => some (contents.size, contents.bytes 0)
    | _ => none

/-- `/a` gets the second name `/b`, both are opened in append mode, and a byte is written through each: the second
write overwrites the byte of the first. -/
theorem append_overwrites_link :
    (match (do
        let first ← sysOpen 1 1 (.ok [47, 97]) (vfsOCreat ||| vfsORdwr ||| vfsOAppend) 0x1A4
        let _ ← onVfs (vfsLink 1 [47, 97] [47, 98])
        let second ← sysOpen 1 1 (.ok [47, 98]) (vfsORdwr ||| vfsOAppend) 0
        let one ← vfsWrite 0 [1] (some fun _ => 0)
        let before := sizeAndFirst (← get) 1
        let two ← vfsWrite 1 [2] (some fun _ => 0)
        return ([first, second, one, two], before, sizeAndFirst (← get) 1)) newKernel with
      | .ok answers _ => some answers
      | .error _ _ => none) = some ([.ok 3, .ok 4, .ok 1, .ok 1], some (1, 1), some (1, 2)) := by decide +kernel

end Uesi.Files
