import Uesi.Construction.Vfs.Buffer

namespace Uesi.Vfs

open Library

variable {count start : SizeT} {fresh : Fresh} {node : TmpfsFile} {buf : Nat → UInt8} {index : Nat}
  {length offset : OffT} {cached : Option Nat} {block : Block} {file : VfsFile}

section Signs

variable {small other : OffT}

theorem slt_iff_toNat (one : small.toNat < 2 ^ 63) (two : other.toNat < 2 ^ 63) :
    small.slt other = true ↔ small.toNat < other.toNat := by
  rw [BitVec.slt, decide_eq_true_iff, BitVec.toInt_eq_toNat_of_lt (by omega),
    BitVec.toInt_eq_toNat_of_lt (by omega), Int.ofNat_lt]

theorem sle_iff_toNat (one : small.toNat < 2 ^ 63) (two : other.toNat < 2 ^ 63) :
    small.sle other = true ↔ small.toNat ≤ other.toNat := by
  rw [BitVec.sle, decide_eq_true_iff, BitVec.toInt_eq_toNat_of_lt (by omega),
    BitVec.toInt_eq_toNat_of_lt (by omega), Int.ofNat_le]

/-- An offset that is not negative has no sign bit. -/
theorem toNat_lt_of_not_negative (positive : ¬small.slt 0 = true) : small.toNat < 2 ^ 63 := by
  rw [BitVec.slt, decide_eq_true_iff, show BitVec.toInt (0 : OffT) = 0 from rfl,
    BitVec.toInt_eq_toNat_cond] at positive
  split at positive <;> omega

end Signs

/-- The size is not negative, it fits in the block, and the capacity is the size of the block. -/
structure TmpfsFile.Bounded (node : TmpfsFile) : Prop where
  positive : node.size.toNat < 2 ^ 63
  fits : node.size.toNat ≤ node.capacity.toNat
  block : ∀ block, node.data = some block → block.size = node.capacity
  null : node.data = none → node.capacity = 0

/-- The file of a vnode is bounded, and the copy of its size is not negative. -/
structure FileVnode.Bounded (vnode : FileVnode) : Prop where
  node : vnode.node.Bounded
  size : vnode.size.toNat < 2 ^ 63

/-- The bytes of a node, where those of a null data pointer are never read. -/
def TmpfsFile.bytes (node : TmpfsFile) : Nat → UInt8 := (node.data.map Block.bytes).getD fun _ => 0

/-- The bytes of a new block to which those of the file are copied. -/
def TmpfsFile.moved (node : TmpfsFile) (fresh : Nat → UInt8) : Nat → UInt8 :=
  match node.data with
  | some old => memcpyAt fresh 0 node.size.toNat old.bytes
  | none => fresh

section Blocks

variable {stop : Fault → Prop} {vnode : FileVnode}

theorem post_check {size : SizeT} {after : Unit → FileVnode → Prop} (inside : start.toNat + count.toNat ≤ size.toNat) :
    Post stop (check size start count) after vnode ↔ after () vnode := by
  simp [check, inside]

theorem Block.post_load {after : (Nat → UInt8) → FileVnode → Prop}
    (inside : start.toNat + count.toNat ≤ block.size.toNat) :
    Post stop (block.load start count) after vnode ↔ after (fun index => block.bytes (start.toNat + index)) vnode := by
  rw [Block.load, post_bind, post_check inside, post_pure]

theorem Block.post_store {source : Nat → UInt8} {after : Block → FileVnode → Prop}
    (inside : start.toNat + count.toNat ≤ block.size.toNat) :
    Post stop (block.store start count source) after vnode ↔
      after { block with bytes := memcpyAt block.bytes start.toNat count.toNat source } vnode := by
  rw [Block.store, post_bind, post_check inside, post_pure]

/-- The old bytes fit in their block, and in any larger one. -/
theorem TmpfsFile.Bounded.post_moveData (bounded : node.Bounded) {after : Block → FileVnode → Prop}
    (larger : node.size.toNat ≤ block.size.toNat) :
    Post stop (moveData node block) after vnode ↔ after { block with bytes := node.moved block.bytes } vnode := by
  unfold moveData TmpfsFile.moved
  cases data : node.data with
  | none => exact post_pure _
  | some old =>
      have inside : (0 : SizeT).toNat + node.size.toNat ≤ old.size.toNat := by
        rw [bounded.block old data]
        simpa using bounded.fits
      rw [post_bind, Block.post_load inside, Block.post_store (by simpa using larger)]
      simp

/-- A copy that ends inside of the capacity stays in the block. -/
theorem TmpfsFile.Bounded.storeData {source : Nat → UInt8} (bounded : node.Bounded)
    (inside : start.toNat + count.toNat ≤ node.capacity.toNat) :
    Post stop (storeData node.data start count source) (fun data next => next = vnode ∧
      ({ node with data } : TmpfsFile).Bounded ∧
      ({ node with data } : TmpfsFile).bytes = memcpyAt node.bytes start.toNat count.toNat source) vnode := by
  unfold Vfs.storeData TmpfsFile.bytes
  cases data : node.data with
  | none =>
      have none : node.capacity = 0 := bounded.null data
      rw [none] at inside
      have empty : count.toNat = 0 := by
        rw [show (0 : SizeT).toNat = 0 from rfl] at inside
        omega
      rw [post_bind, post_check inside, post_pure, empty]
      refine ⟨rfl, ⟨bounded.positive, bounded.fits, by simp, fun _ => none⟩, ?_⟩
      funext index
      exact (if_neg (by omega)).symm
  | some block =>
      have size : block.size = node.capacity := bounded.block block data
      rw [← size] at inside
      rw [post_bind, Block.post_store inside, post_pure]
      refine ⟨rfl, ⟨bounded.positive, bounded.fits, ?_, by simp⟩, rfl⟩
      rintro _ ⟨⟩
      exact size

end Blocks

section Node

variable {stop : Fault → Prop} {vnode : FileVnode} {newSize : SizeT}

theorem FileVnode.Bounded.setNode (bounded : vnode.Bounded) (changed : node.Bounded) :
    ({ vnode with node } : FileVnode).Bounded := ⟨changed, bounded.size⟩

/-- The bytes that are read end at the size. -/
theorem FileVnode.Bounded.tmpfsRead (bounded : vnode.Bounded) (positive : offset.toNat < 2 ^ 63) :
    Post (fun _ => False) (tmpfsRead buf count offset) (fun answer next => next.Bounded ∧
      ∀ bytes contents, answer = .ok (bytes, contents) → offset.toNat + bytes.toNat < 2 ^ 63) vnode := by
  unfold Vfs.tmpfsRead
  simp only [post_bind, post_get]
  split
  · refine ⟨bounded, ?_⟩
    rintro _ _ ⟨⟩
    simpa using positive
  next before =>
      rw [sle_iff_toNat bounded.node.positive positive, Nat.not_le] at before
      have available : (vnode.node.size - offset).toNat = vnode.node.size.toNat - offset.toNat :=
        BitVec.toNat_sub_of_le before.le
      generalize bytes : (if count < vnode.node.size - offset then count else vnode.node.size - offset) = toRead
      have least : toRead.toNat ≤ (vnode.node.size - offset).toNat := by
        rw [← bytes]
        split
        next less => exact less.le
        next => exact le_rfl
      have ends : offset.toNat + toRead.toNat ≤ vnode.node.size.toNat := by omega
      have small : offset.toNat + toRead.toNat < 2 ^ 63 := ends.trans_lt bounded.node.positive
      cases data : vnode.node.data with
      | none =>
          refine ⟨bounded, ?_⟩
          rintro _ _ ⟨⟩
          exact small
      | some block =>
          have inside : offset.toNat + toRead.toNat ≤ block.size.toNat := by
            rw [bounded.node.block block data]
            exact ends.trans bounded.node.fits
          rw [post_bind, Block.post_load inside]
          refine ⟨bounded, ?_⟩
          rintro _ _ ⟨⟩
          exact small

/-- The bytes under a write: those of the old block, or of a new block to which the old bytes are copied. -/
def TmpfsFile.base (node : TmpfsFile) (newSize : SizeT) (fresh : Nat → UInt8) : Nat → UInt8 :=
  if node.capacity < newSize then node.moved fresh else node.bytes

/-- What a reallocation leaves of the node. -/
structure Grown (vnode next : FileVnode) (newSize : SizeT) (fresh : Nat → UInt8) : Prop where
  bounded : next.Bounded
  size : next.node.size = vnode.node.size
  room : newSize.toNat ≤ next.node.capacity.toNat
  bytes : next.node.bytes = vnode.node.base newSize fresh

/-- The reallocation gives a block with twice the size that is needed. -/
theorem FileVnode.Bounded.growForWrite (bounded : vnode.Bounded) (positive : newSize.toNat < 2 ^ 63) :
    Post stop (growForWrite newSize fresh) (fun answer next => answer = .error .enomem ∧ fresh = none ∧ next = vnode ∨
      answer = .ok () ∧ Grown vnode next newSize (fresh.getD fun _ => 0)) vnode := by
  unfold Vfs.growForWrite
  simp only [post_bind, post_get]
  by_cases small : vnode.node.capacity < newSize
  · have doubled : (newSize * 2).toNat = newSize.toNat * 2 := by
      rw [BitVec.toNat_mul]
      exact Nat.mod_eq_of_lt (by simpa using by omega)
    have beyond : vnode.node.capacity.toNat < newSize.toNat := small
    have fits : vnode.node.size.toNat ≤ (newSize * 2).toNat := by
      have := bounded.node.fits
      omega
    rw [if_pos small]
    cases fresh with
    | none => exact Or.inl ⟨rfl, rfl, rfl⟩
    | some bytes =>
        rw [post_bind, bounded.node.post_moveData fits]
        refine Or.inr ⟨rfl, bounded.setNode ⟨bounded.node.positive, fits, ?_, by simp⟩, rfl, ?_, ?_⟩
        · rintro _ ⟨⟩
          rfl
        · change newSize.toNat ≤ (newSize * 2).toNat
          omega
        · rw [TmpfsFile.base, if_pos small]
          rfl
  · rw [if_neg small]
    refine Or.inr ⟨rfl, bounded, rfl, Nat.not_lt.mp small, ?_⟩
    rw [TmpfsFile.base, if_neg small]

/-- The size of a file after a write that ends at an offset. -/
def writtenSize (size position count : SizeT) : Nat := max size.toNat (position.toNat + count.toNat)

/-- A completed write that ends at an offset puts its bytes over those of the file. -/
structure Written (before after : TmpfsFile) (position count : SizeT) (buf fresh : Nat → UInt8) : Prop where
  bytes : after.bytes = memcpyAt (before.base (position + count) fresh) position.toNat count.toNat buf
  size : after.size.toNat = writtenSize before.size position count

/-- A write whose end is an offset stays in the block. -/
theorem FileVnode.Bounded.tmpfsWrite (bounded : vnode.Bounded) (ends : offset.toNat + count.toNat < 2 ^ 63) :
    Post stop (tmpfsWrite buf count offset fresh) (fun answer next => next.Bounded ∧
      (answer = .error .enomem ∧ fresh = none ∨
        answer = .ok count ∧ Written vnode.node next.node offset count buf (fresh.getD fun _ => 0))) vnode := by
  have sum : (offset + count).toNat = offset.toNat + count.toNat := BitVec.toNat_add_of_lt (by omega)
  unfold Vfs.tmpfsWrite
  apply (bounded.growForWrite (by rwa [sum])).seq
  rintro answer grown (⟨rfl, failed, rfl⟩ | ⟨rfl, kept, size, room, bytes⟩)
  · exact ⟨bounded, Or.inl ⟨rfl, failed⟩⟩
  · rw [sum] at room
    simp only [post_bind, post_get]
    apply (kept.node.storeData room).mono
    rintro data next ⟨rfl, stored, contents⟩
    rw [bytes] at contents
    have longer := slt_iff_toNat kept.node.positive (show (offset + count).toNat < 2 ^ 63 by rwa [sum])
    rw [sum] at longer
    split
    next less =>
        have larger : ({ next.node with data, size := offset + count } : TmpfsFile).Bounded :=
          ⟨by rwa [sum], by rwa [sum], stored.block, stored.null⟩
        refine ⟨⟨larger, larger.positive⟩, Or.inr ⟨rfl, contents, ?_⟩⟩
        change (offset + count).toNat = _
        rw [sum, writtenSize, ← size]
        have := longer.mp less
        omega
    next more =>
        refine ⟨kept.setNode stored, Or.inr ⟨rfl, contents, ?_⟩⟩
        change next.node.size.toNat = _
        rw [writtenSize, ← size]
        have := mt longer.mpr more
        omega

theorem TmpfsFile.Bounded.growForTruncate (bounded : node.Bounded) (positive : length.toNat < 2 ^ 63)
    (longer : node.size.toNat < length.toNat) :
    Post (fun _ => False) (growForTruncate node length fresh)
      (fun answer next => next = vnode ∧ ∀ changed, answer = .ok changed → changed.Bounded) vnode := by
  unfold Vfs.growForTruncate
  split
  · cases fresh with
    | none => exact ⟨rfl, by simp⟩
    | some bytes =>
        have rest : (length - node.size).toNat = length.toNat - node.size.toNat :=
          BitVec.toNat_sub_of_le longer.le
        have tail : node.size.toNat + (length - node.size).toNat ≤ length.toNat := by omega
        rw [post_bind, bounded.post_moveData longer.le, post_bind, Block.post_store tail]
        refine ⟨rfl, ?_⟩
        rintro _ ⟨⟩
        refine ⟨positive, le_rfl, ?_, by simp⟩
        rintro _ ⟨⟩
        rfl
  next enough =>
      refine ⟨rfl, ?_⟩
      rintro _ ⟨⟩
      exact ⟨positive, Nat.not_lt.mp enough, bounded.block, bounded.null⟩

/-- Each branch of a truncation leaves a bounded node. -/
theorem TmpfsFile.Bounded.resize (bounded : node.Bounded) (positive : length.toNat < 2 ^ 63) :
    Post (fun _ => False) (resize node length fresh)
      (fun answer next => next = vnode ∧ ∀ changed, answer = .ok changed → changed.Bounded) vnode := by
  unfold Vfs.resize
  split
  · refine ⟨rfl, ?_⟩
    rintro _ ⟨⟩
    exact ⟨by simp, by simp, by simp, fun _ => rfl⟩
  · split
    next shorter =>
        refine ⟨rfl, ?_⟩
        rintro _ ⟨⟩
        exact ⟨positive, shorter.le.trans bounded.fits, bounded.block, bounded.null⟩
    next =>
        split
        next longer => exact bounded.growForTruncate positive longer
        next =>
            refine ⟨rfl, ?_⟩
            rintro _ ⟨⟩
            exact bounded

theorem FileVnode.Bounded.tmpfsTruncate (bounded : vnode.Bounded) :
    Post (fun _ => False) (tmpfsTruncate length fresh) (fun _ next => next.Bounded) vnode := by
  unfold Vfs.tmpfsTruncate
  split
  · exact bounded
  next positive =>
      simp only [post_bind, post_get]
      apply (bounded.node.resize (toNat_lt_of_not_negative positive)).mono
      rintro (code | changed) next ⟨rfl, safe⟩
      · exact bounded
      · exact ⟨safe changed rfl, (safe changed rfl).positive⟩

end Node

/-- The size is not negative and at most the capacity. -/
def TmpfsFile.Within (node : TmpfsFile) : Prop :=
  0 ≤ node.size.toInt ∧ node.size.toInt ≤ node.capacity.toNat

theorem TmpfsFile.Bounded.within (bounded : node.Bounded) : node.Within := by
  have positive := bounded.positive
  have size : node.size.toInt = node.size.toNat := BitVec.toInt_eq_toNat_of_lt (by omega)
  exact ⟨by omega, by rw [size]; exact_mod_cast bounded.fits⟩

end Uesi.Vfs

namespace Uesi.Buffer

open Library
open Vfs (OffT SizeT Fault TmpfsFile FileVnode FileExec Fresh Whence vfsOWronly vfsORdwr vfsOAppend
  toNat_lt_of_not_negative)

/-- The node is bounded, and no size or offset that is stored for it is negative. -/
structure Bounded (state : State) : Prop where
  node : state.node.Bounded
  vnodes : ∀ size ∈ state.vnodes, size.toNat < 2 ^ 63
  files : ∀ file ∈ state.files, file.offset.toNat < 2 ^ 63

section Calls

variable {stop : Fault → Prop} {state : State}

theorem post_onVnode {α : Type} {vnode : Nat} {action : FileExec α} {after : α → State → Prop} :
    Post stop (onVnode vnode action) after state ↔
      Post stop action (fun answer changed => after answer (state.setVnode vnode changed)) (state.vnode vnode) := by
  unfold Post onVnode
  cases action (state.vnode vnode) <;> rfl

section Operations

variable (bounded : Bounded state)

include bounded

theorem Bounded.vnode (vnode : Nat) : (state.vnode vnode).Bounded := by
  refine ⟨bounded.node, ?_⟩
  rw [State.vnode, List.getD_eq_getElem?_getD]
  cases listed : state.vnodes[vnode]? with
  | none => simp
  | some size => exact bounded.vnodes size (List.mem_of_getElem? listed)

theorem Bounded.setVnode {changed : FileVnode} (vnode : Nat) (kept : changed.Bounded) :
    Bounded (state.setVnode vnode changed) := by
  refine ⟨kept.node, fun size listed => ?_, bounded.files⟩
  rcases List.mem_or_eq_of_mem_set listed with old | rfl
  · exact bounded.vnodes size old
  · exact kept.size

theorem Bounded.tmpfsTruncate {vnode : Nat} :
    Post (fun _ => False) (onVnode vnode (Vfs.tmpfsTruncate length fresh)) (fun _ next => Bounded next) state :=
  post_onVnode.mpr ((bounded.vnode vnode).tmpfsTruncate.mono fun _ _ kept => bounded.setVnode vnode kept)

theorem Bounded.lookupVnode : Post (fun _ => False) (lookupVnode cached) (fun _ next => Bounded next) state := by
  have made : Bounded { state with vnodes := state.vnodes ++ [state.node.size] } := by
    refine ⟨bounded.node, fun size listed => ?_, bounded.files⟩
    rw [List.mem_append, List.mem_singleton] at listed
    rcases listed with old | rfl
    · exact bounded.vnodes size old
    · exact bounded.node.positive
  unfold Buffer.lookupVnode
  cases cached with
  | none => exact made
  | some vnode =>
      simp only [post_bind, post_get]
      split
      · exact bounded
      · exact made

theorem Bounded.setOffset (positive : offset.toNat < 2 ^ 63) :
    Post (fun _ => False) (setOffset index file offset) (fun _ next => Bounded next) state := by
  refine ⟨bounded.node, bounded.vnodes, fun stored listed => ?_⟩
  rcases List.mem_or_eq_of_mem_set listed with old | rfl
  · exact bounded.files stored old
  · exact positive

theorem Bounded.vfsOpen {flags : BitVec 32} {memory : Bool} :
    Post (fun _ => False) (vfsOpen cached flags memory) (fun _ next => Bounded next) state := by
  have listed : ∀ {next : State} (vnode : Nat), Bounded next →
      Bounded { next with files := next.files ++ [⟨⟨0, flags⟩, vnode⟩] } := by
    intro next vnode kept
    refine ⟨kept.node, kept.vnodes, fun file opened => ?_⟩
    rw [List.mem_append, List.mem_singleton] at opened
    rcases opened with old | rfl
    · exact kept.files file old
    · simp
  unfold Buffer.vfsOpen
  apply bounded.lookupVnode.seq
  intro vnode found kept
  split
  · exact kept
  · split
    · exact kept
    · split
      · simp only [post_bind]
        apply kept.tmpfsTruncate.mono
        rintro (code | _) cut shorter
        · exact shorter
        · exact listed vnode shorter
      · exact listed vnode kept

theorem Bounded.onFile {α : Type} {call : VfsFile → Exec (Except Errno α)}
    (keeps : ∀ file, state.files[index]? = some file → Post stop (call file) (fun _ next => Bounded next) state) :
    Post stop (onFile index call) (fun _ next => Bounded next) state := by
  unfold Buffer.onFile
  simp only [post_bind, post_get]
  split
  · exact bounded
  next file opened => exact keeps file opened

theorem Bounded.vfsRead : Post (fun _ => False) (vfsRead index buf count) (fun _ next => Bounded next) state := by
  refine bounded.onFile fun file opened => ?_
  have offset : file.offset.toNat < 2 ^ 63 := bounded.files file (List.mem_of_getElem? opened)
  simp only [post_bind, Vfs.vfsRead]
  split
  · exact bounded
  · simp only [post_bind, post_onVnode]
    apply ((bounded.vnode file.vnode).tmpfsRead offset).mono
    rintro (code | ⟨bytes, contents⟩) changed ⟨kept, ends⟩
    · exact bounded.setVnode _ kept
    · have small := ends bytes contents rfl
      have sum : (file.offset + bytes).toNat < 2 ^ 63 := by rwa [BitVec.toNat_add_of_lt (by omega)]
      simp only
      split
      · exact ((bounded.setVnode _ kept).setOffset sum).seq fun _ _ moved => moved
      · exact bounded.setVnode _ kept

end Operations

/-- The offset at which `vfs_write` writes. -/
def State.position (state : State) (file : VfsFile) : OffT :=
  if file.flags &&& vfsOAppend ≠ 0 then state.vnodes.getD file.vnode 0 else file.offset

/-- The offset at which a file is written is not negative. -/
theorem Bounded.position (bounded : Bounded state) (opened : file ∈ state.files) :
    (state.position file).toNat < 2 ^ 63 := by
  unfold State.position
  split
  · exact (bounded.vnode file.vnode).size
  · exact bounded.files file opened

/-- A write to an open file is a write to its vnode, after which the offset of the file may move. -/
theorem vfsWrite_post {after : Except Errno SizeT → State → Prop}
    (writable : file.flags &&& (vfsOWronly ||| vfsORdwr) ≠ 0)
    (written : Post stop (Vfs.tmpfsWrite buf count (state.position file) fresh) (fun answer changed =>
      after answer (state.setVnode file.vnode changed) ∧ ∀ bytes, answer = .ok bytes →
        Post stop (setOffset index file (state.position file + bytes)) (fun _ => after answer)
          (state.setVnode file.vnode changed)) (state.vnode file.vnode)) :
    Post stop (Vfs.vfsWrite file.toVfsFile (sizeOf file)
      (fun offset => onVnode file.vnode (Vfs.tmpfsWrite buf count offset fresh)) (setOffset index file))
      after state := by
  have position : Post stop (file.toVfsFile.position (sizeOf file)) (fun offset next =>
      offset = state.position file ∧ next = state) state := by
    unfold Vfs.VfsFile.position State.position
    split <;> exact ⟨rfl, rfl⟩
  rw [Vfs.vfsWrite, if_neg writable]
  apply position.seq
  rintro offset next ⟨rfl, rfl⟩
  rw [post_bind, post_onVnode]
  apply written.mono
  rintro (code | bytes) changed ⟨holds, moves⟩
  · exact holds
  · simp only
    split
    · exact (moves bytes rfl).seq fun _ _ moved => moved
    · exact holds

/-- A write to a file that is open for writing ends at an offset. -/
def Representable (state : State) : FileOp → Prop
  | .write index _ count _ => ∀ file, state.files[index]? = some file →
      file.flags &&& (vfsOWronly ||| vfsORdwr) ≠ 0 →
      (state.position file).toNat + count.toNat < 2 ^ 63
  | _ => True

theorem Bounded.vfsWrite (bounded : Bounded state) (ends : Representable state (.write index buf count fresh)) :
    Post (fun _ => False) (vfsWrite index buf count fresh) (fun _ next => Bounded next) state := by
  refine bounded.onFile fun file opened => ?_
  by_cases writable : file.flags &&& (vfsOWronly ||| vfsORdwr) = 0
  · rw [Vfs.vfsWrite, if_pos writable]
    exact bounded
  · have small := ends file opened writable
    refine vfsWrite_post writable (((bounded.vnode file.vnode).tmpfsWrite small).mono ?_)
    rintro _ changed ⟨kept, ⟨rfl, _⟩ | ⟨rfl, _⟩⟩
    · exact ⟨bounded.setVnode _ kept, by simp⟩
    · refine ⟨bounded.setVnode _ kept, ?_⟩
      rintro _ ⟨⟩
      exact (bounded.setVnode _ kept).setOffset (by rwa [BitVec.toNat_add_of_lt (by omega)])

theorem Bounded.vfsSeek {whence : Whence} (bounded : Bounded state) :
    Post (fun _ => False) (vfsSeek index offset whence) (fun _ next => Bounded next) state := by
  refine bounded.onFile fun file opened => ?_
  -- Whatever the sum is, it is only stored when it is not negative.
  have sought : Post (fun _ => False) (Vfs.seekOffset file.toVfsFile (sizeOf file) offset whence)
      (fun _ next => next = state) state := by
    cases whence <;> rfl
  apply sought.seq
  rintro (_ | newOffset) next rfl
  · exact bounded
  · simp only
    split
    · exact bounded
    next positive => exact (bounded.setOffset (toNat_lt_of_not_negative positive)).seq fun _ _ kept => kept

theorem Bounded.vfsTruncate (bounded : Bounded state) :
    Post (fun _ => False) (vfsTruncate cached length fresh) (fun _ next => Bounded next) state := by
  unfold Buffer.vfsTruncate
  apply bounded.lookupVnode.seq
  intro vnode found kept
  apply kept.tmpfsTruncate.seq
  rintro (code | _) next shorter
  · exact shorter
  · exact shorter

theorem Bounded.fileCall {op : FileOp} (bounded : Bounded state) (ends : Representable state op) :
    Post (fun _ => False) (fileCall op) (fun _ next => Bounded next) state := by
  cases op with
  | openFile cached flags memory => exact bounded.vfsOpen
  | seek file offset whence => exact bounded.vfsSeek
  | write file buf count fresh => exact bounded.vfsWrite ends
  | read file buf count => exact bounded.vfsRead
  | truncate cached length fresh => exact bounded.vfsTruncate

end Calls

theorem bounded_newFile : Bounded newFile where
  node := ⟨by decide, by decide, by simp [newFile], fun _ => rfl⟩
  vnodes := by simp [newFile]
  files := by simp [newFile]

/-- When every write ends at an offset, no call touches a byte outside of a block. -/
theorem fileCalls_within (ops : List FileOp) (guarded : CallGuarded fileCall Representable newFile ops) :
    Post (fun _ => False) (callAll fileCall ops) (fun _ final => final.node.Within) newFile := by
  have run : Post (fun _ => False) (callAll fileCall ops) (fun _ final => Bounded final) newFile :=
    callAll_invariant (fun _ state => Bounded state)
      (fun _ _ _ bounded ends => bounded.fileCall ends) bounded_newFile guarded
  exact run.mono fun _ _ bounded => bounded.node.within

/-- A write of one byte to a file that is open for writing. -/
def openAndWrite : List FileOp :=
  [.openFile none vfsORdwr true, .write 0 (fun _ => 7) 1 (some fun _ => 0)]

theorem fileCalls_within_write :
    CallGuarded fileCall Representable newFile openAndWrite ∧
      Post (fun _ => False) (callAll fileCall openAndWrite) (fun _ final => final.node.Within) newFile := by
  have guarded : CallGuarded fileCall Representable newFile openAndWrite := by
    refine .cons trivial (.cons ?_ trivial)
    rintro file ⟨⟩ -
    decide
  exact ⟨guarded, fileCalls_within openAndWrite guarded⟩

/-- After a seek to the largest offset a write of two bytes allocates two bytes and writes far outside. -/
theorem vfsWrite_overruns :
    faultOf (callAll fileCall
        [.openFile none vfsORdwr true, .seek 0 0x7FFFFFFFFFFFFFFF .set, .write 0 (fun _ => 7) 2 (some fun _ => 0)])
      newFile = some Fault.outOfBounds := by
  decide +kernel

end Uesi.Buffer
