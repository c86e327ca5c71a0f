import Uesi.Construction.Blk.Ramdisk

namespace Uesi.Blk

open Library

variable {disk : Ramdisk} {block buffer count : BitVec 64}

/-- The bytes lie in the data area of the ramdisk. -/
def InDisk (disk : Ramdisk) (address bytes : BitVec 64) : Prop :=
  disk.data.toNat ≤ address.toNat ∧ address.toNat + bytes.toNat ≤ disk.data.toNat + disk.size.toNat

/-- The transfer succeeds exactly on blocks of the ramdisk, and its copy stays inside. -/
def Confined (disk : Ramdisk) (block buffer count : BitVec 64) : Prop :=
  ((∃ copy, blkRead disk block buffer count = .ok copy) ↔
    block.toNat + count.toNat ≤ disk.totalBlocks.toNat) ∧
  ((∃ copy, blkWrite disk block buffer count = .ok copy) ↔
    block.toNat + count.toNat ≤ disk.totalBlocks.toNat) ∧
  (∀ copy, blkRead disk block buffer count = .ok copy → InDisk disk copy.source copy.bytes) ∧
  ∀ copy, blkWrite disk block buffer count = .ok copy → InDisk disk copy.target copy.bytes

/-- The fields that `blk_ramdisk_create` sets. -/
structure Created (disk : Ramdisk) : Prop where
  blockSize : disk.blockSize.toNat = 4096
  totalBlocks : disk.totalBlocks.toNat = disk.size.toNat / 4096
  readOnly : disk.readOnly = false

theorem created_of_create {memory after : Memory} {area : Option (BitVec 64)} {size : BitVec 64}
    (created : blkRamdiskCreate memory area size = some (disk, after)) : Created disk := by
  cases area with
  | none => exact nomatch created
  | some data =>
      cases created
      exact ⟨rfl, rfl, rfl⟩

/-- The checks of both layers let a transfer through exactly if the sum of block and count, taken modulo the word
size, is a number of blocks of the ramdisk. -/
theorem Created.range_ok (created : Created disk) (present : buffer ≠ 0) (positive : count ≠ 0) :
    if (block + count).toNat ≤ disk.totalBlocks.toNat then
      blkRangeCheck disk block buffer count = true ∧
        ramdiskRange disk block count = .ok (block * disk.blockSize.setWidth 64, count * disk.blockSize.setWidth 64)
    else blkRangeCheck disk block buffer count = false := by
  have size : (disk.blockSize.setWidth 64).toNat = 4096 := by
    rw [BitVec.toNat_setWidth, created.blockSize]
  have total := created.totalBlocks
  have check : blkRangeCheck disk block buffer count =
      decide ((block + count).toNat ≤ disk.totalBlocks.toNat) := by
    unfold blkRangeCheck
    rw [bne_iff_ne.mpr present, bne_iff_ne.mpr positive, Bool.true_and, Bool.true_and, ← decide_not]
    exact decide_eq_decide.mpr (by rw [BitVec.lt_def]; exact Nat.not_lt)
  by_cases inside : (block + count).toNat ≤ disk.totalBlocks.toNat
  · rw [if_pos inside]
    refine ⟨check.trans (decide_eq_true inside), ?_⟩
    have sum : block * disk.blockSize.setWidth 64 + count * disk.blockSize.setWidth 64 =
        (block + count) * disk.blockSize.setWidth 64 := (BitVec.add_mul).symm
    unfold ramdiskRange
    dsimp only
    rw [sum, if_neg]
    rw [BitVec.lt_def, BitVec.toNat_mul, size]
    omega
  · rw [if_neg inside, check, decide_eq_false inside]

/-- A call on a ramdisk is confined exactly if the sum of block and count does not wrap to a number of blocks of the
ramdisk. -/
theorem blkTransfer_confined_iff {memory after : Memory} {area : Option (BitVec 64)} {size : BitVec 64}
    (created : blkRamdiskCreate memory area size = some (disk, after))
    (mapped : disk.data.toNat + disk.size.toNat ≤ 2 ^ 64) (present : buffer ≠ 0) (positive : count ≠ 0) :
    Confined disk block buffer count ↔
      (block.toNat + count.toNat < 2 ^ 64 ∨ disk.totalBlocks.toNat < block.toNat + count.toNat - 2 ^ 64) := by
  have fields := created_of_create created
  have checked := @Created.range_ok disk block buffer count fields present positive
  have sum : (block + count).toNat = (block.toNat + count.toNat) % 2 ^ 64 := BitVec.toNat_add block count
  have blockBound := block.isLt
  have countBound := count.isLt
  have total := fields.totalBlocks
  have sizeBound := disk.size.isLt
  by_cases inside : (block + count).toNat ≤ disk.totalBlocks.toNat
  · rw [if_pos inside] at checked
    have reads : blkRead disk block buffer count = .ok
        ⟨buffer, disk.data + block * disk.blockSize.setWidth 64, count * disk.blockSize.setWidth 64⟩ := by
      unfold blkRead ramdiskRead
      rw [checked.1, checked.2, if_neg (by decide)]
      rfl
    have writes : blkWrite disk block buffer count = .ok
        ⟨disk.data + block * disk.blockSize.setWidth 64, buffer, count * disk.blockSize.setWidth 64⟩ := by
      unfold blkWrite ramdiskWrite
      rw [checked.1, checked.2, if_neg (by decide), fields.readOnly, if_neg (by decide)]
      rfl
    constructor
    · intro confined
      have small := confined.1.mp ⟨_, reads⟩
      exact Or.inl (by omega)
    · intro condition
      have small : block.toNat + count.toNat ≤ disk.totalBlocks.toNat := by omega
      have disk4096 : (disk.blockSize.setWidth 64).toNat = 4096 := by
        rw [BitVec.toNat_setWidth, fields.blockSize]
      have positiveCount : 0 < count.toNat := by
        rw [Nat.pos_iff_ne_zero]
        exact fun zero => positive (BitVec.eq_of_toNat_eq zero)
      have within : InDisk disk (disk.data + block * disk.blockSize.setWidth 64)
          (count * disk.blockSize.setWidth 64) := by
        unfold InDisk
        rw [BitVec.toNat_add, BitVec.toNat_mul, BitVec.toNat_mul, disk4096]
        omega
      refine ⟨⟨fun _ => small, fun _ => ⟨_, reads⟩⟩, ⟨fun _ => small, fun _ => ⟨_, writes⟩⟩, ?_, ?_⟩
      · intro copy same
        rw [reads] at same
        cases same
        exact within
      · intro copy same
        rw [writes] at same
        cases same
        exact within
  · rw [if_neg inside] at checked
    have reads : blkRead disk block buffer count = .error .einval := by
      unfold blkRead
      rw [if_pos checked]
    have writes : blkWrite disk block buffer count = .error .einval := by
      unfold blkWrite
      rw [if_pos checked]
    have outside : ¬block.toNat + count.toNat ≤ disk.totalBlocks.toNat := by omega
    refine ⟨fun _ => by omega, fun _ => ?_⟩
    unfold Confined
    rw [reads, writes]
    have refused : ∀ copy : Copy, (.error .einval : Except BlkError Copy) ≠ .ok copy := fun _ wrong => nomatch wrong
    refine ⟨?_, ?_, fun copy wrong => absurd wrong (refused copy), fun copy wrong => absurd wrong (refused copy)⟩
    all_goals exact ⟨fun ⟨copy, wrong⟩ => absurd wrong (refused copy), fun small => absurd small outside⟩

/-- A ramdisk of two blocks. -/
def twoBlocks : Ramdisk where
  blockSize := blkSizeDefault
  totalBlocks := 2
  readOnly := false
  data := 0x100000
  size := 8192

theorem blkTransfer_confined_iff_of_two : Confined twoBlocks 1 0x200000 1 :=
  (@blkTransfer_confined_iff twoBlocks 1 0x200000 1 (fun _ => 0) (memset (fun _ => 0) 0x100000 0 8192)
    (some 0x100000) 8192 rfl (by decide) (by decide) (by decide)).mpr (Or.inl (by decide))

/-- A write of two blocks at the last block number succeeds and starts a block before the data. -/
theorem blkWrite_wraps :
    (blkRamdiskCreate (fun _ => 0) (some 0x100000) 8192).map Prod.fst = some twoBlocks ∧
    (blkWrite twoBlocks 0xFFFFFFFFFFFFFFFF 0x200000 2 |> fun
      | .ok copy => some (copy.target, copy.bytes)
      | .error _ => none) = some (0x100000 - 4096, 8192) := by
  exact ⟨rfl, by decide⟩

end Uesi.Blk
