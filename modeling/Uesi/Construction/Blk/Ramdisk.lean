import Uesi.Construction.Blk
import Uesi.Library.Memory

namespace Uesi.Blk

open Library

/-- The fields of the `blk_device_t` of a ramdisk that are read, with its `ramdisk_data_t`. -/
structure Ramdisk where
  blockSize : BitVec 32
  totalBlocks : BitVec 64
  readOnly : Bool
  data : BitVec 64
  size : BitVec 64

def blkSizeDefault : BitVec 32 := 4096

/-- This is `blk_ramdisk_create`, with the area that `kmalloc` returns for the data. -/
def blkRamdiskCreate (memory : Memory) (area : Option (BitVec 64)) (sizeBytes : BitVec 64) :
    Option (Ramdisk × Memory) :=
  match area with
  | none => none
  | some data => some ({
      blockSize := blkSizeDefault
      totalBlocks := sizeBytes / blkSizeDefault.setWidth 64
      readOnly := false
      data := data
      size := sizeBytes }, memset memory data.toNat 0 sizeBytes.toNat)

/-- A call of `memcpy`. -/
structure Copy where
  target : BitVec 64
  source : BitVec 64
  bytes : BitVec 64

/-- The checks of `ramdisk_read` and `ramdisk_write`, with the offset and the number of bytes. -/
def ramdiskRange (disk : Ramdisk) (block count : BitVec 64) : Except BlkError (BitVec 64 × BitVec 64) :=
  let offset := block * disk.blockSize.setWidth 64
  let bytes := count * disk.blockSize.setWidth 64
  if disk.size < offset + bytes then .error .einval else .ok (offset, bytes)

/-- This is `ramdisk_read` up to the copy. -/
def ramdiskRead (disk : Ramdisk) (block buffer count : BitVec 64) : Except BlkError Copy :=
  (ramdiskRange disk block count).map fun (offset, bytes) => ⟨buffer, disk.data + offset, bytes⟩

/-- This is `ramdisk_write` up to the copy. -/
def ramdiskWrite (disk : Ramdisk) (block buffer count : BitVec 64) : Except BlkError Copy :=
  (ramdiskRange disk block count).map fun (offset, bytes) => ⟨disk.data + offset, buffer, bytes⟩

/-- The checks that start `blk_read` and `blk_write`. -/
def blkRangeCheck (disk : Ramdisk) (block buffer count : BitVec 64) : Bool :=
  buffer != 0 && count != 0 && !decide (disk.totalBlocks < block + count)

/-- This is `blk_read` for a ramdisk. -/
def blkRead (disk : Ramdisk) (block buffer count : BitVec 64) : Except BlkError Copy :=
  if blkRangeCheck disk block buffer count = false then .error .einval
  else ramdiskRead disk block buffer count

/-- This is `blk_write` for a ramdisk. -/
def blkWrite (disk : Ramdisk) (block buffer count : BitVec 64) : Except BlkError Copy :=
  if blkRangeCheck disk block buffer count = false then .error .einval
  else if disk.readOnly then .error .erofs
  else ramdiskWrite disk block buffer count

end Uesi.Blk
