import Uesi.Construction.Heap
import Uesi.Proof.Pmm.Accounting

namespace Uesi.Heap

open Library Pmm

theorem isObjectFree_eq (slab : Slab) (index : Nat) :
    isObjectFree slab index = testBit slab.freeBitmap index := rfl

/-- A mask of `bits` ones has exactly the bits below `bits`. -/
theorem lowMask_getLsbD {bits : Nat} (index : Nat) (small : bits < 64) :
    ((1#64 <<< bits) - 1#64).getLsbD index = decide (index < bits) := by
  have value : ((1#64 <<< bits) - 1#64).toNat = 2 ^ bits - 1 := by
    have positive : 0 < 2 ^ bits := Nat.two_pow_pos bits
    have bounded : 2 ^ bits < 2 ^ 64 := Nat.pow_lt_pow_right (by decide) small
    rw [BitVec.toNat_sub, BitVec.toNat_shiftLeft]
    simp only [BitVec.toNat_ofNat, Nat.shiftLeft_eq]
    rw [Nat.mod_eq_of_lt (by decide : 1 < 2 ^ 64), Nat.one_mul, Nat.mod_eq_of_lt bounded]
    omega
  rw [← BitVec.testBit_toNat, value, Nat.testBit_two_pow_sub_one]

/-- Every object of a fresh slab is free. -/
theorem testBit_freshBitmap (objects : Nat) (old : Nat → BitVec 64) (index : Nat)
    (inside : index < objects) : testBit (freshBitmap objects old) index = true := by
  have place : index % 64 < 64 := Nat.mod_lt _ (by decide)
  have word : index / 64 < bitmapWords objects := by
    unfold bitmapWords
    omega
  have filled : (if index / 64 < bitmapWords objects then BitVec.allOnes 64
      else old (index / 64)).getLsbD (index % 64) = true := by
    rw [if_pos word, BitVec.getLsbD_allOnes]
    simpa using place
  rw [testBit_eq]
  unfold freshBitmap
  dsimp only
  split
  · rename_i extra
    by_cases last : index / 64 = bitmapWords objects - 1
    · rw [last, Function.update_self]
      unfold bitmapWords at *
      rw [if_neg (by omega), lowMask_getLsbD _ (by omega)]
      simp
      omega
    · rw [Function.update_of_ne last]
      exact filled
  · exact filled

theorem countBits_freshBitmap (objects : Nat) (old : Nat → BitVec 64) :
    countBits (freshBitmap objects old) objects = objects := by
  apply Nat.count_of_forall
  intro index inside
  exact testBit_freshBitmap objects old index inside

/-- The search inside one word returns a set bit of an object. -/
theorem findInWord_some {word : BitVec 64} {wordIndex objects index : Nat}
    (found : findInWord word wordIndex objects = some index) :
    index / 64 = wordIndex ∧ index < objects ∧ word.getLsbD (index % 64) = true := by
  obtain ⟨bit, member, value⟩ := List.exists_of_findSome?_eq_some found
  have small := List.mem_range.mp member
  split at value
  · rename_i set
    split at value
    · rename_i inside
      obtain rfl := Option.some.inj value
      have tested := and_shiftLeft_one_ne_zero word small
      refine ⟨by omega, inside, ?_⟩
      have place : (wordIndex * 64 + bit) % 64 = bit := by omega
      rw [place, ← tested]
      simpa using set
    · exact absurd value (by simp)
  · exact absurd value (by simp)

/-- The search inside one word misses no set bit of an object. -/
theorem findInWord_none {word : BitVec 64} {wordIndex objects : Nat}
    (missing : findInWord word wordIndex objects = none) (index : Nat)
    (place : index / 64 = wordIndex) (inside : index < objects) :
    word.getLsbD (index % 64) = false := by
  have small : index % 64 < 64 := Nat.mod_lt _ (by decide)
  have none := List.findSome?_eq_none_iff.mp missing (index % 64) (List.mem_range.mpr small)
  have rebuilt : wordIndex * 64 + index % 64 = index := by omega
  rw [← and_shiftLeft_one_ne_zero word small]
  by_contra set
  rw [Bool.not_eq_false] at set
  rw [if_pos (by simpa using set), if_pos (by omega)] at none
  exact absurd none (by simp)

/-- `slab_find_free` returns a free object. -/
theorem slabFindFree_some {slab : Slab} {cache : Cache} {index : Nat}
    (found : slabFindFree slab cache = some index) :
    index < cache.objectsPerSlab ∧ testBit slab.freeBitmap index = true := by
  obtain ⟨word, _, value⟩ := List.exists_of_findSome?_eq_some found
  split at value
  · obtain ⟨place, inside, set⟩ := findInWord_some value
    rw [testBit_eq, place]
    exact ⟨inside, set⟩
  · exact absurd value (by simp)

/-- `slab_find_free` fails only when no object is free. -/
theorem slabFindFree_none {slab : Slab} {cache : Cache} (missing : slabFindFree slab cache = none)
    (index : Nat) (inside : index < cache.objectsPerSlab) :
    testBit slab.freeBitmap index = false := by
  have word : index / 64 < bitmapWords cache.objectsPerSlab := by
    unfold bitmapWords
    omega
  have none := List.findSome?_eq_none_iff.mp missing (index / 64) (List.mem_range.mpr word)
  rw [testBit_eq]
  split at none
  · exact findInWord_none none index rfl inside
  · rename_i zero
    have empty : slab.freeBitmap (index / 64) = 0 := by simpa using zero
    rw [empty]
    simp

/-- A slab with a free object lets the search succeed. -/
theorem slabFindFree_of_countBits (slab : Slab) (cache : Cache)
    (positive : 0 < countBits slab.freeBitmap cache.objectsPerSlab) :
    ∃ index, slabFindFree slab cache = some index ∧ index < cache.objectsPerSlab ∧
      testBit slab.freeBitmap index = true := by
  cases search : slabFindFree slab cache with
  | some index => exact ⟨index, rfl, slabFindFree_some search⟩
  | none =>
      exfalso
      have zero : countBits slab.freeBitmap cache.objectsPerSlab = 0 := by
        apply Nat.count_of_forall_not
        intro index inside
        simp [slabFindFree_none search index inside]
      omega

@[simp] theorem slabMarkAllocated_objects (record : Slab) (place : Nat) :
    (slabMarkAllocated record place).objects = record.objects := by
  unfold slabMarkAllocated
  rfl

@[simp] theorem slabMarkAllocated_totalCount (record : Slab) (place : Nat) :
    (slabMarkAllocated record place).totalCount = record.totalCount := by
  unfold slabMarkAllocated
  rfl

/-- Marking a free object as allocated lowers the counted free objects by one. -/
theorem slabMarkAllocated_counted {record : Slab} {count place : Nat} (bounded : count < 2 ^ 32)
    (inside : place < count) (free : testBit record.freeBitmap place = true)
    (counted : record.freeCount = countBits record.freeBitmap count) :
    (slabMarkAllocated record place).freeCount =
        countBits (slabMarkAllocated record place).freeBitmap count ∧
      (slabMarkAllocated record place).freeCount + 1 = record.freeCount := by
  -- The fields are split first, so that no proof compares a decremented count with the count itself.
  obtain ⟨objects, freeCount, totalCount, freeBitmap⟩ := record
  have known : freeCount = countBits freeBitmap count := counted
  have lowered : countBits freeBitmap count = countBits (clearBit freeBitmap place) count + 1 :=
    countBits_clearBit inside free
  have most : countBits freeBitmap count ≤ count := Nat.count_le _
  have value : (freeCount + (2 ^ 32 - 1)) % 2 ^ 32 = freeCount - 1 := by omega
  constructor
  · change (freeCount + (2 ^ 32 - 1)) % 2 ^ 32 = countBits (clearBit freeBitmap place) _
    omega
  · change (freeCount + (2 ^ 32 - 1)) % 2 ^ 32 + 1 = freeCount
    omega

/-- Marking an allocated object as free raises the counted free objects by one. -/
theorem slabMarkFree_counted {record : Slab} {count place : Nat} (bounded : count < 2 ^ 32)
    (inside : place < count) (allocated : testBit record.freeBitmap place = false)
    (counted : record.freeCount = countBits record.freeBitmap count) :
    (slabMarkFree record place).freeCount = countBits (slabMarkFree record place).freeBitmap count ∧
      (slabMarkFree record place).freeCount = record.freeCount + 1 := by
  obtain ⟨objects, freeCount, totalCount, freeBitmap⟩ := record
  have known : freeCount = countBits freeBitmap count := counted
  have raised : countBits (setBit freeBitmap place) count = countBits freeBitmap count + 1 :=
    countBits_setBit inside allocated
  have most : countBits (setBit freeBitmap place) count ≤ count := Nat.count_le _
  constructor
  · change (freeCount + 1) % 2 ^ 32 = countBits (setBit freeBitmap place) _
    omega
  · change (freeCount + 1) % 2 ^ 32 = freeCount + 1
    omega

/-- The object size of a cache. -/
def classSize (index : Nat) : Nat := cacheSizes.getD index 0

/-- The number of objects in each slab of a cache. -/
def classCount (index : Nat) : Nat := calculateObjectsPerSlab (classSize index) (classSize index)

/-- The offset of the first object in each slab of a cache. -/
def classHeader (index : Nat) : Nat := alignedHeader (cacheInit (classSize index) (classSize index))

/-- In the eight caches up to 2048 bytes, the header, the bitmap and all objects fit into a page. -/
theorem class_layout (index : Nat) (small : index < 8) :
    0 < classSize index ∧ 0 < classCount index ∧ classCount index < 2 ^ 32 ∧
      slabHeaderSize + bitmapWords (classCount index) * 8 ≤ classHeader index ∧
      classHeader index + classCount index * classSize index ≤ pageSize := by
  interval_cases index <;> decide +kernel

end Uesi.Heap
