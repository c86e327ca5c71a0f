import Uesi.Library.Counting

namespace Uesi.Library

section Word

variable {w : Nat}

/-- Inside one word, a shifted one has a single bit. -/
theorem getLsbD_shiftLeft_one {index other : Nat} (inside : index < w) (otherInside : other < w) :
    (1#w <<< index).getLsbD other = decide (other = index) := by
  simp only [BitVec.getLsbD_shiftLeft, BitVec.getLsbD_one]
  by_cases same : other = index
  · subst same
    simp [inside]
    omega
  · simp [same]
    omega

/-- A mask with one bit tests that bit. -/
theorem and_shiftLeft_one_ne_zero (word : BitVec w) {index : Nat} (inside : index < w) :
    ((word &&& (1#w <<< index)) != 0#w) = word.getLsbD index := by
  rw [Bool.eq_iff_iff, bne_iff_ne, ne_eq, ← not_iff_not, not_not, BitVec.eq_of_getLsbD_eq_iff]
  constructor
  · intro equal
    have value := equal index inside
    rw [BitVec.getLsbD_and, getLsbD_shiftLeft_one inside inside] at value
    simpa using value
  · intro clear other otherInside
    rw [BitVec.getLsbD_and, getLsbD_shiftLeft_one inside otherInside, BitVec.getLsbD_zero]
    by_cases same : other = index
    · subst same
      simpa using clear
    · simp [same]

end Word

/-- A bitmap is a sequence of words, and bit `index` lies in word `index / w`. -/
def testBit {w : Nat} (words : Nat → BitVec w) (index : Nat) : Bool :=
  (words (index / w) &&& (1#w <<< (index % w))) != 0#w

/-- This sets one bit of a bitmap. -/
def setBit {w : Nat} (words : Nat → BitVec w) (index : Nat) : Nat → BitVec w :=
  Function.update words (index / w) (words (index / w) ||| (1#w <<< (index % w)))

/-- This clears one bit of a bitmap. -/
def clearBit {w : Nat} (words : Nat → BitVec w) (index : Nat) : Nat → BitVec w :=
  Function.update words (index / w) (words (index / w) &&& ~~~(1#w <<< (index % w)))

/-- Two indices of one word have the same place only if they are equal. -/
theorem mod_eq_iff {w : Nat} (index other : Nat) (sameWord : other / w = index / w) :
    decide (other % w = index % w) = decide (other = index) := by
  rw [decide_eq_decide]
  constructor
  · intro sameBit
    rw [← Nat.div_add_mod other w, ← Nat.div_add_mod index w, sameWord, sameBit]
  · rintro rfl
    rfl

section Bitmap

variable {w : Nat} [NeZero w] (words : Nat → BitVec w) (index other : Nat)

/-- A test reads one bit of the word that holds it. -/
theorem testBit_eq : testBit words index = (words (index / w)).getLsbD (index % w) :=
  and_shiftLeft_one_ne_zero _ (Nat.mod_lt _ (NeZero.pos w))

/-- Setting a bit changes only the test of its own index. -/
theorem testBit_setBit : testBit (setBit words index) other = (decide (other = index) || testBit words other) := by
  rw [testBit_eq, testBit_eq, setBit]
  by_cases sameWord : other / w = index / w
  · rw [sameWord, Function.update_self, BitVec.getLsbD_or,
      getLsbD_shiftLeft_one (Nat.mod_lt _ (NeZero.pos w)) (Nat.mod_lt _ (NeZero.pos w)),
      mod_eq_iff index other sameWord, Bool.or_comm]
  · have different : other ≠ index := fun equal => sameWord (by rw [equal])
    rw [Function.update_of_ne sameWord]
    simp [different]

/-- Clearing a bit changes only the test of its own index. -/
theorem testBit_clearBit :
    testBit (clearBit words index) other = (!decide (other = index) && testBit words other) := by
  have place : other % w < w := Nat.mod_lt _ (NeZero.pos w)
  rw [testBit_eq, testBit_eq, clearBit]
  by_cases sameWord : other / w = index / w
  · rw [sameWord, Function.update_self, BitVec.getLsbD_and, BitVec.getLsbD_not,
      getLsbD_shiftLeft_one (Nat.mod_lt _ (NeZero.pos w)) place, mod_eq_iff index other sameWord,
      Bool.and_comm]
    simp [place]
  · have different : other ≠ index := fun equal => sameWord (by rw [equal])
    rw [Function.update_of_ne sameWord]
    simp [different]

/-- The number of set bits below a bound. -/
def countBits (bound : Nat) : Nat := Nat.count (fun place => testBit words place = true) bound

variable {words index}

/-- Clearing a set bit below the bound lowers the number of set bits by one. -/
theorem countBits_clearBit {bound : Nat} (inside : index < bound) (set : testBit words index = true) :
    countBits words bound = countBits (clearBit words index) bound + 1 := by
  apply count_insert index inside
  · simp [testBit_clearBit]
  · intro place
    rw [testBit_clearBit]
    by_cases same : place = index
    · simp [same, set]
    · simp [same]

/-- Setting a clear bit below the bound raises the number of set bits by one. -/
theorem countBits_setBit {bound : Nat} (inside : index < bound) (clear : testBit words index = false) :
    countBits (setBit words index) bound = countBits words bound + 1 := by
  apply count_insert index inside
  · simp [clear]
  · intro place
    rw [testBit_setBit]
    simp

end Bitmap

end Uesi.Library
