import Mathlib.Tactic

namespace Uesi.Library

/-- The contents of an address space, byte by byte. -/
abbrev Memory : Type := Nat → BitVec 8

/-- A load of eight bytes in little-endian order. -/
def load64 (memory : Memory) (address : Nat) : BitVec 64 :=
  memory (address + 7) ++ memory (address + 6) ++ memory (address + 5) ++ memory (address + 4) ++
    memory (address + 3) ++ memory (address + 2) ++ memory (address + 1) ++ memory address

/-- A store of eight bytes in little-endian order. -/
def store64 (memory : Memory) (address : Nat) (value : BitVec 64) : Memory := fun other =>
  if address ≤ other ∧ other < address + 8 then value.extractLsb' (8 * (other - address)) 8
  else memory other

/-- A load of two bytes in little-endian order. -/
def load16 (memory : Memory) (address : Nat) : BitVec 16 := memory (address + 1) ++ memory address

/-- A store of two bytes in little-endian order. -/
def store16 (memory : Memory) (address : Nat) (value : BitVec 16) : Memory := fun other =>
  if address ≤ other ∧ other < address + 2 then value.extractLsb' (8 * (other - address)) 8
  else memory other

def memset (memory : Memory) (start : Nat) (value : BitVec 8) (count : Nat) : Memory := fun address =>
  if start ≤ address ∧ address < start + count then value else memory address

/-- This is `memcpy` from a source that is given by its bytes. -/
def memcpy (memory : Memory) (start : Nat) (source : Nat → BitVec 8) (count : Nat) : Memory :=
  fun address =>
    if start ≤ address ∧ address < start + count then source (address - start) else memory address

variable {memory : Memory}

/-- A load depends on its eight bytes only. -/
theorem load64_congr {first second : Memory} {address : Nat}
    (same : ∀ offset, offset < 8 → first (address + offset) = second (address + offset)) :
    load64 first address = load64 second address := by
  have zero := same 0 (by omega)
  simp only [Nat.add_zero] at zero
  simp only [load64, zero, same 1 (by omega), same 2 (by omega), same 3 (by omega), same 4 (by omega),
    same 5 (by omega), same 6 (by omega), same 7 (by omega)]

theorem store64_of_outside (value : BitVec 64) {address other : Nat}
    (outside : other < address ∨ address + 8 ≤ other) :
    store64 memory address value other = memory other :=
  if_neg (by omega)

/-- A load depends on its two bytes only. -/
theorem load16_congr {first second : Memory} {address : Nat}
    (same : ∀ offset, offset < 2 → first (address + offset) = second (address + offset)) :
    load16 first address = load16 second address := by
  have zero := same 0 (by omega)
  simp only [Nat.add_zero] at zero
  simp only [load16, zero, same 1 (by omega)]

theorem store16_of_outside (value : BitVec 16) {address other : Nat}
    (outside : other < address ∨ address + 2 ≤ other) :
    store16 memory address value other = memory other :=
  if_neg (by omega)

theorem memcpy_of_outside (source : Nat → BitVec 8) {start count address : Nat}
    (outside : address < start ∨ start + count ≤ address) :
    memcpy memory start source count address = memory address :=
  if_neg (by omega)

theorem memcpy_of_inside (source : Nat → BitVec 8) {start count offset : Nat} (inside : offset < count) :
    memcpy memory start source count (start + offset) = source offset := by
  rw [memcpy, if_pos (by omega), Nat.add_sub_cancel_left]

theorem memset_of_outside (value : BitVec 8) {start count address : Nat}
    (outside : address < start ∨ start + count ≤ address) :
    memset memory start value count address = memory address :=
  if_neg (by omega)

theorem memset_of_inside (value : BitVec 8) {start count address : Nat} (low : start ≤ address)
    (high : address < start + count) : memset memory start value count address = value :=
  if_pos ⟨low, high⟩

/-- A load returns the value of a store to the same address. -/
@[simp] theorem load64_store64_self (memory : Memory) (address : Nat) (value : BitVec 64) :
    load64 (store64 memory address value) address = value := by
  have byte : ∀ offset, offset < 8 → store64 memory address value (address + offset) =
      value.extractLsb' (8 * offset) 8 := by
    intro offset inside
    rw [store64, if_pos (by omega), Nat.add_sub_cancel_left]
  have zero := byte 0 (by omega)
  simp only [Nat.add_zero] at zero
  simp only [load64, zero, byte 1 (by omega), byte 2 (by omega), byte 3 (by omega), byte 4 (by omega),
    byte 5 (by omega), byte 6 (by omega), byte 7 (by omega)]
  -- Neighbouring bytes join to a longer slice, seven times from the top.
  iterate 7 rw [BitVec.extractLsb'_append_extractLsb'_eq_extractLsb' (by omega)]
  exact BitVec.extractLsb'_eq_self

/-- A load of two bytes returns the value of a store to the same address. -/
@[simp] theorem load16_store16_self (memory : Memory) (address : Nat) (value : BitVec 16) :
    load16 (store16 memory address value) address = value := by
  have byte : ∀ offset, offset < 2 → store16 memory address value (address + offset) =
      value.extractLsb' (8 * offset) 8 := by
    intro offset inside
    rw [store16, if_pos (by omega), Nat.add_sub_cancel_left]
  have zero := byte 0 (by omega)
  simp only [Nat.add_zero] at zero
  simp only [load16, zero, byte 1 (by omega)]
  rw [BitVec.extractLsb'_append_extractLsb'_eq_extractLsb' (by omega)]
  exact BitVec.extractLsb'_eq_self

/-- A load from eight other bytes does not see a store. -/
theorem load64_store64_of_apart (value : BitVec 64) {address other : Nat}
    (apart : other + 8 ≤ address ∨ address + 8 ≤ other) :
    load64 (store64 memory address value) other = load64 memory other :=
  load64_congr fun _ _ => store64_of_outside value (by omega)

theorem load64_memset_of_apart (value : BitVec 8) {start count address : Nat}
    (apart : address + 8 ≤ start ∨ start + count ≤ address) :
    load64 (memset memory start value count) address = load64 memory address :=
  load64_congr fun _ _ => memset_of_outside value (by omega)

/-- A load from cleared memory returns zero. -/
theorem load64_memset_zero {start count address : Nat} (low : start ≤ address)
    (high : address + 8 ≤ start + count) : load64 (memset memory start 0 count) address = 0 := by
  have byte : ∀ offset, offset < 8 → memset memory start 0 count (address + offset) = 0 :=
    fun offset _ => memset_of_inside 0 (by omega) (by omega)
  have zero := byte 0 (by omega)
  simp only [Nat.add_zero] at zero
  simp only [load64, zero, byte 1 (by omega), byte 2 (by omega), byte 3 (by omega), byte 4 (by omega),
    byte 5 (by omega), byte 6 (by omega), byte 7 (by omega)]
  decide

end Uesi.Library
