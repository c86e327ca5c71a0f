import Mathlib.Tactic

namespace Uesi.Library

/-- Unsigned 64-bit addition wraps. -/
def add64 (a b : Nat) : Nat := (a + b) % 2 ^ 64

/-- Unsigned 64-bit subtraction wraps. -/
def sub64 (a b : Nat) : Nat := (a + (2 ^ 64 - b % 2 ^ 64)) % 2 ^ 64

/-- Masking with the complement of `size - 1` clears the offset inside a block. -/
def alignDown (size a : Nat) : Nat := a / size * size

/-- Rounding up adds `size - 1` in 64 bits and then clears the offset. -/
def alignUp64 (size a : Nat) : Nat := alignDown size (add64 a (size - 1))

theorem add64_lt (a b : Nat) : add64 a b < 2 ^ 64 := Nat.mod_lt _ (by decide)

theorem add64_of_lt {a b : Nat} (fits : a + b < 2 ^ 64) : add64 a b = a + b :=
  Nat.mod_eq_of_lt fits

/-- Wrapped additions combine before the wrap. -/
theorem add64_add64 (a b c : Nat) : add64 (add64 a b) c = add64 a (b + c) := by
  unfold add64
  omega

/-- Subtraction does not wrap when the result is a natural number. -/
theorem sub64_of_le {a b : Nat} (small : a < 2 ^ 64) (below : b ≤ a) : sub64 a b = a - b := by
  unfold sub64
  omega

/-- Subtraction undoes a wrapped addition of the same offset. -/
theorem sub64_add64 {a : Nat} (offset : Nat) (small : a < 2 ^ 64) : sub64 (add64 a offset) offset = a := by
  unfold sub64 add64
  omega

end Uesi.Library
