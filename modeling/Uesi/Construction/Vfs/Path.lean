import Uesi.Construction.Errno
import Mathlib.Tactic

namespace Uesi.Vfs

/-- A C string is the list of the bytes before its terminator. -/
abbrev Str := List UInt8

/-- This is the byte `'/'`. -/
def slash : UInt8 := 0x2F

/-- This is the byte `'.'`. -/
def dot : UInt8 := 0x2E

def vfsMaxPath : Nat := 4096

/-- A path routine stops early with an error number, or with a store outside of its buffer. -/
inductive Halt where
  | errno (code : Errno)
  | outOfBounds
  deriving DecidableEq, Repr

/-- The output buffer of `vfs_normalize_path` with the index of `dst` in it. -/
structure Writer where
  bytes : Nat → UInt8
  dst : Nat

/-- The bytes that lie before `dst`. -/
def Writer.text (out : Writer) : Str := (List.range out.dst).map out.bytes

/-- This is `*dst = byte` into an array of `VFS_MAX_PATH` bytes. -/
def Writer.put (out : Writer) (byte : UInt8) : Except Halt Writer :=
  if out.dst < vfsMaxPath then .ok { out with bytes := Function.update out.bytes out.dst byte }
  else .error .outOfBounds

/-- This is `*dst++ = byte`. -/
def Writer.store (out : Writer) (byte : UInt8) : Except Halt Writer := do
  let out ← out.put byte
  return { out with dst := out.dst + 1 }

/-- This is `memcpy(dst, source, length)` with the advance of `dst`. -/
def Writer.storeAll : Writer → Str → Except Halt Writer
  | out, [] => .ok out
  | out, byte :: rest => do (← out.store byte).storeAll rest

/-- The inner loop of the `..` branch moves back until the byte before `dst` is a slash. -/
def rewind (bytes : Nat → UInt8) : Nat → Nat
  | 0 => 0
  | index + 1 => if bytes index = slash then index + 1 else rewind bytes index

/-- The body of the main loop writes one component. -/
def normalizeComponent (component : Str) (out : Writer) : Except Halt Writer :=
  if component = [dot] then .ok out
  else if component = [dot, dot] then
    if 1 < out.dst then .ok { out with dst := rewind out.bytes (out.dst - 1) } else .ok out
  else do
    let out ← if 1 < out.dst then out.store slash else .ok out
    if vfsMaxPath ≤ out.dst + component.length then .error (.errno .enametoolong)
    else out.storeAll component

/-- The bytes after the first component of a string that does not start with a slash. -/
theorem dropComponent_lt (src : Str) (byte : UInt8) (rest : Str)
    (found : src.dropWhile (· == slash) = byte :: rest) :
    ((byte :: rest).dropWhile (· != slash)).length < src.length := by
  have head : (byte == slash) = false := by
    have first := List.head_dropWhile_not (· == slash) (l := src) (by rw [found]; simp)
    simpa [found] using first
  have shorter : (byte :: rest).length ≤ src.length := by
    rw [← found]
    exact (List.dropWhile_sublist _).length_le
  have dropped : (byte :: rest).dropWhile (· != slash) = rest.dropWhile (· != slash) := by
    simp [head, bne]
  have tail : (rest.dropWhile (· != slash)).length ≤ rest.length :=
    (List.dropWhile_sublist _).length_le
  rw [dropped]
  simp only [List.length_cons] at shorter
  omega

/-- The main loop of `vfs_normalize_path`. -/
def normalizeLoop (src : Str) (out : Writer) : Except Halt Writer :=
  match found : src.dropWhile (· == slash) with
  | [] => .ok out
  | byte :: rest => do
      let out ← normalizeComponent ((byte :: rest).takeWhile (· != slash)) out
      normalizeLoop ((byte :: rest).dropWhile (· != slash)) out
termination_by src.length
decreasing_by exact dropComponent_lt src byte rest found

def vfsIsAbsolutePath : Option Str → Bool
  | some (first :: _) => first == slash
  | _ => false

/-- This is `vfs_normalize_path`, where `none` stands for a null pointer. -/
def vfsNormalizePath (path : Option Str) (normalized : Option (Nat → UInt8)) :
    Except Halt Writer :=
  match path, normalized with
  | some path, some bytes =>
      if vfsIsAbsolutePath (some path) = false then .error (.errno .einval)
      else if vfsMaxPath ≤ path.length then .error (.errno .enametoolong)
      else do
        let out ← Writer.store ⟨bytes, 0⟩ slash
        let out ← normalizeLoop path out
        let out ← if out.dst = 0 then out.store slash else .ok out
        let out := if 1 < out.dst ∧ out.bytes (out.dst - 1) = slash then
          { out with dst := out.dst - 1 } else out
        out.put 0
  | _, _ => .error (.errno .einval)

end Uesi.Vfs
