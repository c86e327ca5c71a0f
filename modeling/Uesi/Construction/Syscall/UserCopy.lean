import Uesi.Construction.Syscall.Files

namespace Uesi.Syscall

open Library Pmm Mmu

/-- The address space of the current process, which is the active one. -/
def CallState.space (state : CallState) : Option PageDirectory := state.process.bind (·.vmspace)

/-- The entry of the page of a user address, where `none` stands for a page fault. -/
def userEntry (state : CallState) (addr : Nat) : Option (BitVec 64) :=
  match state.space with
  | none => none
  | some pd =>
      if 2 ^ 47 ≤ addr then none
      else
        match findTable state.mmu pd addr with
        | none => none
        | some pt =>
            if Present (state.mmu.entry pt (ptIndex addr)) then some (state.mmu.entry pt (ptIndex addr)) else none

/-- The kernel address of a user byte whose page has this entry. -/
def CallState.userByte (state : CallState) (addr : Nat) (entry : BitVec 64) : Nat :=
  state.direct (entryAddress entry + addr % pageSize)

/-- A load of a user byte. -/
def loadUser (state : CallState) (addr : Nat) : Option (BitVec 8) :=
  (userEntry state addr).map fun entry => state.mmu.memory (state.userByte addr entry)

def isUserMapped (state : CallState) (addr : Nat) : Bool :=
  match state.space with
  | none => false
  | some pd => decide (isUserAddress addr) && decide (mmuGetPhysicalAddress state.mmu pd addr ≠ 0)

/-- What a copy returns, where `none` stands for a page fault, and the user bytes that it touches. -/
structure Access (α : Type) where
  result : Option α
  touched : List Nat

/-- An answer without an access. -/
def Access.answer {α : Type} (value : α) : Access α := ⟨some value, []⟩

/-- The bytes that `memcpy` touches, up to the first one that faults. -/
def touchBytes (allowed : Nat → Bool) : List Nat → Access Unit
  | [] => .answer ()
  | addr :: rest =>
      if allowed addr then
        let later := touchBytes allowed rest
        ⟨later.result, addr :: later.touched⟩
      else ⟨none, [addr]⟩

/-- The addresses of a range. -/
def bytesFrom (addr length : Nat) : List Nat := (List.range length).map (addr + ·)

/-- The checks of `copyin` and `copyout`: the first byte of every `PAGE_SIZE` bytes and, if the length is no
multiple of `PAGE_SIZE`, the last byte are mapped. -/
def pagesMapped (state : CallState) (addr length : Nat) : Bool :=
  (List.range ((length + pageSize - 1) / pageSize)).all (fun index => isUserMapped state (addr + index * pageSize)) &&
    (length % pageSize == 0 || isUserMapped state (addr + length - 1))

/-- This is `copyin`, which returns the bytes that it stores at `kaddr`. -/
def copyin (state : CallState) (uaddr : Nat) (len : BitVec 64) : Access (Except Errno (List (BitVec 8))) :=
  if len.toNat = 0 then .answer (.ok [])
  else if Files.isUserRange uaddr len.toNat = false then .answer (.error .efault)
  else if state.space = none then .answer (.error .efault)
  else if pagesMapped state uaddr len.toNat = false then .answer (.error .efault)
  else
    let read := touchBytes (fun addr => (loadUser state addr).isSome) (bytesFrom uaddr len.toNat)
    ⟨read.result.map fun _ => .ok ((bytesFrom uaddr len.toNat).filterMap (loadUser state)), read.touched⟩

/-- A store to a user byte is allowed, where `wp` is the bit `CR0.WP`, which makes it fault on a page without
`PAGE_WRITE`. -/
def storeAllowed (state : CallState) (wp : Bool) (addr : Nat) : Bool :=
  match userEntry state addr with
  | none => false
  | some entry => !wp || entry &&& pageWrite ≠ 0

/-- The memory after `memcpy` to a user range. -/
def storeBytes (state : CallState) (uaddr : Nat) (source : Nat → BitVec 8) (length : Nat) : Memory :=
  countedLoop (fun index memory =>
    match userEntry state (uaddr + index) with
    | none => memory
    | some entry => Function.update memory (state.userByte (uaddr + index) entry) (source index))
    length state.mmu.memory

/-- This is `copyout` of the bytes at `kaddr`, which returns the memory after it. -/
def copyout (state : CallState) (wp : Bool) (source : Nat → BitVec 8) (uaddr : Nat) (len : BitVec 64) :
    Access (Except Errno Memory) :=
  if len.toNat = 0 then .answer (.ok state.mmu.memory)
  else if Files.isUserRange uaddr len.toNat = false then .answer (.error .efault)
  else if state.space = none then .answer (.error .efault)
  else if pagesMapped state uaddr len.toNat = false then .answer (.error .efault)
  else
    let written := touchBytes (storeAllowed state wp) (bytesFrom uaddr len.toNat)
    ⟨written.result.map fun _ => .ok (storeBytes state uaddr source len.toNat), written.touched⟩

/-- The loop of `copyinstr` and `validate_user_string`, which returns the bytes up to the terminator. -/
def scanString (state : CallState) (uaddr : Nat) : Nat → Nat → Access (Except Errno (List (BitVec 8)))
  | 0, _ => .answer (.error .enametoolong)
  | remaining + 1, copied =>
      -- The check stands at every `PAGE_SIZE` bytes of the string, not at the start of a page.
      if copied % pageSize = 0 ∧ isUserMapped state (uaddr + copied) = false then .answer (.error .efault)
      else
        match loadUser state (uaddr + copied) with
        | none => ⟨none, [uaddr + copied]⟩
        | some byte =>
            if byte = 0 then ⟨some (.ok []), [uaddr + copied]⟩
            else
              let later := scanString state uaddr remaining (copied + 1)
              ⟨later.result.map (·.map (byte :: ·)), (uaddr + copied) :: later.touched⟩

/-- This is `copyinstr`, which returns the string that it stores at `kaddr`. -/
def copyinstr (state : CallState) (uaddr maxlen : Nat) : Access (Except Errno (List (BitVec 8))) :=
  if maxlen = 0 then .answer (.error .enametoolong)
  else if ¬ isUserAddress uaddr then .answer (.error .efault)
  else if state.space = none then .answer (.error .efault)
  else scanString state uaddr maxlen 0

/-- This is `validate_user_string`, which returns the length of the string. -/
def validateUserString (state : CallState) (str maxlen : Nat) : Access (Except Errno Nat) :=
  if ¬ isUserAddress str then .answer (.error .efault)
  else if state.space = none then .answer (.error .efault)
  else
    let scan := scanString state str maxlen 0
    ⟨scan.result.map (·.map List.length), scan.touched⟩

end Uesi.Syscall
