import Uesi.Construction.Syscall.Openat
import Uesi.Proof.Vfs.Errors
import Uesi.Proof.Syscall.Access
import Uesi.Proof.Syscall.UserCopy

namespace Uesi.Files

open Library Vfs
open Syscall (CallState isUserAddress isUserMapped loadUser validateUserString copyinstr scanString)

/-- The bytes of a string and its terminator stand in mapped user memory. -/
structure UserString (state : CallState) (address : Nat) (text : Str) : Prop where
  ends : 0 ∉ text
  mapped : ∀ index ≤ text.length, isUserMapped state (address + index) = true
  bytes : ∀ index ≤ text.length, loadUser state (address + index) = some (text.getD index 0).toBitVec

variable {state : CallState} {address : Nat} {text : Str} {fuel pid : Nat} {flags mode : BitVec 32}

theorem scanString_eq {copied remaining : Nat} (ends : 0 ∉ text) (room : text.length < remaining)
    (mapped : ∀ index ≤ text.length, isUserMapped state (address + copied + index) = true)
    (bytes : ∀ index ≤ text.length,
      loadUser state (address + copied + index) = some (text.getD index 0).toBitVec) :
    (scanString state address remaining copied).result = some (.ok (text.map UInt8.toBitVec)) := by
  induction text generalizing copied remaining with
  | nil =>
      obtain ⟨rest, rfl⟩ : ∃ rest, remaining = rest + 1 := ⟨remaining - 1, by simp at room; omega⟩
      have here : loadUser state (address + copied) = some 0#8 := bytes 0 le_rfl
      have checked : ¬ (copied % Pmm.pageSize = 0 ∧ isUserMapped state (address + copied) = false) := by
        rw [show isUserMapped state (address + copied) = true from mapped 0 le_rfl]
        simp
      rw [scanString, if_neg checked, here]
      rfl
  | cons head tail ih =>
      obtain ⟨rest, rfl⟩ : ∃ rest, remaining = rest + 1 := ⟨remaining - 1, by omega⟩
      rw [List.length_cons] at room
      have here : loadUser state (address + copied) = some head.toBitVec := bytes 0 (Nat.zero_le _)
      have checked : ¬ (copied % Pmm.pageSize = 0 ∧ isUserMapped state (address + copied) = false) := by
        rw [show isUserMapped state (address + copied) = true from mapped 0 (Nat.zero_le _)]
        simp
      have goes : ¬ head.toBitVec = 0 := fun zero =>
        ends (by rw [show head = 0 from UInt8.toBitVec_inj.mp zero]; exact List.mem_cons_self)
      have next : ∀ index, address + (copied + 1) + index = address + copied + (index + 1) := by
        intro index
        omega
      have later : (scanString state address rest (copied + 1)).result = some (.ok (tail.map UInt8.toBitVec)) :=
        ih (fun member => ends (List.mem_cons_of_mem _ member)) (by omega)
          (fun index small => by rw [next]; exact mapped (index + 1) (by rw [List.length_cons]; omega))
          fun index small => by rw [next]; exact bytes (index + 1) (by rw [List.length_cons]; omega)
      rw [scanString, if_neg checked, here]
      dsimp only
      rw [if_neg goes]
      dsimp only
      rw [later]
      rfl

theorem UserString.space (string : UserString state address text) :
    isUserAddress address ∧ state.space ≠ none ∧ ∃ process, state.process = some process := by
  have first := string.mapped 0 (Nat.zero_le _)
  rw [Nat.add_zero] at first
  unfold isUserMapped at first
  cases found : state.space with
  | none =>
      rw [found] at first
      cases first
  | some pd =>
      rw [found, Bool.and_eq_true, decide_eq_true_eq] at first
      refine ⟨first.1, nofun, ?_⟩
      unfold CallState.space at found
      cases running : state.process with
      | none =>
          rw [running] at found
          cases found
      | some process => exact ⟨process, rfl⟩

/-- The calls find a string that stands in user memory. -/
theorem UserString.userPath (string : UserString state address text) (short : text.length < vfsMaxPath) :
    userPath state address = some (.ok text) := by
  obtain ⟨user, space, -⟩ := string.space
  have scanned : (scanString state address vfsMaxPath 0).result = some (.ok (text.map UInt8.toBitVec)) :=
    scanString_eq string.ends short string.mapped string.bytes
  have valid : (validateUserString state address vfsMaxPath).result = some (.ok text.length) := by
    rw [validateUserString, if_neg (not_not.mpr user), if_neg space]
    dsimp only
    rw [scanned]
    exact congrArg (some ∘ Except.ok) (List.length_map _)
  have copied : (copyinstr state address vfsMaxPath).result = some (.ok (text.map UInt8.toBitVec)) := by
    rw [copyinstr, if_neg (by decide), if_neg (not_not.mpr user), if_neg space, scanned]
  unfold Files.userPath
  rw [valid, copied]
  dsimp only
  split_ifs with none
  · rw [List.length_eq_zero_iff.mp none]
  · have back : (text.map UInt8.toBitVec).map UInt8.ofBitVec = text := by
      rw [List.map_map]
      exact List.map_id _
    exact congrArg (some ∘ Except.ok) back

/-- `sys_open` refuses a path outside the user half. -/
theorem sysOpenPath_of_kernel {process : Syscall.Process} (running : state.process = some process)
    (outside : ¬ isUserAddress address) (kernel : Kernel) :
    sysOpenPath fuel pid state address flags mode kernel = .ok (.error .efault) kernel := by
  have refused : userPath state address = some (.error .efault) := by
    unfold userPath validateUserString
    rw [if_pos outside]
    rfl
  unfold sysOpenPath
  rw [running, refused]
  rfl

theorem fdAlloc_spares (pid : Nat) (minfd : Int) (file : FileId) (fdFlags : Nat) :
    Spares (fdAlloc pid minfd file fdFlags) := by
  unfold fdAlloc
  cases slotOf minfd with
  | none => exact Spares.pure nofun
  | some first =>
      refine Spares.seq _ fun process => ?_
      cases findSlot process.fdTable (List.range' first (maxOpenFiles - first)) with
      | none => exact Spares.pure nofun
      | some slot => exact Spares.seq _ fun _ => Spares.ok slot

/-- `sys_open` answers `EFAULT` only when it cannot read the path. -/
theorem sysOpen_spares (path : Str) : Spares (sysOpen fuel pid (.ok path) flags mode) := by
  have opened : Spares (vfsOpen fuel path flags mode) := by
    have inside : Spares (onVfs (Vfs.vfsOpen fuel path flags mode)) := by
      intro kernel
      rw [post_onVfs]
      exact Vfs.vfsOpen_spares fuel path flags mode kernel.vfs
    refine Spares.relay inside fun answer fine => ?_
    cases answer with
    | error code => exact Spares.pure fine.error
    | ok vnode => exact Spares.seq _ fun _ => Spares.seq _ fun _ => Spares.seq _ fun _ => Spares.ok _
  refine Spares.ite (Spares.pure nofun) (Spares.relay opened fun answer fine => ?_)
  cases answer with
  | error code => exact Spares.pure fine.error
  | ok id =>
      refine Spares.relay (fdAlloc_spares _ _ _ _) fun answer fine => ?_
      cases answer with
      | ok fd => exact Spares.ok fd
      | error code => exact Spares.seq _ fun _ => Spares.pure fine.error

theorem UserString.sysOpenPath_ne (string : UserString state address text) (short : text.length < vfsMaxPath)
    (kernel next : Kernel) : sysOpenPath fuel pid state address flags mode kernel ≠ .ok (.error .efault) next := by
  obtain ⟨-, -, process, running⟩ := string.space
  intro wrong
  unfold sysOpenPath at wrong
  rw [running, string.userPath short] at wrong
  exact (sysOpen_spares text kernel).apply wrong rfl

/-- For every path in user memory, `sys_openat` with a buffer on the kernel stack never does what `sys_open` does. -/
theorem sysOpenat_never_opens (fuel pid : Nat) (state : CallState) (frame : OpenatFrame) (flags mode : BitVec 32)
    (kernel : Kernel) (kpath : ¬ isUserAddress frame.kpath) (absPath : ¬ isUserAddress frame.absPath)
    (pathname : Nat) (path : Str) (string : UserString state pathname path) (short : path.length < vfsMaxPath - 1) :
    (path.head? = some slash → ∀ dirfd,
      sysOpenat fuel pid state frame dirfd pathname flags mode kernel ≠
        sysOpenPath fuel pid state pathname flags mode kernel) ∧
    (path ≠ [] → path.head? ≠ some slash → ∀ address, UserString state address (slash :: path) →
      sysOpenat fuel pid state frame atFdcwd pathname flags mode kernel ≠
        sysOpenPath fuel pid state address flags mode kernel) := by
  obtain ⟨-, -, process, running⟩ := string.space
  have size : vfsMaxPath = 4096 := rfl
  have found := string.userPath (by omega)
  constructor
  · intro absolute dirfd same
    have some_ : path ≠ [] := by
      rintro rfl
      cases absolute
    have refused : sysOpenat fuel pid state frame dirfd pathname flags mode kernel = .ok (.error .efault) kernel := by
      unfold sysOpenat
      rw [running, found]
      dsimp only
      rw [if_neg some_, if_pos absolute]
      exact sysOpenPath_of_kernel running kpath kernel
    rw [refused] at same
    exact string.sysOpenPath_ne (by omega) kernel kernel same.symm
  · intro some_ relative address absolute same
    have refused : sysOpenat fuel pid state frame atFdcwd pathname flags mode kernel = .ok (.error .efault) kernel := by
      unfold sysOpenat
      rw [running, found]
      dsimp only
      rw [if_neg some_, if_neg relative, if_pos rfl, if_neg (by omega)]
      exact sysOpenPath_of_kernel running absPath kernel
    rw [refused] at same
    exact absolute.sysOpenPath_ne (by rw [List.length_cons]; omega) kernel kernel same.symm

/-- The process after it stored the path `/` at the start of its only page. -/
def slashPage : CallState :=
  (Syscall.onePage Syscall.protWrite).setMmu { (Syscall.onePage Syscall.protWrite).mmu with
    memory := Syscall.storeBytes (Syscall.onePage Syscall.protWrite) 0x400000 (fun _ => 47) 1 }

/-- The buffers of `sys_openat` on a kernel stack in the higher half. -/
def stackFrame : OpenatFrame := ⟨0xFFFF800000100000, 0xFFFF800000102000⟩

/-- `sys_openat` of `/` differs from `sys_open` of `/`. -/
theorem sysOpenat_never_opens_root :
    sysOpenat 1 1 slashPage stackFrame 5 0x400000 0 0 newKernel ≠ sysOpenPath 1 1 slashPage 0x400000 0 0 newKernel :=
  (sysOpenat_never_opens 1 1 slashPage stackFrame 0 0 newKernel (by decide) (by decide) 0x400000 [47]
    ⟨by decide, by decide +kernel, by decide +kernel⟩ (by decide)).1 rfl 5

/-- The root directory is opened as descriptor 3 by `sys_open`, and `sys_openat` fails with `EFAULT`. -/
theorem sysOpenat_refuses_root :
    answerOf (sysOpenPath 1 1 slashPage 0x400000 0 0) newKernel = some (.ok 3) ∧
      answerOf (sysOpenat 1 1 slashPage stackFrame atFdcwd 0x400000 0 0) newKernel = some (.error .efault) := by
  decide +kernel

end Uesi.Files
