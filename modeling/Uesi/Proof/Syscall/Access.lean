import Uesi.Proof.Syscall.Descriptors

namespace Uesi.Files

open Library Vfs

/-- A call answers with an error number. -/
def Fails {α : Type} (code : Errno) (call : Exec (Except Errno α)) (kernel : Kernel) : Prop :=
  ∃ next, call kernel = .ok (.error code) next

/-- The bits of the open flags that hold the access mode. -/
def accessMode (flags : BitVec 32) : BitVec 32 := flags &&& 3

/-- A descriptor of a process stands for a file that was opened with these flags. -/
def OpenedAs (kernel : Kernel) (pid fd : Nat) (id : FileId) (flags : BitVec 32) : Prop :=
  3 ≤ fd ∧ fd < maxOpenFiles ∧ (∃ process, kernel.processes pid = some process ∧
    (process.fdTable fd).file = some id) ∧ ∃ file, kernel.files id = some file ∧ file.flags = flags

/-- What the access mode of an open file promises: reads fail with `EBADF` exactly when the file is
write-only, writes exactly when it is read-only, and what is written with both can be read back. -/
def AccessHonoured (kernel : Kernel) (pid fd : Nat) (id : FileId) (flags : BitVec 32) : Prop :=
  ∀ addr bytes buf keys block, bytes ≠ [] → isUserRange addr bytes.length = true →
    (Fails .ebadf (vfsRead id buf bytes.length) kernel ↔ accessMode flags = vfsOWronly) ∧
    (Fails .ebadf (sysRead pid fd addr buf bytes.length keys) kernel ↔ accessMode flags = vfsOWronly) ∧
    (Fails .ebadf (vfsWrite id bytes (some block)) kernel ↔ accessMode flags = vfsORdonly) ∧
    (Fails .ebadf (sysWrite pid fd addr bytes (some block)) kernel ↔ accessMode flags = vfsORdonly) ∧
    (accessMode flags = vfsORdwr → ∃ final, (do
      let _ ← sysWrite pid fd addr bytes (some block)
      let _ ← sysLseek pid fd (-bytes.length) .cur
      sysRead pid fd addr buf bytes.length keys) kernel = .ok (.ok bytes) final)

section Open

variable {kernel : Kernel} {pid fuel : Nat} {flags mode : BitVec 32}

/-- A file gets a descriptor from 3 on, or none. -/
theorem installFile_openedAs {id : FileId} {file : OpenFile} (open_ : kernel.files id = some file)
    (fdFlags : Nat) :
    Post (fun _ => True) (installFile pid 3 id fdFlags)
      (fun answer next => ∀ fd, answer = .ok fd → OpenedAs next pid fd id file.flags) kernel := by
  simp only [installFile, fdAlloc, post_bind, show slotOf 3 = some 3 from rfl]
  cases found : kernel.processes pid with
  | none => simp [readProcess, found]
  | some process =>
      rw [post_readProcess found]
      cases search : findSlot process.fdTable (List.range' 3 (maxOpenFiles - 3)) with
      | none =>
          simp only [post_pure, post_bind]
          apply (Post.anything (vfsClose id) _).mono
          exact fun _ _ _ _ never => absurd never (by simp)
      | some slot =>
          obtain ⟨member, _⟩ := findSlot_some search
          rw [List.mem_range'_1] at member
          simp only [post_bind, post_writeSlot found, post_pure]
          rintro fd ⟨⟩
          refine ⟨member.1, member.2, ⟨_, Function.update_self .., ?_⟩, file, open_, rfl⟩
          simp only [Function.update_self]

/-- A descriptor that `sys_open` returns stands for a file with the flags of the call. -/
theorem sysOpen_openedAs (path : Except Errno Str) :
    Post (fun _ => True) (sysOpen fuel pid path flags mode)
      (fun answer next => ∀ fd, answer = .ok fd → ∃ id, OpenedAs next pid fd id flags) kernel := by
  cases path with
  | error code => exact fun _ never => absurd never (by simp)
  | ok path =>
      simp only [sysOpen]
      by_cases empty : path = []
      · rw [if_pos empty]
        exact fun _ never => absurd never (by simp)
      · rw [if_neg empty]
        simp only [vfsOpen, post_bind, post_onVfs]
        apply (Post.anything (Vfs.vfsOpen fuel path flags mode) kernel.vfs).mono
        intro answer vfs _
        cases answer with
        | error code => exact fun _ never => absurd never (by simp)
        | ok vnode =>
            simp only [post_bind, post_get, post_modify, post_writeFile, post_pure]
            apply (installFile_openedAs (Function.update_self ..) _).mono
            exact fun answer next installed fd same => ⟨_, installed fd same⟩

end Open

section Modes

variable {kernel : Kernel} {pid fd : Nat} {id : FileId} {flags : BitVec 32}

/-- `vfs_read` refuses a file that was opened read-only, because `VFS_O_RDONLY` is zero. -/
theorem OpenedAs.vfsRead_fails (opened : OpenedAs kernel pid fd id flags)
    (mode : accessMode flags = vfsORdonly) (buf : Nat → UInt8) (count : Nat) :
    Fails .ebadf (vfsRead id buf count) kernel := by
  obtain ⟨_, _, _, file, found, same⟩ := opened
  have clear : flags &&& (vfsORdonly ||| vfsORdwr) = 0 := by
    have part : (vfsORdonly ||| vfsORdwr) = 3 &&& vfsORdwr := by decide
    rw [part, ← BitVec.and_assoc, show flags &&& 3 = vfsORdonly from mode]
    decide
  have answer : Post (fun _ => False) (vfsRead id buf count) (fun answer _ => answer = .error .ebadf) kernel := by
    simp only [vfsRead, Vfs.vfsRead, OpenFile.toVfsFile, post_bind, post_readFile found, same, clear,
      if_true, post_pure, Except.map]
  obtain ⟨value, next, ran, rfl⟩ := answer.result
  exact ⟨next, ran⟩

/-- `sys_write` refuses every open file, because it tests for the bits of `VFS_O_RDONLY`, which is zero. -/
theorem OpenedAs.sysWrite_fails (opened : OpenedAs kernel pid fd id flags) {addr : Nat} {bytes : List UInt8}
    (some_ : bytes ≠ []) (valid : isUserRange addr bytes.length = true) (fresh : Fresh) :
    Fails .ebadf (sysWrite pid fd addr bytes fresh) kernel := by
  obtain ⟨low, inside, ⟨process, running, slot⟩, file, found, same⟩ := opened
  have answer : Post (fun _ => False) (sysWrite pid fd addr bytes fresh)
      (fun answer _ => answer = .error .ebadf) kernel := by
    have length : bytes.length ≠ 0 := fun zero => some_ (List.eq_nil_of_length_eq_zero zero)
    have tty : ¬ ((fd : Int) = 1 ∨ (fd : Int) = 2) := by omega
    have zero (flags : BitVec 32) : flags &&& vfsORdonly = vfsORdonly := BitVec.and_zero
    simp only [sysWrite, if_neg length, valid, Bool.not_true, Bool.false_eq_true, if_false, if_neg tty,
      fdGetfile, slotOf_nat inside, post_bind, post_readProcess running, post_pure, slot,
      post_readFile found, zero, if_true]
  obtain ⟨value, next, ran, rfl⟩ := answer.result
  exact ⟨next, ran⟩

end Modes

/-- No file that `sys_open` returns keeps the promise of its access mode. -/
theorem accessMode_never_honoured (fuel pid : Nat) (path : Except Errno Str) (flags mode : BitVec 32)
    (kernel next : Kernel) (fd : Nat) (opened : sysOpen fuel pid path flags mode kernel = .ok (.ok fd) next) :
    ∃ id, OpenedAs next pid fd id flags ∧ ¬ AccessHonoured next pid fd id flags := by
  have installed : Post (fun _ => True) (sysOpen fuel pid path flags mode)
    (fun answer next => ∀ fd, answer = .ok fd → ∃ id, OpenedAs next pid fd id flags) kernel :=
      sysOpen_openedAs path
  unfold Post at installed
  rw [opened] at installed
  obtain ⟨id, here⟩ := installed fd rfl
  refine ⟨id, here, ?_⟩
  intro honoured
  have valid : isUserRange 0x400000 [(0 : UInt8)].length = true := by decide
  obtain ⟨read, _, _, write, _⟩ := honoured 0x400000 [0] (fun _ => 0) [] (fun _ => 0) (by simp) valid
  -- A read-only file cannot be read, and a file with another mode cannot be written.
  have readOnly := write.mp (here.sysWrite_fails (by simp) valid _)
  have writeOnly := read.mp (here.vfsRead_fails readOnly _ _)
  rw [readOnly] at writeOnly
  exact absurd writeOnly (by decide)

/-- A kernel with a new tmpfs and one process without open files. -/
def newKernel : Kernel where
  vfs := mountedRoot
  files := fun _ => none
  freshFile := 0
  processes := Function.update (fun _ => none) 1 (some {})

/-- What the first process gets for `/f`, opened for reading and writing and created. -/
theorem accessMode_never_honoured_file :
    ∃ next, sysOpen 1 1 (.ok [47, 102]) (vfsOCreat ||| vfsORdwr) 0x1A4 newKernel = .ok (.ok 3) next ∧
      ∃ id, OpenedAs next 1 3 id (vfsOCreat ||| vfsORdwr) ∧
        ¬ AccessHonoured next 1 3 id (vfsOCreat ||| vfsORdwr) := by
  have answer : (match sysOpen 1 1 (.ok [47, 102]) (vfsOCreat ||| vfsORdwr) 0x1A4 newKernel with
      | .ok answer _ => some answer
      | .error _ _ => none) = some (.ok 3) := by decide +kernel
  cases ran : sysOpen 1 1 (.ok [47, 102]) (vfsOCreat ||| vfsORdwr) 0x1A4 newKernel with
  | error fault next =>
      rw [ran] at answer
      exact absurd answer (by simp)
  | ok value next =>
      rw [ran] at answer
      obtain rfl := Option.some.inj answer
      exact ⟨next, rfl, accessMode_never_honoured 1 1 _ _ 0x1A4 newKernel next 3 ran⟩

/-- The first process opens `/f` for reading and writing, and its write of one byte fails with `EBADF`. -/
theorem sysWrite_refuses_rdwr :
    (match (do
        let fd ← sysOpen 1 1 (.ok [47, 102]) (vfsOCreat ||| vfsORdwr) 0x1A4
        let written ← sysWrite 1 3 0x400000 [120] (some fun _ => 0)
        return (fd, written)) newKernel with
      | .ok answers _ => some answers
      | .error _ _ => none) = some (.ok 3, .error .ebadf) := by decide +kernel

end Uesi.Files
