import Uesi.Proof.Syscall.Access

namespace Uesi.Files

open Library Vfs

/-- The calls that duplicate a descriptor. -/
inductive DupCall where
  | dup (fd : Nat)
  | dup2 (fd : Nat) (newfd : Int)
  | fcntl (fd : Nat) (cloexec : Bool) (arg : BitVec 64)

/-- The descriptor that a call duplicates. -/
def DupCall.fd : DupCall → Nat
  | .dup fd => fd
  | .dup2 fd _ => fd
  | .fcntl fd _ _ => fd

/-- The duplicating call of a process. -/
def DupCall.run (pid : Nat) : DupCall → Exec (Except Errno Nat)
  | .dup fd => sysDup pid fd
  | .dup2 fd newfd => sysDup2 pid fd newfd
  | .fcntl fd cloexec arg => sysFcntlDupfd pid fd cloexec arg

/-- What a caller sees of a call that returns: its answer, the contents of the files and their offsets. -/
def observed {α : Type} (call : Exec α) (kernel : Kernel) : Option (α × Tmpfs × (FileId → Option Int)) :=
  match call kernel with
  | .ok answer next => some (answer, next.vfs.tmpfs, fun id => (next.files id).map (·.offset))
  | .error _ _ => none

/-- Reads, writes and seeks on two descriptors of a process have the same answers and effects. -/
structure Interchangeable (kernel : Kernel) (pid fd other : Nat) : Prop where
  read : ∀ addr buf count keys, observed (sysRead pid fd addr buf count keys) kernel =
    observed (sysRead pid other addr buf count keys) kernel
  write : ∀ addr buf fresh, observed (sysWrite pid fd addr buf fresh) kernel =
    observed (sysWrite pid other addr buf fresh) kernel
  lseek : ∀ offset whence, observed (sysLseek pid fd offset whence) kernel =
    observed (sysLseek pid other offset whence) kernel

/-- The slots from a first one up to the standard descriptors are in use. -/
def StandardInUse (process : Process) (first : Int) : Prop :=
  ∀ slot : Nat, first ≤ slot → slot < 3 → (process.fdTable slot).file ≠ none

/-- The table of the process and the arguments give the call a descriptor from 3 on. -/
def DupCall.AvoidsStandard (process : Process) : DupCall → Prop
  | .dup _ => StandardInUse process 0
  | .dup2 _ newfd => 3 ≤ newfd
  | .fcntl _ _ arg => StandardInUse process (arg.setWidth 32).toInt

/-- Two descriptors of a process point to one file. -/
structure Shares (kernel : Kernel) (pid fd other : Nat) (id : FileId) : Prop where
  inside : fd < maxOpenFiles
  otherInside : other < maxOpenFiles
  points : ∃ process, kernel.processes pid = some process ∧
    (process.fdTable fd).file = some id ∧ (process.fdTable other).file = some id

section Calls

variable {stop : Fault → Prop} {kernel : Kernel} {pid fd other : Nat} {id : FileId}

theorem slotOf_some {fd : Int} {slot : Nat} (found : slotOf fd = some slot) : fd = slot ∧ slot < maxOpenFiles := by
  rw [slotOf] at found
  split at found
  case isTrue outside => exact absurd found (by simp)
  case isFalse inside =>
    cases found
    omega

/-- The slots that the search passes are in use. -/
theorem findSlot_passes {table : Nat → FdEntry} {first count slot : Nat}
    (found : findSlot table (List.range' first count) = some slot) (passed : Nat) (low : first ≤ passed)
    (high : passed < slot) : (table passed).file ≠ none := by
  induction count generalizing first with
  | zero => exact absurd found (by simp [findSlot])
  | succ count ih =>
      rw [List.range'_succ, findSlot] at found
      split at found
      case isTrue free =>
        cases found
        omega
      case isFalse used =>
        rcases Nat.eq_or_lt_of_le low with rfl | above
        · exact used
        · exact ih found above

/-- `vfs_close` leaves the tables of the processes as they are. -/
theorem vfsClose_processes (id : FileId) :
    Post (fun _ => True) (vfsClose id) (fun _ next => next.processes = kernel.processes) kernel := by
  cases found : kernel.files id with
  | none => simp only [vfsClose, readFile, post_bind, post_get, found, post_throw]
  | some file =>
      obtain ⟨count, less⟩ : ∃ count, (file.refcount + 2 ^ 32 - 1) % 2 ^ 32 = count := ⟨_, rfl⟩
      simp only [vfsClose, post_bind, post_readFile found, less, post_writeFile]
      by_cases shared : 0 < count
      · simp only [if_pos shared]
        rfl
      · simp only [if_neg shared, post_bind, post_onVfs]
        apply (Post.anything (vfsVnodeUnref file.vnode) _).mono
        exact fun _ _ _ => rfl

/-- A call that returns a descriptor shares the file of another one, and the number is from 3 on exactly
under a condition. -/
def Duplicated (pid fd : Nat) (id : FileId) (avoids : Prop) (answer : Except Errno Nat) (next : Kernel) : Prop :=
  ∀ copy, answer = .ok copy → Shares next pid copy fd id ∧ (3 ≤ copy ↔ avoids)

theorem duplicated_error {avoids : Prop} (code : Errno) (next : Kernel) :
    Duplicated pid fd id avoids (.error code) next := fun _ never => absurd never (by simp)

/-- A file gets the first free slot, which leaves the other slots as they are. -/
theorem installFile_duplicated {process : Process} {minfd : Int} {fdFlags : Nat}
    (running : kernel.processes pid = some process) (inside : fd < maxOpenFiles)
    (points : (process.fdTable fd).file = some id) :
    Post (fun _ => True) (installFile pid minfd id fdFlags)
      (Duplicated pid fd id (StandardInUse process minfd)) kernel := by
  have refused (code : Errno) : Post (fun _ => True) (do
      vfsClose id
      return .error code) (Duplicated pid fd id (StandardInUse process minfd)) kernel := by
    simp only [post_bind]
    exact (Post.anything (vfsClose id) kernel).mono fun _ next _ => duplicated_error code next
  simp only [installFile, fdAlloc, post_bind]
  cases start : slotOf minfd with
  | none => exact refused .einval
  | some first =>
      obtain ⟨rfl, _⟩ := slotOf_some start
      simp only [post_bind, post_readProcess running]
      cases search : findSlot process.fdTable (List.range' first (maxOpenFiles - first)) with
      | none => exact refused .emfile
      | some slot =>
          obtain ⟨member, free⟩ := findSlot_some search
          rw [List.mem_range'_1] at member
          simp only [post_bind, post_writeSlot running, post_pure]
          rintro copy ⟨⟩
          have differs : fd ≠ slot := by
            rintro rfl
            rw [free] at points
            exact absurd points (by simp)
          refine ⟨⟨by omega, inside, _, Function.update_self .., ?_, ?_⟩, ?_, ?_⟩
          · simp only [Function.update_self]
          · simp only [Function.update_of_ne differs]
            exact points
          · intro high passed low small
            exact findSlot_passes search passed (by omega) (by omega)
          · intro used
            by_contra small
            exact used slot (by omega) (by omega) free

theorem post_fdGetfile {after : Option FileId → Kernel → Prop} {process : Process}
    (running : kernel.processes pid = some process) (inside : fd < maxOpenFiles)
    (points : (process.fdTable fd).file = some id) :
    Post stop (fdGetfile pid fd) after kernel ↔ after (some id) kernel := by
  simp only [fdGetfile, slotOf_nat inside, post_bind, post_readProcess running, post_pure, points]

/-- What follows another reference to a file starts with the same tables. -/
theorem vfsFileDup_seq {α : Type} {action : Exec α} {after : α → Kernel → Prop}
    (rest : ∀ next : Kernel, next.processes = kernel.processes → Post (fun _ => True) action after next) :
    Post (fun _ => True) (do
      vfsFileDup id
      action) after kernel := by
  cases found : kernel.files id with
  | none => simp only [vfsFileDup, readFile, post_bind, post_get, found, post_throw]
  | some file =>
      simp only [vfsFileDup, post_bind, post_readFile found, post_writeFile]
      exact rest _ rfl

section Duplicate

variable {process : Process} (running : kernel.processes pid = some process) (inside : fd < maxOpenFiles)
  (points : (process.fdTable fd).file = some id)

include running inside points

theorem sysDup_duplicated :
    Post (fun _ => True) (sysDup pid fd) (Duplicated pid fd id (StandardInUse process 0)) kernel := by
  simp only [sysDup, post_bind, post_fdGetfile running inside points]
  rw [← post_bind]
  exact vfsFileDup_seq fun next same => installFile_duplicated (same ▸ running) inside points

theorem sysFcntlDupfd_duplicated (cloexec : Bool) (arg : BitVec 64) :
    Post (fun _ => True) (sysFcntlDupfd pid fd cloexec arg)
      (Duplicated pid fd id (StandardInUse process (arg.setWidth 32).toInt)) kernel := by
  simp only [sysFcntlDupfd, slotOf_nat inside]
  cases slotOf (arg.setWidth 32).toInt with
  | none => exact duplicated_error .einval kernel
  | some first =>
      simp only [post_bind, post_fdGetfile running inside points]
      rw [← post_bind]
      exact vfsFileDup_seq fun next same => installFile_duplicated (same ▸ running) inside points

omit running in
/-- The slot that `sys_dup2` fills shares the file. -/
theorem shares_filled {slot : Nat} {next : Kernel} (below : slot < maxOpenFiles) (differs : fd ≠ slot)
    (filled : next.processes = (kernel.setProcess pid { process with
      fdTable := Function.update process.fdTable slot { file := some id, flags := 0 } }).processes) :
    Shares next pid slot fd id := by
  refine ⟨below, inside, _, by rw [filled]; exact Function.update_self .., ?_, ?_⟩
  · simp only [Function.update_self]
  · simp only [Function.update_of_ne differs]
    exact points

theorem sysDup2_duplicated (newfd : Int) :
    Post (fun _ => True) (sysDup2 pid fd newfd) (Duplicated pid fd id (3 ≤ newfd)) kernel := by
  simp only [sysDup2, slotOf_nat inside]
  cases start : slotOf newfd with
  | none => exact duplicated_error .ebadf kernel
  | some slot =>
      obtain ⟨rfl, below⟩ := slotOf_some start
      simp only [post_bind, post_fdGetfile running inside points]
      by_cases same : (fd : Int) = slot
      · simp only [if_pos same, post_pure]
        rintro copy ⟨⟩
        obtain rfl : fd = slot := by omega
        exact ⟨⟨below, below, process, running, points, points⟩, by omega⟩
      · have differs : fd ≠ slot := fun equal => same (congrArg Nat.cast equal)
        simp only [if_neg same]
        apply vfsFileDup_seq
        intro next kept
        have here : next.processes pid = some process := kept ▸ running
        simp only [post_bind, post_readProcess here, post_writeSlot here]
        cases (process.fdTable slot).file with
        | none =>
            rintro copy ⟨⟩
            exact ⟨shares_filled inside points below differs rfl, by omega⟩
        | some old =>
            simp only [post_bind]
            apply (vfsClose_processes old).mono
            rintro _ last same copy ⟨⟩
            exact ⟨shares_filled inside points below differs same, by omega⟩

end Duplicate

/-- A duplicating call that returns shares the file of its descriptor, and gives a number from 3 on exactly
when the standard descriptors are avoided. -/
theorem DupCall.run_duplicated (call : DupCall) {process : Process}
    (running : kernel.processes pid = some process) (inside : call.fd < maxOpenFiles)
    (points : (process.fdTable call.fd).file = some id) :
    Post (fun _ => True) (call.run pid)
      (Duplicated pid call.fd id (call.AvoidsStandard process)) kernel := by
  cases call with
  | dup fd => exact sysDup_duplicated running inside points
  | dup2 fd newfd => exact sysDup2_duplicated running inside points newfd
  | fcntl fd cloexec arg => exact sysFcntlDupfd_duplicated running inside points cloexec arg

end Calls

section Descriptors

variable {kernel : Kernel} {pid fd other : Nat} {id : FileId}

theorem observed_congr {α : Type} {call same : Exec α} (equal : call kernel = same kernel) :
    observed call kernel = observed same kernel := by
  rw [observed, observed, equal]

theorem fdGetfile_run {process : Process} (running : kernel.processes pid = some process)
    (inside : fd < maxOpenFiles) (points : (process.fdTable fd).file = some id) :
    fdGetfile pid fd kernel = .ok (some id) kernel := by
  have answer : Post (fun _ => False) (fdGetfile pid fd)
      (fun found next => found = some id ∧ next = kernel) kernel := by
    rw [post_fdGetfile running inside points]
    exact ⟨rfl, rfl⟩
  obtain ⟨_, _, ran, rfl, rfl⟩ := answer.result
  exact ran

/-- What a call does with the file of a descriptor depends on the file alone. -/
theorem Shares.bind_congr {α : Type} (shares : Shares kernel pid fd other id) (rest : Option FileId → Exec α) :
    (fdGetfile pid fd >>= rest) kernel = (fdGetfile pid other >>= rest) kernel := by
  obtain ⟨inside, otherInside, process, running, points, otherPoints⟩ := shares
  change EStateM.bind _ _ _ = EStateM.bind _ _ _
  rw [EStateM.bind, EStateM.bind, fdGetfile_run running inside points,
    fdGetfile_run running otherInside otherPoints]

/-- Descriptors from 3 on that point to one file are interchangeable. -/
theorem Shares.interchangeable (shares : Shares kernel pid fd other id) (high : 3 ≤ fd) (otherHigh : 3 ≤ other) :
    Interchangeable kernel pid fd other := by
  refine ⟨?_, ?_, fun offset whence => observed_congr (shares.bind_congr _)⟩
  · intro addr buf count keys
    have notStdin : ¬ (fd : Int) = 0 := by omega
    have otherNotStdin : ¬ (other : Int) = 0 := by omega
    apply observed_congr
    simp only [sysRead, if_neg notStdin, if_neg otherNotStdin]
    by_cases empty : count = 0
    · simp only [if_pos empty]
    · simp only [if_neg empty]
      cases isUserRange addr count with
      | false => rfl
      | true => exact shares.bind_congr _
  · intro addr buf fresh
    have notTty : ¬ ((fd : Int) = 1 ∨ (fd : Int) = 2) := by omega
    have otherNotTty : ¬ ((other : Int) = 1 ∨ (other : Int) = 2) := by omega
    apply observed_congr
    simp only [sysWrite, if_neg notTty, if_neg otherNotTty]
    by_cases empty : buf.length = 0
    · simp only [if_pos empty]
    · simp only [if_neg empty]
      cases isUserRange addr buf.length with
      | false => rfl
      | true => exact shares.bind_congr _

/-- Calls whose answers always differ are told apart. -/
theorem observed_ne {α : Type} {call other : Exec α} {answer : α} {next : Kernel}
    (ran : call kernel = .ok answer next)
    (differs : Post (fun _ => True) other (fun value _ => value ≠ answer) kernel) :
    observed call kernel ≠ observed other kernel := by
  rw [observed, observed, ran]
  unfold Post at differs
  cases result : other kernel with
  | error fault last => simp
  | ok value last =>
      rw [result] at differs
      intro same
      exact differs (Prod.mk.inj (Option.some.inj same)).1.symm

/-- A read of a file is never interrupted. -/
theorem vfsRead_ne_eintr (id : FileId) (buf : Nat → UInt8) (count : Nat) :
    Post (fun _ => True) (vfsRead id buf count) (fun answer _ => answer ≠ .error .eintr) kernel := by
  have node (vnode : FileVnode) (size : SizeT) (offset : OffT) :
      Post (fun _ => True) (tmpfsRead buf size offset) (fun answer _ => answer ≠ .error .eintr) vnode := by
    simp only [tmpfsRead, post_bind, post_get]
    split
    · simp
    · split
      · simp only [post_bind]
        exact (Post.anything _ _).mono fun _ _ _ => by simp
      · simp
  have regular (vnode : VnodeId) (size : SizeT) (offset : OffT) (state : VfsState) :
      Post (fun _ => True) (onRegular vnode (tmpfsRead buf size offset)) (fun answer _ => answer ≠ .error .eintr)
        state := by
    apply (Post.anything (readVnode vnode) _).seq
    intro found _ _
    apply (Post.anything (readNode found.node) _).seq
    intro stored _ _
    split
    next contents _ =>
        have read := node ⟨contents, found.size⟩ size offset
        unfold Post at read
        split
        next answer changed ran =>
            rw [ran] at read
            exact read
        next => trivial
    next => simp
  simp only [vfsRead, post_bind]
  apply (Post.anything (readFile id) kernel).mono
  intro file _ _
  unfold Vfs.vfsRead
  split
  · simp [Except.map]
  · simp only [post_bind, post_onVfs]
    apply (regular _ _ _ _).mono
    rintro (code | ⟨bytes, contents⟩) _ kept
    · simpa [Except.map] using kept
    · simp only
      split
      · simp only [post_bind]
        exact (Post.anything _ _).mono fun _ _ _ => by simp [Except.map]
      · simp [Except.map]

/-- The keyboard may interrupt a read of descriptor 0, but no read of a file. -/
theorem not_interchangeable_stdin (shares : Shares kernel pid 0 fd id) (high : 3 ≤ fd) :
    ¬ Interchangeable kernel pid 0 fd := by
  intro same
  have interrupted : sysRead pid 0 0x400000 (fun _ => 0) 1 [3] kernel = .ok (.error .eintr) kernel := rfl
  apply observed_ne interrupted _ (same.read 0x400000 (fun _ => 0) 1 [3])
  obtain ⟨_, inside, process, running, _, points⟩ := shares
  have notStdin : ¬ (fd : Int) = 0 := by omega
  have valid : isUserRange 0x400000 1 = true := by decide
  simp only [sysRead, if_neg notStdin, valid, one_ne_zero, Bool.not_true, Bool.false_eq_true, if_false,
    post_bind, post_fdGetfile running inside points]
  apply (Post.anything (readFile id) kernel).mono
  intro file _ _
  by_cases refused : file.flags &&& vfsOWronly = vfsOWronly
  · simp only [if_pos refused, post_pure]
    simp
  · simp only [if_neg refused]
    exact vfsRead_ne_eintr id _ _

/-- A write to the console succeeds, and no write to a file does. -/
theorem not_interchangeable_tty {tty : Nat} (which : tty = 1 ∨ tty = 2) (shares : Shares kernel pid tty fd id)
    (high : 3 ≤ fd) : ¬ Interchangeable kernel pid tty fd := by
  intro same
  have number : (tty : Int) = 1 ∨ (tty : Int) = 2 := by omega
  have valid : isUserRange 0x400000 1 = true := by decide
  have written : sysWrite pid tty 0x400000 [0] none kernel = .ok (.ok 1) kernel := by
    simp only [sysWrite, if_pos number]
    rfl
  apply observed_ne written _ (same.write 0x400000 [0] none)
  obtain ⟨_, inside, process, running, _, points⟩ := shares
  have notTty : ¬ ((fd : Int) = 1 ∨ (fd : Int) = 2) := by omega
  have zero (flags : BitVec 32) : flags &&& vfsORdonly = vfsORdonly := BitVec.and_zero
  simp only [sysWrite, if_neg notTty, List.length_singleton, valid, one_ne_zero, Bool.not_true,
    Bool.false_eq_true, if_false, post_bind, post_fdGetfile running inside points, zero]
  apply (Post.anything (readFile id) kernel).mono
  simp

end Descriptors

/-- A duplicate and its original are interchangeable exactly when the call avoids the standard
descriptors. -/
theorem duplicate_interchangeable_iff (kernel next : Kernel) (pid copy : Nat) (call : DupCall)
    (process : Process) (id : FileId) (running : kernel.processes pid = some process) (high : 3 ≤ call.fd)
    (inside : call.fd < maxOpenFiles) (points : (process.fdTable call.fd).file = some id)
    (ran : call.run pid kernel = .ok (.ok copy) next) :
    Interchangeable next pid copy call.fd ↔ call.AvoidsStandard process := by
  have duplicated : Post (fun _ => True) (call.run pid)
    (Duplicated pid call.fd id (call.AvoidsStandard process)) kernel :=
      call.run_duplicated running inside points
  unfold Post at duplicated
  rw [ran] at duplicated
  obtain ⟨shares, number⟩ := duplicated copy rfl
  rw [← number]
  constructor
  · intro same
    by_contra low
    obtain rfl | which : copy = 0 ∨ copy = 1 ∨ copy = 2 := by omega
    · exact not_interchangeable_stdin shares high same
    · exact not_interchangeable_tty which shares high same
  · intro above
    exact shares.interchangeable above high

/-- The new kernel after its process opened `/f` as descriptor 3. -/
def openedKernel : Kernel :=
  finalState (sysOpen 1 1 (.ok [47, 102]) (vfsOCreat ||| vfsORdwr) 0x1A4) newKernel

/-- The duplicate 5 of descriptor 3 is interchangeable with it. -/
theorem duplicate_interchangeable_five : ∃ next,
    (DupCall.dup2 3 5).run 1 openedKernel = .ok (.ok 5) next ∧ Interchangeable next 1 5 3 := by
  obtain ⟨process, running⟩ := Option.isSome_iff_exists.mp
    (by decide +kernel : (openedKernel.processes 1).isSome = true)
  have points : (process.fdTable 3).file = some 0 := by
    have opened : (openedKernel.processes 1).bind (fun process => (process.fdTable 3).file) = some 0 := by
      decide +kernel
    rwa [running] at opened
  have answer : (match (DupCall.dup2 3 5).run 1 openedKernel with
      | .ok answer _ => some answer
      | .error _ _ => none) = some (.ok 5) := by decide +kernel
  cases ran : (DupCall.dup2 3 5).run 1 openedKernel with
  | error fault next =>
      rw [ran] at answer
      exact absurd answer (by simp)
  | ok value next =>
      rw [ran] at answer
      obtain rfl := Option.some.inj answer
      exact ⟨next, rfl, (duplicate_interchangeable_iff openedKernel next 1 5 (.dup2 3 5) process 0 running
        (by decide) (by decide) points ran).mpr (show (3 : Int) ≤ 5 by decide)⟩

/-- The duplicate of descriptor 3 is descriptor 0, which reads the keyboard and not the file. -/
theorem sysDup_returns_stdin :
    (match (do
        let copy ← sysDup 1 3
        let keys ← sysRead 1 0 0x400000 (fun _ => 0) 1 [120]
        let bytes ← sysRead 1 3 0x400000 (fun _ => 0) 1 [120]
        return (copy, keys, bytes)) openedKernel with
      | .ok answers _ => some answers
      | .error _ _ => none) = some (.ok 0, .ok [120], .ok []) := by decide +kernel

end Uesi.Files
