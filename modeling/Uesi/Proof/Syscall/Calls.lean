import Uesi.Proof.Syscall.Pages

namespace Uesi.Syscall

open Library Pmm Mmu

variable {root : Nat} {kept : Nat → Prop} {pd : PageDirectory} {state : CallState}

theorem protFlags_clear (prot : BitVec 32) : protFlags prot &&& pageAddrMask = 0 := by
  unfold protFlags
  dsimp only
  split <;> split <;> decide

/-- A counted loop of page steps is a page step. -/
theorem PageStep.loop (space : Space state.mmu root kept) {body : Nat → CallState → CallState}
    {count : Nat} (step : ∀ index current, index < count → Space current.mmu root kept →
      PageStep root kept current (body index current)) :
    PageStep root kept state (countedLoop body count state) :=
  countedLoop_invariant body (fun _ current => PageStep root kept state current) count state
    (PageStep.refl space) fun index current inside held =>
      held.trans (step index current inside held.space)

/-- The loop of `sys_mmap` is a page step, and a failure names a page of the range. -/
theorem PageStep.mmapPages (space : Space state.mmu root kept) (given : pd.pml4 = root)
    {virtAddr : Nat} {flags : BitVec 64} (clear : flags &&& pageAddrMask = 0) (indices : List Nat)
    (user : ∀ index ∈ indices, UserAddress (add64 virtAddr (index * pageSize))) :
    PageStep root kept state (mmapPages pd virtAddr flags indices state).2 ∧
      ∀ index, (mmapPages pd virtAddr flags indices state).1 = some index → index ∈ indices := by
  induction indices generalizing state with
  | nil => exact ⟨PageStep.refl space, fun index same => absurd same (by simp [Syscall.mmapPages])⟩
  | cons first rest ih =>
      have fresh := PageStep.mapFreshPage space given (user first (by simp)) clear
      rw [Syscall.mmapPages]
      cases step : Syscall.mapFreshPage pd (add64 virtAddr (first * pageSize)) flags state with
      | mk ok next =>
          rw [step] at fresh
          cases ok with
          | true =>
              obtain ⟨later, failed⟩ := ih fresh.space fun index member => user index (by simp [member])
              exact ⟨fresh.trans later, fun index same => by simp [failed index same]⟩
          | false => exact ⟨fresh, fun index same => by simp [Option.some.inj same]⟩

/-- The expanding loop of `sys_brk` is a page step. -/
theorem PageStep.brkGrow (space : Space state.mmu root kept) (given : pd.pml4 = root) {oldPage : Nat}
    (indices : List Nat) (user : ∀ index ∈ indices, UserAddress (oldPage + index * pageSize)) :
    PageStep root kept state (brkGrow pd oldPage indices state).2 := by
  induction indices generalizing state with
  | nil => exact PageStep.refl space
  | cons first rest ih =>
      have later : ∀ {next : CallState}, Space next.mmu root kept →
          PageStep root kept next (Syscall.brkGrow pd oldPage rest next).2 :=
        fun nextSpace => ih nextSpace fun index member => user index (by simp [member])
      have fresh := PageStep.mapFreshPage space given (user first (by simp))
        (show (pagePresent ||| pageWrite ||| pageUser) &&& pageAddrMask = 0 by decide)
      rw [Syscall.brkGrow]
      split
      · cases step : Syscall.mapFreshPage pd (oldPage + first * pageSize)
            (pagePresent ||| pageWrite ||| pageUser) state with
        | mk ok next =>
            rw [step] at fresh
            cases ok with
            | true => exact fresh.trans (later fresh.space)
            | false => exact fresh
      · exact later space

theorem alignUp64_aligned (address : Nat) : alignUp64 pageSize address % pageSize = 0 :=
  alignDown_aligned _

theorem alignUp64_pages (length : Nat) :
    alignUp64 pageSize length / pageSize * pageSize = alignUp64 pageSize length :=
  Nat.div_mul_cancel (Nat.dvd_of_mod_eq_zero (alignUp64_aligned _))

/-- The rounded break of a break in the user half. -/
theorem alignUp64_le {address : Nat} (low : address ≤ 2 ^ 47) :
    address ≤ alignUp64 pageSize address ∧ alignUp64 pageSize address ≤ 2 ^ 47 := by
  unfold alignUp64 alignDown add64 pageSize
  omega

theorem mmapAddress_aligned {brk addr start : Nat} {flags : BitVec 32}
    (found : mmapAddress brk addr flags = some start) : start % pageSize = 0 := by
  unfold mmapAddress at found
  dsimp only at found
  split at found
  · split at found
    · obtain rfl := Option.some.inj found
      exact alignDown_aligned _
    · exact absurd found (by simp)
  · split at found <;> obtain rfl := Option.some.inj found <;> exact alignDown_aligned _

/-- The current process owns the address space, and its break is at most the limit. -/
def Owner (pd : PageDirectory) (limit : Nat) (state : CallState) : Prop :=
  ∃ brk, state.process = some ⟨some pd, brk⟩ ∧ brk ≤ limit

theorem PageStep.owner {next : CallState} {limit : Nat} (step : PageStep root kept state next)
    (own : Owner pd limit state) : Owner pd limit next := by
  obtain ⟨brk, process, low⟩ := own
  exact ⟨brk, step.process.trans process, low⟩

/-- The owner of the address space, if there is one, has a bounded break. -/
def OwnedBelow (pd : PageDirectory) (limit : Nat) (state : CallState) : Prop :=
  ∀ process ∈ state.process, ∀ vmspace ∈ process.vmspace, vmspace = pd ∧ process.brk ≤ limit

theorem Owner.ownedBelow {limit : Nat} (own : Owner pd limit state) : OwnedBelow pd limit state := by
  obtain ⟨brk, process, low⟩ := own
  intro other current vmspace member
  obtain rfl := Option.some.inj (process.symm.trans current)
  exact ⟨(Option.some.inj member).symm, low⟩

theorem Keeps.setBrk {next : CallState} (keeps : Keeps root kept state next) (process : Process)
    (brk : Nat) : Keeps root kept state (next.setBrk process brk) :=
  ⟨keeps.space, keeps.layout, keeps.memory, keeps.freed⟩

/-- The memory calls of a process. -/
inductive MemoryCall where
  | mmap (addr length : Nat) (prot flags : BitVec 32)
  | munmap (addr length : Nat)
  | mprotect (addr len : Nat) (prot : BitVec 32)
  | brk (addr : Nat)

/-- The pages of `sys_mmap`, `sys_munmap` and `sys_mprotect` behind their checks: the first address and the
length. -/
def callRange (process : Process) : MemoryCall → Option (Nat × Nat)
  | .mmap addr length _ flags =>
      if length = 0 ∨ flags &&& mapAnonymous = 0 ∨ flags &&& mapShared = 0 ∧ flags &&& mapPrivate = 0 then none
      else (mmapAddress process.brk addr flags).map fun start => (start, alignUp64 pageSize length)
  | .munmap addr length | .mprotect addr length _ =>
      if ¬ isUserAddress addr ∨ length = 0 then none
      else some (alignDown pageSize addr, alignUp64 pageSize length)
  | .brk _ => none

/-- The range of a call that passes its checks ends at or below the end of the user half. -/
def EndsInUserHalf (state : CallState) (call : MemoryCall) : Prop :=
  ∀ process ∈ state.process, process.vmspace.isSome → ∀ range ∈ callRange process call,
    range.1 + range.2 ≤ 2 ^ 47

/-- The pages of a call lie below the end of the user half. -/
def RangesBelow (state : CallState) (call : MemoryCall) : Prop :=
  EndsInUserHalf state call ∧ match call with
    | .brk addr => ∀ process ∈ state.process, process.vmspace.isSome → addr ≠ 0 → isUserAddress addr →
        alignUp64 pageSize (initialBrk process.brk) ≤ 2 ^ 47
    | _ => True

instance (state : CallState) (call : MemoryCall) : Decidable (EndsInUserHalf state call) :=
  inferInstanceAs (Decidable (∀ process ∈ state.process, process.vmspace.isSome →
    ∀ range ∈ callRange process call, range.1 + range.2 ≤ 2 ^ 47))

instance (state : CallState) : (call : MemoryCall) → Decidable (RangesBelow state call)
  | .mmap _ _ _ _ | .munmap _ _ | .mprotect _ _ _ => inferInstanceAs (Decidable (_ ∧ True))
  | .brk addr => inferInstanceAs (Decidable (_ ∧ ∀ process ∈ state.process, process.vmspace.isSome → addr ≠ 0 →
      isUserAddress addr → alignUp64 pageSize (initialBrk process.brk) ≤ 2 ^ 47))

section Calls

variable {brk limit : Nat}

/-- `sys_mmap` keeps the space when the range that it maps ends in the user half. -/
theorem sysMmap_keeps (space : Space state.mmu root kept) (given : pd.pml4 = root)
    (roomy : 2 ^ 47 ≤ limit) (process : state.process = some ⟨some pd, brk⟩) (low : brk ≤ limit)
    {addr length : Nat} {prot flags : BitVec 32}
    (range : ∀ range ∈ callRange ⟨some pd, brk⟩ (.mmap addr length prot flags), range.1 + range.2 ≤ 2 ^ 47) :
    Keeps root kept state (sysMmap state addr length prot flags).2 ∧
      Owner pd limit (sysMmap state addr length prot flags).2 := by
  have own : Owner pd limit state := ⟨brk, process, low⟩
  have rejected : Keeps root kept state state ∧ Owner pd limit state := ⟨Keeps.refl space, own⟩
  unfold sysMmap
  rw [process]
  dsimp only
  split
  · exact rejected
  split
  · exact rejected
  split
  · exact rejected
  rename_i some anonymous shared
  cases target : mmapAddress brk addr flags with
  | none => exact rejected
  | some start =>
      have fits : start + alignUp64 pageSize length ≤ 2 ^ 47 := by
        refine range (start, alignUp64 pageSize length) ?_
        rw [callRange, if_neg (by tauto), target]
        rfl
      have pages : start + alignUp64 pageSize length / pageSize * pageSize ≤ 2 ^ 47 := by
        rw [alignUp64_pages]
        exact fits
      have user : ∀ index, index < alignUp64 pageSize length / pageSize →
          UserAddress (add64 start (index * pageSize)) := by
        intro index inside
        obtain ⟨sum, address⟩ := userAddress_of_range (mmapAddress_aligned target) pages inside
        rwa [sum]
      obtain ⟨step, failed⟩ := PageStep.mmapPages space given (protFlags_clear prot)
        (List.range (alignUp64 pageSize length / pageSize))
        fun index member => user index (List.mem_range.mp member)
      dsimp only
      cases loop : mmapPages pd start (protFlags prot)
          (List.range (alignUp64 pageSize length / pageSize)) state with
      | mk failure next =>
          rw [loop] at step failed
          cases failure with
          | some index =>
              have inside := List.mem_range.mp (failed index rfl)
              have cleaned : PageStep root kept next (mmapCleanup pd start index next) :=
                PageStep.loop step.space fun position current below currentSpace =>
                  PageStep.releasePage currentSpace given (user position (by omega))
              exact ⟨(step.trans cleaned).toKeeps, (step.trans cleaned).owner own⟩
          | none =>
              dsimp only
              split
              · refine ⟨step.toKeeps.setBrk _ _, add64 start (alignUp64 pageSize length), rfl, ?_⟩
                rw [add64_of_lt (by omega)]
                omega
              · exact ⟨step.toKeeps, step.owner own⟩

/-- `sys_munmap` keeps the space when its range ends in the user half. -/
theorem sysMunmap_keeps (space : Space state.mmu root kept) (given : pd.pml4 = root)
    (own : Owner pd limit state) {addr length : Nat} (range : ¬ (¬ isUserAddress addr ∨ length = 0) →
      alignDown pageSize addr + alignUp64 pageSize length ≤ 2 ^ 47) :
    Keeps root kept state (sysMunmap state addr length).2 ∧
      Owner pd limit (sysMunmap state addr length).2 := by
  obtain ⟨brk, process, low⟩ := id own
  unfold sysMunmap
  rw [process]
  dsimp only
  split
  · exact ⟨Keeps.refl space, own⟩
  · rename_i accepted
    replace range := range accepted
    have step : PageStep root kept state (countedLoop
        (fun index => munmapPage pd (add64 (alignDown pageSize addr) (index * pageSize)))
        (alignUp64 pageSize length / pageSize) state) := by
      apply PageStep.loop space
      intro index current inside currentSpace
      rw [← alignUp64_pages] at range
      obtain ⟨sum, user⟩ := userAddress_of_range (alignDown_aligned addr) range inside
      rw [sum]
      exact PageStep.munmapPage currentSpace given user
    exact ⟨step.toKeeps, step.owner own⟩

/-- `sys_mprotect` keeps the space when its range ends in the user half. -/
theorem sysMprotect_keeps (space : Space state.mmu root kept) (given : pd.pml4 = root)
    (own : Owner pd limit state) {addr len : Nat} {prot : BitVec 32} (range : ¬ (¬ isUserAddress addr ∨ len = 0) →
      alignDown pageSize addr + alignUp64 pageSize len ≤ 2 ^ 47) :
    Keeps root kept state (sysMprotect state addr len prot).2 ∧
      Owner pd limit (sysMprotect state addr len prot).2 := by
  obtain ⟨brk, process, low⟩ := id own
  unfold sysMprotect
  rw [process]
  dsimp only
  split
  · exact ⟨Keeps.refl space, own⟩
  · rename_i accepted
    replace range := range accepted
    have user : ∀ index, index < alignUp64 pageSize len / pageSize →
        UserAddress (add64 (alignDown pageSize addr) (index * pageSize)) := by
      intro index inside
      rw [← alignUp64_pages] at range
      obtain ⟨sum, address⟩ := userAddress_of_range (alignDown_aligned addr) range inside
      rwa [sum]
    obtain ⟨final, grows⟩ := space.protectPages given (protFlags_clear prot)
      (List.range (alignUp64 pageSize len / pageSize))
      (fun index member => (user index (List.mem_range.mp member)).aligned)
      fun index member => (user index (List.mem_range.mp member)).userPage
    have step := PageStep.setMmu space final grows
    unfold pagingProtectRange
    rw [alignDown_of_aligned (alignDown_aligned addr)]
    cases loop : protectPages pd (alignDown pageSize addr) (protFlags prot)
        (List.range (alignUp64 pageSize len / pageSize)) state.mmu with
    | mk ok next =>
        rw [loop] at step
        cases ok <;> exact ⟨step.toKeeps, step.owner own⟩

/-- The pages between two rounded breaks. -/
theorem userAddress_between {start stop index : Nat} (aligned : start % pageSize = 0)
    (high : stop ≤ 2 ^ 47) (inside : index < (stop - start) / pageSize) :
    UserAddress (start + index * pageSize) := by
  refine (userAddress_of_range aligned ?_ inside).2
  have covered := Nat.div_mul_le_self (stop - start) pageSize
  have some : 0 < stop - start := by
    by_contra empty
    rw [Nat.eq_zero_of_not_pos empty] at inside
    exact absurd inside (by simp)
  omega

/-- `sys_brk` keeps the space when the old break lies in the user half. -/
theorem sysBrk_keeps (space : Space state.mmu root kept) (given : pd.pml4 = root)
    (roomy : 2 ^ 47 ≤ limit) (process : state.process = some ⟨some pd, brk⟩) (low : brk ≤ limit)
    {addr : Nat} (range : addr ≠ 0 → isUserAddress addr →
      alignUp64 pageSize (initialBrk brk) ≤ 2 ^ 47) :
    Keeps root kept state (sysBrk state addr).2 ∧ Owner pd limit (sysBrk state addr).2 := by
  have own : Owner pd limit state := ⟨brk, process, low⟩
  have started : initialBrk brk ≤ limit := by
    unfold initialBrk
    split
    · exact le_trans (by decide) roomy
    · exact low
  unfold sysBrk
  rw [process]
  dsimp only
  split
  · exact ⟨Keeps.refl space, own⟩
  rename_i asked
  split
  · exact ⟨Keeps.refl space, own⟩
  · rename_i valid
    push Not at valid
    have below : addr ≤ 2 ^ 47 := by
      have user := valid.1
      unfold isUserAddress userSpaceEnd at user
      omega
    have set : Keeps root kept state (state.setBrk ⟨some pd, brk⟩ (initialBrk brk)) :=
      (Keeps.refl space).setBrk _ _
    split
    · exact ⟨set, initialBrk brk, rfl, started⟩
    split
    · have step := PageStep.brkGrow set.space given
        (List.range ((alignUp64 pageSize addr - alignUp64 pageSize (initialBrk brk)) / pageSize))
        fun index member => userAddress_between (alignUp64_aligned _) (alignUp64_le below).2
          (List.mem_range.mp member)
      split
      · rename_i grown
        rw [grown] at step
        exact ⟨(set.trans step.toKeeps).setBrk _ _, addr, rfl, by omega⟩
      · rename_i grown
        rw [grown] at step
        exact ⟨set.trans step.toKeeps, step.owner ⟨initialBrk brk, rfl, started⟩⟩
    · have step : PageStep root kept (state.setBrk ⟨some pd, brk⟩ (initialBrk brk)) (countedLoop
          (fun index => releasePage pd (alignUp64 pageSize addr + index * pageSize))
          ((alignUp64 pageSize (initialBrk brk) - alignUp64 pageSize addr) / pageSize)
          (state.setBrk ⟨some pd, brk⟩ (initialBrk brk))) :=
        PageStep.loop set.space fun index current inside currentSpace =>
          PageStep.releasePage currentSpace given
            (userAddress_between (alignUp64_aligned _) (range asked valid.1) inside)
      exact ⟨(set.trans step.toKeeps).setBrk _ _, addr, rfl, by omega⟩

end Calls

/-- The state after a call. -/
def memoryStep (state : CallState) : MemoryCall → CallState
  | .mmap addr length prot flags => (sysMmap state addr length prot flags).2
  | .munmap addr length => (sysMunmap state addr length).2
  | .mprotect addr len prot => (sysMprotect state addr len prot).2
  | .brk addr => (sysBrk state addr).2

/-- Without an address space a call changes nothing. -/
theorem memoryStep_idle {state : CallState} (idle : ∀ process ∈ state.process, process.vmspace = none)
    (call : MemoryCall) : memoryStep state call = state := by
  cases current : state.process with
  | none => cases call <;> simp only [memoryStep, sysMmap, sysMunmap, sysMprotect, sysBrk, current]
  | some process =>
      have missing := idle process current
      cases call <;>
        simp only [memoryStep, sysMmap, sysMunmap, sysMprotect, sysBrk, current, missing]

/-- A call of the owner of an address space keeps the space when its pages lie below the end of the user
half. -/
theorem memoryStep_owner {limit : Nat} (space : Space state.mmu root kept) (given : pd.pml4 = root)
    (roomy : 2 ^ 47 ≤ limit) (own : Owner pd limit state) (call : MemoryCall)
    (range : RangesBelow state call) :
    Keeps root kept state (memoryStep state call) ∧ Owner pd limit (memoryStep state call) := by
  obtain ⟨brk, process, low⟩ := id own
  obtain ⟨ends, below⟩ := range
  replace ends := ends _ process rfl
  cases call with
  | mmap addr length prot flags => exact sysMmap_keeps space given roomy process low ends
  | munmap addr length =>
      exact sysMunmap_keeps space given own fun accepted => ends (_, _) (by rw [callRange, if_neg accepted]; rfl)
  | mprotect addr len prot =>
      exact sysMprotect_keeps space given own fun accepted => ends (_, _) (by rw [callRange, if_neg accepted]; rfl)
  | brk addr => exact sysBrk_keeps space given roomy process low (below ⟨some pd, brk⟩ process rfl)

/-- A call whose pages lie below the end of the user half keeps the space. -/
theorem memoryStep_below {limit : Nat} (space : Space state.mmu root kept) (given : pd.pml4 = root)
    (roomy : 2 ^ 47 ≤ limit) (own : OwnedBelow pd limit state) (call : MemoryCall)
    (range : RangesBelow state call) :
    Keeps root kept state (memoryStep state call) ∧ OwnedBelow pd limit (memoryStep state call) := by
  by_cases idle : ∀ process ∈ state.process, process.vmspace = none
  · rw [memoryStep_idle idle]
    exact ⟨Keeps.refl space, own⟩
  · push Not at idle
    obtain ⟨⟨vmspace, brk⟩, current, present⟩ := idle
    obtain ⟨vmspace, rfl⟩ := Option.ne_none_iff_exists'.mp present
    obtain ⟨rfl, low⟩ := own _ current vmspace rfl
    obtain ⟨keeps, next⟩ := memoryStep_owner space given roomy ⟨brk, current, low⟩ call range
    exact ⟨keeps, next.ownedBelow⟩

end Uesi.Syscall
