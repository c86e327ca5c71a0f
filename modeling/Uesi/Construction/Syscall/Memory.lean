import Uesi.Construction.Errno
import Uesi.Construction.Mmu

namespace Uesi.Syscall

open Library Pmm Mmu

def protWrite : BitVec 32 := 0x02

def protExec : BitVec 32 := 0x04

def mapShared : BitVec 32 := 0x0001

def mapPrivate : BitVec 32 := 0x0002

def mapFixed : BitVec 32 := 0x0010

def mapAnonymous : BitVec 32 := 0x1000

def userSpaceStart : Nat := 0x400000

def userSpaceEnd : Nat := 0x7FFFFFFFFFFF

def userCodeBase : Nat := 0x400000

def userStackTop : Nat := 0x7FFFFFFFF000

def processUserStackSize : Nat := 2 * 1024 * 1024

def isUserAddress (addr : Nat) : Prop := userSpaceStart ≤ addr ∧ addr < userSpaceEnd

instance (addr : Nat) : Decidable (isUserAddress addr) := inferInstanceAs (Decidable (_ ∧ _))

/-- The memory fields of `struct process`, where `none` stands for a null `ps_vmspace`. -/
structure Process where
  vmspace : Option PageDirectory
  brk : Nat

/-- The state of the memory calls: the tables and the page allocator, the addresses passed to
`pmm_free` so far, and the process of the current thread. -/
structure CallState where
  mmu : MmuState
  freed : List Nat := []
  process : Option Process

/-- A call of `pmm_free`. -/
def CallState.free (state : CallState) (address : Nat) : CallState :=
  { state with
    mmu := { state.mmu with pmm := pmmFree state.mmu.pmm address }
    freed := address :: state.freed }

/-- An update of the tables. -/
def CallState.setMmu (state : CallState) (mmu : MmuState) : CallState := { state with mmu := mmu }

/-- An update of the program break. -/
def CallState.setBrk (state : CallState) (process : Process) (brk : Nat) : CallState :=
  { state with process := some { process with brk := brk } }

/-- The page flags that `sys_mmap` and `sys_mprotect` compute from the protection. -/
def protFlags (prot : BitVec 32) : BitVec 64 :=
  let pageFlags := pagePresent ||| pageUser
  let pageFlags := if prot &&& protWrite ≠ 0 then pageFlags ||| pageWrite else pageFlags
  if prot &&& protExec = 0 then pageFlags ||| pageNx else pageFlags

/-- The direct-map address of a physical address. -/
def CallState.direct (state : CallState) (phys : Nat) : Nat := add64 phys state.mmu.pmm.hhdmOffset

/-- One iteration of a clean-up loop: a mapped page is unmapped and its frame freed. -/
def releasePage (pd : PageDirectory) (virt : Nat) (state : CallState) : CallState :=
  let phys := mmuGetPhysicalAddress state.mmu pd virt
  if phys ≠ 0 then
    (state.setMmu (pagingUnmapRange state.mmu pd virt 1)).free (state.direct phys)
  else state

/-- An allocation of a cleared page and its mapping at an address, where `false` stands for a failure
of either. -/
def mapFreshPage (pd : PageDirectory) (virt : Nat) (flags : BitVec 64) (state : CallState) :
    Bool × CallState :=
  match pmmAlloc state.mmu.pmm with
  | (pageVirt, pmm) =>
      let state := state.setMmu { state.mmu with pmm := pmm }
      if pageVirt = 0 then (false, state)
      else
        let state := state.setMmu { state.mmu with memory := memset state.mmu.memory pageVirt 0 pageSize }
        let physPage := sub64 pageVirt state.mmu.pmm.hhdmOffset
        match pagingMapRange state.mmu pd virt physPage 1 flags with
        | (true, mmu) => (true, state.setMmu mmu)
        | (false, mmu) => (false, (state.setMmu mmu).free pageVirt)

/-- The loop of `sys_mmap`, whose answer is the index of the page that failed. -/
def mmapPages (pd : PageDirectory) (virtAddr : Nat) (flags : BitVec 64) :
    List Nat → CallState → Option Nat × CallState
  | [], state => (none, state)
  | index :: rest, state =>
      match mapFreshPage pd (add64 virtAddr (index * pageSize)) flags state with
      | (true, state) => mmapPages pd virtAddr flags rest state
      | (false, state) => (some index, state)

/-- The clean-up loop of `sys_mmap`. -/
def mmapCleanup (pd : PageDirectory) (virtAddr count : Nat) (state : CallState) : CallState :=
  countedLoop (fun index => releasePage pd (add64 virtAddr (index * pageSize))) count state

/-- The address at which `sys_mmap` maps, where `none` stands for a rejected fixed address. -/
def mmapAddress (brk addr : Nat) (flags : BitVec 32) : Option Nat :=
  if flags &&& mapFixed ≠ 0 then
    if isUserAddress addr then some (alignDown pageSize addr) else none
  else
    let virtAddr := alignUp64 pageSize brk
    if addr ≠ 0 ∧ isUserAddress addr ∧ virtAddr ≤ alignDown pageSize addr then
      some (alignDown pageSize addr)
    else some virtAddr

def sysMmap (state : CallState) (addr length : Nat) (prot flags : BitVec 32) :
    Except Errno Nat × CallState :=
  match state.process with
  | none => (.error .einval, state)
  | some process =>
      match process.vmspace with
      | none => (.error .einval, state)
      | some pd =>
          if length = 0 then (.error .einval, state)
          else if flags &&& mapAnonymous = 0 then (.error .einval, state)
          else if flags &&& mapShared = 0 ∧ flags &&& mapPrivate = 0 then (.error .einval, state)
          else
            let alignedLength := alignUp64 pageSize length
            let numPages := alignedLength / pageSize
            match mmapAddress process.brk addr flags with
            | none => (.error .einval, state)
            | some virtAddr =>
                match mmapPages pd virtAddr (protFlags prot) (List.range numPages) state with
                | (some index, state) => (.error .enomem, mmapCleanup pd virtAddr index state)
                | (none, state) =>
                    if process.brk < add64 virtAddr alignedLength then
                      (.ok virtAddr, state.setBrk process (add64 virtAddr alignedLength))
                    else (.ok virtAddr, state)

/-- One iteration of the loop of `sys_munmap`. -/
def munmapPage (pd : PageDirectory) (virt : Nat) (state : CallState) : CallState :=
  let phys := mmuGetPhysicalAddress state.mmu pd virt
  let state := state.setMmu (pagingUnmapRange state.mmu pd virt 1)
  if phys ≠ 0 then state.free (state.direct phys) else state

def sysMunmap (state : CallState) (addr length : Nat) : Except Errno Nat × CallState :=
  match state.process with
  | none => (.error .esrch, state)
  | some process =>
      match process.vmspace with
      | none => (.error .esrch, state)
      | some pd =>
          if ¬ isUserAddress addr ∨ length = 0 then (.error .einval, state)
          else
            let virtAddr := alignDown pageSize addr
            let numPages := alignUp64 pageSize length / pageSize
            (.ok 0, countedLoop (fun index => munmapPage pd (add64 virtAddr (index * pageSize)))
              numPages state)

def sysMprotect (state : CallState) (addr len : Nat) (prot : BitVec 32) :
    Except Errno Nat × CallState :=
  match state.process with
  | none => (.error .esrch, state)
  | some process =>
      match process.vmspace with
      | none => (.error .esrch, state)
      | some pd =>
          if ¬ isUserAddress addr ∨ len = 0 then (.error .einval, state)
          else
            let virtAddr := alignDown pageSize addr
            let numPages := alignUp64 pageSize len / pageSize
            match pagingProtectRange state.mmu pd virtAddr numPages (protFlags prot) with
            | (true, mmu) => (.ok 0, state.setMmu mmu)
            | (false, mmu) => (.error .enomem, state.setMmu mmu)

/-- The expanding loop of `sys_brk`, where `false` stands for a failure. -/
def brkGrow (pd : PageDirectory) (oldPage : Nat) : List Nat → CallState → Bool × CallState
  | [], state => (true, state)
  | index :: rest, state =>
      let currentPage := oldPage + index * pageSize
      if mmuGetPhysicalAddress state.mmu pd currentPage = 0 then
        match mapFreshPage pd currentPage (pagePresent ||| pageWrite ||| pageUser) state with
        | (true, state) => brkGrow pd oldPage rest state
        | (false, state) => (false, state)
      else brkGrow pd oldPage rest state

/-- The break from which `sys_brk` starts. -/
def initialBrk (brk : Nat) : Nat :=
  if brk = 0 then alignDown pageSize (userCodeBase + 0x100000) else brk

def sysBrk (state : CallState) (addr : Nat) : Except Errno Nat × CallState :=
  match state.process with
  | none => (.error .esrch, state)
  | some process =>
      match process.vmspace with
      | none => (.error .esrch, state)
      | some pd =>
          if addr = 0 then (.ok process.brk, state)
          else if ¬ isUserAddress addr ∨ addr < userCodeBase ∨
              userStackTop - processUserStackSize ≤ addr then (.error .enomem, state)
          else
            let oldBrk := initialBrk process.brk
            let state := state.setBrk process oldBrk
            if addr = oldBrk then (.ok oldBrk, state)
            else
              let oldPage := alignUp64 pageSize oldBrk
              let newPage := alignUp64 pageSize addr
              if oldBrk < addr then
                match brkGrow pd oldPage (List.range ((newPage - oldPage) / pageSize)) state with
                | (true, state) => (.ok addr, state.setBrk process addr)
                | (false, state) => (.error .enomem, state)
              else
                let state := countedLoop (fun index => releasePage pd (newPage + index * pageSize))
                  ((oldPage - newPage) / pageSize) state
                (.ok addr, state.setBrk process addr)

end Uesi.Syscall
