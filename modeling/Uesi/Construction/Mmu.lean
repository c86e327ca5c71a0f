import Uesi.Construction.Pmm
import Uesi.Library.Memory

namespace Uesi.Mmu

open Library Pmm

def pagePresent : BitVec 64 := 1#64 <<< 0

def pageWrite : BitVec 64 := 1#64 <<< 1

def pageUser : BitVec 64 := 1#64 <<< 2

def pageHuge : BitVec 64 := 1#64 <<< 7

def pageNx : BitVec 64 := 1#64 <<< 63

def pageAddrMask : BitVec 64 := 0x000FFFFFFFFFF000#64

def pml4Index (virt : Nat) : Nat := virt / 2 ^ 39 % 512

def pdptIndex (virt : Nat) : Nat := virt / 2 ^ 30 % 512

def pdIndex (virt : Nat) : Nat := virt / 2 ^ 21 % 512

def ptIndex (virt : Nat) : Nat := virt / 2 ^ 12 % 512

/-- This is `page_directory_t`, where a zero `pml4` is a null pointer. -/
structure PageDirectory where
  pml4 : Nat
  physAddr : Nat
  deriving DecidableEq, Repr

/-- The page allocator and the memory that the kernel reaches through the direct map, by kernel
address. -/
structure MmuState where
  pmm : PmmState
  memory : Memory

/-- This is `phys_to_virt`, with the offset of the direct map. -/
def MmuState.physToVirt (state : MmuState) (phys : Nat) : Nat := add64 phys state.pmm.hhdmOffset

def MmuState.virtToPhys (state : MmuState) (virt : Nat) : Nat := sub64 virt state.pmm.hhdmOffset

/-- A read of an entry of a table. -/
def MmuState.entry (state : MmuState) (table index : Nat) : BitVec 64 :=
  load64 state.memory (table + 8 * index)

/-- A write of an entry of a table. -/
def MmuState.setEntry (state : MmuState) (table index : Nat) (value : BitVec 64) : MmuState :=
  { state with memory := store64 state.memory (table + 8 * index) value }

/-- An entry is present. -/
def Present (entry : BitVec 64) : Prop := entry &&& pagePresent ≠ 0

instance (entry : BitVec 64) : Decidable (Present entry) := inferInstanceAs (Decidable (_ ≠ _))

/-- The physical address in an entry. -/
def entryAddress (entry : BitVec 64) : Nat := (entry &&& pageAddrMask).toNat

/-- The table to which an entry points, as a kernel address. -/
def MmuState.child (state : MmuState) (entry : BitVec 64) : Nat := state.physToVirt (entryAddress entry)

/-- An entry with a physical address and flags. -/
def makeEntry (phys : Nat) (flags : BitVec 64) : BitVec 64 := BitVec.ofNat 64 phys ||| flags ||| pagePresent

/-- This is `get_next_level`, where `none` stands for `NULL`. -/
def getNextLevel (state : MmuState) (table index : Nat) (create : Bool) (flags : BitVec 64) :
    Option Nat × MmuState :=
  if Present (state.entry table index) then (some (state.child (state.entry table index)), state)
  else if create = false then (none, state)
  else
    match pmmAlloc state.pmm with
    | (newTable, pmm) =>
        let state := { state with pmm := pmm }
        if newTable = 0 then (none, state)
        else
          let state := { state with memory := memset state.memory newTable 0 pageSize }
          let state := state.setEntry table index (makeEntry (state.virtToPhys newTable) flags)
          (some (state.child (state.entry table index)), state)

/-- The loop of `mmu_create_address_space` that copies the kernel half. -/
def copyKernelHalf (kernelPd : Option PageDirectory) (pml4 : Nat) (state : MmuState) : MmuState :=
  match kernelPd with
  | none => state
  | some kernel =>
      if kernel.pml4 = 0 then state
      else
        countedLoop (fun index current =>
          current.setEntry pml4 (256 + index) (current.entry kernel.pml4 (256 + index))) 256 state

/-- The fields of a directory in memory. -/
def MmuState.storeDirectory (state : MmuState) (address : Nat) (pd : PageDirectory) : MmuState :=
  { state with
    memory := store64 (store64 state.memory address (BitVec.ofNat 64 pd.pml4)) (address + 8)
      (BitVec.ofNat 64 pd.physAddr) }

/-- This is `mmu_create_address_space`, whose answer is the address of the directory and its fields. -/
def mmuCreateAddressSpace (state : MmuState) (kernelPd : Option PageDirectory) :
    Option (Nat × PageDirectory) × MmuState :=
  match pmmAlloc state.pmm with
  | (pd, pmm) =>
      let state := { state with pmm := pmm }
      if pd = 0 then (none, state)
      else
        match pmmAlloc state.pmm with
        | (pml4, pmm) =>
            let state := { state with pmm := pmm }
            if pml4 = 0 then (none, { state with pmm := pmmFree state.pmm pd })
            else
              let state := { state with memory := memset state.memory pml4 0 pageSize }
              let state := copyKernelHalf kernelPd pml4 state
              let directory : PageDirectory := ⟨pml4, state.virtToPhys pml4⟩
              (some (pd, directory), state.storeDirectory pd directory)

def mmuMapPage (state : MmuState) (pd : PageDirectory) (virt phys : Nat) (flags : BitVec 64) :
    Bool × MmuState :=
  if pd.pml4 = 0 then (false, state)
  else
    let virt := alignDown pageSize virt
    let phys := alignDown pageSize phys
    let tableFlags := pageWrite ||| (flags &&& pageUser)
    match getNextLevel state pd.pml4 (pml4Index virt) true tableFlags with
    | (none, state) => (false, state)
    | (some pdpt, state) =>
        match getNextLevel state pdpt (pdptIndex virt) true tableFlags with
        | (none, state) => (false, state)
        | (some pdTable, state) =>
            match getNextLevel state pdTable (pdIndex virt) true tableFlags with
            | (none, state) => (false, state)
            | (some pt, state) => (true, state.setEntry pt (ptIndex virt) (makeEntry phys flags))

/-- The way through the upper three levels that `mmu_unmap_page` and `mmu_get_physical_address` go. -/
def findTable (state : MmuState) (pd : PageDirectory) (virt : Nat) : Option Nat :=
  if pd.pml4 = 0 then none
  else if Present (state.entry pd.pml4 (pml4Index virt)) then
    let pdpt := state.child (state.entry pd.pml4 (pml4Index virt))
    if Present (state.entry pdpt (pdptIndex virt)) then
      let pdTable := state.child (state.entry pdpt (pdptIndex virt))
      if Present (state.entry pdTable (pdIndex virt)) then
        some (state.child (state.entry pdTable (pdIndex virt)))
      else none
    else none
  else none

def mmuUnmapPage (state : MmuState) (pd : PageDirectory) (virt : Nat) : Bool × MmuState :=
  let virt := alignDown pageSize virt
  match findTable state pd virt with
  | none => (false, state)
  | some pt => (true, state.setEntry pt (ptIndex virt) 0)

def mmuGetPhysicalAddress (state : MmuState) (pd : PageDirectory) (virt : Nat) : Nat :=
  let pageOffset := virt % pageSize
  let virt := alignDown pageSize virt
  match findTable state pd virt with
  | none => 0
  | some pt =>
      if Present (state.entry pt (ptIndex virt)) then
        entryAddress (state.entry pt (ptIndex virt)) ||| pageOffset
      else 0

def mmuIsMapped (state : MmuState) (pd : PageDirectory) (virt : Nat) : Bool :=
  mmuGetPhysicalAddress state pd virt ≠ 0

/-- The first loop of `paging_map_range` maps the pages with the given indices, and the answer is the
index of the page that could not be mapped. -/
def mapPages (pd : PageDirectory) (virtBase physBase : Nat) (flags : BitVec 64) :
    List Nat → MmuState → Option Nat × MmuState
  | [], state => (none, state)
  | index :: rest, state =>
      match mmuMapPage state pd (add64 virtBase (index * pageSize)) (add64 physBase (index * pageSize))
        flags with
      | (true, state) => mapPages pd virtBase physBase flags rest state
      | (false, state) => (some index, state)

/-- The loop of `paging_unmap_range`, which ends a failed `paging_map_range` too. -/
def unmapPages (pd : PageDirectory) (virtBase numPages : Nat) (state : MmuState) : MmuState :=
  countedLoop (fun index current => (mmuUnmapPage current pd (add64 virtBase (index * pageSize))).2)
    numPages state

def pagingMapRange (state : MmuState) (pd : PageDirectory) (virtBase physBase numPages : Nat)
    (flags : BitVec 64) : Bool × MmuState :=
  let virtBase := alignDown pageSize virtBase
  let physBase := alignDown pageSize physBase
  match mapPages pd virtBase physBase flags (List.range numPages) state with
  | (none, state) => (true, state)
  | (some index, state) => (false, unmapPages pd virtBase index state)

def pagingUnmapRange (state : MmuState) (pd : PageDirectory) (virtBase numPages : Nat) : MmuState :=
  unmapPages pd (alignDown pageSize virtBase) numPages state

/-- The loop of `paging_protect_range` stops at the first page that it cannot map again. -/
def protectPages (pd : PageDirectory) (virtBase : Nat) (flags : BitVec 64) :
    List Nat → MmuState → Bool × MmuState
  | [], state => (true, state)
  | index :: rest, state =>
      let virt := add64 virtBase (index * pageSize)
      if mmuIsMapped state pd virt = false then protectPages pd virtBase flags rest state
      else
        let phys := mmuGetPhysicalAddress state pd virt
        match mmuUnmapPage state pd virt with
        | (false, state) => (false, state)
        | (true, state) =>
            match mmuMapPage state pd virt phys flags with
            | (false, state) => (false, state)
            | (true, state) => protectPages pd virtBase flags rest state

def pagingProtectRange (state : MmuState) (pd : PageDirectory) (virtBase numPages : Nat)
    (flags : BitVec 64) : Bool × MmuState :=
  protectPages pd (alignDown pageSize virtBase) flags (List.range numPages) state

end Uesi.Mmu
