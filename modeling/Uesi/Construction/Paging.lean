import Uesi.Construction.Mmu

namespace Uesi.Mmu

open Library Pmm

/-- The machine with the addresses that were given to `pmm_free`, in order. -/
structure Teardown where
  state : MmuState
  freed : List Nat

/-- A call of `pmm_free`. -/
def Teardown.free (current : Teardown) (address : Nat) : Teardown where
  state := { current.state with pmm := pmmFree current.state.pmm address }
  freed := current.freed ++ [address]

/-- The test for `PAGE_HUGE` in the middle levels. -/
def isHuge (entry : BitVec 64) : Bool := entry &&& pageHuge ≠ 0

/-- A loop over the entries of a table, which frees what is below a present entry and then the page to which it
points. -/
def freeEntries (skips : BitVec 64 → Bool) (freeBelow : Nat → Teardown → Teardown) (count table : Nat)
    (start : Teardown) : Teardown :=
  countedLoop (fun index current =>
    let entry := current.state.entry table index
    if Present entry ∧ skips entry = false then
      let child := current.state.child entry
      (freeBelow child current).free child
    else current) count start

/-- This is `mmu_destroy_address_space` of the directory at an address. -/
def mmuDestroyAddressSpace (start : Teardown) (address : Nat) (pd : PageDirectory) : Teardown :=
  if pd.pml4 = 0 then start
  else
    let freeTables := freeEntries isHuge (fun _ current => current) 512
    let freeDirectories := freeEntries isHuge freeTables 512
    ((freeEntries (fun _ => false) freeDirectories 256 pd.pml4 start).free pd.pml4).free address

def pagingFreeUserPages (start : Teardown) (pd : PageDirectory) : Teardown :=
  if pd.pml4 = 0 then start
  else
    let freePages := freeEntries (fun _ => false) (fun _ current => current) 512
    let freeTables := freeEntries isHuge freePages 512
    let freeDirectories := freeEntries isHuge freeTables 512
    countedLoop (fun index current =>
      let entry := current.state.entry pd.pml4 index
      if Present entry then
        let pdpt := current.state.child entry
        let current := (freeDirectories pdpt current).free pdpt
        { current with state := current.state.setEntry pd.pml4 index 0 }
      else current) 256 start

end Uesi.Mmu
