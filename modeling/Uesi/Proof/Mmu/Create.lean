import Uesi.Proof.Mmu.Kernel

namespace Uesi.Mmu

open Library Pmm

/-- The direct map starts at a page, it covers the tracked pages, and their addresses have 52 bits. -/
structure Booted (pmm : PmmState) : Prop where
  direct : DirectMapped pmm
  offset : pmm.hhdmOffset % pageSize = 0
  physical : pmm.totalPages * pageSize ≤ 2 ^ 52

theorem Booted.congr {first second : PmmState} (booted : Booted first) (layout : SameLayout first second) :
    Booted second where
  direct := booted.direct.congr layout
  offset := by
    rw [layout.hhdmOffset]
    exact booted.offset
  physical := by
    rw [layout.totalPages]
    exact booted.physical

/-- The number of entries that are empty in a new directory: all of them, or the user half if there is a kernel
directory to copy from. -/
def emptyEntries (kernelPd : Option PageDirectory) : Nat := if kernelPd.isNone then 512 else 256

theorem emptyEntries_bounds (kernelPd : Option PageDirectory) :
    256 ≤ emptyEntries kernelPd ∧ emptyEntries kernelPd ≤ 512 := by
  unfold emptyEntries
  split
  all_goals omega

/-- The copy of the kernel half writes to the upper half of the new table only. -/
theorem copyKernelHalf_frame (kernelPd : Option PageDirectory) (pml4 : Nat) (state : MmuState) :
    (copyKernelHalf kernelPd pml4 state).pmm = state.pmm ∧
      ∀ address, address < pml4 + 8 * emptyEntries kernelPd ∨ pml4 + pageSize ≤ address →
        (copyKernelHalf kernelPd pml4 state).memory address = state.memory address := by
  unfold copyKernelHalf
  cases kernelPd with
  | none => exact ⟨rfl, fun _ _ => rfl⟩
  | some kernel =>
      rw [show 8 * emptyEntries (some kernel) = 2048 from rfl]
      dsimp only
      split
      · exact ⟨rfl, fun _ _ => rfl⟩
      · apply countedLoop_invariant _ (fun _ (current : MmuState) => current.pmm = state.pmm ∧
          ∀ address, address < pml4 + 2048 ∨ pml4 + pageSize ≤ address →
            current.memory address = state.memory address)
        · exact ⟨rfl, fun _ _ => rfl⟩
        · intro index current inside held
          refine ⟨held.1, fun address outside => ?_⟩
          rw [← held.2 address outside]
          apply store64_of_outside
          unfold pageSize at outside
          omega

/-- The result of `mmu_create_address_space` on two fresh pages. -/
structure Created (state next : MmuState) (address : Nat) (pd : PageDirectory) (first second : Nat) :
    Prop where
  taken : Takes state.pmm next.pmm [first, second]
  different : first ≠ second
  structAt : address = pageAt state.pmm first
  rootAt : pd.pml4 = pageAt state.pmm second
  nonzero : pd.pml4 ≠ 0
  empty : EmptyUserHalf next pd.pml4
  frame : ∀ other, ¬ InPage state.pmm first other → ¬ InPage state.pmm second other →
    next.memory other = state.memory other

section Creation

variable {state next : MmuState} {kernelPd : Option PageDirectory} {address : Nat} {pd : PageDirectory}

/-- A directory that `mmu_create_address_space` returns is empty up to the entries that it copied. -/
theorem mmuCreateAddressSpace_empty (booted : Booted state.pmm)
    (created : mmuCreateAddressSpace state kernelPd = (some (address, pd), next)) :
    ∃ first second, Created state next address pd first second ∧
      EmptyBelow (emptyEntries kernelPd) next pd.pml4 := by
  unfold mmuCreateAddressSpace at created
  obtain failed | ⟨first, pmm, succeeded, taken⟩ := pmmAlloc_cases state.pmm
  · rw [failed] at created
    exact absurd created (by simp)
  rw [succeeded] at created
  dsimp only at created
  split at created
  · exact absurd created (by simp)
  obtain failed | ⟨second, last, again, more⟩ := pmmAlloc_cases pmm
  · rw [failed] at created
    exact absurd created (by simp)
  rw [again] at created
  dsimp only at created
  split at created
  · exact absurd created (by simp)
  rename_i nonzero
  rw [Prod.mk.injEq, Option.some.injEq, Prod.mk.injEq] at created
  obtain ⟨⟨rfl, rfl⟩, rfl⟩ := created
  have firstInside := (taken.clear first (by simp)).1
  obtain ⟨secondInside, secondClear⟩ := more.clear second (by simp)
  rw [taken.layout.totalPages] at secondInside
  have different : first ≠ second := by
    rintro rfl
    rw [(taken.bits first).mpr (Or.inr (by simp))] at secondClear
    exact absurd secondClear (by simp)
  have firstAt := booted.direct.pageAddress_eq firstInside
  have secondAt : pageAddress pmm second = pageAt state.pmm second := by
    rw [(booted.direct.congr taken.layout).pageAddress_eq (by rwa [taken.layout.totalPages]),
      pageAt_congr taken.layout]
  rw [secondAt] at nonzero
  rw [firstAt, secondAt]
  have copied := copyKernelHalf_frame kernelPd (pageAt state.pmm second)
    ⟨last, memset state.memory (pageAt state.pmm second) 0 pageSize⟩
  generalize copyKernelHalf kernelPd (pageAt state.pmm second)
    ⟨last, memset state.memory (pageAt state.pmm second) 0 pageSize⟩ = middle at copied ⊢
  obtain ⟨pmmSame, memorySame⟩ := copied
  have stored : ∀ pd other, ¬ InPage state.pmm first other →
      (middle.storeDirectory (pageAt state.pmm first) pd).memory other = middle.memory other := by
    intro pd other outside
    unfold InPage pageSize at outside
    unfold MmuState.storeDirectory
    dsimp only
    rw [store64_of_outside _ (by omega), store64_of_outside _ (by omega)]
  have bounds := emptyEntries_bounds kernelPd
  have empty : EmptyBelow (emptyEntries kernelPd) (middle.storeDirectory (pageAt state.pmm first)
      ⟨pageAt state.pmm second, middle.virtToPhys (pageAt state.pmm second)⟩) (pageAt state.pmm second) := by
    intro index lower
    have zero : MmuState.entry (middle.storeDirectory (pageAt state.pmm first)
        ⟨pageAt state.pmm second, middle.virtToPhys (pageAt state.pmm second)⟩)
        (pageAt state.pmm second) index = 0 := by
      have cleared : load64 (memset state.memory (pageAt state.pmm second) 0 pageSize)
          (pageAt state.pmm second + 8 * index) = 0 :=
        load64_memset_zero (by omega) (by unfold pageSize; omega)
      rw [← cleared]
      apply load64_congr
      intro offset small
      rw [stored, memorySame _ (by omega)]
      intro inside
      exact different (inside.unique ⟨by omega, by unfold pageSize; omega⟩)
    rw [zero]
    exact not_present_zero
  refine ⟨first, second, ⟨?_, different, rfl, rfl, nonzero, fun index lower => empty index (by omega), ?_⟩, empty⟩
  · change Takes state.pmm middle.pmm [first, second]
    rw [pmmSame]
    exact taken.trans more
  · intro other notFirst notSecond
    rw [stored _ other notFirst]
    unfold InPage at notSecond
    unfold pageSize at notSecond
    rw [memorySame other (by unfold pageSize; omega)]
    exact memset_of_outside 0 (by unfold pageSize; omega)

/-- A directory that `mmu_create_address_space` returns has an empty user half. -/
theorem mmuCreateAddressSpace_created (booted : Booted state.pmm)
    (created : mmuCreateAddressSpace state kernelPd = (some (address, pd), next)) :
    ∃ first second, Created state next address pd first second := by
  obtain ⟨first, second, fresh, _⟩ := mmuCreateAddressSpace_empty booted created
  exact ⟨first, second, fresh⟩

end Creation

end Uesi.Mmu
