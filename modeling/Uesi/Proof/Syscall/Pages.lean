import Uesi.Construction.Syscall.Memory
import Uesi.Proof.Mmu.Space

namespace Uesi.Syscall

open Library Pmm Mmu

variable {root : Nat} {kept : Nat → Prop} {pd : PageDirectory}

/-- The address of a page below the end of the user half. -/
structure UserAddress (virt : Nat) : Prop where
  aligned : virt % pageSize = 0
  low : virt < 2 ^ 47

theorem UserAddress.userPage {virt : Nat} (user : UserAddress virt) : UserPage virt := by
  have low := user.low
  unfold UserPage PageBelow pml4Index
  omega

/-- The pages of an aligned range that ends in the user half. -/
theorem userAddress_of_range {start count index : Nat} (aligned : start % pageSize = 0)
    (range : start + count * pageSize ≤ 2 ^ 47) (inside : index < count) :
    add64 start (index * pageSize) = start + index * pageSize ∧
      UserAddress (start + index * pageSize) := by
  refine ⟨add64_of_lt ?_, ?_, ?_⟩ <;> unfold pageSize at * <;> omega

/-- A call keeps the space and the kept memory, and it frees only pages without kept addresses. -/
structure Keeps (root : Nat) (kept : Nat → Prop) (before after : CallState) : Prop where
  space : Space after.mmu root kept
  layout : SameLayout before.mmu.pmm after.mmu.pmm
  memory : ∀ address, kept address → after.mmu.memory address = before.mmu.memory address
  freed : ∀ address ∈ after.freed, address ∈ before.freed ∨
    ∃ page, page < before.mmu.pmm.totalPages ∧ address = pageAt before.mmu.pmm page ∧
      ∀ other, InPage before.mmu.pmm page other → ¬ kept other

/-- The part of a call that works on the pages leaves the process alone. -/
structure PageStep (root : Nat) (kept : Nat → Prop) (before after : CallState) : Prop
    extends Keeps root kept before after where
  process : after.process = before.process

variable {state : CallState}

theorem Keeps.refl (space : Space state.mmu root kept) : Keeps root kept state state where
  space := space
  layout := SameLayout.refl _
  memory _ _ := rfl
  freed _ member := Or.inl member

theorem Keeps.trans {first second third : CallState} (earlier : Keeps root kept first second)
    (later : Keeps root kept second third) : Keeps root kept first third where
  space := later.space
  layout := earlier.layout.trans later.layout
  memory address keep := (later.memory address keep).trans (earlier.memory address keep)
  freed address member := by
    obtain old | ⟨page, tracked, equal, unkept⟩ := later.freed address member
    · exact earlier.freed address old
    · rw [earlier.layout.totalPages] at tracked
      rw [pageAt_congr earlier.layout] at equal
      refine Or.inr ⟨page, tracked, equal, fun other inside => unkept other ?_⟩
      unfold InPage at *
      rwa [pageAt_congr earlier.layout]

theorem PageStep.refl (space : Space state.mmu root kept) : PageStep root kept state state :=
  ⟨Keeps.refl space, rfl⟩

theorem PageStep.trans {first second third : CallState} (earlier : PageStep root kept first second)
    (later : PageStep root kept second third) : PageStep root kept first third :=
  ⟨earlier.toKeeps.trans later.toKeeps, later.process.trans earlier.process⟩

/-- An update of the tables that only grows them. -/
theorem PageStep.setMmu {next : MmuState} (before : Space state.mmu root kept)
    (space : Space next root kept) (grows : Grows state.mmu next root) :
    PageStep root kept state (state.setMmu next) where
  space := space
  layout := grows.layout
  memory address keep := (grows.quiet address (before.keeps address keep)).2
  freed _ member := Or.inl member
  process := rfl

/-- The release of an available page. -/
theorem PageStep.free (space : Space state.mmu root kept) {page : Nat}
    (available : Available state.mmu root kept page) :
    PageStep root kept state (state.free (pageAt state.mmu.pmm page)) where
  space := (space.free available).1
  layout := (space.free available).2
  memory _ _ := rfl
  freed address member := by
    obtain rfl | old := List.mem_cons.mp member
    · exact Or.inr ⟨page, available.tracked, rfl, available.unkept⟩
    · exact Or.inl old
  process := rfl

/-- The direct-map address of a tracked page. -/
theorem direct_eq (space : Space state.mmu root kept) {page : Nat}
    (tracked : page < state.mmu.pmm.totalPages) :
    state.direct (page * pageSize) = pageAt state.mmu.pmm page := space.direct.add64_page tracked

theorem pagingUnmapRange_one (mmu : MmuState) {virt : Nat} (user : UserAddress virt) :
    pagingUnmapRange mmu pd virt 1 = (mmuUnmapPage mmu pd virt).2 := by
  have low := user.low
  unfold pagingUnmapRange unmapPages
  rw [countedLoop_succ, countedLoop_zero, alignDown_of_aligned user.aligned, Nat.zero_mul,
    add64_of_lt (by omega), Nat.add_zero]

theorem pagingMapRange_one (mmu : MmuState) {virt phys : Nat} {flags : BitVec 64}
    (user : UserAddress virt) (physAligned : phys % pageSize = 0) (small : phys < 2 ^ 64) :
    pagingMapRange mmu pd virt phys 1 flags = mmuMapPage mmu pd virt phys flags := by
  have low := user.low
  unfold pagingMapRange
  rw [alignDown_of_aligned user.aligned, alignDown_of_aligned physAligned]
  cases step : mmuMapPage mmu pd virt phys flags with
  | mk ok next =>
      have loop : mapPages pd virt phys flags (List.range 1) mmu =
          (if ok = true then none else some 0, next) := by
        change mapPages pd virt phys flags [0] mmu = _
        rw [mapPages, Nat.zero_mul, add64_of_lt (by omega), add64_of_lt (by omega), Nat.add_zero,
          Nat.add_zero, step]
        cases ok <;> rfl
      dsimp only
      rw [loop]
      cases ok <;> rfl

/-- The page of a mapped address is unmapped, and its frame is freed. -/
theorem PageStep.unmapFree (space : Space state.mmu root kept) (given : pd.pml4 = root) {virt : Nat}
    (user : UserAddress virt) {entry : BitVec 64} (mapped : leaf state.mmu root virt = some entry) :
    PageStep root kept state
      ((state.setMmu (pagingUnmapRange state.mmu pd virt 1)).free (state.direct (entryAddress entry))) := by
  obtain ⟨unmapped, grows, available⟩ := space.unmapPage given user.userPage
  obtain ⟨page, free, address⟩ := available entry mapped
  have tracked : page < state.mmu.pmm.totalPages := by
    rw [← grows.layout.totalPages]
    exact free.tracked
  have cleared := PageStep.setMmu space unmapped grows
  have freed := PageStep.free cleared.space free
  rw [address, direct_eq space tracked, pagingUnmapRange_one _ user]
  have same : pageAt (state.setMmu (mmuUnmapPage state.mmu pd virt).2).mmu.pmm page =
      pageAt state.mmu.pmm page := pageAt_congr grows.layout page
  rw [same] at freed
  exact cleared.trans freed

/-- One iteration of a clean-up loop. -/
theorem PageStep.releasePage (space : Space state.mmu root kept) (given : pd.pml4 = root) {virt : Nat}
    (user : UserAddress virt) : PageStep root kept state (releasePage pd virt state) := by
  unfold Syscall.releasePage
  rw [mmuGetPhysicalAddress_eq given space.nonzero user.aligned]
  cases mapped : leaf state.mmu root virt with
  | none => exact PageStep.refl space
  | some entry =>
      dsimp only
      split
      · exact PageStep.unmapFree space given user mapped
      · exact PageStep.refl space

/-- One iteration of the loop of `sys_munmap`. -/
theorem PageStep.munmapPage (space : Space state.mmu root kept) (given : pd.pml4 = root) {virt : Nat}
    (user : UserAddress virt) : PageStep root kept state (munmapPage pd virt state) := by
  obtain ⟨unmapped, grows, _⟩ := space.unmapPage given user.userPage
  have cleared : PageStep root kept state (state.setMmu (pagingUnmapRange state.mmu pd virt 1)) := by
    rw [pagingUnmapRange_one _ user]
    exact PageStep.setMmu space unmapped grows
  have direct : ∀ phys, (state.setMmu (pagingUnmapRange state.mmu pd virt 1)).direct phys =
      state.direct phys := by
    intro phys
    unfold CallState.direct
    rw [cleared.layout.hhdmOffset]
  unfold Syscall.munmapPage
  rw [mmuGetPhysicalAddress_eq given space.nonzero user.aligned]
  cases mapped : leaf state.mmu root virt with
  | none => exact cleared
  | some entry =>
      dsimp only
      split
      · rw [direct]
        exact PageStep.unmapFree space given user mapped
      · exact cleared

/-- An allocation of a cleared page and its mapping. -/
theorem PageStep.mapFreshPage (space : Space state.mmu root kept) (given : pd.pml4 = root) {virt : Nat}
    (user : UserAddress virt) {flags : BitVec 64} (clear : flags &&& pageAddrMask = 0) :
    PageStep root kept state (mapFreshPage pd virt flags state).2 := by
  unfold Syscall.mapFreshPage
  obtain failed | ⟨page, pmm, succeeded, taken⟩ := pmmAlloc_cases state.mmu.pmm
  · rw [failed]
    dsimp only
    rw [if_pos rfl]
    exact PageStep.refl space
  · obtain ⟨inside, _⟩ := taken.clear page (by simp)
    rw [succeeded, space.direct.pageAddress_eq inside]
    dsimp only
    by_cases null : pageAt state.mmu.pmm page = 0
    · rw [if_pos null]
      have same : ∀ address, address < pageAt state.mmu.pmm page ∨
          pageAt state.mmu.pmm page + pageSize ≤ address →
          state.mmu.memory address = state.mmu.memory address := fun _ _ => rfl
      obtain ⟨fresh, _, grows⟩ := space.fresh taken same
      exact PageStep.setMmu space fresh grows
    · rw [if_neg null]
      obtain ⟨fresh, available, grows⟩ := space.fresh taken fun address outside =>
        memset_of_outside 0 outside
      have small : page * pageSize < 2 ^ 64 := by
        have below : page * pageSize < state.mmu.pmm.totalPages * pageSize :=
          Nat.mul_lt_mul_of_pos_right inside (by decide)
        have physical := space.physical
        omega
      have cleared := PageStep.setMmu space fresh grows
      obtain ⟨ok, next, step, mapped, mapGrows, unmapped, _⟩ :=
        fresh.mapPage available given user.userPage clear
      have phys : sub64 (pageAt state.mmu.pmm page) pmm.hhdmOffset = page * pageSize := by
        rw [taken.layout.hhdmOffset, space.direct.sub64_pageAt inside]
      have loop := pagingMapRange_one
        ⟨pmm, memset state.mmu.memory (pageAt state.mmu.pmm page) 0 pageSize⟩ user
        (Nat.mul_mod_left page pageSize) small |>.trans step
      have done := cleared.trans (PageStep.setMmu cleared.space mapped mapGrows)
      dsimp only [CallState.setMmu]
      rw [phys, loop]
      cases ok with
      | true => exact done
      | false =>
          have freed := PageStep.free done.space (unmapped rfl)
          have address : pageAt next.pmm page = pageAt state.mmu.pmm page :=
            pageAt_congr (grows.layout.trans mapGrows.layout) page
          change PageStep root kept _ (CallState.free _ (pageAt next.pmm page)) at freed
          rw [address] at freed
          exact done.trans freed

end Uesi.Syscall
