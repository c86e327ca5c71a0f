import Uesi.Proof.Pmm.Accounting

namespace Uesi.Pmm

open Library

/-- The address of a page in the direct map. -/
def pageAt (state : PmmState) (page : Nat) : Nat := state.hhdmOffset + page * pageSize

/-- The direct map of the tracked pages does not reach the end of the address space. -/
def DirectMapped (state : PmmState) : Prop :=
  state.hhdmOffset + state.totalPages * pageSize < 2 ^ 64

variable {state : PmmState}

theorem DirectMapped.pageAddress_eq (direct : DirectMapped state) {page : Nat}
    (inside : page < state.totalPages) : pageAddress state page = pageAt state page := by
  have below : page * pageSize ≤ state.totalPages * pageSize := Nat.mul_le_mul_right _ inside.le
  unfold DirectMapped at direct
  unfold pageAddress pageAt
  rw [Nat.mod_eq_of_lt (by omega), add64_of_lt (by omega), Nat.add_comm]

/-- The physical address of a tracked page. -/
theorem DirectMapped.sub64_pageAt (direct : DirectMapped state) {page : Nat}
    (inside : page < state.totalPages) :
    sub64 (pageAt state page) state.hhdmOffset = page * pageSize := by
  have below : page * pageSize ≤ state.totalPages * pageSize := Nat.mul_le_mul_right _ inside.le
  unfold DirectMapped at direct
  rw [pageAt, Nat.add_comm, ← add64_of_lt (by omega), sub64_add64 _ (by omega)]

/-- The address of a tracked page in the direct map. -/
theorem DirectMapped.add64_page (direct : DirectMapped state) {page : Nat} (inside : page < state.totalPages) :
    add64 (page * pageSize) state.hhdmOffset = pageAt state page := by
  have below : page * pageSize ≤ state.totalPages * pageSize := Nat.mul_le_mul_right _ inside.le
  unfold DirectMapped at direct
  rw [add64_of_lt (by omega), pageAt, Nat.add_comm]

/-- Every address inside a tracked page leads back to the page. -/
theorem DirectMapped.addressPage_eq (direct : DirectMapped state) {page address : Nat}
    (inside : page < state.totalPages) (low : pageAt state page ≤ address)
    (high : address < pageAt state page + pageSize) : addressPage state address = page := by
  unfold DirectMapped at direct
  unfold pageAt at low high
  unfold addressPage
  unfold pageSize at *
  rw [sub64_of_le (by omega) (by omega)]
  omega

/-- The end of a tracked page does not wrap. -/
theorem DirectMapped.page_end (direct : DirectMapped state) {page : Nat} (inside : page < state.totalPages) :
    pageAt state page + pageSize < 2 ^ 64 := by
  unfold DirectMapped at direct
  unfold pageAt
  unfold pageSize at *
  omega

/-- Distinct pages have distinct addresses. -/
theorem pageAt_injective {first second : Nat} (same : pageAt state first = pageAt state second) : first = second := by
  unfold pageAt pageSize at same
  omega

theorem pageAt_congr {first second : PmmState} (layout : SameLayout first second) (page : Nat) :
    pageAt second page = pageAt first page := by
  unfold pageAt
  rw [layout.hhdmOffset]

theorem DirectMapped.congr {first second : PmmState} (direct : DirectMapped first)
    (layout : SameLayout first second) : DirectMapped second := by
  unfold DirectMapped at *
  rw [layout.hhdmOffset, layout.totalPages]
  exact direct

/-- `pmm_alloc` fails, or it takes one page and returns its address. -/
theorem pmmAlloc_cases (state : PmmState) :
    pmmAlloc state = (0, state) ∨
      ∃ page next, pmmAlloc state = (pageAddress state page, next) ∧ Takes state next [page] := by
  have taken := pmmAllocPage_takes state
  obtain missing | ⟨page, _, _, found⟩ := pmmAllocPage_cases state
  · left
    rw [pmmAlloc, missing]
  · right
    rw [found] at taken
    exact ⟨page, _, by rw [pmmAlloc, found], by simpa [runPages] using taken⟩

/-- `pmm_alloc_contiguous` fails, or it takes a run of pages and returns the address of the first. -/
theorem pmmAllocContiguous_cases (state : PmmState) (numPages : Nat) :
    pmmAllocContiguous state numPages = (0, state) ∨
      ∃ start next, pmmAllocContiguous state numPages = (pageAddress state start, next) ∧
        Takes state next (List.range' start numPages) := by
  have taken := pmmAllocContiguousPage_takes state numPages
  unfold pmmAllocContiguous
  cases found : pmmAllocContiguousPage state numPages with
  | mk result next =>
      rw [found] at taken
      cases result with
      | some start => exact Or.inr ⟨start, next, rfl, by simpa [runPages] using taken⟩
      | none =>
          left
          obtain missing | ⟨_, single⟩ | ⟨start, _, _, other⟩ :=
            pmmAllocContiguousPage_cases state numPages
          · rw [missing] at found
            rw [Prod.mk.injEq] at found
            rw [found.2]
          · rw [found] at single
            obtain missing | ⟨page, _, _, other⟩ := pmmAllocPage_cases state
            · rw [missing, Prod.mk.injEq] at single
              rw [single.2]
            · rw [other, Prod.mk.injEq] at single
              exact absurd single.1 (by simp)
          · rw [found, Prod.mk.injEq] at other
            exact absurd other.1 (by simp)

end Uesi.Pmm
