import Uesi.Proof.Pmm.Supply

namespace Uesi.Pmm

open Library

variable {state : PmmState}

/-- Every tracked page has a physical address of 64 bits. -/
def Addressable (state : PmmState) : Prop := state.totalPages * pageSize ≤ 2 ^ 64

theorem initEntries_totalPages (entries : List MemmapEntry) (state : PmmState) :
    (initEntries entries state).totalPages = state.totalPages := by
  refine run_invariant _ (fun current : PmmState => current.totalPages = state.totalPages)
    (fun current entry same => ?_) state entries rfl
  split
  · unfold forEntryPages
    split
    · refine countedLoop_invariant _ (fun _ (current : PmmState) => current.totalPages = state.totalPages) _ _ same ?_
      intro index before _ held
      unfold initPage
      split
      · exact held
      · exact held
    · exact same
  · exact same

/-- The page count that `pmm_init` sets is an address divided by the page size. -/
theorem Addressable.pmmInit (addressable : Addressable state) (memory : Nat → BitVec 8)
    (memmap : Option (List MemmapEntry)) (hhdm : Option Nat) : Addressable (pmmInit state memory memmap hhdm) := by
  unfold Addressable at *
  unfold Pmm.pmmInit
  split
  · rename_i entries offset
    have below : (surveyMemmap entries state.stats).1 / pageSize * pageSize ≤ 2 ^ 64 :=
      (Nat.div_mul_le_self _ _).trans (surveyMemmap_lt entries state.stats).le
    dsimp only
    split
    · exact below
    · rw [initEntries_totalPages]
      exact below
  · exact addressable

/-- The word scan finds a free page exactly when the bitmap has one, and moves only the hint. -/
theorem findFreePageFast_searches (state : PmmState) (addressable : Addressable state) :
    (∀ page, (findFreePageFast state).1 = some page → page < state.totalPages ∧ bitmapTest state page = false) ∧
      ((findFreePageFast state).1 = none ↔ ∀ page, page < state.totalPages → bitmapTest state page = true) ∧
        ∃ hint, (findFreePageFast state).2 = { state with lastAllocHint := hint } := by
  have fits : state.totalPages + 63 < 2 ^ 64 := by
    unfold Addressable pageSize at addressable
    omega
  obtain missing | ⟨page, inside, clear, found⟩ := findFreePageFast_cases state
  · have none : (findFreePageFast state).1 = none := by rw [missing]
    refine ⟨fun page found => ?_, ⟨fun _ => findFreePageFast_none fits none, fun _ => none⟩, state.lastAllocHint, ?_⟩
    · rw [none] at found
      exact absurd found (by simp)
    · rw [missing]
  · rw [found]
    refine ⟨fun other same => ?_, ⟨fun none => absurd none (by simp), fun full => ?_⟩, page, rfl⟩
    · obtain rfl := Option.some.inj same
      exact ⟨inside, clear⟩
    · rw [full page inside] at clear
      exact absurd clear (by simp)

/-- Eight pages of which the pages 0, 2 and 5 are in use. -/
def eightPages : PmmState where
  bitmap := 4096
  bytes := fun _ => 0x25#8
  totalPages := 8
  freePages := 5
  hhdmOffset := 0xFFFF800000000000

theorem findFreePageFast_searches_eight :
    (∀ page, (findFreePageFast eightPages).1 = some page → page < 8 ∧ bitmapTest eightPages page = false) ∧
      (findFreePageFast eightPages).1 = some 1 :=
  ⟨(findFreePageFast_searches eightPages (by unfold Addressable; decide)).1, by decide +kernel⟩

/-- Taking a run lowers the free count by its length. -/
theorem takeRun_freePages (state : PmmState) (start numPages : Nat) :
    ((countedLoop (fun index current => takePage current (start + index)) numPages state).freePages + numPages) %
      2 ^ 64 = state.freePages % 2 ^ 64 := by
  induction numPages with
  | zero => rfl
  | succ numPages ih =>
      rw [countedLoop_succ, ← ih]
      generalize countedLoop (fun index current => takePage current (start + index)) numPages state = before
      change (sub64 before.freePages 1 + _) % _ = _
      unfold sub64
      omega

/-- A free run is counted. -/
theorem FreeRun.le_count {start numPages : Nat} (run : FreeRun state start numPages) :
    numPages ≤ Nat.count (fun page => bitmapTest state page = false) state.totalPages := by
  have all : Nat.count (fun page => bitmapTest state (start + page) = false) numPages = numPages := by
    rw [Nat.count_iff_forall]
    intro page below
    simpa using run.2 (start + page) (Nat.le_add_right _ _) (by omega)
  calc
    numPages ≤ Nat.count (fun page => bitmapTest state page = false) (start + numPages) := by
      rw [Nat.count_add, all]
      exact Nat.le_add_left _ _
    _ ≤ _ := Nat.count_monotone _ run.1

/-- What the allocation of a run leaves behind. -/
structure TakesRun (state next : PmmState) (start numPages : Nat) : Prop where
  bits : ∀ page, bitmapTest next page = (decide (start ≤ page ∧ page < start + numPages) || bitmapTest state page)
  count : (next.freePages + numPages) % 2 ^ 64 = state.freePages % 2 ^ 64
  exact : Accounted state → next.freePages + numPages = state.freePages

/-- The branch of `pmm_alloc_contiguous` that found a run. -/
theorem pmmAllocContiguous_found {numPages start : Nat} (several : 2 ≤ numPages)
    (found : findFreeContiguous state numPages = some start) (free : FreeRun state start numPages) :
    ∃ next, pmmAllocContiguous state numPages = (pageAddress state start, next) ∧
      TakesRun state next start numPages := by
  obtain ⟨-, bits⟩ := takeRun_spec state start numPages
  have count := takeRun_freePages state start numPages
  have kept := takeRun_accounted state start numPages free.1 fun page low high => by
    simpa using free.2 page low high
  refine ⟨recordAlloc (countedLoop (fun index current => takePage current (start + index)) numPages state) numPages,
    ?_, ⟨bits, count, fun accounted => ?_⟩⟩
  · unfold pmmAllocContiguous pmmAllocContiguousPage
    rw [if_neg (by omega), if_neg (by omega), found]
  · have least := free.le_count
    have bounded := clearCount_lt state
    have bounded' := clearCount_lt (countedLoop (fun index current => takePage current (start + index)) numPages state)
    rw [← kept accounted] at bounded'
    rw [← accounted] at least bounded
    change (countedLoop (fun index current => takePage current (start + index)) numPages state).freePages + _ = _
    omega

/-- The contiguous allocation takes the first free run and returns its address, and it returns `NULL` and changes
nothing exactly when there is none. -/
theorem pmmAllocContiguous_firstFit (state : PmmState) {numPages : Nat} (several : 2 ≤ numPages) :
    (pmmAllocContiguous state numPages = (0, state) ↔ ∀ start, ¬ FreeRun state start numPages) ∧
      ∀ start, FreeRun state start numPages → (∀ first, FreeRun state first numPages → start ≤ first) →
        ∃ next, pmmAllocContiguous state numPages = (pageAddress state start, next) ∧
          TakesRun state next start numPages ∧
            (DirectMapped state → state.hhdmOffset ≠ 0 →
              pageAddress state start = pageAt state start ∧ pageAddress state start ≠ 0) := by
  obtain ⟨missing, none⟩ | ⟨lowest, found, free, least⟩ :=
    findFreeContiguous_cases state (show 1 ≤ numPages by omega)
  · refine ⟨iff_of_true ?_ none, fun start run => absurd run (none start)⟩
    unfold pmmAllocContiguous pmmAllocContiguousPage
    rw [if_neg (by omega), if_neg (by omega), missing]
  · obtain ⟨next, allocated, takes⟩ := pmmAllocContiguous_found several found free
    refine ⟨iff_of_false (fun unchanged => ?_) fun none => none lowest free, fun start run first => ?_⟩
    · -- The run was clear, so the state in which its bits are set is another one.
      obtain rfl : next = state := by
        rw [allocated] at unchanged
        exact (Prod.ext_iff.1 unchanged).2
      have clear : (!bitmapTest next lowest) = true := free.2 lowest le_rfl (by omega)
      rw [takes.bits lowest] at clear
      simp at clear
      omega
    · obtain rfl : start = lowest := (first lowest free).antisymm (least start run)
      refine ⟨next, allocated, takes, fun direct higher => ?_⟩
      have inside : start < state.totalPages := by
        have := run.1
        omega
      refine ⟨direct.pageAddress_eq inside, ?_⟩
      rw [direct.pageAddress_eq inside, pageAt]
      omega

theorem pmmAllocContiguous_firstFit_eight :
    ∃ next, pmmAllocContiguous eightPages 2 = (0xFFFF800000003000, next) ∧ TakesRun eightPages next 3 2 := by
  have free : FreeRun eightPages 3 2 := ⟨by decide, fun page low high => by interval_cases page <;> decide⟩
  have least : ∀ first, FreeRun eightPages first 2 → 3 ≤ first := by
    intro first run
    by_contra low
    have left := run.2 first le_rfl (by omega)
    have right := run.2 (first + 1) (by omega) (by omega)
    obtain rfl | rfl | rfl : first = 0 ∨ first = 1 ∨ first = 2 := by omega
    · exact absurd left (by decide)
    · exact absurd right (by decide)
    · exact absurd left (by decide)
  obtain ⟨next, allocated, takes, -⟩ := (pmmAllocContiguous_firstFit eightPages (le_refl 2)).2 3 free least
  exact ⟨next, allocated, takes⟩

end Uesi.Pmm
