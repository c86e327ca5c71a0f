import Uesi.Proof.Mmu.Kernel
import Uesi.Proof.Syscall.Calls

namespace Uesi.Syscall

open Library Pmm Mmu

/-- The break of a process in the user half does not restrict `sys_brk`. -/
theorem EndsInUserHalf.rangesBelow {pd : PageDirectory} {state : CallState} {call : MemoryCall}
    (ends : EndsInUserHalf state call) (own : OwnedBelow pd (2 ^ 47) state) : RangesBelow state call := by
  refine ⟨ends, ?_⟩
  cases call with
  | brk addr =>
      intro process member present _ _
      obtain ⟨vmspace, found⟩ := Option.isSome_iff_exists.mp present
      refine (alignUp64_le ?_).2
      unfold initialBrk
      split
      · decide
      · exact (own process member vmspace found).2
  | _ => trivial

/-- An allocator over 32 pages, the first six of which are in use. -/
def smallPmm : PmmState where
  bytes byte := if byte = 0 then 0x3F#8 else 0#8
  totalPages := 32
  freePages := 26
  usablePages := 32
  bitmapSize := 4
  hhdmOffset := 0xFFFF888000000000

/-- Tables on the pages 1 to 4 that map the page 0xFFFF800000000000 of the kernel half to the frame 5. -/
def smallMmu : MmuState :=
  (((({ pmm := smallPmm, memory := fun _ => 0 } : MmuState).setEntry (pageAt smallPmm 1) 256
    (makeEntry (2 * pageSize) pageWrite)).setEntry (pageAt smallPmm 2) 0
    (makeEntry (3 * pageSize) pageWrite)).setEntry (pageAt smallPmm 3) 0
    (makeEntry (4 * pageSize) pageWrite)).setEntry (pageAt smallPmm 4) 0
    (makeEntry (5 * pageSize) pageWrite)

/-- The address space of the small tables. -/
def smallDirectory : PageDirectory := ⟨pageAt smallPmm 1, pageSize⟩

/-- A process with the small tables and without mappings. -/
def smallState : CallState where
  mmu := smallMmu
  process := some ⟨some smallDirectory, 0⟩

theorem smallMmu_entry {table index : Nat} (aligned : table % pageSize = 0) (inside : index < 512) :
    smallMmu.entry table index =
      if table = pageAt smallPmm 4 ∧ index = 0 then makeEntry (5 * pageSize) pageWrite
      else if table = pageAt smallPmm 3 ∧ index = 0 then makeEntry (4 * pageSize) pageWrite
      else if table = pageAt smallPmm 2 ∧ index = 0 then makeEntry (3 * pageSize) pageWrite
      else if table = pageAt smallPmm 1 ∧ index = 256 then makeEntry (2 * pageSize) pageWrite
      else 0 := by
  have blank : load64 (fun _ => 0) (table + 8 * index) = 0 := by
    unfold load64
    dsimp only
    decide
  unfold smallMmu
  rw [entry_setEntry _ _ (by decide) aligned (by decide) inside,
    entry_setEntry _ _ (by decide) aligned (by decide) inside,
    entry_setEntry _ _ (by decide) aligned (by decide) inside,
    entry_setEntry _ _ (by decide) aligned (by decide) inside]
  unfold MmuState.entry
  rw [blank]

/-- The index that leads on from the table on a page. -/
def smallIndex (level : Nat) : Nat := if level = 1 then 256 else 0

theorem smallMmu_table {level index : Nat} (low : 1 ≤ level) (high : level ≤ 4) (inside : index < 512) :
    smallMmu.entry (pageAt smallPmm level) index =
      if index = smallIndex level then makeEntry ((level + 1) * pageSize) pageWrite else 0 := by
  rw [smallMmu_entry (pageAt_aligned (by decide) level) inside]
  interval_cases level <;> simp [pageAt, pageSize, smallIndex]

theorem smallMmu_child : ∀ level, level ≤ 3 →
    smallMmu.child (makeEntry ((level + 1) * pageSize) pageWrite) = pageAt smallPmm (level + 1) := by
  decide

theorem smallMmu_present : ∀ level, level ≤ 3 → Branch (makeEntry ((level + 1) * pageSize) pageWrite) := by
  decide

/-- The addresses and the entries along a path, level by level. -/
theorem smallMmu_cells_cons {level index : Nat} (rest : List Nat) (low : 1 ≤ level) (high : level ≤ 3)
    (inside : index < 512) :
    (index ≠ smallIndex level ∧ smallMmu.entry (pageAt smallPmm level) index = 0 ∧
      cells smallMmu (index :: rest) (pageAt smallPmm level) = [pageAt smallPmm level + 8 * index]) ∨
    (smallMmu.entry (pageAt smallPmm level) index = makeEntry ((level + 1) * pageSize) pageWrite ∧
      cells smallMmu (index :: rest) (pageAt smallPmm level) =
        (pageAt smallPmm level + 8 * index) :: cells smallMmu rest (pageAt smallPmm (level + 1))) := by
  have blank : ¬ Branch 0 := by decide
  have entry := smallMmu_table low (by omega) inside
  by_cases same : index = smallIndex level
  · rw [if_pos same] at entry
    rw [cells, entry, if_pos (smallMmu_present level high), smallMmu_child level high]
    exact Or.inr ⟨rfl, rfl⟩
  · rw [if_neg same] at entry
    rw [cells, entry, if_neg blank]
    exact Or.inl ⟨same, rfl, rfl⟩

/-- The entries along a path lie in the tables of its levels. -/
theorem smallMmu_cells (path : List Nat) {level cell : Nat} (low : 1 ≤ level)
    (short : level + path.length ≤ 5) (inside : ∀ index ∈ path, index < 512)
    (member : cell ∈ cells smallMmu path (pageAt smallPmm level)) :
    pageAt smallPmm level + 8 * path.headD 0 ≤ cell ∧ cell + 8 ≤ pageAt smallPmm 5 := by
  induction path generalizing level with
  | nil => exact absurd member (by simp [cells])
  | cons index rest ih =>
      have here := inside index (by simp)
      rw [List.length_cons] at short
      have own : pageAt smallPmm level + 8 * index ≤ pageAt smallPmm level + 8 * index ∧
          pageAt smallPmm level + 8 * index + 8 ≤ pageAt smallPmm 5 := by
        unfold pageAt pageSize
        omega
      cases rest with
      | nil =>
          obtain rfl : cell = pageAt smallPmm level + 8 * index := by
            rw [cells] at member
            split at member <;> simpa [cells] using member
          exact own
      | cons second rest =>
          rw [List.length_cons] at short
          have next : pageAt smallPmm (level + 1) = pageAt smallPmm level + pageSize := by
            unfold pageAt
            rw [Nat.succ_mul, Nat.add_assoc]
          obtain ⟨_, _, cell⟩ | ⟨_, cell⟩ :=
            smallMmu_cells_cons (second :: rest) low (by omega) here
          · rw [cell, List.mem_singleton] at member
            rw [member]
            exact own
          · rw [cell] at member
            obtain rfl | later := List.mem_cons.mp member
            · exact own
            · obtain ⟨start, stop⟩ := ih (by omega) (by rw [List.length_cons]; omega)
                (fun other found => inside other (by simp [found])) later
              rw [next] at start
              refine ⟨?_, stop⟩
              rw [List.headD_cons]
              unfold pageSize at start
              omega

theorem cells_singleton (state : MmuState) (index table : Nat) : cells state [index] table = [table + 8 * index] := by
  rw [cells]
  split <;> rfl

/-- The small tables map one frame in the kernel half. -/
theorem smallMmu_frame {page : Nat} (frame : KernelFrame smallMmu (pageAt smallPmm 1) page) : page = 5 := by
  obtain ⟨virt, _, found⟩ := frame
  have inside : ∀ shift, virt / shift % 512 < 512 := fun _ => Nat.mod_lt _ (by decide)
  unfold entries pagePath at found
  -- The walk ends at the first index that leads nowhere.
  obtain ⟨_, _, first⟩ | ⟨_, first⟩ := smallMmu_cells_cons [pdptIndex virt, pdIndex virt, ptIndex virt]
    (show 1 ≤ 1 by decide) (by decide) (show pml4Index virt < 512 from inside _)
  · rw [first] at found
    exact absurd found (by simp [translation])
  obtain ⟨_, entry, second⟩ | ⟨_, second⟩ := smallMmu_cells_cons [pdIndex virt, ptIndex virt]
    (show 1 ≤ 2 by decide) (by decide) (show pdptIndex virt < 512 from inside _)
  · rw [first, second] at found
    change (if Present (smallMmu.entry (pageAt smallPmm 2) (pdptIndex virt)) then _ else none) = _ at found
    rw [entry, if_neg not_present_zero] at found
    exact absurd found (by simp)
  obtain ⟨_, entry, third⟩ | ⟨_, third⟩ := smallMmu_cells_cons [ptIndex virt]
    (show 1 ≤ 3 by decide) (by decide) (show pdIndex virt < 512 from inside _)
  · rw [first, second, third] at found
    change (if Present (smallMmu.entry (pageAt smallPmm 3) (pdIndex virt)) then _ else none) = _ at found
    rw [entry, if_neg not_present_zero] at found
    exact absurd found (by simp)
  · rw [first, second, third, cells_singleton] at found
    change (if Present (smallMmu.entry (pageAt smallPmm 4) (ptIndex virt)) then
      some (entryAddress (smallMmu.entry (pageAt smallPmm 4) (ptIndex virt))) else none) = _ at found
    have entry := smallMmu_table (show 1 ≤ 4 by decide) le_rfl (ptIndex_lt virt)
    by_cases last : ptIndex virt = smallIndex 4
    · rw [if_pos last] at entry
      rw [entry, if_pos (present_makeEntry _ _),
        show entryAddress (makeEntry ((4 + 1) * pageSize) pageWrite) = 5 * pageSize by decide] at found
      exact (Nat.eq_of_mul_eq_mul_right (by decide) (Option.some.inj found)).symm
    · rw [if_neg last] at entry
      rw [entry, if_neg not_present_zero] at found
      exact absurd found (by simp)

theorem pagePath_lt (virt : Nat) : ∀ index ∈ pagePath virt, index < 512 := by
  have inside : ∀ shift, virt / shift % 512 < 512 := fun _ => Nat.mod_lt _ (by decide)
  intro index member
  simp only [pagePath, List.mem_cons, List.not_mem_nil, or_false] at member
  obtain rfl | rfl | rfl | rfl := member <;> exact inside _

theorem smallState_empty : EmptyUserHalf smallState.mmu smallDirectory.pml4 := by
  intro index lower
  change ¬ Present (smallMmu.entry (pageAt smallPmm 1) index)
  rw [smallMmu_table (by decide) (by decide) (by omega), if_neg (by unfold smallIndex; simp; omega)]
  exact not_present_zero

/-- The small address space is in order. -/
theorem smallState_space :
    Space smallState.mmu smallDirectory.pml4 (KernelMemory smallState.mmu smallDirectory.pml4) := by
  have kernel : ∀ address, KernelMemory smallMmu (pageAt smallPmm 1) address →
      pageAt smallPmm 1 + 2048 ≤ address ∧ address < pageAt smallPmm 6 := by
    intro address member
    obtain ⟨virt, upper, cell, found, low, high⟩ | ⟨page, frame, low, high⟩ := member
    · obtain ⟨start, stop⟩ := smallMmu_cells (pagePath virt) (by decide) le_rfl
        (pagePath_lt virt) found
      have five : pageAt smallPmm 5 < pageAt smallPmm 6 := by decide
      change pageAt smallPmm 1 + 8 * pml4Index virt ≤ cell at start
      omega
    · obtain rfl := smallMmu_frame frame
      have bounds : pageAt smallPmm 1 + 2048 ≤ pageAt smallPmm 5 ∧
          pageAt smallPmm 5 + pageSize = pageAt smallPmm 6 := by decide
      change pageAt smallPmm 5 ≤ address at low
      change address < pageAt smallPmm 5 + pageSize at high
      omega
  have used : ∀ page, page < 32 → bitmapTest smallPmm page = false → 6 ≤ page := by decide
  have direct : DirectMapped smallPmm := by
    unfold DirectMapped
    decide
  apply smallState_empty.space direct (by decide) (by decide) (show 1 < smallPmm.totalPages by decide) (by decide)
    rfl (by decide)
  intro address member
  obtain ⟨low, high⟩ := kernel address member
  refine ⟨fun lower => ?_, fun page tracked free inside => ?_⟩
  · have stop : address < pageAt smallPmm 1 + 2048 := lower.2
    omega
  have above : pageAt smallPmm 6 ≤ pageAt smallPmm page :=
    Nat.add_le_add_left (Nat.mul_le_mul_right _ (used page tracked free)) _
  have start : pageAt smallPmm page ≤ address := inside.1
  omega

/-- The calls of a run whose ranges all end in the user half leave the translations and the flags of the
kernel half unchanged, and they free none of its frames. -/
theorem memoryCalls_spare_kernelHalf (state : CallState) (pd : PageDirectory) (calls : List MemoryCall)
    (space : Space state.mmu pd.pml4 (KernelMemory state.mmu pd.pml4)) (own : OwnedBelow pd (2 ^ 47) state)
    (unfreed : state.freed = []) (guarded : Guarded memoryStep EndsInUserHalf state calls) :
    (∀ virt, 256 ≤ pml4Index virt →
      entries (run memoryStep state calls).mmu pd.pml4 virt = entries state.mmu pd.pml4 virt) ∧
    ∀ address ∈ (run memoryStep state calls).freed,
      ∃ page, address = pageAt state.mmu.pmm page ∧ ¬ KernelFrame state.mmu pd.pml4 page := by
  obtain ⟨keeps, _⟩ := run_guarded_invariant memoryStep EndsInUserHalf
    (fun current => Keeps pd.pml4 (KernelMemory state.mmu pd.pml4) state current ∧ OwnedBelow pd (2 ^ 47) current)
    (fun current call held range => by
      obtain ⟨step, next⟩ := memoryStep_below held.1.space rfl le_rfl held.2 call (range.rangesBelow held.2)
      exact ⟨held.1.trans step, next⟩)
    state calls ⟨Keeps.refl space, own⟩ guarded
  refine ⟨fun virt upper => entries_congr keeps.layout.hhdmOffset keeps.memory upper, ?_⟩
  intro address member
  obtain old | ⟨page, _, equal, unkept⟩ := keeps.freed address member
  · rw [unfreed] at old
    exact absurd old (by simp)
  · refine ⟨page, equal, fun frame => ?_⟩
    exact unkept _ (inPage_pageAt _ _) (Or.inr ⟨page, frame, inPage_pageAt _ _⟩)

/-- Calls that map two pages, protect and unmap the first one, move the break up and down, and are refused
an address of the kernel half. -/
def smallCalls : List MemoryCall :=
  [.mmap 0x400000 0x2000 protWrite (mapPrivate ||| mapAnonymous), .mprotect 0x400000 0x1000 0,
    .munmap 0x400000 0x1000, .brk 0x403000, .brk 0x401800, .munmap 0xFFFF800000000000 0x1000]

theorem memoryCalls_spare_kernelHalf_small :
    (∀ virt, 256 ≤ pml4Index virt →
      entries (run memoryStep smallState smallCalls).mmu smallDirectory.pml4 virt =
        entries smallState.mmu smallDirectory.pml4 virt) ∧
    ∀ address ∈ (run memoryStep smallState smallCalls).freed,
      ∃ page, address = pageAt smallState.mmu.pmm page ∧
        ¬ KernelFrame smallState.mmu smallDirectory.pml4 page :=
  memoryCalls_spare_kernelHalf smallState smallDirectory smallCalls smallState_space
    (Owner.ownedBelow ⟨0, rfl, by decide⟩) rfl (by decide +kernel)

example : (run memoryStep smallState smallCalls).freed.length = 2 := by decide +kernel

/-- `sys_munmap` of three pages from the last but one page of the user half clears the entry of a page
of the kernel half and frees its frame. -/
theorem sysMunmap_reaches_kernelHalf :
    Space smallState.mmu smallDirectory.pml4 (KernelMemory smallState.mmu smallDirectory.pml4) ∧
    256 ≤ pml4Index 0xFFFF800000000000 ∧
    entries smallState.mmu smallDirectory.pml4 0xFFFF800000000000 ≠
      entries (memoryStep smallState (.munmap 0x7FFFFFFFE000 0x3000)).mmu smallDirectory.pml4
        0xFFFF800000000000 ∧
    KernelFrame smallState.mmu smallDirectory.pml4 5 ∧
    (memoryStep smallState (.munmap 0x7FFFFFFFE000 0x3000)).freed = [pageAt smallPmm 5] := by
  refine ⟨smallState_space, by decide, by decide +kernel, ⟨0xFFFF800000000000, ?_, ?_⟩, ?_⟩
  · decide +kernel
  · decide +kernel
  · decide +kernel

end Uesi.Syscall
