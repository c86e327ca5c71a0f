import Uesi.Proof.Syscall.KernelHalf

namespace Uesi.Syscall

open Library Pmm Mmu

/-- A byte of an entry that the processor reads for a page of the kernel half. -/
def KernelEntryByte (state : MmuState) (root address : Nat) : Prop :=
  ∃ virt, 256 ≤ pml4Index virt ∧ ∃ cell ∈ cells state (pagePath virt) root,
    cell ≤ address ∧ address < cell + 8

/-- A page holds a page table of the process. -/
def TablePage (state : MmuState) (root page : Nat) : Prop :=
  (∃ path, UserPath path ∧ path.length ≤ 3 ∧ walk state root path = some (pageAt state.pmm page)) ∨
    ∃ address, KernelEntryByte state root address ∧ InPage state.pmm page address

/-- Every page of the user half that is mapped maps an allocated frame which is not a page table and
which no other page maps. -/
def ExclusiveFrames (state : MmuState) (root : Nat) : Prop :=
  ∀ virt entry, virt < 2 ^ 47 → leaf state root virt = some entry →
    ∃ page, page < state.pmm.totalPages ∧ bitmapTest state.pmm page = true ∧
      entryAddress entry = page * pageSize ∧ ¬ TablePage state root page ∧
      ∀ other otherEntry, other < 2 ^ 47 → leaf state root other = some otherEntry →
        entryAddress otherEntry = entryAddress entry → other / pageSize = virt / pageSize

variable {state : MmuState} {root : Nat}

/-- Allocated frames that are no tables are private. -/
theorem private_of_frame (tables : Tables state root) {page : Nat} (tracked : page < state.pmm.totalPages)
    (set : bitmapTest state.pmm page = true) (apart : ¬ TablePage state root page) :
    Private state root (KernelEntryByte state root) page where
  tracked := tracked
  quiet address inside := by
    have table : ∀ path table, UserPath path → path.length ≤ 3 → walk state root path = some table →
        ¬ (table ≤ address ∧ address < table + pageSize) := by
      intro path table user short found bounds
      obtain ⟨used, _, _, rfl⟩ := tables.allocated path table user short found
      obtain rfl := inside.unique bounds
      exact apart (Or.inl ⟨path, user, short, found⟩)
    refine ⟨fun lower => ?_, fun path other user _ short found => table path other user short found, ?_⟩
    · apply table [] root PathBelow.nil (by simp) rfl
      unfold pageSize
      omega
    · intro other _ free bounds
      obtain rfl := inside.unique bounds
      rw [set] at free
      exact absurd free (by simp)
  unkept address inside keep := apart (Or.inr ⟨address, keep, inside⟩)

/-- An address space with exclusive frames is in order. -/
theorem ExclusiveFrames.space (exclusive : ExclusiveFrames state root) (tables : Tables state root)
    (nonzero : root ≠ 0)
    (kernel : ∀ address, KernelEntryByte state root address → Quiet state root address) :
    Space state root (KernelEntryByte state root) where
  toTables := tables
  nonzero := nonzero
  keeps := kernel
  frame virt entry user found := by
    obtain ⟨low, path, index⟩ := userPage_canonical user
    rw [← leaf_congr state root path index] at found
    obtain ⟨page, tracked, set, address, apart, _⟩ := exclusive _ entry low found
    exact ⟨page, private_of_frame tables tracked set apart, address⟩
  exclusive first second firstEntry secondEntry firstUser secondUser firstFound secondFound same := by
    obtain ⟨firstLow, firstPath, firstIndex⟩ := userPage_canonical firstUser
    obtain ⟨secondLow, secondPath, secondIndex⟩ := userPage_canonical secondUser
    rw [← leaf_congr state root firstPath firstIndex] at firstFound
    rw [← leaf_congr state root secondPath secondIndex] at secondFound
    obtain ⟨_, _, _, _, _, only⟩ := exclusive _ secondEntry secondLow secondFound
    have equal := (samePage_iff firstLow secondLow).mpr (only _ firstEntry firstLow firstFound same)
    exact ⟨firstPath.symm.trans (equal.1.trans secondPath), firstIndex.symm.trans (equal.2.trans secondIndex)⟩

/-- The frames of an address space in order are exclusive. -/
theorem exclusiveFrames_of_space (space : Space state root (KernelEntryByte state root)) :
    ExclusiveFrames state root := by
  intro virt entry low found
  obtain ⟨page, alone, address⟩ := space.frame virt entry (userPage_of_lt low) found
  have quiet := alone.quiet _ (inPage_pageAt _ _)
  refine ⟨page, alone.tracked, ?_, address, ?_, ?_⟩
  · by_contra clear
    exact quiet.free page alone.tracked (by simpa using clear) (inPage_pageAt _ _)
  · intro table
    obtain ⟨path, user, short, reached⟩ | ⟨kernel, byte, inside⟩ := table
    · by_cases empty : path = []
      · subst empty
        obtain rfl : root = pageAt state.pmm page := Option.some.inj reached
        exact quiet.half ⟨le_rfl, by omega⟩
      · exact quiet.table path _ user empty short reached (inPage_pageAt _ _)
    · exact alone.unkept kernel inside byte
  · intro other otherEntry otherLow otherFound same
    exact (samePage_iff otherLow low).mp (space.exclusive other virt otherEntry entry
      (userPage_of_lt otherLow) (userPage_of_lt low) otherFound found same)

/-- The entries of the kernel half lie at the same addresses when their bytes stay the same. -/
theorem kernelEntryByte_congr {before after : MmuState}
    (offset : after.pmm.hhdmOffset = before.pmm.hhdmOffset)
    (same : ∀ address, KernelEntryByte before root address → after.memory address = before.memory address) :
    KernelEntryByte after root = KernelEntryByte before root := by
  funext address
  unfold KernelEntryByte
  apply propext
  apply exists_congr
  intro virt
  apply and_congr_right
  intro upper
  rw [cells_congr offset]
  intro cell member byte small
  exact same _ ⟨virt, upper, cell, member, by omega, by omega⟩

/-- The address space of the current process, if there is one, is the given one. -/
def OwnDirectory (pd : PageDirectory) (state : CallState) : Prop :=
  ∀ process ∈ state.process, ∀ vmspace ∈ process.vmspace, vmspace = pd

/-- A bound on the break of the current process. -/
def breakLimit (state : CallState) : Nat :=
  max (2 ^ 47) ((state.process.map Process.brk).getD 0)

theorem OwnDirectory.ownedBelow {pd : PageDirectory} {state : CallState} (own : OwnDirectory pd state) :
    OwnedBelow pd (breakLimit state) state := by
  intro process current vmspace member
  refine ⟨own process current vmspace member, ?_⟩
  have found : state.process = some process := current
  unfold breakLimit
  rw [found]
  exact le_max_right _ _

/-- After every run of the memory calls whose pages lie below 2^47, the frames of the user half are
exclusive. -/
theorem memoryCalls_keep_exclusiveFrames (state : CallState) (pd : PageDirectory)
    (calls : List MemoryCall) (tables : Tables state.mmu pd.pml4) (nonzero : pd.pml4 ≠ 0)
    (kernel : ∀ address, KernelEntryByte state.mmu pd.pml4 address → Quiet state.mmu pd.pml4 address)
    (exclusive : ExclusiveFrames state.mmu pd.pml4) (own : OwnDirectory pd state)
    (guarded : Guarded memoryStep RangesBelow state calls) :
    ExclusiveFrames (run memoryStep state calls).mmu pd.pml4 := by
  have space := exclusive.space tables nonzero kernel
  obtain ⟨keeps, _⟩ := run_guarded_invariant memoryStep RangesBelow
    (fun current => Keeps pd.pml4 (KernelEntryByte state.mmu pd.pml4) state current ∧
      OwnedBelow pd (breakLimit state) current)
    (fun current call held range => by
      obtain ⟨step, next⟩ :=
        memoryStep_below held.1.space rfl (le_max_left _ _) held.2 call range
      exact ⟨held.1.trans step, next⟩)
    state calls ⟨Keeps.refl space, own.ownedBelow⟩ guarded
  apply exclusiveFrames_of_space
  rw [kernelEntryByte_congr keeps.layout.hhdmOffset keeps.memory]
  exact keeps.space

/-- The page 0x401000 is mapped after the small calls, and its frame is exclusive. -/
theorem memoryCalls_keep_exclusiveFrames_small :
    leaf (run memoryStep smallState smallCalls).mmu smallDirectory.pml4 0x401000 ≠ none ∧
      ExclusiveFrames (run memoryStep smallState smallCalls).mmu smallDirectory.pml4 := by
  refine ⟨by decide +kernel, ?_⟩
  apply memoryCalls_keep_exclusiveFrames smallState smallDirectory smallCalls smallState_space.toTables
    smallState_space.nonzero
  · intro address byte
    exact smallState_space.keeps address (Or.inl byte)
  · intro virt entry low found
    rw [smallState_empty.leaf (userPage_of_lt low)] at found
    exact absurd found (by simp)
  · exact fun process current vmspace member =>
      ((Owner.ownedBelow ⟨0, rfl, by decide⟩ : OwnedBelow smallDirectory (2 ^ 47) smallState) process current
        vmspace member).1
  · decide +kernel

end Uesi.Syscall
