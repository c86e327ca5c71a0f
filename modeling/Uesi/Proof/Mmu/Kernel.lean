import Uesi.Proof.Mmu.Space

namespace Uesi.Mmu

open Library Pmm

/-- The indices of a virtual page in the four levels. -/
def pagePath (virt : Nat) : List Nat := [pml4Index virt, pdptIndex virt, pdIndex virt, ptIndex virt]

/-- An entry leads to a table of the next level. -/
def Branch (entry : BitVec 64) : Prop := Present entry ∧ entry &&& pageHuge = 0

instance (entry : BitVec 64) : Decidable (Branch entry) := inferInstanceAs (Decidable (_ ∧ _))

/-- The addresses of the entries that the processor reads along a list of indices. -/
def cells (state : MmuState) : List Nat → Nat → List Nat
  | [], _ => []
  | index :: rest, table =>
      (table + 8 * index) ::
        if Branch (state.entry table index) then cells state rest (state.child (state.entry table index))
        else []

/-- The entries that the processor reads for a virtual page, which hold its translation and its flags. -/
def entries (state : MmuState) (root virt : Nat) : List (BitVec 64) :=
  (cells state (pagePath virt) root).map (load64 state.memory)

/-- The physical address of a virtual page, for pages of 4 KiB, 2 MiB and 1 GiB. -/
def translation (virt : Nat) : List (BitVec 64) → Option Nat
  | [_, _, _, entry] => if Present entry then some (entryAddress entry) else none
  | [_, _, entry] =>
      if Present entry then
        some (alignDown (2 ^ 21) (entryAddress entry) + alignDown pageSize (virt % 2 ^ 21))
      else none
  | [_, entry] =>
      if Present entry then
        some (alignDown (2 ^ 30) (entryAddress entry) + alignDown pageSize (virt % 2 ^ 30))
      else none
  | _ => none

/-- A canonical address of the kernel half outside the direct map, which maps every frame. -/
def KernelAddress (pmm : PmmState) (virt : Nat) : Prop :=
  2 ^ 64 - 2 ^ 47 ≤ virt ∧ virt < 2 ^ 64 ∧
    ¬ (pmm.hhdmOffset ≤ virt ∧ virt < pmm.hhdmOffset + pmm.totalPages * pageSize)

instance (pmm : PmmState) (virt : Nat) : Decidable (KernelAddress pmm virt) :=
  inferInstanceAs (Decidable (_ ∧ _ ∧ ¬ _))

/-- A frame that a page of the kernel half maps. -/
def KernelFrame (state : MmuState) (root page : Nat) : Prop :=
  ∃ virt, KernelAddress state.pmm virt ∧
    translation virt (entries state root virt) = some (page * pageSize)

/-- The memory of the kernel half: the entries of its pages and the frames that they map. -/
def KernelMemory (state : MmuState) (root address : Nat) : Prop :=
  (∃ virt, 256 ≤ pml4Index virt ∧ ∃ cell ∈ cells state (pagePath virt) root,
    cell ≤ address ∧ address < cell + 8) ∨
  ∃ page, KernelFrame state root page ∧ InPage state.pmm page address

variable {before after : MmuState}

/-- The entries along a path depend on their own bytes only. -/
theorem cells_congr (offset : after.pmm.hhdmOffset = before.pmm.hhdmOffset) (path : List Nat)
    (table : Nat) (same : ∀ cell ∈ cells before path table, ∀ byte, byte < 8 →
      after.memory (cell + byte) = before.memory (cell + byte)) :
    cells after path table = cells before path table := by
  induction path generalizing table with
  | nil => rfl
  | cons index rest ih =>
      have entry : after.entry table index = before.entry table index :=
        load64_congr fun byte small => same _ (by simp [cells]) byte small
      rw [cells, cells, entry, child_congr offset]
      split
      · rename_i branch
        rw [ih]
        intro cell member
        exact same cell (by simp [cells, if_pos branch, member])
      · rfl

/-- The entries of the kernel half stay the same when its memory does. -/
theorem entries_congr {root : Nat} (offset : after.pmm.hhdmOffset = before.pmm.hhdmOffset)
    (same : ∀ address, KernelMemory before root address → after.memory address = before.memory address)
    {virt : Nat} (upper : 256 ≤ pml4Index virt) : entries after root virt = entries before root virt := by
  have bytes : ∀ cell ∈ cells before (pagePath virt) root, ∀ byte, byte < 8 →
      after.memory (cell + byte) = before.memory (cell + byte) := by
    intro cell member byte small
    exact same _ (Or.inl ⟨virt, upper, cell, member, by omega, by omega⟩)
  unfold entries
  rw [cells_congr offset _ _ bytes]
  apply List.map_congr_left
  intro cell member
  exact load64_congr fun byte small => bytes cell member byte small

section Empty

variable {limit : Nat} {state : MmuState} {root : Nat} {kept : Nat → Prop}

/-- No entry of the first table below a limit is present. -/
def EmptyBelow (limit : Nat) (state : MmuState) (root : Nat) : Prop :=
  ∀ index, index < limit → ¬ Present (state.entry root index)

/-- No entry of the user half is present. -/
abbrev EmptyUserHalf (state : MmuState) (root : Nat) : Prop := EmptyBelow 256 state root

theorem EmptyBelow.walk (empty : EmptyBelow limit state root) {path : List Nat} {table : Nat}
    (user : PathBelow limit path) (found : walk state root path = some table) : path = [] ∧ table = root := by
  cases path with
  | nil => exact ⟨rfl, (Option.some.inj found).symm⟩
  | cons index rest =>
      rw [Mmu.walk, if_neg (empty index (user.lower index rfl))] at found
      exact absurd found (by simp)

theorem EmptyBelow.plain (empty : EmptyBelow limit state root) : PlainBelow limit state root := by
  intro path index table user _ found present
  obtain ⟨below, _, lower⟩ := user.of_concat
  obtain ⟨rfl, rfl⟩ := empty.walk below found
  exact absurd present (empty index (lower rfl))

theorem EmptyBelow.leaf (empty : EmptyBelow limit state root) {virt : Nat} (user : PageBelow limit virt) :
    leaf state root virt = none := by
  unfold Mmu.leaf
  cases found : Mmu.walk state root (tablePath virt) with
  | none => rfl
  | some table => exact absurd (empty.walk user.path found).1 (by simp [tablePath])

section InUse

variable (direct : DirectMapped state.pmm) (offset : state.pmm.hhdmOffset % pageSize = 0)
  (physical : state.pmm.totalPages * pageSize ≤ 2 ^ 52) {page : Nat} (tracked : page < state.pmm.totalPages)
  (set : bitmapTest state.pmm page = true) (address : root = pageAt state.pmm page)
include direct offset physical tracked set address

/-- An empty table on a page in use is in order. -/
theorem EmptyBelow.tables (empty : EmptyBelow limit state root) : TablesBelow limit state root where
  offset := offset
  aligned := by
    rw [address]
    exact pageAt_aligned offset page
  unique first second table firstUser secondUser _ _ firstFound secondFound := by
    rw [(empty.walk firstUser firstFound).1, (empty.walk secondUser secondFound).1]
  direct := direct
  physical := physical
  allocated path table user _ found :=
    ⟨page, tracked, set, (empty.walk user found).2.trans address⟩

/-- An address space with an empty user half is in order. -/
theorem EmptyBelow.space (empty : EmptyUserHalf state root) (nonzero : root ≠ 0)
    (keeps : ∀ address, kept address → ¬ (root ≤ address ∧ address < root + 2048) ∧
      ∀ page, page < state.pmm.totalPages → bitmapTest state.pmm page = false →
        ¬ InPage state.pmm page address) : Space state root kept where
  toTables := empty.tables direct offset physical tracked set address
  nonzero := nonzero
  keeps kernel keep :=
    ⟨(keeps kernel keep).1,
      fun path table user some _ found => absurd (empty.walk user found).1 some,
      (keeps kernel keep).2⟩
  frame virt entry user found := by
    rw [empty.leaf user] at found
    exact absurd found (by simp)
  exclusive first second firstEntry secondEntry user _ found := by
    rw [empty.leaf user] at found
    exact absurd found (by simp)

end InUse

end Empty

end Uesi.Mmu
