import Uesi.Proof.Mmu.Walk

namespace Uesi.Mmu

open Library Pmm

variable {limit : Nat} {state : MmuState} {root : Nat}

/-- The present entry of a virtual page in the last level. -/
def leaf (state : MmuState) (root virt : Nat) : Option (BitVec 64) :=
  (walk state root (tablePath virt)).bind fun table =>
    if Present (state.entry table (ptIndex virt)) then some (state.entry table (ptIndex virt)) else none

/-- Two addresses lie on the same virtual page of the tables. -/
def SamePage (first second : Nat) : Prop :=
  tablePath first = tablePath second ∧ ptIndex first = ptIndex second

instance (first second : Nat) : Decidable (SamePage first second) :=
  inferInstanceAs (Decidable (_ ∧ _))

theorem ptIndex_lt (virt : Nat) : ptIndex virt < 512 := Nat.mod_lt _ (by decide)

/-- A page keeps its entry when the walks and the entry in the last table stay the same. -/
theorem SameWalks.leaf {next : MmuState} (same : SameWalks limit state next root) {virt : Nat}
    (user : PageBelow limit virt) (last : ∀ table, Mmu.walk state root (tablePath virt) = some table →
      next.entry table (ptIndex virt) = state.entry table (ptIndex virt)) :
    Mmu.leaf next root virt = Mmu.leaf state root virt := by
  unfold Mmu.leaf
  rw [same.walk _ user.path le_rfl]
  cases reached : Mmu.walk state root (tablePath virt) with
  | none => rw [Option.bind_none, Option.bind_none]
  | some table => rw [Option.bind_some, Option.bind_some, last table reached]

/-- A write into a table of the last level changes no walk through the levels above. -/
theorem TreeBelow.setLeaf (tree : TreeBelow limit state root) {path : List Nat} {table index : Nat}
    (user : PathBelow limit path) (deep : path.length = 3) (found : walk state root path = some table)
    (inside : index < 512) (value : BitVec 64) : SameWalks limit state (state.setEntry table index value) root where
  offset := rfl
  entries front last parent lastUser shorter reached := by
    obtain ⟨frontUser, lastInside, _⟩ := lastUser.of_concat
    have different : parent ≠ table := by
      rintro rfl
      have same := tree.unique front path parent frontUser user (by omega) (by omega) reached found
      rw [same] at shorter
      omega
    rw [entry_setEntry state value (tree.table_aligned found) (tree.table_aligned reached) inside lastInside,
      if_neg fun both => different both.1]

/-- A write of a last-level entry changes the entry of one page. -/
theorem TreeBelow.leaf_setLeaf (tree : TreeBelow limit state root) {virt table : Nat} (user : PageBelow limit virt)
    (found : walk state root (tablePath virt) = some table) (value : BitVec 64) {other : Nat}
    (otherUser : PageBelow limit other) :
    leaf (state.setEntry table (ptIndex virt) value) root other =
      if SamePage other virt then (if Present value then some value else none)
      else leaf state root other := by
  unfold leaf
  rw [(tree.setLeaf user.path rfl found (ptIndex_lt virt) value).walk _ otherUser.path le_rfl]
  cases reached : walk state root (tablePath other) with
  | none =>
      have different : ¬ SamePage other virt := by
        intro same
        rw [same.1, found] at reached
        exact absurd reached (by simp)
      rw [if_neg different, Option.bind_none, Option.bind_none]
  | some last =>
      have kept := entry_setEntry state value (tree.table_aligned found) (tree.table_aligned reached)
        (ptIndex_lt virt) (ptIndex_lt other)
      rw [Option.bind_some, Option.bind_some]
      by_cases same : SamePage other virt
      · have equal : last = table := by
          rw [same.1, found] at reached
          exact (Option.some.inj reached).symm
        rw [if_pos ⟨equal, same.2⟩] at kept
        rw [if_pos same, kept]
      · have different : ¬ (last = table ∧ ptIndex other = ptIndex virt) := by
          rintro ⟨rfl, index⟩
          exact same ⟨tree.unique _ _ last otherUser.path user.path le_rfl le_rfl reached found, index⟩
        rw [if_neg different] at kept
        rw [if_neg same, kept]

theorem userPage_of_lt {virt : Nat} (low : virt < 2 ^ 47) : UserPage virt := by
  unfold UserPage PageBelow pml4Index
  omega

/-- The address below 2^47 of a page of the user half. -/
theorem userPage_canonical {virt : Nat} (user : UserPage virt) :
    virt % 2 ^ 48 < 2 ^ 47 ∧ tablePath (virt % 2 ^ 48) = tablePath virt ∧
      ptIndex (virt % 2 ^ 48) = ptIndex virt := by
  unfold UserPage PageBelow pml4Index at user
  refine ⟨by omega, ?_, ?_⟩
  · simp only [tablePath, pml4Index, pdptIndex, pdIndex, List.cons.injEq, and_true]
    omega
  · unfold ptIndex
    omega

theorem leaf_congr (state : MmuState) (root : Nat) {first second : Nat}
    (tables : tablePath first = tablePath second) (index : ptIndex first = ptIndex second) :
    leaf state root first = leaf state root second := by
  unfold leaf
  rw [tables, index]

/-- The indices of an address are those of its page. -/
theorem indices_alignDown (virt : Nat) :
    tablePath (alignDown pageSize virt) = tablePath virt ∧ ptIndex (alignDown pageSize virt) = ptIndex virt := by
  simp only [tablePath, pml4Index, pdptIndex, pdIndex, ptIndex, alignDown, pageSize, List.cons.injEq, and_true]
  omega

theorem findTable_alignDown {pd : PageDirectory} (given : pd.pml4 = root) (nonzero : root ≠ 0) (virt : Nat) :
    findTable state pd (alignDown pageSize virt) = walk state root (tablePath virt) := by
  subst given
  rw [findTable_eq_walk state nonzero, (indices_alignDown virt).1]

/-- Below 2^47 the pages of the tables are the pages of the addresses. -/
theorem samePage_iff {first second : Nat} (firstLow : first < 2 ^ 47) (secondLow : second < 2 ^ 47) :
    SamePage first second ↔ first / pageSize = second / pageSize := by
  simp only [SamePage, tablePath, pml4Index, pdptIndex, pdIndex, ptIndex, pageSize, List.cons.injEq,
    and_true]
  omega

end Uesi.Mmu
