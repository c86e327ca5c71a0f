import Uesi.Construction.Mmu
import Uesi.Proof.Pmm.Address

namespace Uesi.Mmu

open Library Pmm

theorem present_makeEntry (phys : Nat) (flags : BitVec 64) : Present (makeEntry phys flags) := by
  unfold Present makeEntry pagePresent
  intro zero
  have bit := congrArg (fun value : BitVec 64 => value.getLsbD 0) zero
  simp at bit

theorem not_present_zero : ¬ Present 0 := by decide

theorem pageAddrMask_bit : ∀ index, index < 64 →
    pageAddrMask.getLsbD index = (decide (12 ≤ index) && decide (index < 52)) := by
  decide

theorem pagePresent_bit : ∀ index, index < 64 → pagePresent.getLsbD index = decide (index = 0) := by
  decide

/-- A page-aligned address of 52 bits has no bits outside the address mask. -/
theorem testBit_of_aligned {phys index : Nat} (aligned : phys % pageSize = 0) (small : phys < 2 ^ 52)
    (outside : index < 12 ∨ 52 ≤ index) : phys.testBit index = false := by
  cases outside with
  | inl below =>
      obtain ⟨count, rfl⟩ := Nat.dvd_of_mod_eq_zero aligned
      rw [show pageSize = 2 ^ 12 from rfl, Nat.testBit_two_pow_mul]
      simp [Nat.not_le.mpr below]
  | inr above =>
      exact Nat.testBit_lt_two_pow (lt_of_lt_of_le small (Nat.pow_le_pow_right (by decide) above))

/-- The address bits of an entry that is made of an aligned address and of flags. -/
theorem entryAddress_makeEntry {phys : Nat} {flags : BitVec 64} (aligned : phys % pageSize = 0)
    (small : phys < 2 ^ 52) (clear : flags &&& pageAddrMask = 0) :
    entryAddress (makeEntry phys flags) = phys := by
  have masked : makeEntry phys flags &&& pageAddrMask = BitVec.ofNat 64 phys := by
    apply BitVec.eq_of_getLsbD_eq
    intro index inside
    have flag : (flags.getLsbD index && pageAddrMask.getLsbD index) = false := by
      rw [← BitVec.getLsbD_and, clear]
      simp
    simp only [makeEntry, BitVec.getLsbD_and, BitVec.getLsbD_or, BitVec.getLsbD_ofNat,
      pageAddrMask_bit index inside, pagePresent_bit index inside, inside, decide_true,
      Bool.true_and] at flag ⊢
    by_cases outside : index < 12 ∨ 52 ≤ index
    · rw [testBit_of_aligned aligned small outside, Bool.false_or, Bool.and_or_distrib_right, flag,
        Bool.false_or]
      simp
      omega
    · have middle : (decide (12 ≤ index) && decide (index < 52)) = true := by
        simp
        omega
      rw [middle, Bool.and_true] at flag
      rw [middle, flag]
      simp
      omega
  unfold entryAddress
  rw [masked, BitVec.toNat_ofNat, Nat.mod_eq_of_lt (by omega)]

/-- The table that a list of indices leads to from a given table. -/
def walk (state : MmuState) : Nat → List Nat → Option Nat
  | table, [] => some table
  | table, index :: rest =>
      if Present (state.entry table index) then walk state (state.child (state.entry table index)) rest
      else none

/-- The last step of a walk. -/
theorem walk_concat (state : MmuState) (table : Nat) (path : List Nat) (index : Nat) :
    walk state table (path ++ [index]) = (walk state table path).bind fun last =>
      if Present (state.entry last index) then some (state.child (state.entry last index)) else none := by
  induction path generalizing table with
  | nil => rfl
  | cons first rest ih =>
      rw [List.cons_append, walk, walk]
      split
      · exact ih _
      · rfl

/-- The indices of a virtual page in the upper three levels. -/
def tablePath (virt : Nat) : List Nat := [pml4Index virt, pdptIndex virt, pdIndex virt]

theorem findTable_eq_walk (state : MmuState) {pd : PageDirectory} (given : pd.pml4 ≠ 0) (virt : Nat) :
    findTable state pd virt = walk state pd.pml4 (tablePath virt) := by
  simp only [findTable, if_neg given, tablePath, walk]

/-- A path whose first index lies below a limit. -/
structure PathBelow (limit : Nat) (path : List Nat) : Prop where
  inside : ∀ index ∈ path, index < 512
  lower : ∀ index ∈ path.head?, index < limit

/-- A path that starts in the user half. -/
abbrev UserPath (path : List Nat) : Prop := PathBelow 256 path

variable {limit : Nat}

theorem PathBelow.nil : PathBelow limit [] := ⟨by simp, by simp⟩

theorem PathBelow.of_prefix {front path : List Nat} (user : PathBelow limit path) (part : front <+: path) :
    PathBelow limit front := by
  obtain ⟨rest, rfl⟩ := part
  refine ⟨fun index member => user.inside index (by simp [member]), fun index first => ?_⟩
  cases front with
  | nil => exact absurd first (by simp)
  | cons head tail => exact user.lower index first

theorem PathBelow.of_concat {path : List Nat} {index : Nat} (user : PathBelow limit (path ++ [index])) :
    PathBelow limit path ∧ index < 512 ∧ (path = [] → index < limit) := by
  refine ⟨user.of_prefix (List.prefix_append _ _), user.inside index (by simp), ?_⟩
  rintro rfl
  exact user.lower index rfl

theorem PathBelow.concat {path : List Nat} {index : Nat} (below : PathBelow limit path) (some : path ≠ [])
    (inside : index < 512) : PathBelow limit (path ++ [index]) := by
  refine ⟨fun other member => ?_, fun other first => below.lower other ?_⟩
  · obtain early | last := List.mem_append.mp member
    · exact below.inside other early
    · rwa [List.mem_singleton.mp last]
  · rwa [List.head?_append_of_ne_nil _ some] at first

variable {before after : MmuState} {root : Nat}

theorem child_congr (offset : after.pmm.hhdmOffset = before.pmm.hhdmOffset) (entry : BitVec 64) :
    after.child entry = before.child entry := by
  unfold MmuState.child MmuState.physToVirt
  rw [offset]

/-- Two states have the same entries on the walks through the upper three levels. -/
structure SameWalks (limit : Nat) (before after : MmuState) (root : Nat) : Prop where
  offset : after.pmm.hhdmOffset = before.pmm.hhdmOffset
  entries : ∀ path index table, PathBelow limit (path ++ [index]) → path.length < 3 →
    walk before root path = some table → after.entry table index = before.entry table index

theorem SameWalks.walk (same : SameWalks limit before after root) (path : List Nat) (user : PathBelow limit path)
    (short : path.length ≤ 3) : walk after root path = walk before root path := by
  induction path using List.reverseRecOn with
  | nil => rfl
  | append_singleton front last ih =>
      have shorter : front.length < 3 := by simpa using short
      rw [walk_concat, walk_concat, ih user.of_concat.1 (by omega)]
      cases reached : Mmu.walk before root front with
      | none => rw [Option.bind_none, Option.bind_none]
      | some table =>
          rw [Option.bind_some, Option.bind_some, same.entries front last table user shorter reached,
            child_congr same.offset]

/-- A virtual page whose first index lies below a limit. -/
def PageBelow (limit virt : Nat) : Prop := pml4Index virt < limit

/-- A virtual page of the user half. -/
abbrev UserPage (virt : Nat) : Prop := PageBelow 256 virt

theorem PageBelow.path {virt : Nat} (user : PageBelow limit virt) : PathBelow limit (tablePath virt) where
  inside index member := by
    simp only [tablePath, List.mem_cons, List.not_mem_nil, or_false] at member
    obtain rfl | rfl | rfl := member <;> exact Nat.mod_lt _ (by decide)
  lower index first := by
    obtain rfl : pml4Index virt = index := by simpa [tablePath] using first
    exact user

/-- The tables below a limit form a tree of aligned pages. -/
structure TreeBelow (limit : Nat) (state : MmuState) (root : Nat) : Prop where
  offset : state.pmm.hhdmOffset % pageSize = 0
  aligned : root % pageSize = 0
  unique : ∀ first second table, PathBelow limit first → PathBelow limit second → first.length ≤ 3 →
    second.length ≤ 3 → walk state root first = some table → walk state root second = some table →
    first = second

theorem entryAddress_aligned (entry : BitVec 64) : entryAddress entry % pageSize = 0 := by
  have low : entry &&& pageAddrMask &&& 0xFFF#64 = 0#64 := by
    rw [BitVec.and_assoc, show pageAddrMask &&& 0xFFF#64 = 0#64 by decide, BitVec.and_zero]
  have digits := congrArg BitVec.toNat low
  rw [BitVec.toNat_and, show (0xFFF#64).toNat = 2 ^ 12 - 1 from rfl, Nat.and_two_pow_sub_one_eq_mod]
    at digits
  exact digits

theorem child_aligned {state : MmuState} (offset : state.pmm.hhdmOffset % pageSize = 0)
    (entry : BitVec 64) : state.child entry % pageSize = 0 := by
  have address := entryAddress_aligned entry
  unfold MmuState.child MmuState.physToVirt add64
  unfold pageSize at *
  omega

/-- Every table of the tree is an aligned page. -/
theorem TreeBelow.table_aligned {state : MmuState} {root table : Nat} (tree : TreeBelow limit state root)
    {path : List Nat} (found : walk state root path = some table) : table % pageSize = 0 := by
  obtain rfl | ⟨front, index, rfl⟩ := List.eq_nil_or_concat path
  · obtain rfl := Option.some.inj found
    exact tree.aligned
  · rw [List.concat_eq_append, walk_concat, Option.bind_eq_some_iff] at found
    obtain ⟨last, _, step⟩ := found
    split at step
    · obtain rfl := Option.some.inj step
      exact child_aligned tree.offset _
    · exact absurd step (by simp)

/-- A write of an entry changes this entry only. -/
theorem entry_setEntry (state : MmuState) {table index other position : Nat} (value : BitVec 64)
    (aligned : table % pageSize = 0) (otherAligned : other % pageSize = 0) (inside : index < 512)
    (positionInside : position < 512) :
    (state.setEntry table index value).entry other position =
      if other = table ∧ position = index then value else state.entry other position := by
  unfold MmuState.entry MmuState.setEntry
  dsimp only
  by_cases same : other = table ∧ position = index
  · obtain ⟨rfl, rfl⟩ := same
    rw [if_pos ⟨rfl, rfl⟩, load64_store64_self]
  · rw [if_neg same]
    apply load64_store64_of_apart
    unfold pageSize at aligned otherAligned
    omega

end Uesi.Mmu
