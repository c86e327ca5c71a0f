import Uesi.Construction.Blk.Allocator
import Uesi.Proof.Blkalloc.Invariant

namespace Uesi.Blk

open Library Blkalloc

variable {alloc : BlkAllocator} {start count : Nat}

/-- A formatted allocator: the count is the number of set bits, the hint is in range, and the bitmap has room for all
blocks and no bit behind them. -/
structure Formatted (alloc : BlkAllocator) : Prop where
  used : alloc.usedBlocks = countBits alloc.bitmap alloc.totalBlocks
  hint : alloc.firstFree ≤ alloc.totalBlocks
  bounded : alloc.totalBlocks + 7 < 2 ^ 32
  size : alloc.bitmapSize = (alloc.totalBlocks + 7) / 8
  tail : ∀ block, alloc.totalBlocks ≤ block → block < 8 * alloc.bitmapSize → bitmapTestBit alloc.bitmap block = false

/-- A stretch of free blocks anywhere in front of the end. -/
def AnyRun (alloc : BlkAllocator) (start count : Nat) : Prop :=
  start + count ≤ alloc.totalBlocks ∧ Stretch alloc.free start count

section Search

theorem allFree_true (indices : List Nat) (all : allFree alloc start indices = some true) :
    ∀ index ∈ indices, bitmapTestBit alloc.bitmap ((start + index) % 2 ^ 32) = false := by
  induction indices with
  | nil => exact fun _ wrong => absurd wrong List.not_mem_nil
  | cons head rest ih =>
      rw [allFree] at all
      split_ifs at all with outside taken
      · exact nomatch all
      · intro index inside
        rcases List.mem_cons.mp inside with rfl | later
        · exact Bool.not_eq_true _ ▸ taken
        · exact ih all index later

/-- The loop over indices whose blocks lie in the bitmap says whether all of them are free. -/
theorem allFree_inside (indices : List Nat)
    (inside : ∀ index ∈ indices, (start + index) % 2 ^ 32 / 8 < alloc.bitmapSize) :
    allFree alloc start indices =
      some (indices.all fun index => !bitmapTestBit alloc.bitmap ((start + index) % 2 ^ 32)) := by
  induction indices with
  | nil => rfl
  | cons head rest ih =>
      have here := inside head List.mem_cons_self
      have others := ih fun index later => inside index (List.mem_cons_of_mem _ later)
      rw [allFree, if_neg (Nat.not_le.mpr here), others, List.all_cons]
      cases bitmapTestBit alloc.bitmap ((start + head) % 2 ^ 32) with
      | true => rfl
      | false => rfl

/-- The loop reads behind the bitmap if all blocks up to there are free. -/
theorem allFree_overrun (before behind : List Nat) {index : Nat}
    (free : ∀ index ∈ before, bitmapTestBit alloc.bitmap ((start + index) % 2 ^ 32) = false)
    (outside : alloc.bitmapSize ≤ (start + index) % 2 ^ 32 / 8) :
    allFree alloc start (before ++ index :: behind) = none := by
  induction before with
  | nil => rw [List.nil_append, allFree, if_pos outside]
  | cons head rest ih =>
      rw [List.cons_append, allFree, free head List.mem_cons_self]
      rw [if_neg Bool.false_ne_true]
      split_ifs
      · rfl
      · exact ih fun index later => free index (List.mem_cons_of_mem _ later)

theorem searchStart_none (starts : List Nat)
    (never : ∀ start ∈ starts, allFree alloc start (List.range count) ≠ some true)
    (fails : ∃ start ∈ starts, allFree alloc start (List.range count) = none) :
    searchStart alloc count starts = none := by
  induction starts with
  | nil =>
      obtain ⟨start, wrong, _⟩ := fails
      exact absurd wrong List.not_mem_nil
  | cons head rest ih =>
      rw [searchStart]
      cases here : allFree alloc head (List.range count) with
      | none => rfl
      | some answer =>
          cases answer with
          | true => exact absurd here (never head List.mem_cons_self)
          | false =>
              refine ih (fun start later => never start (List.mem_cons_of_mem _ later)) ?_
              obtain ⟨start, inside, failed⟩ := fails
              rcases List.mem_cons.mp inside with rfl | later
              · rw [here] at failed
                exact nomatch failed
              · exact ⟨start, later, failed⟩

/-- The search over starts for which every test is defined finds the first one that is free. -/
theorem searchStart_find (starts : List Nat) (free : Nat → Bool)
    (known : ∀ start ∈ starts, allFree alloc start (List.range count) = some (free start)) :
    searchStart alloc count starts = some (starts.find? free) := by
  induction starts with
  | nil => rfl
  | cons head rest ih =>
      have others := ih fun start later => known start (List.mem_cons_of_mem _ later)
      rw [searchStart, known head List.mem_cons_self]
      cases here : free head with
      | true => rw [List.find?_cons_of_pos here]
      | false => rw [List.find?_cons_of_neg (by rw [here]; exact Bool.false_ne_true), others]

end Search

section Contiguous

theorem stretch_iff_all (free : Nat → Bool) (start count : Nat) :
    (List.range count).all (fun index => free (start + index)) = true ↔ Stretch free start count := by
  rw [List.all_eq_true]
  constructor
  · intro all place above below
    have held := all (place - start) (List.mem_range.mpr (by omega))
    rwa [Nat.add_sub_cancel' above] at held
  · intro stretch index inside
    exact stretch (start + index) (by omega) (by have := List.mem_range.mp inside; omega)

theorem Formatted.inside (formatted : Formatted alloc) {block : Nat} (below : block < alloc.totalBlocks) :
    block / 8 < alloc.bitmapSize := by
  rw [formatted.size]
  omega

/-- A start from which all blocks lie in front of the end is tested by the loop. -/
theorem Formatted.allFree (formatted : Formatted alloc) (within : start + count ≤ alloc.totalBlocks) :
    allFree alloc start (List.range count) = some ((List.range count).all fun index => alloc.free (start + index)) := by
  have bounded := alloc.totalBlocks_lt
  have exact : ∀ index ∈ List.range count, (start + index) % 2 ^ 32 = start + index := by
    intro index inside
    have small := List.mem_range.mp inside
    exact Nat.mod_eq_of_lt (by omega)
  rw [allFree_inside]
  · congr 1
    rw [Bool.eq_iff_iff, List.all_eq_true, List.all_eq_true]
    refine forall₂_congr fun index inside => ?_
    rw [exact index inside]
    rfl
  · intro index inside
    have small := List.mem_range.mp inside
    rw [exact index inside]
    exact formatted.inside (by omega)

/-- A run leaves room for the used blocks. -/
theorem Formatted.room (formatted : Formatted alloc) (run : AnyRun alloc start count) :
    alloc.usedBlocks + count ≤ alloc.totalBlocks := by
  rw [formatted.used]
  exact countBits_stretch run.1 run.2

/-- The search in front of the end finds the first run, if there is one. -/
theorem Formatted.searchStart (formatted : Formatted alloc) (fits : count ≤ alloc.totalBlocks) :
    (∃ start, AnyRun alloc start count ∧ (∀ first, AnyRun alloc first count → start ≤ first) ∧
      searchStart alloc count (List.range (alloc.totalBlocks - count + 1)) = some (some start)) ∨
    ((∀ start, ¬AnyRun alloc start count) ∧
      searchStart alloc count (List.range (alloc.totalBlocks - count + 1)) = some none) := by
  have found := @searchStart_find alloc count (List.range (alloc.totalBlocks - count + 1))
    (fun start => (List.range count).all fun index => alloc.free (start + index)) fun start inside =>
      formatted.allFree (by have := List.mem_range.mp inside; omega)
  rw [found]
  cases first : (List.range (alloc.totalBlocks - count + 1)).find?
      fun start => (List.range count).all fun index => alloc.free (start + index) with
  | none =>
      rw [List.find?_range_eq_none] at first
      refine Or.inr ⟨fun start run => ?_, rfl⟩
      have bound := run.1
      have taken := first start (by omega)
      rw [(stretch_iff_all alloc.free start count).mpr run.2] at taken
      exact absurd taken (by decide)
  | some start =>
      rw [List.find?_range_eq_some] at first
      obtain ⟨free, below, earlier⟩ := first
      have small := List.mem_range.mp below
      refine Or.inl ⟨start, ⟨by omega, (stretch_iff_all _ _ _).mp free⟩, fun other run => ?_, rfl⟩
      by_contra before
      have taken := earlier other (by omega)
      rw [(stretch_iff_all alloc.free other count).mpr run.2] at taken
      exact absurd taken (by decide)

/-- The set bits lie in front of a stretch of clear ones at the end. -/
theorem countBits_le_of_clear {bitmap : Nat → BitVec 8} {edge total : Nat}
    (clear : ∀ block, edge ≤ block → block < total → bitmapTestBit bitmap block = false) :
    countBits bitmap total ≤ edge := by
  induction total with
  | zero => exact Nat.zero_le edge
  | succ total ih =>
      by_cases beyond : edge ≤ total
      · have last : testBit bitmap total = false := clear total beyond (Nat.lt_succ_self total)
        have fewer := ih fun block above below => clear block above (by omega)
        rw [countBits, Nat.count_succ, if_neg (by rw [last]; exact Bool.false_ne_true)]
        exact fewer
      · exact (Nat.count_le _).trans (by omega)

/-- A request that wraps the sum with the used blocks and is longer than the disk runs behind the bitmap. -/
theorem Formatted.overrun (formatted : Formatted alloc) (small : count < 2 ^ 32) (long : alloc.totalBlocks < count)
    (wraps : 2 ^ 32 ≤ alloc.usedBlocks + count) :
    Blk.searchStart alloc count (List.range ((alloc.totalBlocks + (2 ^ 32 - count)) % 2 ^ 32 + 1)) = none := by
  classical
  have bounded := formatted.bounded
  have size := formatted.size
  -- The edge is the first block behind the last one that is set.
  have exists_edge : ∃ edge, ∀ block, edge ≤ block → block < alloc.totalBlocks →
      bitmapTestBit alloc.bitmap block = false := ⟨alloc.totalBlocks, fun block above below => by omega⟩
  obtain ⟨edge, clear, least⟩ : ∃ edge, (∀ block, edge ≤ block → block < alloc.totalBlocks →
      bitmapTestBit alloc.bitmap block = false) ∧ ∀ other, other < edge →
      ¬∀ block, other ≤ block → block < alloc.totalBlocks → bitmapTestBit alloc.bitmap block = false :=
    ⟨Nat.find exists_edge, Nat.find_spec exists_edge, fun other below => Nat.find_min exists_edge below⟩
  have many : alloc.usedBlocks ≤ edge := formatted.used ▸ countBits_le_of_clear clear
  have early : edge ≤ alloc.totalBlocks := by
    by_contra late
    exact least alloc.totalBlocks (by omega) fun block above below => by omega
  have behind : ∀ block, edge ≤ block → block < 8 * alloc.bitmapSize → bitmapTestBit alloc.bitmap block = false := by
    intro block above below
    by_cases data : block < alloc.totalBlocks
    · exact clear block above data
    · exact formatted.tail block (by omega) below
  have overruns : ∀ start, edge ≤ start → start < 2 ^ 32 →
      Blk.allFree alloc start (List.range count) = none := by
    intro start above below
    have length : count = (8 * alloc.bitmapSize - start) + 1 + (count - (8 * alloc.bitmapSize - start) - 1) := by omega
    rw [length, List.range_add, List.range_succ, List.append_assoc]
    refine allFree_overrun _ _ (fun index inside => ?_) ?_
    · have first := List.mem_range.mp inside
      rw [Nat.mod_eq_of_lt (by omega)]
      exact behind _ (by omega) (by omega)
    · rw [Nat.mod_eq_of_lt (by omega)]
      omega
  have far : (alloc.totalBlocks + (2 ^ 32 - count)) % 2 ^ 32 = alloc.totalBlocks + (2 ^ 32 - count) :=
    Nat.mod_eq_of_lt (by omega)
  rw [far]
  refine searchStart_none _ (fun start inside all => ?_) ?_
  · have free := allFree_true _ all
    by_cases before : start < edge
    · refine least start before fun block above below => ?_
      have held := free (block - start) (List.mem_range.mpr (by omega))
      rwa [Nat.add_sub_cancel' above, Nat.mod_eq_of_lt (by omega)] at held
    · have near := List.mem_range.mp inside
      rw [overruns start (by omega) (by omega)] at all
      exact nomatch all
  · exact ⟨edge, List.mem_range.mpr (by omega), overruns edge le_rfl (by omega)⟩

/-- The request is longer than the disk and wraps the sum with the used blocks. -/
def Overruns (alloc : BlkAllocator) (count : Nat) : Prop :=
  alloc.totalBlocks < count ∧ 2 ^ 32 ≤ alloc.usedBlocks + count

/-- The call takes the first run, takes nothing because there is none, or reads behind the bitmap. -/
theorem Formatted.blkAllocContiguous (formatted : Formatted alloc) (positive : 1 ≤ count) (small : count < 2 ^ 32) :
    (∃ start, AnyRun alloc start count ∧ (∀ first, AnyRun alloc first count → start ≤ first) ∧
      blkAllocContiguous alloc count = some (start, { alloc with
        bitmap := setBlocks alloc.bitmap start count
        usedBlocks := (alloc.usedBlocks + count) % 2 ^ 32
        firstFree := (start + count) % 2 ^ 32 })) ∨
    ((∀ start, ¬AnyRun alloc start count) ∧ ¬Overruns alloc count ∧
      blkAllocContiguous alloc count = some (0, alloc)) ∨
    ((∀ start, ¬AnyRun alloc start count) ∧ Overruns alloc count ∧ blkAllocContiguous alloc count = none) := by
  have bounded := formatted.bounded
  have most : alloc.usedBlocks ≤ alloc.totalBlocks := formatted.used ▸ Nat.count_le _
  unfold Blk.blkAllocContiguous
  rw [if_neg (by omega)]
  by_cases fits : count ≤ alloc.totalBlocks
  · have regular : ¬Overruns alloc count := fun wrong => by
      have := wrong.1
      omega
    have last : (alloc.totalBlocks + (2 ^ 32 - count)) % 2 ^ 32 = alloc.totalBlocks - count := by omega
    rw [last]
    rcases formatted.searchStart fits with ⟨start, run, first, found⟩ | ⟨none, found⟩
    · have room := formatted.room run
      rw [if_neg (by omega), found]
      refine Or.inl ⟨start, run, first, ?_⟩
      have same : countedLoop (fun index bitmap => bitmapSetBit bitmap ((start + index) % 2 ^ 32)) count alloc.bitmap =
          setBlocks alloc.bitmap start count := by
        refine countedLoop_congr fun index inside bitmap => ?_
        have edge := run.1
        rw [Nat.mod_eq_of_lt (by omega)]
      dsimp only
      rw [same]
    · refine Or.inr (Or.inl ⟨none, regular, ?_⟩)
      split_ifs
      · rfl
      · rw [found]
  · have none : ∀ start, ¬AnyRun alloc start count := fun start run => by
      have edge := run.1
      omega
    by_cases wraps : 2 ^ 32 ≤ alloc.usedBlocks + count
    · rw [if_neg (by omega), formatted.overrun small (by omega) wraps]
      exact Or.inr (Or.inr ⟨none, ⟨by omega, wraps⟩, rfl⟩)
    · rw [if_pos (by omega)]
      exact Or.inr (Or.inl ⟨none, fun wrong => wraps wrong.2, rfl⟩)

end Contiguous

section Agreement

/-- Both files give a call the same answer, bitmap, number of used blocks and dirty flag. -/
def Agree (alloc : BlkAllocator) (call : SharedCall) : Prop := blkEffect alloc call = some (blkallocEffect alloc call)

/-- The states and arguments on which both files agree. -/
def AgreesWhen (alloc : BlkAllocator) : SharedCall → Prop
  | .alloc =>
      (∀ block, block < alloc.totalBlocks → alloc.free block = false) ∨
        alloc.dirty = true ∧
          ((∃ block, alloc.firstFree ≤ block ∧ block < alloc.totalBlocks ∧ alloc.free block = true) ∨
            ∀ block, block < alloc.firstDataBlock → block < alloc.totalBlocks → alloc.free block = false)
  | .free block =>
      alloc.totalBlocks ≤ block.toNat ∨ alloc.free block.toNat = true ∨
        alloc.firstDataBlock ≤ block.toNat ∧ alloc.dirty = true
  | .isAllocated _ => True
  | .allocContiguous count given =>
      count = 0 ∨
        (¬Overruns alloc count.toNat ∧ (∀ start, ¬AnyRun alloc start count.toNat) ∧
          (given = true → NothingToTake alloc count.toNat)) ∨
        (given = true ∧ alloc.dirty = true ∧ alloc.firstDataBlock ≤ count.toNat ∧
          AnyRun alloc count.toNat count.toNat ∧ ∀ first, AnyRun alloc first count.toNat → count.toNat ≤ first)

theorem effectOf_inj {first second : Answer} {one two : BlkAllocator} :
    effectOf first one = effectOf second two ↔
      first = second ∧ one.bitmap = two.bitmap ∧ one.usedBlocks = two.usedBlocks ∧ one.dirty = two.dirty := by
  unfold effectOf
  rw [Effect.mk.injEq]

theorem Formatted.full_iff (formatted : Formatted alloc) :
    alloc.totalBlocks ≤ alloc.usedBlocks ↔ ∀ block, block < alloc.totalBlocks → alloc.free block = false := by
  constructor
  · intro full block below
    by_contra free
    have one : AnyRun alloc block 1 := by
      refine ⟨below, fun place above under => ?_⟩
      have same : place = block := by omega
      rw [same]
      exact Bool.not_eq_false _ ▸ free
    have room := formatted.room one
    omega
  · intro none
    have all : countBits alloc.bitmap alloc.totalBlocks = alloc.totalBlocks := by
      refine Nat.count_iff_forall.mpr fun block below => ?_
      have taken := none block below
      unfold BlkAllocator.free at taken
      rw [Bool.not_eq_false'] at taken
      exact taken
    rw [formatted.used, all]

/-- The bitmap changes where a free block is taken. -/
theorem setBit_ne {block : Nat} (free : alloc.free block = true) :
    bitmapSetBit alloc.bitmap block ≠ alloc.bitmap := by
  intro same
  have set : bitmapTestBit (bitmapSetBit alloc.bitmap block) block = true := by
    unfold bitmapTestBit bitmapSetBit
    rw [testBit_setBit]
    simp
  rw [same, free_iff.mp free] at set
  exact absurd set Bool.false_ne_true

theorem Formatted.alloc_agree_iff (formatted : Formatted alloc) : Agree alloc .alloc ↔ AgreesWhen alloc .alloc := by
  have fullness := formatted.full_iff
  unfold Agree blkEffect blkallocEffect
  rw [Option.some.injEq, effectOf_inj]
  unfold AgreesWhen Blk.blkAlloc Blkalloc.blkAlloc
  by_cases full : alloc.totalBlocks ≤ alloc.usedBlocks
  · rw [if_pos full, if_pos full]
    exact ⟨fun _ => Or.inl (fullness.mp full), fun _ => ⟨rfl, rfl, rfl, rfl⟩⟩
  rw [if_neg full, if_neg full]
  have some : ¬∀ block, block < alloc.totalBlocks → alloc.free block = false := fun none => full (fullness.mpr none)
  rw [or_iff_right some]
  cases first : findFree alloc alloc.firstFree alloc.totalBlocks with
  | some block =>
      obtain ⟨above, below, free⟩ := findFree_some first
      exact ⟨fun same => ⟨same.2.2.2, Or.inl ⟨block, above, below, free⟩⟩, fun held => ⟨rfl, rfl, rfl, held.1⟩⟩
  | none =>
      have behind : ¬∃ block, alloc.firstFree ≤ block ∧ block < alloc.totalBlocks ∧ alloc.free block = true := by
        rintro ⟨block, above, below, free⟩
        rw [findFree_none first above below] at free
        exact absurd free Bool.false_ne_true
      rw [or_iff_right behind]
      cases low : findFree alloc 0 alloc.firstFree with
      | none =>
          refine absurd (fun block below => ?_) some
          by_cases before : block < alloc.firstFree
          · exact findFree_none low (Nat.zero_le block) before
          · exact findFree_none first (by omega) below
      | some block =>
          obtain ⟨_, before, free⟩ := findFree_some low
          have inside : block < alloc.totalBlocks := before.trans_le formatted.hint
          cases data : findFree alloc alloc.firstDataBlock alloc.firstFree with
          | none =>
              have reserved : block < alloc.firstDataBlock := by
                by_contra above
                rw [findFree_none data (by omega) before] at free
                exact absurd free Bool.false_ne_true
              refine ⟨fun same => absurd same.2.1 (setBit_ne free), fun held => ?_⟩
              rw [held.2 block reserved inside] at free
              exact absurd free Bool.false_ne_true
          | some other =>
              obtain ⟨above, early, otherFree⟩ := findFree_some data
              have order : block ≤ other := by
                by_contra late
                rw [findFree_first low (Nat.zero_le other) (by omega)] at otherFree
                exact absurd otherFree Bool.false_ne_true
              constructor
              · rintro ⟨answer, _, _, flag⟩
                have same : block = other := Answer.number.inj answer
                refine ⟨flag, fun reserved below _ => ?_⟩
                exact findFree_first low (Nat.zero_le reserved) (by omega)
              · rintro ⟨flag, none⟩
                have same : block = other := by
                  by_contra different
                  by_cases reserved : block < alloc.firstDataBlock
                  · rw [none block reserved inside] at free
                    exact absurd free Bool.false_ne_true
                  · rw [findFree_first data (by omega) (by omega)] at free
                    exact absurd free Bool.false_ne_true
                rw [same]
                exact ⟨rfl, rfl, rfl, flag⟩

/-- The bitmap changes where a set bit is cleared. -/
theorem clearBit_ne {block : Nat} (taken : bitmapTestBit alloc.bitmap block = true) :
    bitmapClearBit alloc.bitmap block ≠ alloc.bitmap := by
  intro same
  have clear : bitmapTestBit (bitmapClearBit alloc.bitmap block) block = false := by
    unfold bitmapTestBit bitmapClearBit
    rw [testBit_clearBit]
    simp
  rw [same, taken] at clear
  exact absurd clear (by decide)

theorem free_agree_iff (block : BitVec 32) : Agree alloc (.free block) ↔ AgreesWhen alloc (.free block) := by
  unfold Agree blkEffect blkallocEffect
  rw [Option.some.injEq, effectOf_inj]
  change _ ↔ alloc.totalBlocks ≤ block.toNat ∨ (!bitmapTestBit alloc.bitmap block.toNat) = true ∨
    alloc.firstDataBlock ≤ block.toNat ∧ alloc.dirty = true
  unfold Blk.blkFree Blkalloc.blkFree BlkAllocator.free
  by_cases outside : alloc.totalBlocks ≤ block.toNat
  · rw [if_pos outside, if_pos outside]
    exact ⟨fun _ => Or.inl outside, fun _ => ⟨rfl, rfl, rfl, rfl⟩⟩
  rw [if_neg outside, if_neg outside, or_iff_right outside]
  cases taken : bitmapTestBit alloc.bitmap block.toNat with
  | false =>
      rw [if_pos rfl, Bool.not_false, if_pos rfl]
      refine ⟨fun _ => Or.inl rfl, fun _ => ?_⟩
      split_ifs
      all_goals exact ⟨rfl, rfl, rfl, rfl⟩
  | true =>
      rw [if_neg (by decide : ¬true = false), Bool.not_true, if_neg Bool.false_ne_true,
        or_iff_right Bool.false_ne_true]
      by_cases reserved : block.toNat < alloc.firstDataBlock
      · rw [if_pos reserved]
        exact ⟨fun same => absurd same.2.1 (clearBit_ne taken), fun held => absurd held.1 (by omega)⟩
      · rw [if_neg reserved]
        exact ⟨fun same => ⟨by omega, same.2.2.2⟩, fun held => ⟨rfl, rfl, rfl, held.2⟩⟩

/-- The taken runs are the same if the bitmaps behind them are. -/
theorem setBlocks_inj {other found : Nat} (one : Stretch alloc.free start count) (positive : 1 ≤ count)
    (two : Stretch alloc.free other found) (nonempty : 1 ≤ found)
    (same : setBlocks alloc.bitmap start count = setBlocks alloc.bitmap other found) :
    start = other ∧ count = found := by
  have member : ∀ block, alloc.free block = true →
      ((start ≤ block ∧ block < start + count) ↔ (other ≤ block ∧ block < other + found)) := by
    intro block free
    have tests : bitmapTestBit (setBlocks alloc.bitmap start count) block =
        bitmapTestBit (setBlocks alloc.bitmap other found) block := by rw [same]
    rw [setBlocks_test, setBlocks_test, free_iff.mp free, Bool.or_false, Bool.or_false, decide_eq_decide] at tests
    exact tests
  have first := member start (one start le_rfl (by omega))
  have second := member other (two other le_rfl (by omega))
  have place : start = other := by omega
  refine ⟨place, ?_⟩
  rcases lt_trichotomy count found with less | equal | more
  · have third := member (other + count) (two _ (by omega) (by omega))
    omega
  · exact equal
  · have third := member (start + found) (one _ (by omega) (by omega))
    omega

theorem setBlocks_ne (one : Stretch alloc.free start count) (positive : 1 ≤ count) :
    setBlocks alloc.bitmap start count ≠ alloc.bitmap := by
  intro same
  have free := one start le_rfl (by omega)
  have set := setBlocks_test alloc.bitmap start count start
  rw [same, free_iff.mp free, Bool.or_false, decide_eq_true ⟨le_rfl, by omega⟩] at set
  exact absurd set Bool.false_ne_true

theorem Formatted.contiguous_agree_iff (formatted : Formatted alloc) (count : BitVec 32) (given : Bool) :
    Agree alloc (.allocContiguous count given) ↔ AgreesWhen alloc (.allocContiguous count given) := by
  by_cases zero : count = 0
  · refine ⟨fun _ => Or.inl zero, fun _ => ?_⟩
    rw [zero]
    rfl
  have positive : 1 ≤ count.toNat := by
    rw [Nat.one_le_iff_ne_zero]
    exact fun none => zero (BitVec.eq_of_toNat_eq none)
  change (Blk.blkAllocContiguous alloc count.toNat).map (fun result => effectOf (.number result.1) result.2) =
      some (effectOf (.number (Blkalloc.blkAllocContiguous alloc count.toNat given).1.length)
        (Blkalloc.blkAllocContiguous alloc count.toNat given).2) ↔ count = 0 ∨ _
  rw [or_iff_right zero]
  rcases formatted.blkAllocContiguous positive count.isLt with ⟨start, run, first, ran⟩ | ⟨none, regular, ran⟩ |
    ⟨none, overruns, ran⟩
  · rw [ran, Option.map_some, Option.some.injEq, effectOf_inj,
      or_iff_right fun wrong => wrong.2.1 start run]
    rcases @blkAllocContiguous_cases alloc count.toNat formatted.used given with ⟨same, absent⟩ |
      ⟨other, found, nonempty, _, taken, lowest, _, present, same⟩
    · rw [same]
      refine ⟨fun equal => absurd equal.2.1 (setBlocks_ne run.2 positive), fun held => ?_⟩
      exact absurd ⟨held.2.2.1, held.2.2.2.1⟩ ((absent held.1 positive).2 count.toNat)
    · have length : (takeRun alloc other found).1.length = found := List.length_range'
      rw [same, length]
      constructor
      · rintro ⟨answer, bitmap, _, flag⟩
        obtain ⟨place, size⟩ := setBlocks_inj run.2 positive taken.2.2 nonempty bitmap
        have number : start = found := Answer.number.inj answer
        have low := taken.1
        have here : start = count.toNat := by omega
        exact ⟨present, flag, by omega, here ▸ run, here ▸ first⟩
      · rintro ⟨_, flag, data, exact, least⟩
        have here : start = count.toNat := le_antisymm (first _ exact) (least _ run)
        obtain ⟨size, before⟩ := lowest count.toNat ⟨data, exact⟩
        have behind := least other (by rw [← size]; exact taken.2)
        have place : other = start := by omega
        rw [size, place]
        exact ⟨by rw [here], rfl, rfl, flag⟩
  · rw [ran, Option.map_some, Option.some.injEq, effectOf_inj,
      or_iff_left fun wrong => none _ wrong.2.2.2.1]
    rcases @blkAllocContiguous_cases alloc count.toNat formatted.used given with ⟨same, absent⟩ |
      ⟨other, found, nonempty, _, taken, _, busy, present, same⟩
    · rw [same]
      exact ⟨fun _ => ⟨regular, none, fun present => (absent present positive).1⟩, fun _ => ⟨rfl, rfl, rfl, rfl⟩⟩
    · rw [same]
      exact ⟨fun equal => absurd equal.2.1.symm (setBlocks_ne taken.2.2 nonempty),
        fun held => absurd (held.2.2 present) busy⟩
  · rw [ran]
    constructor
    · exact fun wrong => nomatch wrong
    · rintro (held | held)
      · exact absurd overruns held.1
      · exact absurd held.2.2.2.1 (none _)

/-- The two files agree on a call to a formatted allocator exactly under the condition. -/
theorem blkFiles_agree_iff (formatted : Formatted alloc) (call : SharedCall) :
    Agree alloc call ↔ AgreesWhen alloc call := by
  cases call with
  | alloc => exact formatted.alloc_agree_iff
  | free block => exact free_agree_iff block
  | isAllocated block => exact ⟨fun _ => trivial, fun _ => rfl⟩
  | allocContiguous count given => exact formatted.contiguous_agree_iff count given

end Agreement

/-- An initialised and formatted allocator is formatted. -/
theorem Formatted.of_format {given : Bool} {totalBlocks firstDataBlock blockSize reserved : Nat}
    {bounded : totalBlocks < 2 ^ 32} {fresh alloc : BlkAllocator}
    (initial : blkAllocInit given totalBlocks bounded firstDataBlock blockSize = .ok fresh)
    (format : blkAllocFormat fresh reserved = .ok alloc) : Formatted alloc := by
  unfold blkAllocInit at initial
  dsimp only at initial
  split_ifs at initial with wrong large unable
  cases initial
  have small : totalBlocks + 7 < 2 ^ 32 := by
    by_contra wraps
    have zero : (totalBlocks + 7) % 2 ^ 32 / 8 = 0 := by omega
    exact unable (Or.inl zero)
  unfold blkAllocFormat at format
  dsimp only at format
  split_ifs at format with many
  have empty : (fun byte => if byte < (totalBlocks + 7) % 2 ^ 32 / 8 then (0 : BitVec 8) else 0) = fun _ => 0 := by
    funext byte
    split_ifs
    all_goals rfl
  rw [empty, format_count reserved (by omega)] at format
  cases format
  have clear : Stretch (fun block => !bitmapTestBit (fun _ => 0) block) 0 reserved :=
    fun block _ _ => congrArg _ (testBit_empty block)
  refine ⟨?_, Nat.not_lt.mp many, small, by dsimp only; rw [Nat.mod_eq_of_lt small], ?_⟩
  · dsimp only
    rw [setBlocks_count (by omega) clear, countBits_empty, Nat.zero_add]
  · intro block above _
    dsimp only at above ⊢
    rw [setBlocks_test, testBit_empty, decide_eq_false (by omega)]
    rfl

/-- An allocator of sixteen blocks that was formatted with one reserved block and synced. -/
def sixteen : BlkAllocator where
  totalBlocks := 16
  totalBlocks_lt := by decide
  usedBlocks := 1
  firstDataBlock := 1
  firstFree := 1
  blockSize := 512
  bitmap := fun byte => if byte = 0 then 1 else 0
  bitmapSize := 2
  bitmapBlocks := 1
  dirty := false

theorem sixteen_formatted : Formatted sixteen where
  used := by decide
  hint := by decide
  bounded := by decide
  size := by decide
  tail := by
    intro block above below
    change 16 ≤ block at above
    change block < 16 at below
    omega

theorem blkFiles_agree_iff_of_sixteen : ¬Agree sixteen .alloc ∧ Agree sixteen (.free 5) := by
  refine ⟨fun agree => ?_, (blkFiles_agree_iff sixteen_formatted (.free 5)).mpr (Or.inr (Or.inl (by decide)))⟩
  rcases (blkFiles_agree_iff sixteen_formatted .alloc).mp agree with none | held
  · exact absurd (none 1 (by decide)) (by decide)
  · exact absurd held.1 (by decide)

/-- Both files take block 1, but only one of them marks the bitmap dirty; for three blocks one returns where they
start and the other one how many they are. -/
theorem blkFiles_differ :
    ((Blk.blkAlloc sixteen).1, (Blk.blkAlloc sixteen).2.dirty) = (1, false) ∧
    ((Blkalloc.blkAlloc sixteen).1, (Blkalloc.blkAlloc sixteen).2.dirty) = (1, true) ∧
    (Blk.blkAllocContiguous sixteen 3).map Prod.fst = some 1 ∧
    (Blkalloc.blkAllocContiguous sixteen 3 true).1.length = 3 := by
  decide

end Uesi.Blk
