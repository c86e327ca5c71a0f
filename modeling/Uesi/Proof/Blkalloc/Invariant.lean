import Uesi.Proof.Blkalloc.Runs

namespace Uesi.Blkalloc

open Library

variable {alloc : BlkAllocator} {block : Nat}

/-- The invariant of a formatted allocator: the count is the number of set bits, the reserved blocks are taken, and
the hint lies between the first data block and the end. -/
structure Sound (alloc : BlkAllocator) : Prop where
  used : alloc.usedBlocks = countBits alloc.bitmap alloc.totalBlocks
  reserved : ∀ block, block < alloc.firstDataBlock → bitmapTestBit alloc.bitmap block = true
  positive : 1 ≤ alloc.firstDataBlock
  low : alloc.firstDataBlock ≤ alloc.firstFree
  high : alloc.firstFree ≤ alloc.totalBlocks

theorem free_iff : alloc.free block = true ↔ bitmapTestBit alloc.bitmap block = false := by
  unfold BlkAllocator.free
  rw [Bool.not_eq_true']

/-- A free block is a data block. -/
theorem Sound.data (sound : Sound alloc) (free : alloc.free block = true) : alloc.firstDataBlock ≤ block := by
  by_contra reserved
  have taken := sound.reserved block (by omega)
  rw [free_iff.mp free] at taken
  exact absurd taken Bool.false_ne_true

/-- The allocator with consecutive free blocks taken keeps the invariant under every hint in range. -/
theorem Sound.take {start found hint : Nat} (sound : Sound alloc) (run : FreeRun alloc start found)
    (low : alloc.firstDataBlock ≤ hint) (high : hint ≤ alloc.totalBlocks) :
    Sound { alloc with
      bitmap := setBlocks alloc.bitmap start found
      usedBlocks := (alloc.usedBlocks + found) % 2 ^ 32
      firstFree := hint
      dirty := true } where
  used := by
    have room := countBits_stretch run.2.1 run.2.2
    have bounded := alloc.totalBlocks_lt
    have used := sound.used
    dsimp only
    rw [setBlocks_count run.2.1 run.2.2, Nat.mod_eq_of_lt (by omega), used]
  reserved := by
    intro block below
    dsimp only at below ⊢
    rw [setBlocks_test, sound.reserved block below, Bool.or_true]
  positive := sound.positive
  low := low
  high := high

theorem freeRun_one (sound : Sound alloc) (free : alloc.free block = true) (inside : block < alloc.totalBlocks) :
    FreeRun alloc block 1 := by
  refine ⟨sound.data free, inside, fun place above below => ?_⟩
  have same : place = block := by omega
  rw [same]
  exact free

/-- The search finds a free block of its range. -/
theorem findFree_some {start stop : Nat} (found : findFree alloc start stop = some block) :
    start ≤ block ∧ block < stop ∧ alloc.free block = true := by
  unfold findFree at found
  rw [List.find?_range'_eq_some, List.mem_range'_1] at found
  exact ⟨found.2.1.1, by omega, found.1⟩

/-- The search finds the first free block of its range. -/
theorem findFree_first {start stop earlier : Nat} (found : findFree alloc start stop = some block)
    (above : start ≤ earlier) (below : earlier < block) : alloc.free earlier = false := by
  unfold findFree at found
  rw [List.find?_range'_eq_some] at found
  simpa using found.2.2 earlier above below

/-- The search that fails has seen no free block. -/
theorem findFree_none {start stop : Nat} (none : findFree alloc start stop = none) (above : start ≤ block)
    (below : block < stop) : alloc.free block = false := by
  unfold findFree at none
  rw [List.find?_range'_eq_none] at none
  have used := none block above (by omega)
  simpa using used

section Calls

variable (sound : Sound alloc)

include sound

/-- The call takes a free data block, or there is none and it changes nothing. -/
theorem Sound.blkAlloc_cases :
    (∃ block, alloc.firstDataBlock ≤ block ∧ block < alloc.totalBlocks ∧ alloc.free block = true ∧
      blkAlloc alloc = (block, takeBlock alloc block)) ∨
    ((∀ block, alloc.firstDataBlock ≤ block → block < alloc.totalBlocks → alloc.free block = false) ∧
      blkAlloc alloc = (0, alloc)) := by
  unfold blkAlloc
  by_cases full : alloc.totalBlocks ≤ alloc.usedBlocks
  · rw [if_pos full]
    refine Or.inr ⟨fun block _ below => ?_, rfl⟩
    by_contra free
    have run := freeRun_one sound (Bool.not_eq_false _ ▸ free) below
    have room := countBits_stretch run.2.1 run.2.2
    have used := sound.used
    omega
  · rw [if_neg full]
    cases first : findFree alloc alloc.firstFree alloc.totalBlocks with
    | some block =>
        obtain ⟨above, below, free⟩ := findFree_some first
        exact Or.inl ⟨block, sound.low.trans above, below, free, rfl⟩
    | none =>
        cases second : findFree alloc alloc.firstDataBlock alloc.firstFree with
        | some block =>
            obtain ⟨above, below, free⟩ := findFree_some second
            exact Or.inl ⟨block, above, below.trans_le sound.high, free, rfl⟩
        | none =>
            refine Or.inr ⟨fun block above below => ?_, rfl⟩
            by_cases before : block < alloc.firstFree
            · exact findFree_none second above before
            · exact findFree_none first (by omega) below

theorem Sound.takeBlock (free : alloc.free block = true) (inside : block < alloc.totalBlocks) :
    Sound (takeBlock alloc block) := by
  have bounded := alloc.totalBlocks_lt
  have data := sound.data free
  have hint : (block + 1) % 2 ^ 32 = block + 1 := Nat.mod_eq_of_lt (by omega)
  unfold Blkalloc.takeBlock
  rw [hint]
  exact sound.take (freeRun_one sound free inside) (by omega) (by omega)

theorem Sound.blkAlloc : Sound (blkAlloc alloc).2 := by
  rcases sound.blkAlloc_cases with ⟨block, _, below, free, same⟩ | ⟨_, same⟩
  · rw [same]
    exact sound.takeBlock free below
  · rw [same]
    exact sound

theorem Sound.blkAllocSpecific (blockNum : Nat) : Sound (blkAllocSpecific alloc blockNum).2 := by
  have bounded := alloc.totalBlocks_lt
  have low := sound.low
  have high := sound.high
  unfold Blkalloc.blkAllocSpecific
  by_cases outside : alloc.totalBlocks ≤ blockNum
  · rw [if_pos outside]
    exact sound
  · rw [if_neg outside]
    cases taken : bitmapTestBit alloc.bitmap blockNum with
    | true =>
        rw [if_pos rfl]
        exact sound
    | false =>
        rw [if_neg Bool.false_ne_true]
        have free := free_iff.mpr taken
        have data := sound.data free
        have run := freeRun_one sound free (by omega)
        apply sound.take run
        · split_ifs
          all_goals omega
        · split_ifs
          all_goals omega

theorem Sound.blkAllocContiguous (count : Nat) (given : Bool) : Sound (blkAllocContiguous alloc count given).2 := by
  rcases blkAllocContiguous_cases sound.used given with ⟨same, _⟩ | ⟨start, found, _, _, run, _, _, _, same⟩
  · rw [same]
    exact sound
  · rw [same]
    have bounded := alloc.totalBlocks_lt
    have hint : (start + found) % 2 ^ 32 = start + found :=
      Nat.mod_eq_of_lt (run.2.1.trans_lt bounded)
    unfold takeRun
    rw [hint]
    exact sound.take run (run.1.trans (Nat.le_add_right _ _)) run.2.1

theorem Sound.blkFree (blockNum : Nat) : Sound (blkFree alloc blockNum).2 := by
  unfold Blkalloc.blkFree
  by_cases outside : alloc.totalBlocks ≤ blockNum
  · rw [if_pos outside]
    exact sound
  rw [if_neg outside]
  by_cases reserved : blockNum < alloc.firstDataBlock
  · rw [if_pos reserved]
    exact sound
  rw [if_neg reserved]
  cases free : alloc.free blockNum with
  | true =>
      rw [if_pos rfl]
      exact sound
  | false =>
      rw [if_neg Bool.false_ne_true]
      have taken : testBit alloc.bitmap blockNum = true := by
        unfold BlkAllocator.free at free
        rwa [Bool.not_eq_false'] at free
      have inside : blockNum < alloc.totalBlocks := by omega
      have count := countBits_clearBit inside taken
      have used := sound.used
      have low := sound.low
      have high := sound.high
      refine ⟨?_, fun block below => ?_, sound.positive, ?_, ?_⟩
      · dsimp only [bitmapClearBit]
        rw [if_neg (by omega)]
        omega
      · have other : block ≠ blockNum := fun same => reserved (same ▸ below)
        have held := sound.reserved block below
        unfold bitmapTestBit at held ⊢
        dsimp only [bitmapClearBit]
        rw [testBit_clearBit, held, decide_eq_false other]
        rfl
      · dsimp only
        split_ifs
        all_goals omega
      · dsimp only
        split_ifs
        all_goals omega

end Calls

/-- The call frees one block after another, whether or not a block is refused. -/
theorem blkFreeMultiple_cons (alloc : BlkAllocator) (block : Nat) (rest : List Nat) :
    (blkFreeMultiple alloc (block :: rest)).2 = (blkFreeMultiple (blkFree alloc block).2 rest).2 := by
  rw [Blkalloc.blkFreeMultiple]
  generalize blkFree alloc block = result
  obtain ⟨answer, after⟩ := result
  cases answer with
  | ok value => rfl
  | error code => rfl

theorem Sound.blkFreeMultiple (sound : Sound alloc) (blocks : List Nat) : Sound (blkFreeMultiple alloc blocks).2 := by
  induction blocks generalizing alloc with
  | nil => exact sound
  | cons block rest ih =>
      rw [blkFreeMultiple_cons]
      exact ih (sound.blkFree block)

theorem Sound.blkStep (sound : Sound alloc) (call : BlkCall) : Sound (blkStep alloc call) := by
  cases call with
  | alloc => exact sound.blkAlloc
  | allocSpecific blockNum => exact sound.blkAllocSpecific blockNum
  | allocContiguous count given => exact sound.blkAllocContiguous count given
  | free blockNum => exact sound.blkFree blockNum
  | freeMultiple blocks => exact sound.blkFreeMultiple blocks

/-- The counting loop of `blk_alloc_validate` counts the set bits. -/
theorem validate_count (bitmap : Nat → BitVec 8) (bound : Nat) (bounded : bound < 2 ^ 32) :
    countedLoop (fun block used => if bitmapTestBit bitmap block then (used + 1) % 2 ^ 32 else used) bound 0 =
      countBits bitmap bound := by
  refine countedLoop_invariant _ (fun index used => used = countBits bitmap index) bound 0 rfl ?_
  rintro index used inside rfl
  have most : countBits bitmap index ≤ index := Nat.count_le _
  have next : countBits bitmap (index + 1) =
      countBits bitmap index + if bitmapTestBit bitmap index = true then 1 else 0 := Nat.count_succ _ _
  rw [next]
  by_cases set : bitmapTestBit bitmap index = true
  · rw [if_pos set, if_pos set, Nat.mod_eq_of_lt (by omega)]
  · rw [if_neg set, if_neg set, Nat.add_zero]

theorem Sound.validate (sound : Sound alloc) : blkAllocValidate alloc = .ok () := by
  have reserved : (List.range alloc.firstDataBlock).any alloc.free = false := by
    rw [List.any_eq_false]
    intro block inside
    have taken := sound.reserved block (List.mem_range.mp inside)
    simp [BlkAllocator.free, taken]
  unfold blkAllocValidate
  rw [validate_count _ _ alloc.totalBlocks_lt, ← sound.used, reserved]
  simp

/-- The allocator behind `blk_alloc_init` has an empty bitmap. -/
theorem blkAllocInit_ok {given : Bool} {totalBlocks firstDataBlock blockSize : Nat}
    {bounded : totalBlocks < 2 ^ 32} {fresh : BlkAllocator}
    (initial : blkAllocInit given totalBlocks bounded firstDataBlock blockSize = .ok fresh) :
    fresh.totalBlocks = totalBlocks ∧ fresh.firstDataBlock = firstDataBlock ∧ firstDataBlock < totalBlocks ∧
      fresh.bitmap = fun _ => 0 := by
  unfold blkAllocInit at initial
  dsimp only at initial
  split_ifs at initial with zero outside
  cases initial
  exact ⟨rfl, rfl, by omega, rfl⟩

/-- The loop of `blk_alloc_format` counts the reserved blocks. -/
theorem format_count (reserved : Nat) (bounded : reserved < 2 ^ 32) :
    countedLoop (fun _ used => (used + 1) % 2 ^ 32) reserved 0 = reserved := by
  refine countedLoop_invariant _ (fun index used => used = index) reserved 0 rfl ?_
  rintro index used inside rfl
  exact Nat.mod_eq_of_lt (by omega)

theorem testBit_empty (block : Nat) : bitmapTestBit (fun _ => 0) block = false := by
  simp [bitmapTestBit, testBit]

theorem countBits_empty (bound : Nat) : countBits (fun _ => (0 : BitVec 8)) bound = 0 := by
  apply Nat.count_of_forall_not
  intro block _ set
  exact absurd ((testBit_empty block).symm.trans set) Bool.false_ne_true

/-- The allocator behind the two set-up calls keeps the invariant. -/
theorem Sound.formatted {given : Bool} {totalBlocks firstDataBlock blockSize : Nat}
    {bounded : totalBlocks < 2 ^ 32} {fresh formatted : BlkAllocator} (positive : 1 ≤ firstDataBlock)
    (initial : blkAllocInit given totalBlocks bounded firstDataBlock blockSize = .ok fresh)
    (format : blkAllocFormat fresh firstDataBlock = .ok formatted) : Sound formatted := by
  obtain ⟨total, first, proper, empty⟩ := blkAllocInit_ok initial
  have cleared : (fun byte => if byte < fresh.bitmapSize then 0 else fresh.bitmap byte) = fun _ => 0 := by
    rw [empty]
    simp
  unfold blkAllocFormat at format
  rw [if_neg (by omega), cleared, format_count _ (by omega)] at format
  cases format
  have clear : Stretch (fun block => !bitmapTestBit (fun _ => 0) block) 0 firstDataBlock :=
    fun block _ _ => congrArg _ (testBit_empty block)
  refine ⟨?_, fun block below => ?_, ?_, ?_, ?_⟩
  · dsimp only
    rw [setBlocks_count (by omega) clear, countBits_empty, Nat.zero_add]
  · dsimp only at below ⊢
    rw [setBlocks_test, decide_eq_true (by omega), Bool.true_or]
  all_goals dsimp only
  all_goals omega

/-- An allocator with the same number of blocks and the same first data block. -/
def SameSizes (alloc after : BlkAllocator) : Prop :=
  after.totalBlocks = alloc.totalBlocks ∧ after.firstDataBlock = alloc.firstDataBlock

theorem blkFree_sizes (alloc : BlkAllocator) (blockNum : Nat) : SameSizes alloc (blkFree alloc blockNum).2 := by
  unfold blkFree
  split_ifs
  all_goals exact ⟨rfl, rfl⟩

theorem blkFreeMultiple_sizes (alloc : BlkAllocator) (blocks : List Nat) :
    SameSizes alloc (blkFreeMultiple alloc blocks).2 := by
  induction blocks generalizing alloc with
  | nil => exact ⟨rfl, rfl⟩
  | cons block rest ih =>
      have first := blkFree_sizes alloc block
      have others := ih (blkFree alloc block).2
      unfold SameSizes
      rw [blkFreeMultiple_cons]
      exact ⟨others.1.trans first.1, others.2.trans first.2⟩

theorem blkAllocSpecific_sizes (alloc : BlkAllocator) (blockNum : Nat) :
    SameSizes alloc (blkAllocSpecific alloc blockNum).2 := by
  unfold blkAllocSpecific
  split_ifs
  all_goals exact ⟨rfl, rfl⟩

/-- The calls keep the number of blocks and the first data block. -/
theorem blkStep_sizes (sound : Sound alloc) (call : BlkCall) : SameSizes alloc (blkStep alloc call) := by
  cases call with
  | alloc =>
      rcases sound.blkAlloc_cases with ⟨block, _, _, _, same⟩ | ⟨_, same⟩
      all_goals rw [blkStep, same]
      all_goals exact ⟨rfl, rfl⟩
  | allocSpecific blockNum => exact blkAllocSpecific_sizes alloc blockNum
  | allocContiguous count given =>
      rcases blkAllocContiguous_cases sound.used given with ⟨same, _⟩ | ⟨start, found, _, _, _, _, _, _, same⟩
      all_goals rw [blkStep, same]
      all_goals exact ⟨rfl, rfl⟩
  | free blockNum => exact blkFree_sizes alloc blockNum
  | freeMultiple blocks => exact blkFreeMultiple_sizes alloc blocks

theorem takeBlock_free (alloc : BlkAllocator) (block other : Nat) :
    (takeBlock alloc block).free other = (alloc.free other && other != block) := by
  unfold takeBlock BlkAllocator.free bitmapTestBit bitmapSetBit
  rw [testBit_setBit, Bool.not_or, Bool.and_comm]
  rfl

/-- Behind every sequence of calls the count is right, the reserved blocks are taken and the validation passes. The
next `blk_alloc` takes exactly one free data block if there is one, and otherwise changes nothing. -/
theorem blkAlloc_afterCalls (given : Bool) (totalBlocks firstDataBlock blockSize : Nat)
    (bounded : totalBlocks < 2 ^ 32) (fresh formatted : BlkAllocator) (calls : List BlkCall)
    (positive : 1 ≤ firstDataBlock)
    (initial : blkAllocInit given totalBlocks bounded firstDataBlock blockSize = .ok fresh)
    (format : blkAllocFormat fresh firstDataBlock = .ok formatted) :
    let alloc := run blkStep formatted calls
    let next := blkAlloc alloc
    alloc.usedBlocks = countBits alloc.bitmap totalBlocks ∧
    (∀ block, block < firstDataBlock → alloc.free block = false) ∧
    blkAllocValidate alloc = .ok () ∧
    ((∃ block, firstDataBlock ≤ block ∧ block < totalBlocks ∧ alloc.free block = true) →
      firstDataBlock ≤ next.1 ∧ next.1 < totalBlocks ∧ alloc.free next.1 = true ∧
        ∀ block, next.2.free block = (alloc.free block && block != next.1)) ∧
    ((∀ block, firstDataBlock ≤ block → block < totalBlocks → alloc.free block = false) →
      next = (0, alloc)) := by
  have held : Sound (run blkStep formatted calls) ∧
      (run blkStep formatted calls).totalBlocks = totalBlocks ∧
      (run blkStep formatted calls).firstDataBlock = firstDataBlock := by
    refine run_invariant blkStep
      (fun alloc => Sound alloc ∧ alloc.totalBlocks = totalBlocks ∧ alloc.firstDataBlock = firstDataBlock)
      ?_ formatted calls ?_
    · rintro alloc call ⟨sound, total, first⟩
      have sizes := blkStep_sizes sound call
      exact ⟨sound.blkStep call, sizes.1.trans total, sizes.2.trans first⟩
    · obtain ⟨total, first, _, _⟩ := blkAllocInit_ok initial
      refine ⟨Sound.formatted positive initial format, ?_⟩
      unfold blkAllocFormat at format
      split_ifs at format
      cases format
      exact ⟨total, first⟩
  generalize run blkStep formatted calls = alloc at held
  obtain ⟨sound, rfl, rfl⟩ := held
  refine ⟨sound.used, fun block below => ?_, sound.validate, ?_, ?_⟩
  · rw [BlkAllocator.free, sound.reserved block below]
    rfl
  · rintro ⟨block, above, below, free⟩
    rcases sound.blkAlloc_cases with ⟨taken, low, high, unused, same⟩ | ⟨none, _⟩
    · rw [same]
      exact ⟨low, high, unused, takeBlock_free alloc taken⟩
    · rw [none block above below] at free
      exact absurd free Bool.false_ne_true
  · intro none
    rcases sound.blkAlloc_cases with ⟨taken, low, high, unused, _⟩ | ⟨_, same⟩
    · rw [none taken low high] at unused
      exact absurd unused Bool.false_ne_true
    · exact same

theorem blkAlloc_afterCalls_of_eight :
    ∃ fresh formatted, blkAllocInit true 8 (by decide) 1 512 = .ok fresh ∧ blkAllocFormat fresh 1 = .ok formatted ∧
      blkAllocValidate (run blkStep formatted [.alloc, .allocContiguous 3 true, .free 2]) = .ok () := by
  refine ⟨_, _, rfl, rfl, ?_⟩
  exact (blkAlloc_afterCalls true 8 1 512 (by decide) _ _ [.alloc, .allocContiguous 3 true, .free 2]
    (by decide) rfl rfl).2.2.1

end Uesi.Blkalloc
