import Uesi.Construction.Blkalloc

namespace Uesi.Blkalloc

open Library

variable {bitmap : Nat → BitVec 8} {start found total : Nat}

/-- The loop over consecutive blocks sets their bits and no other one. -/
theorem setBlocks_test (bitmap : Nat → BitVec 8) (start found block : Nat) :
    bitmapTestBit (setBlocks bitmap start found) block =
      (decide (start ≤ block ∧ block < start + found) || bitmapTestBit bitmap block) := by
  induction found with
  | zero =>
      have outside : ¬(start ≤ block ∧ block < start + 0) := by omega
      rw [decide_eq_false outside]
      rfl
  | succ found ih =>
      have step : bitmapTestBit (setBlocks bitmap start (found + 1)) block =
          (decide (block = start + found) || bitmapTestBit (setBlocks bitmap start found) block) :=
        testBit_setBit _ _ _
      rw [step, ih, ← Bool.or_assoc, ← Bool.decide_or]
      congr 1
      rw [decide_eq_decide]
      omega

/-- The loop over consecutive free blocks adds their number to the number of set bits. -/
theorem setBlocks_count (inside : start + found ≤ total)
    (clear : Stretch (fun block => !bitmapTestBit bitmap block) start found) :
    countBits (setBlocks bitmap start found) total = countBits bitmap total + found := by
  induction found with
  | zero => rfl
  | succ found ih =>
      have before := ih (by omega) (clear.sub le_rfl (by omega))
      have unset : bitmapTestBit (setBlocks bitmap start found) (start + found) = false := by
        have last := clear (start + found) (by omega) (by omega)
        have outside : ¬(start ≤ start + found ∧ start + found < start + found) := by omega
        rw [setBlocks_test, decide_eq_false outside, Bool.false_or]
        simpa using last
      have step : countBits (setBlocks bitmap start (found + 1)) total =
          countBits (setBlocks bitmap start found) total + 1 := countBits_setBit (by omega) unset
      omega

/-- A stretch of free blocks leaves room for as many set bits. -/
theorem countBits_stretch (inside : start + found ≤ total)
    (clear : Stretch (fun block => !bitmapTestBit bitmap block) start found) :
    countBits bitmap total + found ≤ total := by
  rw [← setBlocks_count inside clear]
  exact Nat.count_le _

section Contiguous

variable {free : Nat → Bool} {low : Nat}

/-- The loop ends with enough blocks or behind the last block. -/
theorem contiguousLoop_stopped {count : Nat} (length index : Nat) (run : Nat × Nat)
    (stopped : Stopped free low count index run) :
    ∃ stop, stop ≤ index + length ∧
      Stopped free low count stop (contiguousLoop free count (List.range' index length) run) ∧
      ((contiguousLoop free count (List.range' index length) run).2 < count → stop = index + length) := by
  induction length generalizing index run with
  | zero => exact ⟨index, le_rfl, stopped, fun _ => rfl⟩
  | succ length ih =>
      rw [List.range'_succ, contiguousLoop]
      by_cases short : run.2 < count
      · rw [if_pos short]
        obtain ⟨stop, within, held, last⟩ := ih (index + 1) (scanStep free index run) (stopped.step short)
        exact ⟨stop, by omega, held, fun less => by have := last less; omega⟩
      · rw [if_neg short]
        exact ⟨index, by omega, stopped, fun less => absurd less short⟩

end Contiguous

variable {alloc : BlkAllocator} {count : Nat}

/-- The blocks that `blk_alloc_contiguous` looks for: a stretch of free data blocks. -/
def FreeRun (alloc : BlkAllocator) (start count : Nat) : Prop :=
  alloc.firstDataBlock ≤ start ∧ start + count ≤ alloc.totalBlocks ∧ Stretch alloc.free start count

/-- The result of `blk_alloc_contiguous` that takes the blocks of a run. -/
def takeRun (alloc : BlkAllocator) (start found : Nat) : List Nat × BlkAllocator :=
  (List.range' start found, { alloc with
    bitmap := setBlocks alloc.bitmap start found
    usedBlocks := (alloc.usedBlocks + found) % 2 ^ 32
    firstFree := (start + found) % 2 ^ 32
    dirty := true })

/-- There is nothing to take: no free block at all, or neither a run of the length that is left of the request nor a
free block at the end. -/
def NothingToTake (alloc : BlkAllocator) (count : Nat) : Prop :=
  alloc.totalBlocks - alloc.usedBlocks = 0 ∨
    (¬FreeRun alloc (alloc.totalBlocks - 1) 1 ∧
      ∀ start, ¬FreeRun alloc start (min count (alloc.totalBlocks - alloc.usedBlocks)))

/-- The call takes nothing, or a run of free blocks that is the first one of its length when it is long enough. -/
theorem blkAllocContiguous_cases (used : alloc.usedBlocks = countBits alloc.bitmap alloc.totalBlocks)
    (given : Bool) :
    (blkAllocContiguous alloc count given = ([], alloc) ∧
      (given = true → 1 ≤ count → NothingToTake alloc count ∧ ∀ start, ¬FreeRun alloc start count)) ∨
    ∃ start found, 1 ≤ found ∧ found ≤ count ∧ FreeRun alloc start found ∧
      (∀ first, FreeRun alloc first count → found = count ∧ start ≤ first) ∧ ¬NothingToTake alloc count ∧
      given = true ∧ blkAllocContiguous alloc count given = takeRun alloc start found := by
  unfold blkAllocContiguous
  by_cases idle : count = 0 ∨ given = false
  · rw [if_pos idle]
    refine Or.inl ⟨rfl, fun present positive => ?_⟩
    rcases idle with zero | absent
    · omega
    · rw [absent] at present
      exact absurd present Bool.false_ne_true
  · rw [if_neg idle]
    have most : alloc.usedBlocks ≤ alloc.totalBlocks := used ▸ Nat.count_le _
    have bounded := alloc.totalBlocks_lt
    have available : (alloc.totalBlocks + (2 ^ 32 - alloc.usedBlocks)) % 2 ^ 32 =
        alloc.totalBlocks - alloc.usedBlocks := by omega
    have room : ∀ start length, FreeRun alloc start length → length ≤ alloc.totalBlocks - alloc.usedBlocks := by
      intro start length run
      have held := countBits_stretch run.2.1 run.2.2
      omega
    dsimp only
    rw [available]
    by_cases full : alloc.totalBlocks - alloc.usedBlocks = 0
    · rw [if_pos full]
      refine Or.inl ⟨rfl, fun _ positive => ⟨Or.inl full, fun start run => ?_⟩⟩
      have held := room start count run
      omega
    · rw [if_neg full]
      generalize clipped : (if alloc.totalBlocks - alloc.usedBlocks < count then
        alloc.totalBlocks - alloc.usedBlocks else count) = limit
      have least : min count (alloc.totalBlocks - alloc.usedBlocks) = limit := by
        rw [← clipped]
        split_ifs
        all_goals omega
      have limited : 1 ≤ limit ∧ limit ≤ count := by
        rw [← clipped]
        split_ifs
        all_goals omega
      have unclipped : ∀ first, FreeRun alloc first count → limit = count := by
        intro first run
        have held := room first count run
        rw [← clipped, if_neg (by omega)]
      obtain ⟨stop, within, stopped, last⟩ := contiguousLoop_stopped
        (alloc.totalBlocks - alloc.firstDataBlock) alloc.firstDataBlock (0, 0)
        (@Stopped.initial alloc.free alloc.firstDataBlock limit limited.1 0)
      generalize contiguousLoop alloc.free limit
        (List.range' alloc.firstDataBlock (alloc.totalBlocks - alloc.firstDataBlock)) (0, 0) = run
        at stopped last
      obtain ⟨start, found⟩ := run
      have ends := stopped.ends
      have inside : alloc.firstDataBlock + found ≤ stop := ends.inside
      have size : found ≤ limit := stopped.bounded
      -- A run of the wanted length would have stopped the loop, and at its own end.
      have reached : ∀ first, FreeRun alloc first count → found = count ∧ stop ≤ first + count := by
        intro first run
        have same := unclipped first run
        have ended : stop ≤ first + count := by
          by_contra early
          have held := stopped.first first run.1 (by omega) (same ▸ run.2.2)
          omega
        by_contra short
        have less : found < limit := by omega
        have final := last less
        have bound := run.2.1
        rcases ends.cases run.1 run.2.2 with later | before | empty
        all_goals dsimp only at *
        all_goals omega
      unfold NothingToTake
      rw [least]
      dsimp only
      by_cases none : found = 0
      · rw [if_pos none]
        have final := last (by omega)
        refine Or.inl ⟨rfl, fun _ positive => ⟨Or.inr ⟨fun run => ?_, fun start run => ?_⟩, fun start run => ?_⟩⟩
        · have low := run.1
          have high := run.2.1
          rcases ends.cases run.1 run.2.2 with later | before | empty
          all_goals dsimp only at *
          all_goals omega
        · have low := run.1
          have high := run.2.1
          have ended := stopped.first start run.1 (by omega) run.2.2
          rcases ends.cases run.1 run.2.2 with later | before | empty
          all_goals dsimp only at *
          all_goals omega
        · have held := (reached start run).1
          omega
      · rw [if_neg none]
        have place : start + found = stop := ends.start none
        have stretch : Stretch alloc.free (stop - found) found := ends.stretch
        have back : stop - found = start := by omega
        rw [back] at stretch
        refine Or.inr ⟨start, found, by omega, by omega, ⟨by omega, by omega, stretch⟩, ?_, ?_, ?_, rfl⟩
        · intro first run
          have held := reached first run
          exact ⟨held.1, by omega⟩
        · rintro (wrong | ⟨noEnd, noRun⟩)
          · exact full wrong
          · by_cases short : found < limit
            · have final := last short
              exact noEnd ⟨by omega, by omega, stretch.sub (by omega) (by omega)⟩
            · have same : found = limit := by omega
              exact noRun start ⟨by omega, by omega, same ▸ stretch⟩
        · rcases given with _ | _
          · exact absurd (Or.inr rfl) idle
          · rfl

/-- Behind the call exactly the blocks of the run are no longer free. -/
theorem takeRun_free (alloc : BlkAllocator) (start found block : Nat) :
    (takeRun alloc start found).2.free block =
      (!decide (start ≤ block ∧ block < start + found) && alloc.free block) := by
  unfold takeRun BlkAllocator.free
  rw [setBlocks_test, Bool.not_or]

/-- The call takes the lowest run of the wanted length if there is one. In every case the blocks are consecutive,
were free and are not free behind the call, and no other bit changes. -/
theorem blkAllocContiguous_firstFit (alloc : BlkAllocator) (count : Nat)
    (used : alloc.usedBlocks = countBits alloc.bitmap alloc.totalBlocks) (positive : 1 ≤ count) :
    let blocks := (blkAllocContiguous alloc count true).1
    let after := (blkAllocContiguous alloc count true).2
    (∀ some, FreeRun alloc some count → ∃ start, FreeRun alloc start count ∧
      (∀ first, FreeRun alloc first count → start ≤ first) ∧ blocks = List.range' start count) ∧
    blocks.length ≤ count ∧
    (∃ start, blocks = List.range' start blocks.length) ∧
    (∀ block ∈ blocks, alloc.free block = true ∧ after.free block = false) ∧
    ∀ block, block ∉ blocks → after.free block = alloc.free block := by
  rcases blkAllocContiguous_cases used true with ⟨same, absent⟩ | ⟨start, found, _, most, run, lowest, _, _, same⟩
  · rw [same]
    refine ⟨fun first run => absurd run ((absent rfl positive).2 first), Nat.zero_le count, ⟨0, rfl⟩, ?_, ?_⟩
    · intro block taken
      exact absurd taken List.not_mem_nil
    · intro block _
      rfl
  · rw [same]
    have length : (takeRun alloc start found).1.length = found := List.length_range'
    have member : ∀ block, block ∈ (takeRun alloc start found).1 ↔ start ≤ block ∧ block < start + found :=
      fun block => List.mem_range'_1
    dsimp only
    refine ⟨fun first held => ?_, length.trans_le most, ⟨start, by rw [length]; rfl⟩, ?_, ?_⟩
    · have enough := (lowest first held).1
      exact ⟨start, enough ▸ run, fun other wanted => (lowest other wanted).2, by rw [← enough]; rfl⟩
    · intro block taken
      have place := (member block).mp taken
      rw [takeRun_free, decide_eq_true place]
      exact ⟨run.2.2 block place.1 place.2, rfl⟩
    · intro block other
      have place := fun inside => other ((member block).mpr inside)
      rw [takeRun_free, decide_eq_false place]
      rfl

theorem gapped_lt : 8 < 2 ^ 32 := by decide

/-- An allocator of eight blocks with a free block before a longer run. -/
def gapped : BlkAllocator where
  totalBlocks := 8
  totalBlocks_lt := gapped_lt
  usedBlocks := 3
  firstDataBlock := 1
  firstFree := 1
  blockSize := 512
  bitmap := fun byte => if byte = 0 then 11 else 0
  bitmapSize := 1
  bitmapBlocks := 1
  dirty := true

theorem blkAllocContiguous_firstFit_of_gapped : (blkAllocContiguous gapped 2 true).1 = [4, 5] ∧
    ∃ start, FreeRun gapped start 2 ∧ (blkAllocContiguous gapped 2 true).1 = List.range' start 2 := by
  have later : FreeRun gapped 6 2 := by
    refine ⟨by decide, by decide, fun block above below => ?_⟩
    have place : block = 6 ∨ block = 7 := by omega
    rcases place with rfl | rfl
    all_goals decide
  obtain ⟨start, run, _, taken⟩ :=
    (blkAllocContiguous_firstFit gapped 2 (by decide) (by decide)).1 6 later
  exact ⟨by decide, start, run, taken⟩

/-- The region loop keeps the run that ends here and the best run before it. -/
structure Scanned (free : Nat → Bool) (low index : Nat) (regions : (Nat × Nat) × (Nat × Nat)) : Prop where
  ends : EndsAt free low index regions.1
  best : Best free low (index - regions.1.2) regions.2
  empty : regions.2.2 = 0 → regions.2.1 = 0

theorem better_empty {greatest current : Nat × Nat} (empty : greatest.2 = 0 → greatest.1 = 0) :
    (better greatest current).2 = 0 → (better greatest current).1 = 0 := by
  unfold better
  split_ifs with longer
  · intro zero
    omega
  · exact empty

theorem Scanned.step {free : Nat → Bool} {low index : Nat} {regions : (Nat × Nat) × (Nat × Nat)}
    (scanned : Scanned free low index regions) : Scanned free low (index + 1) (regionStep free regions index) := by
  have ends := scanned.ends.step
  unfold regionStep
  cases here : free index with
  | true =>
      rw [if_pos rfl]
      refine ⟨ends, ?_, scanned.empty⟩
      have length : (scanStep free index regions.1).2 = regions.1.2 + 1 := by
        rw [scanStep, if_pos here]
      have same : index + 1 - (scanStep free index regions.1).2 = index - regions.1.2 := by omega
      dsimp only
      rw [same]
      exact scanned.best
  | false =>
      rw [if_neg Bool.false_ne_true]
      refine ⟨ends, ?_, better_empty scanned.empty⟩
      have length : (scanStep free index regions.1).2 = 0 := by
        rw [scanStep, if_neg (by rw [here]; exact Bool.false_ne_true)]
      dsimp only
      rw [length]
      exact (scanned.best.better scanned.ends).skip here

theorem Scanned.foldl {free : Nat → Bool} {low index : Nat} {regions : (Nat × Nat) × (Nat × Nat)}
    (scanned : Scanned free low index regions) (length : Nat) :
    Scanned free low (index + length) ((List.range' index length).foldl (regionStep free) regions) := by
  induction length generalizing index regions with
  | zero => exact scanned
  | succ length ih =>
      rw [List.range'_succ, List.foldl_cons, ← Nat.add_assoc, Nat.add_right_comm]
      exact ih scanned.step

/-- The region is a longest run of free data blocks and the first one of its length. -/
theorem blkAllocLargestFreeRegion_greatest (alloc : BlkAllocator) :
    let size := (blkAllocLargestFreeRegion alloc).1
    let start := (blkAllocLargestFreeRegion alloc).2
    (∀ first count, FreeRun alloc first count → count ≤ size) ∧
    (size ≠ 0 → FreeRun alloc start size ∧ ∀ first, FreeRun alloc first size → start ≤ first) ∧
    ((∀ block, alloc.firstDataBlock ≤ block → block < alloc.totalBlocks → alloc.free block = false) →
      size = 0 ∧ start = 0) := by
  intro size start
  have scanned : Scanned alloc.free alloc.firstDataBlock
      (alloc.firstDataBlock + (alloc.totalBlocks - alloc.firstDataBlock))
      ((List.range' alloc.firstDataBlock (alloc.totalBlocks - alloc.firstDataBlock)).foldl
        (regionStep alloc.free) ((0, 0), (0, 0))) :=
    Scanned.foldl ⟨EndsAt.initial _ _ 0, Best.initial _ _ 0, fun _ => rfl⟩ _
  have best := scanned.best.better scanned.ends
  have empty : size = 0 → start = 0 := better_empty scanned.empty
  have longest : ∀ first count, FreeRun alloc first count → count ≤ size :=
    fun first count run => best.longest first count run.1 (by have := run.1; have := run.2.1; omega) run.2.2
  have taken : size ≠ 0 → FreeRun alloc start size := by
    intro nonzero
    have above : alloc.firstDataBlock ≤ start := best.above nonzero
    have below : start + size ≤ alloc.firstDataBlock + (alloc.totalBlocks - alloc.firstDataBlock) :=
      best.below nonzero
    exact ⟨above, by omega, best.stretch⟩
  refine ⟨longest, fun nonzero => ⟨taken nonzero, fun first run => ?_⟩, fun used => ?_⟩
  · have above := run.1
    have below : first + size ≤ alloc.firstDataBlock + (alloc.totalBlocks - alloc.firstDataBlock) := by
      have := run.2.1
      omega
    exact best.earliest first above below run.2.2 nonzero
  · have zero : size = 0 := by
      by_contra nonzero
      have run := taken nonzero
      have free := run.2.2 start le_rfl (by omega)
      rw [used start run.1 (by have := run.2.1; omega)] at free
      exact absurd free Bool.false_ne_true
    exact ⟨zero, empty zero⟩

end Uesi.Blkalloc
