import Uesi.Construction.Pmm
import Uesi.Library.Bitmap
import Uesi.Library.Runs

namespace Uesi.Pmm

open Library

variable (state : PmmState) (index page other : Nat)

/-- A test reads one bit of the byte that holds it. -/
theorem bitmapTest_eq : bitmapTest state index = (state.bytes (index / 8)).getLsbD (index % 8) :=
  testBit_eq state.bytes index

/-- Setting a bit changes only the test of its own index. -/
theorem bitmapTest_bitmapSet :
    bitmapTest (bitmapSet state index) other = (decide (other = index) || bitmapTest state other) :=
  testBit_setBit state.bytes index other

/-- Clearing a bit changes only the test of its own index. -/
theorem bitmapTest_bitmapClear :
    bitmapTest (bitmapClear state index) other =
      (!decide (other = index) && bitmapTest state other) :=
  testBit_clearBit state.bytes index other

/-- Bitmap tests read only the bytes of the bitmap. -/
theorem bitmapTest_congr {first second : PmmState} (same : first.bytes = second.bytes)
    (page : Nat) : bitmapTest first page = bitmapTest second page := by
  rw [bitmapTest, bitmapTest, same]

@[simp] theorem bitmapTest_recordAlloc (count page : Nat) :
    bitmapTest (recordAlloc state count) page = bitmapTest state page :=
  bitmapTest_congr rfl page

/-- Taking a page sets its own bit only. -/
@[simp] theorem bitmapTest_takePage :
    bitmapTest (takePage state page) other = (decide (other = page) || bitmapTest state other) := by
  have same : (takePage state page).bytes = (bitmapSet state page).bytes := rfl
  rw [bitmapTest_congr same, bitmapTest_bitmapSet]

/-- Returning a page clears its own bit only. -/
@[simp] theorem bitmapTest_returnPage :
    bitmapTest (returnPage state page) other = (!decide (other = page) && bitmapTest state other) := by
  have same : (returnPage state page).bytes = (bitmapClear state page).bytes := rfl
  rw [bitmapTest_congr same, bitmapTest_bitmapClear]

/-- Bit `bit` of a word is the bit of page `64 * index + bit`. -/
theorem qword_getLsbD (bit : Nat) (inside : bit < 64) :
    (qword state index).getLsbD bit = bitmapTest state (index * 64 + bit) := by
  rw [bitmapTest_eq]
  have byteIndex : (index * 64 + bit) / 8 = 8 * index + bit / 8 := by omega
  have bitIndex : (index * 64 + bit) % 8 = bit % 8 := by omega
  rw [byteIndex, bitIndex]
  unfold qword
  simp only [BitVec.getLsbD_append]
  interval_cases bit <;> rfl

/-- The count of trailing zeros of a nonzero word is the index of its lowest set bit. -/
theorem builtinCtzll_spec (word : BitVec 64) (nonzero : word ≠ 0#64) :
    builtinCtzll word < 64 ∧ word.getLsbD (builtinCtzll word) = true ∧
      ∀ bit, bit < builtinCtzll word → word.getLsbD bit = false := by
  unfold builtinCtzll
  cases search : (List.range 64).find? fun bit => word.getLsbD bit with
  | none =>
      exfalso
      apply nonzero
      rw [List.find?_range_eq_none] at search
      apply BitVec.eq_of_getLsbD_eq
      intro bit inside
      simpa using search bit inside
  | some bit =>
      obtain ⟨held, member, least⟩ := List.find?_range_eq_some.mp search
      refine ⟨List.mem_range.mp member, held, ?_⟩
      intro other below
      simpa using least other below

/-- A word with a clear bit yields the first clear page of its word. -/
theorem firstClear_spec (available : qword state index ≠ BitVec.allOnes 64) :
    let page := index * 64 + builtinCtzll (~~~qword state index)
    bitmapTest state page = false ∧
      ∀ other, index * 64 ≤ other → other < page → bitmapTest state other = true := by
  have nonzero : ~~~qword state index ≠ 0#64 := by
    intro zero
    apply available
    rw [← BitVec.not_not (b := qword state index), zero]
    rfl
  obtain ⟨inside, held, least⟩ := builtinCtzll_spec _ nonzero
  constructor
  · rw [BitVec.getLsbD_not, qword_getLsbD _ _ _ inside] at held
    simpa [inside] using held
  · intro other low high
    have bounded : other - index * 64 < 64 := by omega
    have clear := least (other - index * 64) (by omega)
    rw [BitVec.getLsbD_not, qword_getLsbD _ _ _ bounded,
      show index * 64 + (other - index * 64) = other by omega] at clear
    simpa [bounded] using clear

/-- The word scan returns only clear pages below the page count. -/
theorem scanQwords_sound (count index page : Nat) (found : scanQwords state count index = some page) :
    page < state.totalPages ∧ bitmapTest state page = false := by
  induction count generalizing index with
  | zero => simp [scanQwords] at found
  | succ count ih =>
      rw [scanQwords] at found
      split at found
      · rename_i available
        dsimp only at found
        split at found
        · rename_i inside
          obtain rfl := Option.some.inj found
          exact ⟨inside, (firstClear_spec state index available).1⟩
        · exact ih _ found
      · exact ih _ found

/-- The fast search fails without effect, or finds a clear page in range and moves the hint. -/
theorem findFreePageFast_cases :
    findFreePageFast state = (none, state) ∨
      ∃ page, page < state.totalPages ∧ bitmapTest state page = false ∧
        findFreePageFast state = (some page, { state with lastAllocHint := page }) := by
  unfold findFreePageFast
  dsimp only
  split
  · rename_i page search
    have sound := scanQwords_sound state _ _ _ search
    exact Or.inr ⟨page, sound.1, sound.2, rfl⟩
  · split
    · rename_i page search
      have sound := scanQwords_sound state _ _ _ search
      exact Or.inr ⟨page, sound.1, sound.2, rfl⟩
    · exact Or.inl rfl

/-- A run of pages that are free and tracked. -/
def FreeRun (state : PmmState) (start numPages : Nat) : Prop :=
  start + numPages ≤ state.totalPages ∧ Stretch (fun page => !bitmapTest state page) start numPages

/-- The run scan finds the first of the runs that end in the pages left, or there is none. -/
theorem scanContiguous_cases {state : PmmState} {numPages index start count : Nat}
    (stopped : Stopped (fun page => !bitmapTest state page) 0 numPages index (start, count))
    (short : count < numPages) (remaining : Nat) :
    (scanContiguous state numPages remaining index start count = none ∧
      ∀ first, first + numPages ≤ index + remaining →
        ¬ Stretch (fun page => !bitmapTest state page) first numPages) ∨
    ∃ found, scanContiguous state numPages remaining index start count = some found ∧
      found + numPages ≤ index + remaining ∧ Stretch (fun page => !bitmapTest state page) found numPages ∧
        ∀ first, Stretch (fun page => !bitmapTest state page) first numPages → found ≤ first := by
  induction remaining generalizing index start count with
  | zero =>
      refine Or.inl ⟨rfl, fun first below stretch => ?_⟩
      have ended := stopped.first first (Nat.zero_le _) below stretch
      have place := stopped.ends.cases (Nat.zero_le _) stretch
      dsimp only at place
      omega
  | succ remaining ih =>
      have next := stopped.step short
      rw [scanContiguous]
      cases free : bitmapTest state index with
      | true =>
          have reset : scanStep (fun page => !bitmapTest state page) index (start, count) = (start, 0) := by
            simp [scanStep, free]
          rw [reset] at next
          have later := ih next (by omega)
          rwa [Nat.add_right_comm, Nat.add_assoc] at later
      | false =>
          have grown : scanStep (fun page => !bitmapTest state page) index (start, count) =
              (if count = 0 then index else start, count + 1) := by
            simp [scanStep, free]
          rw [grown] at next
          simp only [if_true]
          by_cases complete : count + 1 = numPages
          · rw [if_pos complete]
            have ends := next.ends.start (Nat.succ_ne_zero count)
            have stretch := next.ends.stretch
            have first := next.first
            simp only [complete] at ends stretch first
            rw [← ends, Nat.add_sub_cancel] at stretch
            refine Or.inr ⟨_, rfl, by omega, stretch, fun other run => ?_⟩
            by_contra before
            have same := first other (Nat.zero_le _) (by omega) run
            omega
          · rw [if_neg complete]
            have later := ih next (by omega)
            rwa [Nat.add_right_comm, Nat.add_assoc] at later

/-- A contiguous search finds the first free run, or there is none. -/
theorem findFreeContiguous_cases {numPages : Nat} (positive : 1 ≤ numPages) :
    (findFreeContiguous state numPages = none ∧ ∀ start, ¬ FreeRun state start numPages) ∨
      ∃ start, findFreeContiguous state numPages = some start ∧ FreeRun state start numPages ∧
        ∀ first, FreeRun state first numPages → start ≤ first := by
  unfold findFreeContiguous
  by_cases large : state.totalPages < numPages
  · rw [if_pos (Or.inr large)]
    exact Or.inl ⟨rfl, fun start run => absurd run.1 (by omega)⟩
  · rw [if_neg (by omega)]
    rcases scanContiguous_cases (Stopped.initial positive 0) (by omega) state.totalPages with
      ⟨missing, none⟩ | ⟨found, result, below, stretch, least⟩
    · exact Or.inl ⟨missing, fun start run => none start (by rw [Nat.zero_add]; exact run.1) run.2⟩
    · rw [Nat.zero_add] at below
      exact Or.inr ⟨found, result, ⟨below, stretch⟩, fun first run => least first run.2⟩

/-- A contiguous search returns a clear run below the page count. -/
theorem findFreeContiguous_sound (numPages start : Nat) (found : findFreeContiguous state numPages = some start) :
    start + numPages ≤ state.totalPages ∧
      ∀ page, start ≤ page → page < start + numPages → bitmapTest state page = false := by
  have positive : 1 ≤ numPages := by
    by_contra zero
    rw [findFreeContiguous, if_pos (Or.inl (by omega))] at found
    simp at found
  obtain ⟨missing, -⟩ | ⟨first, same, run, -⟩ := findFreeContiguous_cases state positive
  · rw [missing] at found
    simp at found
  · obtain rfl := Option.some.inj (same.symm.trans found)
    exact ⟨run.1, fun page low high => by simpa using run.2 page low high⟩

end Uesi.Pmm
