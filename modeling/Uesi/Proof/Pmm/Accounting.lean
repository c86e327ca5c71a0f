import Uesi.Proof.Pmm.Bitmap

namespace Uesi.Pmm

open Library

variable {second first third : PmmState} (body : Nat → PmmState → PmmState) (state : PmmState) (page numPages : Nat)

/-- The free count agrees with the clear bits below the page count. -/
def Accounted (state : PmmState) : Prop :=
  state.freePages = Nat.count (fun page => bitmapTest state page = false) state.totalPages

instance (state : PmmState) : Decidable (Accounted state) := inferInstanceAs (Decidable (_ = _))

/-- The account depends only on the bitmap bytes and the two page counts. -/
theorem Accounted.congr (held : Accounted first) (bytes : second.bytes = first.bytes)
    (total : second.totalPages = first.totalPages) (free : second.freePages = first.freePages) :
    Accounted second := by
  unfold Accounted at *
  rw [free, held, total]
  exact count_congr fun page _ => by rw [bitmapTest_congr bytes]

theorem clearCount_lt : Nat.count (fun page => bitmapTest state page = false) state.totalPages < 2 ^ 64 :=
  lt_of_le_of_lt (Nat.count_le _) state.totalPages_lt

/-- Taking a clear page keeps the account. -/
theorem takePage_accounted (inside : page < state.totalPages) (clear : bitmapTest state page = false)
    (held : Accounted state) :
    Accounted (takePage state page) := by
  have bounded := clearCount_lt state
  have lowered : Nat.count (fun other => bitmapTest state other = false) state.totalPages =
      Nat.count (fun other => bitmapTest (takePage state page) other = false)
        state.totalPages + 1 := by
    apply count_insert page inside
    · simp
    · intro other
      by_cases same : other = page
      · simp [same, clear]
      · simp [same]
  unfold Accounted at held ⊢
  change sub64 state.freePages 1 = Nat.count _ state.totalPages
  rw [held, sub64_of_le bounded (by omega), lowered]
  rfl

/-- Returning a used page keeps the account. -/
theorem returnPage_accounted (inside : page < state.totalPages) (used : bitmapTest state page = true)
    (held : Accounted state) :
    Accounted (returnPage state page) := by
  have bounded := clearCount_lt (returnPage state page)
  have raised : Nat.count (fun other => bitmapTest (returnPage state page) other = false)
        state.totalPages =
      Nat.count (fun other => bitmapTest state other = false) state.totalPages + 1 := by
    apply count_insert page inside
    · simp [used]
    · intro other
      by_cases same : other = page
      · simp [same]
      · simp [same]
  change Nat.count _ state.totalPages < _ at bounded
  unfold Accounted at held ⊢
  change add64 state.freePages 1 = Nat.count _ state.totalPages
  rw [held, add64_of_lt (by omega), raised]

/-- Every operation keeps the bitmap address, the page count, the direct map and the saved map. -/
structure SameLayout (first second : PmmState) : Prop where
  bitmap : second.bitmap = first.bitmap
  totalPages : second.totalPages = first.totalPages
  hhdmOffset : second.hhdmOffset = first.hhdmOffset
  savedMemmap : second.savedMemmap = first.savedMemmap

theorem SameLayout.refl : SameLayout state state := ⟨rfl, rfl, rfl, rfl⟩

theorem SameLayout.trans (left : SameLayout first second) (right : SameLayout second third) :
    SameLayout first third :=
  ⟨right.bitmap.trans left.bitmap, right.totalPages.trans left.totalPages,
    right.hhdmOffset.trans left.hhdmOffset, right.savedMemmap.trans left.savedMemmap⟩

/-- The allocation of one page takes the page that the search found. -/
theorem pmmAllocPage_cases :
    pmmAllocPage state = (none, state) ∨
      ∃ page, page < state.totalPages ∧ bitmapTest state page = false ∧
        pmmAllocPage state =
          (some page, recordAlloc (takePage { state with lastAllocHint := page } page) 1) := by
  unfold pmmAllocPage
  obtain missing | ⟨page, inside, clear, found⟩ := findFreePageFast_cases state
  · rw [missing]
    exact Or.inl rfl
  · rw [found]
    exact Or.inr ⟨page, inside, clear, rfl⟩

/-- The allocation of a run takes pages that are all clear and in range. -/
theorem pmmAllocContiguousPage_cases :
    pmmAllocContiguousPage state numPages = (none, state) ∨
      (numPages = 1 ∧ pmmAllocContiguousPage state numPages = pmmAllocPage state) ∨
      ∃ start, start + numPages ≤ state.totalPages ∧
        (∀ page, start ≤ page → page < start + numPages → bitmapTest state page = false) ∧
        pmmAllocContiguousPage state numPages = (some start, recordAlloc
          (countedLoop (fun index current => takePage current (start + index)) numPages state)
          numPages) := by
  unfold pmmAllocContiguousPage
  split
  · exact Or.inl rfl
  · split
    · rename_i single
      exact Or.inr (Or.inl ⟨single, rfl⟩)
    · cases search : findFreeContiguous state numPages with
      | none => exact Or.inl rfl
      | some start =>
          have sound := findFreeContiguous_sound state numPages start search
          exact Or.inr (Or.inr ⟨start, sound.1, sound.2, rfl⟩)

/-- Taking a run sets exactly the bits of the run. -/
theorem takeRun_spec (start numPages : Nat) :
    let next := countedLoop (fun index current => takePage current (start + index)) numPages state
    SameLayout state next ∧ ∀ page, bitmapTest next page =
      (decide (start ≤ page ∧ page < start + numPages) || bitmapTest state page) := by
  induction numPages with
  | zero =>
      refine ⟨SameLayout.refl state, ?_⟩
      intro page
      simp
  | succ numPages ih =>
      dsimp only at ih
      refine ⟨ih.1.trans ⟨rfl, rfl, rfl, rfl⟩, ?_⟩
      intro page
      simp only [countedLoop_succ, bitmapTest_takePage, ih.2, ← Bool.or_assoc]
      congr 1
      rw [Bool.eq_iff_iff]
      simp only [Bool.or_eq_true, decide_eq_true_eq]
      omega

/-- Taking a clear run keeps the account. -/
theorem takeRun_accounted (start numPages : Nat) (inside : start + numPages ≤ state.totalPages)
    (clear : ∀ page, start ≤ page → page < start + numPages → bitmapTest state page = false) (held : Accounted state) :
    Accounted (countedLoop (fun index current => takePage current (start + index))
      numPages state) := by
  induction numPages with
  | zero => exact held
  | succ numPages ih =>
      have previous := ih (by omega) fun page low high => clear page low (by omega)
      obtain ⟨layout, bits⟩ := takeRun_spec state start numPages
      refine takePage_accounted _ _ ?_ ?_ previous
      · rw [layout.totalPages]
        omega
      · rw [bits, clear (start + numPages) (by omega) (by omega)]
        simp

/-- The second state differs from the first by the release of a set of pages. -/
structure Releases (first second : PmmState) (pages : Nat → Prop) : Prop where
  layout : SameLayout first second
  account : Accounted first → Accounted second
  bits : ∀ other, other < first.totalPages →
    (bitmapTest second other = true ↔ bitmapTest first other = true ∧ ¬ pages other)

/-- A state with the same bitmap and the same counts releases no page. -/
theorem Releases.none (layout : SameLayout first second) (bytes : second.bytes = first.bytes)
    (free : second.freePages = first.freePages) :
    Releases first second fun _ => False where
  layout := layout
  account held := held.congr bytes layout.totalPages free
  bits other _ := by rw [bitmapTest_congr bytes]; simp

/-- Consecutive releases release the union of their pages. -/
theorem Releases.trans {left right : Nat → Prop} (earlier : Releases first second left)
    (later : Releases second third right) :
    Releases first third fun page => left page ∨ right page where
  layout := earlier.layout.trans later.layout
  account held := later.account (earlier.account held)
  bits other inside := by
    rw [later.bits other (by rw [earlier.layout.totalPages]; exact inside),
      earlier.bits other inside]
    tauto

theorem Releases.congr {left right : Nat → Prop} (released : Releases first second left)
    (same : ∀ page, page < first.totalPages → bitmapTest first page = true →
      (left page ↔ right page)) : Releases first second right where
  layout := released.layout
  account := released.account
  bits other inside := by
    rw [released.bits other inside]
    exact and_congr_right fun used => not_congr (same other inside used)

/-- Bookkeeping after a release does not change what it releases. -/
theorem Releases.recorded {pages : Nat → Prop} (released : Releases first second pages)
    (layout : SameLayout second third) (bytes : third.bytes = second.bytes)
    (free : third.freePages = second.freePages) :
    Releases first third pages :=
  (released.trans (Releases.none layout bytes free)).congr fun _ _ _ => iff_of_eq (or_false _)

/-- Returning a used page in range releases that page. -/
theorem returnPage_releases (inside : page < state.totalPages) (used : bitmapTest state page = true) :
    Releases state (returnPage state page) fun other => other = page where
  layout := ⟨rfl, rfl, rfl, rfl⟩
  account := returnPage_accounted state page inside used
  bits other _ := by
    rw [bitmapTest_returnPage]
    simp [and_comm]

/-- A release clears at most its own page. -/
theorem releasePage_releases : Releases state (releasePage state page) fun other => other = page := by
  unfold releasePage
  split
  · rename_i outside
    refine (Releases.none (SameLayout.refl state) rfl rfl).congr fun other inside _ => ?_
    simp only [false_iff]
    omega
  · rename_i inside
    split
    · rename_i clear
      refine (Releases.none (SameLayout.refl state) rfl rfl).congr fun other _ used => ?_
      simp only [false_iff]
      rintro rfl
      exact absurd used (by simp [clear])
    · rename_i used
      exact returnPage_releases state page (by omega) (by simpa using used)

/-- One reclaim step releases its page. -/
theorem reclaimPage_releases (state : PmmState) :
    Releases state (reclaimPage page state) fun other => other = page := by
  unfold reclaimPage
  split
  · rename_i allowed
    exact (returnPage_releases state page allowed.1 allowed.2).recorded ⟨rfl, rfl, rfl, rfl⟩ rfl rfl
  · rename_i refused
    refine (Releases.none (SameLayout.refl state) rfl rfl).congr fun other inside used => ?_
    simp only [false_iff]
    rintro rfl
    exact refused ⟨inside, used⟩

/-- A loop of releases releases the pages that it visits. -/
theorem countedLoop_releases (visit : Nat → Nat)
    (each : ∀ index state, Releases state (body index state) fun other => other = visit index) (count : Nat)
    (state : PmmState) :
    Releases state (countedLoop body count state)
      fun other => ∃ index, index < count ∧ other = visit index := by
  induction count with
  | zero =>
      refine (Releases.none (SameLayout.refl state) rfl rfl).congr fun other _ _ => ?_
      simp
  | succ count ih =>
      exact (ih.trans (each count _)).congr fun other _ _ => Nat.exists_lt_succ_right.symm

/-- A page is whole inside an entry after the entry is rounded to page boundaries. -/
def InEntry (entry : MemmapEntry) (page : Nat) : Prop :=
  alignedBase entry / pageSize ≤ page ∧ page < alignedEnd entry / pageSize

/-- The whole pages of an entry are the pages that its loop visits. -/
theorem inEntry_iff (entry : MemmapEntry) (nonempty : alignedBase entry < alignedEnd entry)
    (page : Nat) : InEntry entry page ↔
      ∃ index, index < (alignedEnd entry - alignedBase entry) / pageSize ∧
        page = alignedBase entry / pageSize + index := by
  have baseAligned : alignedBase entry % 4096 = 0 := Nat.mul_mod_left _ 4096
  have endAligned : alignedEnd entry % 4096 = 0 := Nat.mul_mod_left _ 4096
  unfold InEntry pageSize
  constructor
  · rintro ⟨low, high⟩
    exact ⟨page - alignedBase entry / 4096, by omega, by omega⟩
  · rintro ⟨index, inside, rfl⟩
    exact ⟨by omega, by omega⟩

theorem not_inEntry (entry : MemmapEntry) (empty : ¬ alignedBase entry < alignedEnd entry)
    (page : Nat) : ¬ InEntry entry page := by
  unfold InEntry pageSize
  omega

/-- A release of every page of an entry releases its whole pages. -/
theorem forEntryPages_releases (each : ∀ page state, Releases state (body page state) fun other => other = page)
    (entry : MemmapEntry) (state : PmmState) :
    Releases state (forEntryPages body entry state) (InEntry entry) := by
  unfold forEntryPages
  split
  · rename_i nonempty
    refine (countedLoop_releases _ (fun index => alignedBase entry / pageSize + index)
      (fun index current => each _ current) _ state).congr fun other _ _ => ?_
    exact (inEntry_iff entry nonempty other).symm
  · rename_i empty
    refine (Releases.none (SameLayout.refl state) rfl rfl).congr fun other _ _ => ?_
    simp [not_inEntry entry empty]

/-- A pass over the entries of one type releases the whole pages of those entries. -/
theorem entryPass_releases (type : MemmapType)
    (each : ∀ page state, Releases state (body page state) fun other => other = page) (entries : List MemmapEntry)
    (state : PmmState) :
    Releases state (entries.foldl (fun current entry =>
        if entry.type = type then forEntryPages body entry current else current) state)
      fun page => ∃ entry ∈ entries, entry.type = type ∧ InEntry entry page := by
  induction entries generalizing state with
  | nil =>
      refine (Releases.none (SameLayout.refl state) rfl rfl).congr fun other _ _ => ?_
      simp
  | cons entry rest ih =>
      rw [List.foldl_cons]
      by_cases selected : entry.type = type
      · rw [if_pos selected]
        refine ((forEntryPages_releases body each entry state).trans (ih _)).congr
          fun other _ _ => ?_
        simp [selected]
      · rw [if_neg selected]
        refine (ih state).congr fun other _ _ => ?_
        simp [selected]

/-- `pmm_free` releases the addressed page. -/
theorem pmmFree_releases (address : Nat) (given : address ≠ 0) :
    Releases state (pmmFree state address) fun page => page = addressPage state address := by
  have released := releasePage_releases state (addressPage state address)
  unfold pmmFree
  unfold releasePage at released
  rw [if_neg given]
  dsimp only
  split
  · rename_i outside
    rwa [if_pos outside] at released
  · rename_i inside
    rw [if_neg inside] at released
    split
    · rename_i clear
      rwa [if_pos clear] at released
    · rename_i used
      rw [if_neg used] at released
      split
      · exact released.recorded ⟨rfl, rfl, rfl, rfl⟩ rfl rfl
      · exact released.recorded ⟨rfl, rfl, rfl, rfl⟩ rfl rfl

theorem pmmFree_layout (address : Nat) : SameLayout state (pmmFree state address) := by
  by_cases null : address = 0
  · rw [pmmFree, if_pos null]
    exact SameLayout.refl _
  · exact (pmmFree_releases state address null).layout

/-- `pmm_free_contiguous` releases each page that its loop visits. -/
theorem pmmFreeContiguous_releases (base numPages : Nat) (given : base ≠ 0) :
    Releases state (pmmFreeContiguous state base numPages)
      fun page => ∃ index, index < numPages ∧ page = add64 (addressPage state base) index := by
  unfold pmmFreeContiguous
  split
  · rename_i nothing
    obtain null | rfl := nothing
    · exact absurd null given
    · refine (Releases.none (SameLayout.refl state) rfl rfl).congr fun other _ _ => ?_
      simp
  · have released := countedLoop_releases
      (fun index current => releasePage current (add64 (addressPage state base) index)) _
      (fun index current => releasePage_releases current _) numPages state
    apply released.recorded
    · exact ⟨rfl, rfl, rfl, rfl⟩
    · rfl
    · rfl

/-- A page is whole inside a bootloader entry of the saved map. -/
def Reclaimable (state : PmmState) (page : Nat) : Prop :=
  ∃ entries, state.savedMemmap = some entries ∧
    ∃ entry ∈ entries, entry.type = .bootloaderReclaimable ∧ InEntry entry page

/-- The reclaim releases the whole pages of the bootloader entries. -/
theorem pmmReclaimBootloaderMemory_releases :
    Releases state (pmmReclaimBootloaderMemory state) (Reclaimable state) := by
  unfold pmmReclaimBootloaderMemory
  split
  · rename_i absent
    refine (Releases.none (SameLayout.refl state) rfl rfl).congr fun other _ _ => ?_
    simp [Reclaimable, absent]
  · rename_i entries saved
    have released := entryPass_releases reclaimPage .bootloaderReclaimable reclaimPage_releases
      entries state
    have selected : Releases state _ (Reclaimable state) :=
      released.congr fun other _ _ => by simp [Reclaimable, saved]
    apply selected.recorded
    · exact ⟨rfl, rfl, rfl, rfl⟩
    · rfl
    · rfl

/-- The operations of the allocator. -/
inductive PmmOp where
  | alloc
  | allocContiguous (numPages : Nat)
  | free (address : Nat)
  | freeContiguous (base numPages : Nat)
  | reclaim
  deriving DecidableEq, Repr

/-- One call of the allocator. -/
def pmmStep (state : PmmState) : PmmOp → PmmState
  | .alloc => (pmmAlloc state).2
  | .allocContiguous numPages => (pmmAllocContiguous state numPages).2
  | .free address => pmmFree state address
  | .freeContiguous base numPages => pmmFreeContiguous state base numPages
  | .reclaim => pmmReclaimBootloaderMemory state

/-- The pages of a run of `count` pages, if there is one. -/
def runPages (start : Option Nat) (count : Nat) : List Nat :=
  match start with
  | none => []
  | some first => List.range' first count

/-- The page indices that one call hands out. -/
def handedOut (state : PmmState) : PmmOp → List Nat
  | .alloc => runPages (pmmAllocPage state).1 1
  | .allocContiguous numPages => runPages (pmmAllocContiguousPage state numPages).1 numPages
  | _ => []

/-- A release call names the pages that it returns. -/
def Passed (state : PmmState) : PmmOp → Nat → Prop
  | .free address, page => address ≠ 0 ∧ page = addressPage state address
  | .freeContiguous base numPages, page =>
      base ≠ 0 ∧ ∃ index, index < numPages ∧ page = add64 (addressPage state base) index
  | _, _ => False

/-- The pages that one call may release. -/
def Released (state : PmmState) : PmmOp → Nat → Prop
  | .reclaim => Reclaimable state
  | op => Passed state op

theorem pmmAlloc_state : (pmmAlloc state).2 = (pmmAllocPage state).2 := by
  unfold pmmAlloc
  split <;> rename_i equal <;> rw [equal]

theorem pmmAllocContiguous_state :
    (pmmAllocContiguous state numPages).2 = (pmmAllocContiguousPage state numPages).2 := by
  unfold pmmAllocContiguous
  split <;> rename_i equal <;> rw [equal]

/-- An allocation takes clear pages in range, and sets exactly the bits that it hands out. -/
structure Takes (first second : PmmState) (pages : List Nat) : Prop where
  layout : SameLayout first second
  account : Accounted first → Accounted second
  clear : ∀ page ∈ pages, page < first.totalPages ∧ bitmapTest first page = false
  bits : ∀ other, bitmapTest second other = true ↔ bitmapTest first other = true ∨ other ∈ pages

theorem Takes.none : Takes state state [] where
  layout := SameLayout.refl state
  account := id
  clear page member := absurd member List.not_mem_nil
  bits other := by simp

theorem Takes.trans {pages more : List Nat} (earlier : Takes first second pages) (later : Takes second third more) :
    Takes first third (pages ++ more) where
  layout := earlier.layout.trans later.layout
  account held := later.account (earlier.account held)
  clear page member := by
    obtain old | new := List.mem_append.mp member
    · exact earlier.clear page old
    · obtain ⟨inside, clear⟩ := later.clear page new
      rw [earlier.layout.totalPages] at inside
      refine ⟨inside, ?_⟩
      by_contra used
      rw [(earlier.bits page).mpr (Or.inl (by simpa using used))] at clear
      exact absurd clear (by simp)
  bits other := by
    rw [later.bits, earlier.bits, List.mem_append, or_assoc]

theorem pmmAllocPage_takes : Takes state (pmmAllocPage state).2 (runPages (pmmAllocPage state).1 1) := by
  obtain missing | ⟨page, inside, clear, found⟩ := pmmAllocPage_cases state
  · rw [missing]
    exact Takes.none state
  · rw [found]
    exact {
      layout := ⟨rfl, rfl, rfl, rfl⟩
      account := fun held => (takePage_accounted { state with lastAllocHint := page } page inside
        clear (held.congr rfl rfl rfl)).congr rfl rfl rfl
      clear := by
        intro other member
        obtain rfl : other = page := by simpa [runPages] using member
        exact ⟨inside, clear⟩
      bits := by
        intro other
        have hinted : bitmapTest { state with lastAllocHint := page } other =
            bitmapTest state other := bitmapTest_congr rfl other
        rw [bitmapTest_recordAlloc, bitmapTest_takePage, hinted]
        simp [runPages, or_comm] }

theorem pmmAllocContiguousPage_takes :
    Takes state (pmmAllocContiguousPage state numPages).2
      (runPages (pmmAllocContiguousPage state numPages).1 numPages) := by
  obtain missing | ⟨rfl, single⟩ | ⟨start, inside, clear, found⟩ :=
    pmmAllocContiguousPage_cases state numPages
  · rw [missing]
    exact Takes.none state
  · rw [single]
    exact pmmAllocPage_takes state
  · rw [found]
    obtain ⟨layout, bits⟩ := takeRun_spec state start numPages
    exact {
      layout := layout.trans ⟨rfl, rfl, rfl, rfl⟩
      account := fun held => (takeRun_accounted state start numPages inside clear held).congr
        rfl rfl rfl
      clear := by
        intro page member
        simp only [runPages, List.mem_range'_1] at member
        exact ⟨by omega, clear page member.1 member.2⟩
      bits := by
        intro other
        rw [bitmapTest_recordAlloc, bits]
        simp [runPages, List.mem_range'_1, or_comm] }

/-- Every call either takes the pages that it hands out or releases the pages that it may. -/
theorem pmmStep_cases (op : PmmOp) :
    Takes state (pmmStep state op) (handedOut state op) ∨
      (handedOut state op = [] ∧ Releases state (pmmStep state op) (Released state op)) := by
  cases op with
  | alloc =>
      left
      change Takes state (pmmAlloc state).2 _
      rw [pmmAlloc_state]
      exact pmmAllocPage_takes state
  | allocContiguous numPages =>
      left
      change Takes state (pmmAllocContiguous state numPages).2 _
      rw [pmmAllocContiguous_state]
      exact pmmAllocContiguousPage_takes state numPages
  | free address =>
      right
      refine ⟨rfl, ?_⟩
      by_cases null : address = 0
      · have kept : pmmStep state (.free address) = state := by simp [pmmStep, pmmFree, null]
        rw [kept]
        exact (Releases.none (SameLayout.refl state) rfl rfl).congr fun page _ _ => by
          simp [Released, Passed, null]
      · exact (pmmFree_releases state address null).congr fun page _ _ => by
          simp [Released, Passed, null]
  | freeContiguous base numPages =>
      right
      refine ⟨rfl, ?_⟩
      by_cases null : base = 0
      · have kept : pmmStep state (.freeContiguous base numPages) = state := by
          simp [pmmStep, pmmFreeContiguous, null]
        rw [kept]
        exact (Releases.none (SameLayout.refl state) rfl rfl).congr fun page _ _ => by
          simp [Released, Passed, null]
      · exact (pmmFreeContiguous_releases state base numPages null).congr fun page _ _ => by
          simp [Released, Passed, null]
  | reclaim => exact Or.inr ⟨rfl, pmmReclaimBootloaderMemory_releases state⟩

/-- Every call keeps the account and the layout. -/
theorem pmmStep_accounted (op : PmmOp) :
    SameLayout state (pmmStep state op) ∧ (Accounted state → Accounted (pmmStep state op)) := by
  obtain taken | ⟨_, released⟩ := pmmStep_cases state op
  · exact ⟨taken.layout, taken.account⟩
  · exact ⟨released.layout, released.account⟩

/-- The counting loop of the validation counts the clear bits. -/
theorem countFree_eq (count : Nat) :
    countFree state count = Nat.count (fun page => bitmapTest state page = false) count := by
  induction count with
  | zero => rfl
  | succ count ih =>
      unfold countFree at ih ⊢
      rw [countedLoop_succ, ih, Nat.count_succ]
      split <;> rfl

/-- From every accounted state, every sequence of calls keeps the account, the validation
succeeds, and every page that the next call hands out is free and in range. -/
theorem pmm_accounting (state : PmmState) (placed : state.bitmap ≠ 0) (accounted : Accounted state)
    (ops : List PmmOp) :
    let last := run pmmStep state ops
    Accounted last ∧ pmmValidate last = true ∧
      ∀ op, ∀ page ∈ handedOut last op,
        bitmapTest last page = false ∧ page < last.totalPages := by
  have invariant := run_invariant pmmStep (fun current => current.bitmap ≠ 0 ∧ Accounted current)
    (fun current op held => by
      obtain ⟨layout, account⟩ := pmmStep_accounted current op
      exact ⟨by rw [layout.bitmap]; exact held.1, account held.2⟩)
    state ops ⟨placed, accounted⟩
  obtain ⟨present, held⟩ := invariant
  refine ⟨held, ?_, ?_⟩
  · unfold pmmValidate
    rw [if_neg present, countFree_eq, beq_iff_eq]
    exact held.symm
  · intro op page member
    obtain taken | ⟨nothing, _⟩ := pmmStep_cases (run pmmStep state ops) op
    · have taken := taken.clear page member
      exact ⟨taken.2, taken.1⟩
    · rw [nothing] at member
      exact absurd member List.not_mem_nil

/-- Four free pages stay accounted through an allocation, a run and a release. -/
theorem pmm_accounting_fourPages :
    let state : PmmState := { bitmap := 4096, bytes := fun _ => 0#8, totalPages := 4, freePages := 4 }
    let last := run pmmStep state [.alloc, .allocContiguous 2, .free 4096]
    state.bitmap ≠ 0 ∧ Accounted state ∧ Accounted last ∧ pmmValidate last = true ∧
      ∀ op, ∀ page ∈ handedOut last op,
        bitmapTest last page = false ∧ page < last.totalPages := by
  intro state last
  have accounted : Accounted state := by decide
  exact ⟨by decide, accounted, pmm_accounting state (by decide) accounted _⟩

end Uesi.Pmm
