import Uesi.Proof.Pmm.Accounting

namespace Uesi.Pmm

open Library

variable {holder : MemmapEntry} (entry : MemmapEntry) (size : Nat) (state : PmmState) (entries : List MemmapEntry)
  (memory : Nat → BitVec 8) (page : Nat)

/-- The allocator manages usable and bootloader entries. -/
def MemmapEntry.Managed (entry : MemmapEntry) : Prop :=
  entry.type = .usable ∨ entry.type = .bootloaderReclaimable

instance (entry : MemmapEntry) : Decidable entry.Managed := inferInstanceAs (Decidable (_ ∨ _))

/-- An entry contains an address. -/
def MemmapEntry.Contains (entry : MemmapEntry) (address : Nat) : Prop :=
  entry.base ≤ address ∧ address < entry.base + entry.length

/-- A page lies entirely inside an entry. -/
def MemmapEntry.Covers (entry : MemmapEntry) (page : Nat) : Prop :=
  entry.base ≤ page * pageSize ∧ (page + 1) * pageSize ≤ entry.base + entry.length

instance (entry : MemmapEntry) (page : Nat) : Decidable (entry.Covers page) :=
  inferInstanceAs (Decidable (_ ∧ _))

/-- The boot protocol aligns the managed entries to pages and keeps them disjoint. -/
structure SaneMemmap (entries : List MemmapEntry) : Prop where
  aligned : ∀ entry ∈ entries, entry.Managed →
    entry.base % pageSize = 0 ∧ entry.length % pageSize = 0
  bounded : ∀ entry ∈ entries, entry.Managed → entry.base + entry.length < 2 ^ 64
  disjoint : entries.Pairwise fun first second => first.Managed → second.Managed →
    ∀ address, ¬ (first.Contains address ∧ second.Contains address)

/-- The largest end address of a managed entry. -/
def highestUsableAddr (entries : List MemmapEntry) : Nat :=
  entries.foldl (fun highest entry =>
    if entry.Managed then max highest (entry.base + entry.length) else highest) 0

/-- The map determines the number of tracked pages. -/
def trackedPages (entries : List MemmapEntry) : Nat := highestUsableAddr entries / pageSize

/-- The bitmap has one bit for each tracked page. -/
def bitmapBytes (entries : List MemmapEntry) : Nat := (trackedPages entries + 7) / 8

/-- The first usable entry that can hold the bitmap. -/
def bitmapHolder (entries : List MemmapEntry) : Option MemmapEntry :=
  entries.find? fun entry => decide (entry.type = .usable ∧ bitmapBytes entries ≤ entry.length)

/-- A page lies entirely inside a usable entry. -/
def UsablePage (entries : List MemmapEntry) (page : Nat) : Prop :=
  ∃ entry ∈ entries, entry.type = .usable ∧ entry.Covers page

instance (entries : List MemmapEntry) (page : Nat) : Decidable (UsablePage entries page) :=
  inferInstanceAs (Decidable (∃ entry ∈ entries, _))

/-- A page and the `size` bytes from `base` on have a byte in common. -/
def Overlaps (base size page : Nat) : Prop :=
  max base (page * pageSize) < min (base + size) ((page + 1) * pageSize)

instance (base size page : Nat) : Decidable (Overlaps base size page) :=
  inferInstanceAs (Decidable (_ < _))

theorem surveyEntry_highest (survey : Nat × PmmStats) (entry : MemmapEntry)
    (fits : entry.Managed → entry.base + entry.length < 2 ^ 64) :
    (surveyEntry survey entry).1 =
      if entry.Managed then max survey.1 (entry.base + entry.length) else survey.1 := by
  unfold surveyEntry
  by_cases managed : entry.Managed
  · have bound := fits managed
    rw [if_pos managed, if_neg (by omega)]
    obtain type | type := managed <;> simp only [type, add64_of_lt bound]
  · rw [if_neg managed]
    split
    · rfl
    · unfold MemmapEntry.Managed at managed
      cases type : entry.type <;> simp_all
      all_goals split <;> rfl

/-- The survey loop computes the largest end address of a managed entry. -/
theorem surveyMemmap_highest (stats : PmmStats)
    (bounded : ∀ entry ∈ entries, entry.Managed → entry.base + entry.length < 2 ^ 64) :
    (surveyMemmap entries stats).1 = highestUsableAddr entries := by
  unfold surveyMemmap highestUsableAddr
  generalize survey : (0, { stats with
    totalPhysical := 0, usableMemory := 0, reservedMemory := 0, bootloaderReclaimable := 0 }) = start
  have begin : start.1 = 0 := by rw [← survey]
  clear survey
  generalize 0 = highest at begin
  induction entries generalizing start highest with
  | nil => exact begin
  | cons entry rest ih =>
      rw [List.foldl_cons, List.foldl_cons]
      apply ih (fun other member => bounded other (List.mem_cons_of_mem _ member))
      rw [surveyEntry_highest start entry (bounded entry List.mem_cons_self), begin]

/-- A bootloader or usable entry that does not overflow is visited page by page. -/
theorem inEntry_iff_covers (endAligned : (entry.base + entry.length) % pageSize = 0)
    (bounded : entry.base + entry.length < 2 ^ 64) : InEntry entry page ↔ entry.Covers page := by
  unfold InEntry alignedBase alignedEnd MemmapEntry.Covers alignUp64 alignDown
  unfold pageSize at *
  rw [add64_of_lt bounded, add64_of_lt (by omega)]
  omega

/-- The part of an entry behind its first `size` bytes. -/
def MemmapEntry.carve (entry : MemmapEntry) (size : Nat) : MemmapEntry :=
  { entry with base := add64 entry.base size, length := entry.length - size }

/-- The placement replaces the holder by the part of it behind the bitmap. -/
theorem placeBitmap_spec (offset : Nat) (entries : List MemmapEntry) (holder : MemmapEntry)
    (found : entries.find? (fun entry => decide (entry.type = .usable ∧ size ≤ entry.length)) =
      some holder) :
    ∃ before after, entries = before ++ holder :: after ∧
      placeBitmap size offset entries =
        (add64 holder.base offset, before ++ holder.carve size :: after) := by
  induction entries with
  | nil => simp at found
  | cons entry rest ih =>
      by_cases selected : entry.type = .usable ∧ size ≤ entry.length
      · rw [List.find?_cons_of_pos (by simpa using selected)] at found
        obtain rfl := Option.some.inj found
        exact ⟨[], rest, rfl, by simp [placeBitmap, selected, MemmapEntry.carve]⟩
      · rw [List.find?_cons_of_neg (by simpa using selected)] at found
        obtain ⟨before, after, split, placed⟩ := ih found
        refine ⟨entry :: before, after, by rw [split]; rfl, ?_⟩
        rw [placeBitmap, if_neg selected, placed]
        rfl

/-- Before the last loop, the only clear bits in range are those of the incomplete last byte. -/
theorem initialBytes_clear (bytes : state.bytes =
      initialBytes memory state.totalPages (add64 state.totalPages 7 / 8)) (fits : state.totalPages + 7 < 2 ^ 64)
    (inside : page < state.totalPages) :
    bitmapTest state page = false ↔ state.totalPages / 8 * 8 ≤ page := by
  rw [bitmapTest_eq, bytes, add64_of_lt fits]
  unfold initialBytes
  have small : page % 8 < 8 := Nat.mod_lt _ (by decide)
  by_cases whole : state.totalPages % 8 = 0
  · have filled : page / 8 < (state.totalPages + 7) / 8 := by omega
    simp only [whole, ne_eq, not_true_eq_false, if_false, filled, if_true]
    generalize page % 8 = bit at small
    have set : (0xFF#8).getLsbD bit = true := by interval_cases bit <;> rfl
    rw [set]
    simp
    omega
  · simp only [ne_eq, whole, not_false_eq_true, if_true]
    by_cases last : page / 8 = (state.totalPages + 7) / 8 - 1
    · rw [last, Function.update_self]
      have low : page % 8 < state.totalPages % 8 := by omega
      have excess : state.totalPages % 8 < 8 := Nat.mod_lt _ (by decide)
      have within : state.totalPages / 8 * 8 ≤ page := by omega
      simp only [within, iff_true]
      generalize page % 8 = bit at low
      generalize state.totalPages % 8 = bits at low excess
      interval_cases bits <;> interval_cases bit <;> rfl
    · have filled : page / 8 < (state.totalPages + 7) / 8 := by omega
      rw [Function.update_of_ne last, if_pos filled]
      generalize page % 8 = bit at small
      have set : (0xFF#8).getLsbD bit = true := by interval_cases bit <;> rfl
      rw [set]
      simp
      omega

/-- The second state differs from the first by pages that were cleared and counted once each. -/
structure Clears (first second : PmmState) (pages : Nat → Prop) : Prop where
  layout : SameLayout first second
  bits : ∀ other, bitmapTest second other = false ↔
    bitmapTest first other = false ∨ (pages other ∧ other < first.totalPages)
  free : first.freePages < 2 ^ 64 →
    second.freePages = add64 first.freePages (tally pages first.totalPages)

theorem Clears.none : Clears state state fun _ => False where
  layout := SameLayout.refl state
  bits other := by simp
  free bounded := by rw [tally_none (by simp), add64_of_lt bounded, Nat.add_zero]

/-- Two passes over disjoint pages clear and count their union. -/
theorem Clears.trans {first second third : PmmState} {left right : Nat → Prop}
    (earlier : Clears first second left) (later : Clears second third right)
    (disjoint : ∀ page, left page → ¬ right page) :
    Clears first third fun page => left page ∨ right page where
  layout := earlier.layout.trans later.layout
  bits other := by
    rw [later.bits, earlier.bits, earlier.layout.totalPages]
    tauto
  free bounded := by
    have counted := earlier.free bounded
    rw [later.free (by rw [counted]; exact add64_lt _ _), counted, earlier.layout.totalPages,
      add64_add64, tally_or _ disjoint]

theorem Clears.congr {first second : PmmState} {left right : Nat → Prop}
    (cleared : Clears first second left) (same : ∀ page, left page ↔ right page) :
    Clears first second right := by
  obtain rfl : left = right := funext fun page => propext (same page)
  exact cleared

/-- One iteration of the last loop clears and counts a page in range. -/
theorem initPage_clears (state : PmmState) : Clears state (initPage page state) fun other => other = page := by
  unfold initPage
  split
  · rename_i inside
    refine ⟨⟨rfl, rfl, rfl, rfl⟩, ?_, ?_⟩
    · intro other
      have same : bitmapTest { returnPage state page with
          usablePages := add64 state.usablePages 1 } other =
          bitmapTest (returnPage state page) other := bitmapTest_congr rfl other
      rw [same, bitmapTest_returnPage]
      by_cases equal : other = page
      · simp [equal, inside]
      · simp [equal]
    · intro _
      rw [tally_singleton page inside]
      rfl
  · rename_i outside
    refine ⟨SameLayout.refl state, ?_, ?_⟩
    · intro other
      constructor
      · exact Or.inl
      · rintro (clear | ⟨rfl, inside⟩)
        · exact clear
        · exact absurd inside outside
    · intro bounded
      rw [tally_none fun index below => by omega, add64_of_lt bounded, Nat.add_zero]

/-- The page loop clears a run of consecutive pages. -/
theorem initRun_clears (start count : Nat) (state : PmmState) :
    Clears state (countedLoop (fun index => initPage (start + index)) count state)
      fun page => ∃ index, index < count ∧ page = start + index := by
  induction count with
  | zero =>
      refine (Clears.none state).congr fun page => ?_
      simp
  | succ count ih =>
      refine (ih.trans (initPage_clears (start + count) _) ?_).congr fun page => ?_
      · rintro page ⟨index, below, rfl⟩
        omega
      · exact Nat.exists_lt_succ_right.symm

theorem forEntryPages_clears : Clears state (forEntryPages initPage entry state) (InEntry entry) := by
  unfold forEntryPages
  split
  · rename_i nonempty
    exact (initRun_clears _ _ state).congr fun page => (inEntry_iff entry nonempty page).symm
  · rename_i empty
    refine (Clears.none state).congr fun page => ?_
    simp [not_inEntry entry empty]

/-- The last loop clears the whole pages of the usable entries, which are disjoint. -/
theorem initEntries_clears (state : PmmState)
    (disjoint : entries.Pairwise fun first second => first.type = .usable → second.type = .usable →
      ∀ page, ¬ (InEntry first page ∧ InEntry second page)) :
    Clears state (initEntries entries state)
      fun page => ∃ entry ∈ entries, entry.type = .usable ∧ InEntry entry page := by
  unfold initEntries
  induction entries generalizing state with
  | nil =>
      refine (Clears.none state).congr fun page => ?_
      simp
  | cons entry rest ih =>
      obtain ⟨apart, tail⟩ := List.pairwise_cons.mp disjoint
      rw [List.foldl_cons]
      by_cases usable : entry.type = .usable
      · rw [if_pos usable]
        refine ((forEntryPages_clears entry state).trans (ih _ tail) ?_).congr fun page => ?_
        · rintro page inside ⟨other, member, otherUsable, otherInside⟩
          exact apart other member usable otherUsable page ⟨inside, otherInside⟩
        · simp [usable]
      · rw [if_neg usable]
        refine (ih state tail).congr fun page => ?_
        simp [usable]

theorem MemmapEntry.Covers.contains {entry : MemmapEntry} {page : Nat} (covered : entry.Covers page)
    (address : Nat) (low : page * pageSize ≤ address) (high : address < (page + 1) * pageSize) :
    entry.Contains address := by
  obtain ⟨first, last⟩ := covered
  exact ⟨by omega, by omega⟩

/-- Two disjoint managed entries cover no common page. -/
theorem not_covers_both {first second : MemmapEntry}
    (disjoint : ∀ address, ¬ (first.Contains address ∧ second.Contains address)) (page : Nat) :
    ¬ (first.Covers page ∧ second.Covers page) := by
  rintro ⟨left, right⟩
  have inside : page * pageSize < (page + 1) * pageSize := by unfold pageSize; omega
  exact disjoint (page * pageSize) ⟨left.contains _ le_rfl inside, right.contains _ le_rfl inside⟩

/-- The carved entry covers the pages of the entry that the first `size` bytes do not touch. -/
theorem carve_covers (room : size ≤ entry.length) (bounded : entry.base + entry.length < 2 ^ 64) :
    (entry.carve size).Covers page ↔ entry.Covers page ∧ ¬ Overlaps entry.base size page := by
  unfold MemmapEntry.Covers MemmapEntry.carve Overlaps pageSize
  rw [add64_of_lt (by omega)]
  simp only [lt_min_iff, max_lt_iff]
  omega

/-- An entry disjoint from the holder shares no page with the bitmap. -/
theorem covers_not_overlaps {entry : MemmapEntry} (room : size ≤ holder.length)
    (disjoint : ∀ address, ¬ (entry.Contains address ∧ holder.Contains address)) (covered : entry.Covers page) :
    ¬ Overlaps holder.base size page := by
  intro overlap
  obtain ⟨low, high⟩ := lt_min_iff.mp overlap
  apply disjoint (max holder.base (page * pageSize))
  exact ⟨covered.contains _ (le_max_right _ _) high, le_max_left _ _, by omega⟩

/-- A page is usable from the start when it lies inside a usable entry and holds no bitmap byte. -/
def FreeAtBoot (entries : List MemmapEntry) (holder : MemmapEntry) (page : Nat) : Prop :=
  UsablePage entries page ∧ ¬ Overlaps holder.base (bitmapBytes entries) page

instance (entries : List MemmapEntry) (holder : MemmapEntry) (page : Nat) :
    Decidable (FreeAtBoot entries holder page) := inferInstanceAs (Decidable (_ ∧ _))

section Placed

variable {entries before after : List MemmapEntry} {holder : MemmapEntry}

theorem SaneMemmap.inEntry_iff_covers (sane : SaneMemmap entries) {entry : MemmapEntry}
    (member : entry ∈ entries) (managed : entry.Managed) (page : Nat) :
    InEntry entry page ↔ entry.Covers page := by
  obtain ⟨base, length⟩ := sane.aligned entry member managed
  apply Pmm.inEntry_iff_covers entry page
  · rw [Nat.add_mod, base, length]
    rfl
  · exact sane.bounded entry member managed

theorem SaneMemmap.inEntry_carve_iff (sane : SaneMemmap entries) (member : holder ∈ entries)
    (managed : holder.Managed) {size : Nat} (room : size ≤ holder.length) (page : Nat) :
    InEntry (holder.carve size) page ↔ holder.Covers page ∧ ¬ Overlaps holder.base size page := by
  obtain ⟨base, length⟩ := sane.aligned holder member managed
  have bounded := sane.bounded holder member managed
  have top : (holder.carve size).base + (holder.carve size).length = holder.base + holder.length := by
    change add64 holder.base size + (holder.length - size) = _
    rw [add64_of_lt (by omega)]
    omega
  rw [← carve_covers holder size page room bounded]
  apply Pmm.inEntry_iff_covers
  · rw [top, Nat.add_mod, base, length]
    rfl
  · omega

/-- The holder is disjoint from every other managed entry. -/
theorem SaneMemmap.apart (sane : SaneMemmap entries) (split : entries = before ++ holder :: after)
    (usable : holder.type = .usable) {entry : MemmapEntry} (member : entry ∈ before ++ after)
    (managed : entry.Managed) (address : Nat) :
    ¬ (entry.Contains address ∧ holder.Contains address) := by
  have disjoint := sane.disjoint
  rw [split, List.pairwise_append, List.pairwise_cons] at disjoint
  obtain ⟨_, ⟨later, _⟩, earlier⟩ := disjoint
  obtain left | right := List.mem_append.mp member
  · exact earlier entry left holder List.mem_cons_self managed (Or.inl usable) address
  · rw [and_comm]
    exact later entry right (Or.inl usable) managed address

/-- The usable entries that remain after the placement share no whole page. -/
theorem SaneMemmap.placed_disjoint (sane : SaneMemmap entries)
    (split : entries = before ++ holder :: after) (usable : holder.type = .usable) {size : Nat}
    (room : size ≤ holder.length) :
    (before ++ holder.carve size :: after).Pairwise fun first second =>
      first.type = .usable → second.type = .usable →
        ∀ page, ¬ (InEntry first page ∧ InEntry second page) := by
  have member : holder ∈ entries := by simp [split]
  have outside : ∀ entry ∈ before ++ after, entry ∈ entries :=
    split ▸ ((List.sublist_cons_self holder after).append_left before).subset
  have both : ∀ first ∈ before ++ after, ∀ second ∈ before ++ after,
      (first.Managed → second.Managed →
        ∀ address, ¬ (first.Contains address ∧ second.Contains address)) →
      first.type = .usable → second.type = .usable →
        ∀ page, ¬ (InEntry first page ∧ InEntry second page) := by
    intro first firstInside second secondInside disjoint firstUsable secondUsable page
    rw [sane.inEntry_iff_covers (outside first firstInside) (Or.inl firstUsable),
      sane.inEntry_iff_covers (outside second secondInside) (Or.inl secondUsable)]
    exact not_covers_both (disjoint (Or.inl firstUsable) (Or.inl secondUsable)) page
  have carved : ∀ entry ∈ before ++ after, entry.type = .usable →
      ∀ page, ¬ (InEntry entry page ∧ InEntry (holder.carve size) page) := by
    intro entry inside entryUsable page
    rw [sane.inEntry_iff_covers (outside entry inside) (Or.inl entryUsable),
      sane.inEntry_carve_iff member (Or.inl usable) room]
    rintro ⟨left, right, _⟩
    exact not_covers_both (sane.apart split usable inside (Or.inl entryUsable)) page ⟨left, right⟩
  have disjoint := sane.disjoint
  rw [split, List.pairwise_append, List.pairwise_cons] at disjoint
  obtain ⟨earlier, ⟨_, later⟩, across⟩ := disjoint
  rw [List.pairwise_append, List.pairwise_cons]
  refine ⟨?_, ⟨?_, ?_⟩, ?_⟩
  · exact earlier.imp_of_mem fun firstInside secondInside => both _ (List.mem_append_left _ firstInside)
      _ (List.mem_append_left _ secondInside)
  · intro entry inside _ entryUsable page
    rw [and_comm]
    exact carved entry (List.mem_append_right _ inside) entryUsable page
  · exact later.imp_of_mem fun firstInside secondInside =>
      both _ (List.mem_append_right _ firstInside) _ (List.mem_append_right _ secondInside)
  · intro first firstInside second secondInside
    obtain rfl | secondInside := List.mem_cons.mp secondInside
    · exact fun firstUsable _ => carved first (List.mem_append_left _ firstInside) firstUsable
    · exact both first (List.mem_append_left _ firstInside) second
        (List.mem_append_right _ secondInside)
        (across first firstInside second (List.mem_cons_of_mem _ secondInside))

/-- The usable entries that remain after the placement cover the pages that are usable from the
start. -/
theorem SaneMemmap.placed_pages (sane : SaneMemmap entries)
    (split : entries = before ++ holder :: after) (usable : holder.type = .usable)
    (room : bitmapBytes entries ≤ holder.length) (page : Nat) :
    (∃ entry ∈ before ++ holder.carve (bitmapBytes entries) :: after,
      entry.type = .usable ∧ InEntry entry page) ↔ FreeAtBoot entries holder page := by
  have member : holder ∈ entries := by simp [split]
  have outside : ∀ entry ∈ before ++ after, entry ∈ entries :=
    split ▸ ((List.sublist_cons_self holder after).append_left before).subset
  constructor
  · rintro ⟨entry, inside, entryUsable, covered⟩
    by_cases kept : entry ∈ before ++ after
    · rw [sane.inEntry_iff_covers (outside entry kept) (Or.inl entryUsable)] at covered
      refine ⟨⟨entry, outside entry kept, entryUsable, covered⟩, ?_⟩
      exact covers_not_overlaps _ page room
        (sane.apart split usable kept (Or.inl entryUsable)) covered
    · obtain rfl : entry = holder.carve (bitmapBytes entries) := by
        simp only [List.mem_append, List.mem_cons] at inside kept
        tauto
      rw [sane.inEntry_carve_iff member (Or.inl usable) room] at covered
      exact ⟨⟨holder, member, usable, covered.1⟩, covered.2⟩
  · rintro ⟨⟨entry, inside, entryUsable, covered⟩, clear⟩
    have located : entry ∈ before ++ holder :: after := split ▸ inside
    by_cases same : entry = holder
    · subst same
      refine ⟨entry.carve (bitmapBytes entries), by simp, usable, ?_⟩
      rw [sane.inEntry_carve_iff member (Or.inl usable) room]
      exact ⟨covered, clear⟩
    · refine ⟨entry, ?_, entryUsable, ?_⟩
      · simp only [List.mem_append, List.mem_cons] at located ⊢
        tauto
      · rwa [sane.inEntry_iff_covers inside (Or.inl entryUsable)]

end Placed

/-- The boot result is exact when the clear bits and the free count describe the pages that are
usable from the start. -/
structure InitExact (entries : List MemmapEntry) (holder : MemmapEntry) (state : PmmState) : Prop where
  bits : ∀ page, page < state.totalPages →
    (bitmapTest state page = false ↔ FreeAtBoot entries holder page)
  count : state.freePages = Nat.count (FreeAtBoot entries holder) state.totalPages

/-- A page whose bit lies in an incomplete last byte of the bitmap. -/
def TailPage (entries : List MemmapEntry) (page : Nat) : Prop :=
  trackedPages entries / 8 * 8 ≤ page ∧ page < trackedPages entries

instance (entries : List MemmapEntry) (page : Nat) : Decidable (TailPage entries page) :=
  inferInstanceAs (Decidable (_ ∧ _))

/-- The facts that the initialization establishes for every sane map that can hold the bitmap. -/
structure InitResult (entries : List MemmapEntry) (holder : MemmapEntry) (offset : Nat)
    (state : PmmState) : Prop where
  bitmap : state.bitmap = add64 holder.base offset
  totalPages : state.totalPages = trackedPages entries
  hhdmOffset : state.hhdmOffset = offset
  savedMemmap : ∃ before after, entries = before ++ holder :: after ∧
    state.savedMemmap = some (before ++ holder.carve (bitmapBytes entries) :: after)
  bits : ∀ page, page < trackedPages entries →
    (bitmapTest state page = false ↔ TailPage entries page ∨ FreeAtBoot entries holder page)
  count : state.freePages = Nat.count (FreeAtBoot entries holder) (trackedPages entries)

/-- The initialization runs its last loop over the placed entries from a filled bitmap. -/
theorem pmmInit_eq {entries placed : List MemmapEntry} {offset : Nat} (sane : SaneMemmap entries)
    (placement : placeBitmap (bitmapBytes entries) offset entries =
      (add64 holder.base offset, placed)) (mapped : add64 holder.base offset ≠ 0)
    (fits : trackedPages entries + 7 < 2 ^ 64) :
    ∃ start stats,
      pmmInit state memory (some entries) (some offset) =
        { initEntries placed start with stats := stats } ∧
      start.bitmap = add64 holder.base offset ∧ start.totalPages = trackedPages entries ∧
      start.hhdmOffset = offset ∧ start.savedMemmap = some placed ∧ start.freePages = 0 ∧
      start.bytes = initialBytes memory start.totalPages (add64 start.totalPages 7 / 8) := by
  have tracked : (surveyMemmap entries state.stats).1 / pageSize = trackedPages entries := by
    rw [surveyMemmap_highest entries state.stats sane.bounded]
    rfl
  have size : add64 ((surveyMemmap entries state.stats).1 / pageSize) 7 / 8 = bitmapBytes entries := by
    rw [tracked, add64_of_lt fits]
    rfl
  unfold pmmInit
  dsimp only
  rw [size, placement, if_neg mapped]
  refine ⟨_, _, rfl, rfl, tracked, rfl, rfl, rfl, ?_⟩
  rw [← size]

/-- The boot result has the free pages of the map and also the pages of an incomplete last byte. -/
theorem pmmInit_result {entries : List MemmapEntry} {offset : Nat} (sane : SaneMemmap entries)
    (found : bitmapHolder entries = some holder) (mapped : add64 holder.base offset ≠ 0) :
    InitResult entries holder offset (pmmInit state memory (some entries) (some offset)) := by
  have fits : trackedPages entries + 7 < 2 ^ 64 := by
    have small := surveyMemmap_lt entries state.stats
    rw [surveyMemmap_highest entries state.stats sane.bounded] at small
    unfold trackedPages pageSize
    omega
  obtain ⟨usable, room⟩ : holder.type = .usable ∧ bitmapBytes entries ≤ holder.length := by
    simpa using List.find?_some found
  obtain ⟨before, after, split, placement⟩ :=
    placeBitmap_spec (bitmapBytes entries) offset entries holder found
  obtain ⟨start, stats, equal, bitmap, total, hhdm, saved, free, bytes⟩ :=
    pmmInit_eq state memory sane placement mapped fits
  have cleared := (initEntries_clears _ start
    (sane.placed_disjoint split usable room)).congr (sane.placed_pages split usable room)
  rw [equal]
  generalize initEntries _ start = next at cleared
  refine ⟨?_, ?_, ?_, ⟨before, after, split, ?_⟩, ?_, ?_⟩
  · exact cleared.layout.bitmap.trans bitmap
  · exact cleared.layout.totalPages.trans total
  · exact cleared.layout.hhdmOffset.trans hhdm
  · exact cleared.layout.savedMemmap.trans saved
  · intro page inside
    rw [← total] at inside fits
    have initial := initialBytes_clear start memory page bytes fits inside
    have same : bitmapTest { next with stats := stats } page = bitmapTest next page :=
      bitmapTest_congr rfl page
    rw [same, cleared.bits, initial, TailPage, ← total]
    simp [inside]
  · have counted := cleared.free (by rw [free]; exact Nat.two_pow_pos 64)
    rw [free, total, tally_eq_count] at counted
    have bounded : Nat.count (FreeAtBoot entries holder) (trackedPages entries) < 2 ^ 64 :=
      lt_of_le_of_lt (Nat.count_le _) (by omega)
    rwa [add64_of_lt (by omega), Nat.zero_add] at counted

/-- The pages of an incomplete last byte are all usable from the start. -/
def TailUsable (entries : List MemmapEntry) (holder : MemmapEntry) : Prop :=
  ∀ page, TailPage entries page → FreeAtBoot entries holder page

/-- The boot result is exact if and only if the pages of an incomplete last byte are usable. -/
theorem pmmInit_exact_iff (state : PmmState) (memory : Nat → BitVec 8) {entries : List MemmapEntry}
    {holder : MemmapEntry} {offset : Nat} (sane : SaneMemmap entries)
    (found : bitmapHolder entries = some holder) (mapped : add64 holder.base offset ≠ 0) :
    InitExact entries holder (pmmInit state memory (some entries) (some offset)) ↔
      TailUsable entries holder := by
  have result := pmmInit_result state memory sane found mapped
  constructor
  · intro exact page tail
    have inside := tail.2
    rw [← exact.bits page (by rw [result.totalPages]; exact inside), result.bits page inside]
    exact Or.inl tail
  · intro usable
    refine ⟨?_, by rw [result.totalPages]; exact result.count⟩
    intro page inside
    rw [result.totalPages] at inside
    rw [result.bits page inside]
    constructor
    · rintro (tail | free)
      · exact usable page tail
      · exact free
    · exact Or.inr

/-- One usable region of ten pages starts at address zero. -/
def tenPageMap : List MemmapEntry := [⟨0, 0xA000, .usable⟩]

theorem tenPageMap_sane : SaneMemmap tenPageMap where
  aligned := by decide
  bounded := by decide
  disjoint := List.pairwise_singleton _ _

/-- The ten pages leave an incomplete last byte of usable pages, and their boot result is exact. -/
theorem pmmInit_exact_tenPageMap :
    let holder : MemmapEntry := ⟨0, 0xA000, .usable⟩
    SaneMemmap tenPageMap ∧ bitmapHolder tenPageMap = some holder ∧
      add64 holder.base 0xFFFF800000000000 ≠ 0 ∧ TailPage tenPageMap 9 ∧
      InitExact tenPageMap holder
        (pmmInit { bytes := fun _ => 0#8 } (fun _ => 0#8) (some tenPageMap) (some 0xFFFF800000000000)) := by
  intro holder
  have found : bitmapHolder tenPageMap = some holder := by decide
  refine ⟨tenPageMap_sane, found, by decide, by decide, ?_⟩
  refine (pmmInit_exact_iff _ _ tenPageMap_sane found (by decide)).mpr ?_
  intro page tail
  obtain ⟨low, high⟩ : 8 ≤ page ∧ page < 10 := tail
  interval_cases page <;> decide

/-- A usable page is followed by a page that the bootloader still uses. -/
def loaderMap : List MemmapEntry :=
  [⟨0x1000, 0x1000, .usable⟩, ⟨0x2000, 0x1000, .bootloaderReclaimable⟩]

theorem loaderMap_sane : SaneMemmap loaderMap where
  aligned := by decide
  bounded := by decide
  disjoint := by
    refine List.pairwise_pair.mpr fun _ _ address => ?_
    rintro ⟨⟨_, below⟩, above, _⟩
    exact absurd (lt_of_le_of_lt above below) (by decide)

/-- The page of the bootloader, the page of the bitmap and the page below every entry are marked
free at boot, and the free count does not count them. -/
theorem pmmInit_loaderMap_inexact :
    let holder : MemmapEntry := ⟨0x1000, 0x1000, .usable⟩
    let state := pmmInit { bytes := fun _ => 0#8 } (fun _ => 0#8) (some loaderMap)
      (some 0xFFFF800000000000)
    SaneMemmap loaderMap ∧ bitmapHolder loaderMap = some holder ∧
      add64 holder.base 0xFFFF800000000000 ≠ 0 ∧ state.totalPages = 3 ∧ state.freePages = 0 ∧
      (∀ page, page < 3 → bitmapTest state page = false) ∧ ¬ InitExact loaderMap holder state := by
  intro holder state
  have clear : ∀ page, page < 3 → bitmapTest state page = false := by decide +kernel
  refine ⟨loaderMap_sane, by decide, by decide, by decide +kernel, by decide +kernel, clear, ?_⟩
  intro exact
  have usable := (exact.bits 2 (by decide +kernel)).mp (clear 2 (by decide))
  exact absurd usable (by decide)

end Uesi.Pmm
