import Uesi.Construction.Paging
import Uesi.Proof.Mmu.Refine

namespace Uesi.Mmu

open Library Pmm

variable {address : Nat} {start : Teardown} {path : List Nat}

variable {state : MmuState} {root : Nat}

section Listing

/-- The pages to which the entries of a table lead in some levels, each one behind the pages below it. -/
def listing (state : MmuState) : Nat → Nat → Nat → List Nat
  | 0, _, _ => []
  | levels + 1, count, table => (List.range count).flatMap fun index =>
      if Present (state.entry table index) then
        listing state levels 512 (state.child (state.entry table index)) ++ [state.child (state.entry table index)]
      else []

variable {levels count table : Nat}

theorem pathBelow_cons {index : Nat} {rest : List Nat} (inside : count ≤ 512) :
    PathBelow count (index :: rest) ↔ index < count ∧ PathBelow 512 rest := by
  constructor
  · intro below
    exact ⟨below.lower index rfl, fun other member => below.inside other (by simp [member]),
      fun other first => below.inside other (by simp [List.mem_of_mem_head? first])⟩
  · rintro ⟨first, below⟩
    refine ⟨List.forall_mem_cons.mpr ⟨by omega, below.inside⟩, fun other head => ?_⟩
    obtain rfl : index = other := by simpa using head
    exact first

theorem listing_succ (state : MmuState) (levels count table : Nat) :
    listing state (levels + 1) (count + 1) table = listing state (levels + 1) count table ++
      if Present (state.entry table count) then listing state levels 512 (state.child (state.entry table count)) ++
        [state.child (state.entry table count)] else [] := by
  rw [listing, List.range_succ, List.flatMap_append, List.flatMap_singleton]
  rfl

/-- The part of a listing behind one entry, when the levels below it are listed by their walks. -/
theorem mem_behind {index : Nat} (below : ∀ {table}, address ∈ listing state levels 512 table ↔
      ∃ path, PathBelow 512 path ∧ path ≠ [] ∧ path.length ≤ levels ∧ walk state table path = some address) :
    (address ∈ if Present (state.entry table index) then
        listing state levels 512 (state.child (state.entry table index)) ++ [state.child (state.entry table index)]
      else []) ↔ ∃ path, PathBelow 512 path ∧ path.length ≤ levels ∧ walk state table (index :: path) = some address := by
  by_cases present : Present (state.entry table index)
  · simp only [if_pos present, List.mem_append, List.mem_singleton, below, walk]
    constructor
    · rintro (⟨path, user, _, short, found⟩ | rfl)
      · exact ⟨path, user, short, found⟩
      · exact ⟨[], PathBelow.nil, by simp, rfl⟩
    · rintro ⟨path, user, short, found⟩
      by_cases last : path = []
      · subst last
        exact Or.inr (Option.some.inj found).symm
      · exact Or.inl ⟨path, user, last, short, found⟩
  · simp [present, walk]

/-- A listing holds the pages that the walks of its levels reach. -/
theorem mem_listing (inside : count ≤ 512) :
    address ∈ listing state levels count table ↔ ∃ path, PathBelow count path ∧ path ≠ [] ∧
      path.length ≤ levels ∧ walk state table path = some address := by
  induction levels generalizing count table with
  | zero =>
      simp only [listing, List.not_mem_nil, Nat.le_zero, List.length_eq_zero_iff, false_iff]
      rintro ⟨path, _, some, none, _⟩
      exact some none
  | succ levels ih =>
      simp only [listing, List.mem_flatMap, mem_behind (ih le_rfl), List.mem_range]
      constructor
      · rintro ⟨index, first, path, user, short, found⟩
        exact ⟨index :: path, (pathBelow_cons inside).mpr ⟨first, user⟩, by simp, Nat.succ_le_succ short, found⟩
      · rintro ⟨_ | ⟨index, path⟩, user, some, short, found⟩
        · exact absurd rfl some
        · obtain ⟨first, below⟩ := (pathBelow_cons inside).mp user
          exact ⟨index, first, path, below, Nat.le_of_succ_le_succ short, found⟩

/-- A listing holds each page once when its walks reach different pages. -/
theorem nodup_listing (inside : count ≤ 512)
    (unique : ∀ first second address, PathBelow count first → PathBelow count second → first.length ≤ levels →
      second.length ≤ levels → walk state table first = some address → walk state table second = some address →
      first = second) : (listing state levels count table).Nodup := by
  induction levels generalizing count table with
  | zero => exact List.nodup_nil
  | succ levels ih =>
      have apart : ∀ {left right leftPath rightPath address}, left < count → right < count →
          PathBelow 512 leftPath → PathBelow 512 rightPath → leftPath.length ≤ levels → rightPath.length ≤ levels →
          walk state table (left :: leftPath) = some address →
          walk state table (right :: rightPath) = some address → left = right ∧ leftPath = rightPath := by
        intro left right leftPath rightPath address leftFirst rightFirst leftUser rightUser leftShort rightShort
          leftFound rightFound
        exact List.cons.inj (unique _ _ address ((pathBelow_cons inside).mpr ⟨leftFirst, leftUser⟩)
          ((pathBelow_cons inside).mpr ⟨rightFirst, rightUser⟩) (Nat.succ_le_succ leftShort)
          (Nat.succ_le_succ rightShort) leftFound rightFound)
      rw [listing, List.nodup_flatMap]
      constructor
      · intro index member
        have first := List.mem_range.mp member
        split
        · rename_i present
          have step : ∀ path, walk state table (index :: path) =
              walk state (state.child (state.entry table index)) path := fun path => by rw [walk, if_pos present]
          refine List.nodup_append.mpr ⟨ih le_rfl ?_, List.nodup_singleton _, ?_⟩
          · intro left right address leftUser rightUser leftShort rightShort leftFound rightFound
            exact (apart first first leftUser rightUser leftShort rightShort ((step left).trans leftFound)
              ((step right).trans rightFound)).2
          · rintro address listed other here rfl
            obtain ⟨path, user, some, short, found⟩ := (mem_listing le_rfl).mp listed
            rw [List.mem_singleton.mp here] at found
            exact some (apart first first user PathBelow.nil short (Nat.zero_le _) ((step path).trans found)
              (step [])).2
        · exact List.nodup_nil
      · refine List.nodup_range.imp_of_mem fun leftMember rightMember different address leftListed
          rightListed => different ?_
        obtain ⟨leftPath, leftUser, leftShort, leftFound⟩ := (mem_behind (mem_listing le_rfl)).mp leftListed
        obtain ⟨rightPath, rightUser, rightShort, rightFound⟩ := (mem_behind (mem_listing le_rfl)).mp rightListed
        exact (apart (List.mem_range.mp leftMember) (List.mem_range.mp rightMember) leftUser rightUser leftShort
          rightShort leftFound rightFound).1

end Listing

/-- The calls of `pmm_free` with the given addresses. -/
def freeAll (addresses : List Nat) (start : Teardown) : Teardown := addresses.foldl Teardown.free start

theorem freeAll_append (first second : List Nat) (start : Teardown) :
    freeAll (first ++ second) start = freeAll second (freeAll first start) := List.foldl_append

/-- The calls of `pmm_free` change the bits of the allocator only. -/
theorem freeAll_spec (addresses : List Nat) (start : Teardown) :
    (freeAll addresses start).freed = start.freed ++ addresses ∧
      (freeAll addresses start).state.memory = start.state.memory ∧
      SameLayout start.state.pmm (freeAll addresses start).state.pmm := by
  induction addresses generalizing start with
  | nil => exact ⟨(List.append_nil _).symm, rfl, SameLayout.refl _⟩
  | cons address rest ih =>
      obtain ⟨freed, memory, layout⟩ := ih (start.free address)
      refine ⟨?_, memory, (pmmFree_layout start.state.pmm address).trans layout⟩
      exact freed.trans (List.append_assoc _ [address] rest)

/-- The tables apart from the first one have the same entries in two states. -/
structure Agrees (root : Nat) (state current : MmuState) : Prop where
  offset : current.pmm.hhdmOffset = state.pmm.hhdmOffset
  entries : ∀ table index, table % pageSize = 0 → table ≠ root → index < 512 →
    current.entry table index = state.entry table index

theorem Agrees.freeAll (agrees : Agrees root state start.state) (addresses : List Nat) :
    Agrees root state (freeAll addresses start).state := by
  obtain ⟨_, memory, layout⟩ := freeAll_spec addresses start
  refine ⟨layout.hhdmOffset.trans agrees.offset, fun table index aligned other inside => ?_⟩
  rw [MmuState.entry, memory]
  exact agrees.entries table index aligned other inside

section Loops

variable {skips : BitVec 64 → Bool} {freeBelow : Nat → Teardown → Teardown} {depth levels count table : Nat}

/-- A loop over entries frees the listing when it skips none of them and the levels below are freed. -/
theorem freeEntries_eq (agrees : Agrees root state start.state)
    (same : ∀ index, index < count → start.state.entry table index = state.entry table index)
    (frees : ∀ index, index < count → Present (state.entry table index) →
      skips (state.entry table index) = false ∧ ∀ current : Teardown, Agrees root state current.state →
        freeBelow (state.child (state.entry table index)) current =
          freeAll (listing state levels 512 (state.child (state.entry table index))) current) :
    freeEntries skips freeBelow count table start = freeAll (listing state (levels + 1) count table) start := by
  unfold freeEntries
  induction count with
  | zero => rfl
  | succ count ih =>
      rw [countedLoop_succ, ih (fun index small => same index (by omega)) fun index small => frees index (by omega),
        listing_succ, freeAll_append]
      generalize listing state (levels + 1) count table = addresses
      have now := agrees.freeAll addresses
      have entry : (freeAll addresses start).state.entry table count = state.entry table count := by
        rw [MmuState.entry, (freeAll_spec addresses start).2.1]
        exact same count (Nat.lt_succ_self count)
      dsimp only
      rw [entry, child_congr now.offset]
      by_cases present : Present (state.entry table count)
      · obtain ⟨passes, freed⟩ := frees count (Nat.lt_succ_self count) present
        rw [if_pos ⟨present, passes⟩, if_pos present, freed _ now, freeAll_append]
        rfl
      · rw [if_neg fun both => present both.1, if_neg present]
        rfl

/-- A loop over entries of which none is present frees nothing. -/
theorem freeEntries_empty (empty : EmptyBelow count start.state table) :
    freeEntries skips freeBelow count table start = start := by
  refine countedLoop_invariant _ (fun _ current => current = start) count start rfl ?_
  rintro index _ inside rfl
  exact if_neg fun both => empty index inside both.1

/-- A function frees what is below the tables of a depth. -/
def Frees (state : MmuState) (root depth levels : Nat) (free : Nat → Teardown → Teardown) : Prop :=
  ∀ path table current, UserPath path → path.length = depth → walk state root path = some table →
    Agrees root state current.state → free table current = freeAll (listing state levels 512 table) current

theorem Frees.zero (state : MmuState) (root depth : Nat) : Frees state root depth 0 fun _ current => current :=
  fun _ _ _ _ _ _ _ => rfl

/-- A loop over the entries of a table frees one more level. -/
theorem Frees.entries (below : Frees state root (depth + 1) levels freeBelow) (held : Tables state root)
    (deep : 0 < depth) (short : depth ≤ 3)
    (passes : ∀ path index table, UserPath (path ++ [index]) → path.length = depth → walk state root path = some table →
      Present (state.entry table index) → skips (state.entry table index) = false) :
    Frees state root depth (levels + 1) (freeEntries skips freeBelow 512) := by
  intro path table current user length found agrees
  have other : table ≠ root := by
    rintro rfl
    have empty := held.unique path [] table user PathBelow.nil (by omega) (by simp) found rfl
    rw [empty] at length
    exact absurd length (by simp; omega)
  refine freeEntries_eq agrees (fun index => agrees.entries table index (held.table_aligned found) other) ?_
  intro index inside present
  have longer : UserPath (path ++ [index]) := user.concat (by rintro rfl; simp at length; omega) inside
  refine ⟨passes path index table longer length found present, fun current now => ?_⟩
  refine below (path ++ [index]) _ current longer (by simp [length]) ?_ now
  rw [walk_concat, found, Option.bind_some, if_pos present]

/-- No entry of the middle levels is skipped when there are no large pages. -/
theorem PlainBelow.passes (plain : PlainBelow 256 state root) (short : depth < 3) (path : List Nat) (index table : Nat)
    (user : UserPath (path ++ [index])) (length : path.length = depth) (found : walk state root path = some table)
    (present : Present (state.entry table index)) : isHuge (state.entry table index) = false := by
  simp [isHuge, plain path index table user (by omega) found present]

end Loops

/-- After some rounds of `paging_free_user_pages` the entries of these rounds are cleared, and the later ones are as
before. -/
structure Cleared (state : MmuState) (root : Nat) (freed : List Nat) (done : Nat) (current : Teardown) : Prop where
  calls : current.freed = freed ++ listing state 4 done root
  agrees : Agrees root state current.state
  cleared : EmptyBelow done current.state root
  kept : ∀ index, done ≤ index → index < 256 → current.state.entry root index = state.entry root index

section Rounds

variable {freed : List Nat} {index : Nat} {current : Teardown} (cleared : Cleared state root freed index current)
  (inside : index < 256)

include cleared inside

theorem Cleared.skip (absent : ¬ Present (state.entry root index)) : Cleared state root freed (index + 1) current where
  calls := by
    rw [listing_succ, if_neg absent, List.append_nil]
    exact cleared.calls
  agrees := cleared.agrees
  cleared other below := by
    obtain earlier | rfl := Nat.lt_succ_iff_lt_or_eq.mp below
    · exact cleared.cleared other earlier
    · rw [cleared.kept other le_rfl inside]
      exact absent
  kept other above := cleared.kept other (by omega)

theorem Cleared.clear (aligned : root % pageSize = 0) {addresses : List Nat}
    (listed : listing state 4 (index + 1) root = listing state 4 index root ++ addresses) :
    Cleared state root freed (index + 1) { freeAll addresses current with
      state := (freeAll addresses current).state.setEntry root index 0 } := by
  obtain ⟨calls, memory, _⟩ := freeAll_spec addresses current
  have now := cleared.agrees.freeAll addresses
  have write := fun {table other} => @entry_setEntry (freeAll addresses current).state root index table other 0 aligned
  have old (other : Nat) : (freeAll addresses current).state.entry root other = current.state.entry root other := by
    rw [MmuState.entry, memory]
    rfl
  refine ⟨?_, ⟨now.offset, fun table other tableAligned different small => ?_⟩, fun other below => ?_,
    fun other above small => ?_⟩
  · rw [listed, ← List.append_assoc, ← cleared.calls]
    exact calls
  · rw [write tableAligned (by omega) small, if_neg fun both => different both.1]
    exact now.entries table other tableAligned different small
  · rw [write aligned (by omega) (by omega), old]
    obtain earlier | rfl := Nat.lt_succ_iff_lt_or_eq.mp below
    · rw [if_neg fun both => by omega]
      exact cleared.cleared other earlier
    · rw [if_pos ⟨rfl, rfl⟩]
      exact not_present_zero
  · rw [write aligned (by omega) (by omega), if_neg fun both => by omega, old]
    exact cleared.kept other (by omega) small

end Rounds

section Calls

variable {pd : PageDirectory} (held : Tables state root) (plain : PlainBelow 256 state root)
  (given : pd.pml4 = root) (nonzero : root ≠ 0)

include held plain given nonzero

/-- `paging_free_user_pages` frees the pages and the tables of the user half and empties it. -/
theorem pagingFreeUserPages_spec (freed : List Nat) :
    (pagingFreeUserPages ⟨state, freed⟩ pd).freed = freed ++ listing state 4 256 root ∧
      EmptyUserHalf (pagingFreeUserPages ⟨state, freed⟩ pd).state root := by
  have pages : Frees state root 3 1 (freeEntries (fun _ => false) (fun _ current => current) 512) :=
    (Frees.zero state root 4).entries held (by decide) le_rfl fun _ _ _ _ _ _ _ => rfl
  have tables := pages.entries held (by decide) (by decide) (plain.passes (by decide))
  have directories : Frees state root 1 3 _ :=
    tables.entries held (by decide) (by decide) (plain.passes (by decide))
  unfold pagingFreeUserPages
  rw [if_neg (by rw [given]; exact nonzero), given]
  dsimp only
  generalize result : countedLoop _ 256 (⟨state, freed⟩ : Teardown) = torn
  suffices loop : Cleared state root freed 256 torn from ⟨loop.calls, loop.cleared⟩
  rw [← result]
  apply countedLoop_invariant _ (Cleared state root freed) 256 ⟨state, freed⟩
  · exact ⟨(List.append_nil freed).symm, ⟨rfl, fun _ _ _ _ _ => rfl⟩,
      fun index below => absurd below (Nat.not_lt_zero index), fun _ _ _ => rfl⟩
  · intro index current inside cleared
    rw [cleared.kept index le_rfl inside, child_congr cleared.agrees.offset]
    split
    · rename_i present
      have found : walk state root [index] = some (state.child (state.entry root index)) := by
        rw [walk, if_pos present]
        rfl
      have user : UserPath [index] := (pathBelow_cons (by decide)).mpr ⟨inside, PathBelow.nil⟩
      have listed := listing_succ state 3 index root
      rw [if_pos present] at listed
      rw [directories [index] _ current user rfl found cleared.agrees]
      have next := cleared.clear inside held.aligned listed
      rw [freeAll_append] at next
      exact next
    · rename_i absent
      exact cleared.skip inside absent

/-- The two calls free the pages and the tables of the user half, the first table and the directory. -/
theorem teardown_freed (address : Nat) :
    (mmuDestroyAddressSpace (pagingFreeUserPages ⟨state, []⟩ pd) address pd).freed =
      listing state 4 256 root ++ [root, address] := by
  obtain ⟨calls, empty⟩ := pagingFreeUserPages_spec held plain given nonzero []
  unfold mmuDestroyAddressSpace
  rw [if_neg (by rw [given]; exact nonzero), given]
  dsimp only
  rw [freeEntries_empty empty, ← List.nil_append (listing state 4 256 root), ← calls]
  exact List.append_assoc _ [root] [address]

end Calls

section Space

variable {kept : Nat → Prop}

/-- Four indices are those of a virtual page. -/
theorem PathBelow.table_or_page (user : UserPath path) (short : path.length ≤ 4) :
    path.length ≤ 3 ∨ ∃ virt, virt < 2 ^ 47 ∧ path = tablePath virt ++ [ptIndex virt] := by
  by_cases table : path.length ≤ 3
  · exact Or.inl table
  · obtain ⟨first, second, third, last, rfl⟩ := List.length_eq_four.mp (show path.length = 4 by omega)
    have low := user.lower first rfl
    have inside := user.inside
    simp only [List.forall_mem_cons] at inside
    refine Or.inr ⟨first * 2 ^ 39 + second * 2 ^ 30 + third * 2 ^ 21 + last * 2 ^ 12, by omega, ?_⟩
    simp only [tablePath, pml4Index, pdptIndex, pdIndex, ptIndex, List.cons_append, List.nil_append, List.cons.injEq,
      and_true]
    omega

/-- The fourth level leads to the frame of a page. -/
theorem walk_page (state : MmuState) (root virt : Nat) :
    walk state root (tablePath virt ++ [ptIndex virt]) = (leaf state root virt).map state.child := by
  rw [walk_concat, leaf]
  cases walk state root (tablePath virt) with
  | none => rfl
  | some table =>
      rw [Option.bind_some, Option.bind_some]
      split
      all_goals rfl

/-- A walk of at most four levels ends at a table or at a private page. -/
theorem Space.walk_cases (space : Space state root kept) (user : UserPath path) (short : path.length ≤ 4)
    (found : walk state root path = some address) :
    path.length ≤ 3 ∨ ∃ virt entry page, virt < 2 ^ 47 ∧ path = tablePath virt ++ [ptIndex virt] ∧
      leaf state root virt = some entry ∧ Private state root kept page ∧ entryAddress entry = page * pageSize ∧
      address = pageAt state.pmm page := by
  obtain table | ⟨virt, low, rfl⟩ := user.table_or_page short
  · exact Or.inl table
  · rw [walk_page, Option.map_eq_some_iff] at found
    obtain ⟨entry, mapped, rfl⟩ := found
    obtain ⟨page, alone, frame⟩ := space.frame virt entry (userPage_of_lt low) mapped
    refine Or.inr ⟨virt, entry, page, low, rfl, mapped, alone, frame, ?_⟩
    rw [MmuState.child, frame]
    exact space.direct.add64_page alone.tracked

/-- Different walks of at most four levels end at different pages. -/
theorem Space.walk_unique (space : Space state root kept) (first second : List Nat) (address : Nat)
    (firstUser : UserPath first) (secondUser : UserPath second) (firstShort : first.length ≤ 4)
    (secondShort : second.length ≤ 4) (firstFound : walk state root first = some address)
    (secondFound : walk state root second = some address) : first = second := by
  obtain firstTable | ⟨virt, entry, page, low, firstPath, mapped, alone, frame, here⟩ :=
    space.walk_cases firstUser firstShort firstFound
  · obtain secondTable | ⟨_, _, page, _, _, _, alone, _, rfl⟩ := space.walk_cases secondUser secondShort secondFound
    · exact space.unique first second address firstUser secondUser firstTable secondTable firstFound secondFound
    · exact absurd firstFound (not_table_of_quiet alone.quiet firstUser firstTable)
  · subst here
    obtain secondTable | ⟨other, otherEntry, otherPage, otherLow, secondPath, otherMapped, _, otherFrame, same⟩ :=
      space.walk_cases secondUser secondShort secondFound
    · exact absurd secondFound (not_table_of_quiet alone.quiet secondUser secondTable)
    · rw [← pageAt_injective same, ← frame] at otherFrame
      obtain ⟨paths, index⟩ := space.exclusive virt other entry otherEntry (userPage_of_lt low)
        (userPage_of_lt otherLow) mapped otherMapped otherFrame.symm
      rw [firstPath, secondPath, paths, index]

/-- A kept address is no page of the user half. -/
theorem Space.kept_ne (space : Space state root kept) (keep : kept address) (user : UserPath path)
    (nonempty : path ≠ []) (short : path.length ≤ 4) :
    walk state root path ≠ some address := by
  intro found
  obtain table | ⟨_, _, page, _, _, _, alone, _, rfl⟩ := space.walk_cases user short found
  · exact (space.keeps address keep).table path address user nonempty table found ⟨le_rfl, by unfold pageSize; omega⟩
  · exact alone.unkept _ (inPage_pageAt _ _) keep

end Space

section Filling

/-- The calls that fill an address space: `pmm_alloc`, and `mmu_map_page` with a frame. -/
inductive FillOp where
  | alloc
  | map (virt frame : Nat) (flags : BitVec 64)

/-- The state with the frames that `pmm_alloc` has handed out and that are not mapped yet. -/
structure FillState where
  mmu : MmuState
  frames : List Nat

/-- One call. -/
def fillStep (pd : PageDirectory) (current : FillState) : FillOp → FillState
  | .alloc =>
      match pmmAlloc current.mmu.pmm with
      | (frame, pmm) => ⟨{ current.mmu with pmm := pmm }, if frame = 0 then current.frames else frame :: current.frames⟩
  | .map virt frame flags =>
      match mmuMapPage current.mmu pd virt (current.mmu.virtToPhys frame) flags with
      | (true, mmu) => ⟨mmu, current.frames.erase frame⟩
      | (false, mmu) => ⟨mmu, current.frames⟩

/-- A mapping is for the user half, its frame was handed out and is not mapped yet, and its flags lie outside the address
bits. -/
def ValidFill (current : FillState) : FillOp → Prop
  | .alloc => True
  | .map virt frame flags => virt < 2 ^ 47 ∧ frame ∈ current.frames ∧ flags &&& pageAddrMask = 0

variable {kept : Nat → Prop} {next : MmuState} {page : Nat}

/-- The address space is in order without large pages, and the frames are pages that may be mapped. -/
structure Filled (root : Nat) (kept : Nat → Prop) (current : FillState) : Prop where
  space : Space current.mmu root kept
  plain : PlainBelow 256 current.mmu root
  frames : ∀ frame ∈ current.frames, ∃ page, frame = pageAt current.mmu.pmm page ∧
    Available current.mmu root kept page
  distinct : current.frames.Nodup

/-- A page stays available when a step maps other pages only. -/
theorem Available.grows (available : Available state root kept page) (grows : Grows state next root)
    (changes : ∀ virt entry, UserPage virt → leaf next root virt = some entry →
      leaf state root virt = some entry ∨ entryAddress entry ≠ page * pageSize) : Available next root kept page where
  toPrivate := available.toPrivate.grows grows
  unmapped virt entry user found same := by
    obtain old | different := changes virt entry user found
    · exact available.unmapped virt entry user old same
    · exact different same

theorem Filled.alloc {current : FillState} {pd : PageDirectory} (filled : Filled root kept current) :
    Filled root kept (fillStep pd current .alloc) := by
  unfold fillStep
  obtain failed | ⟨page, pmm, succeeded, taken⟩ := pmmAlloc_cases current.mmu.pmm
  · rw [failed]
    exact filled
  · obtain ⟨inside, unused⟩ := taken.clear page (by simp)
    obtain ⟨space, fresh, grows⟩ := filled.space.fresh taken fun _ _ => rfl
    rw [succeeded, filled.space.direct.pageAddress_eq inside]
    have old : ∀ frame ∈ current.frames, ∃ page, frame = pageAt pmm page ∧
        Available { current.mmu with pmm := pmm } root kept page := by
      intro frame member
      obtain ⟨other, rfl, available⟩ := filled.frames frame member
      refine ⟨other, (pageAt_congr taken.layout other).symm, available.grows grows fun virt entry user found => ?_⟩
      rw [filled.space.leaf_fresh taken (fun _ _ => rfl) user] at found
      exact Or.inl found
    dsimp only
    split
    · exact ⟨space, grows.plain filled.plain, old, filled.distinct⟩
    · refine ⟨space, grows.plain filled.plain, List.forall_mem_cons.mpr ⟨⟨page, ?_, fresh⟩, old⟩,
        List.nodup_cons.mpr ⟨fun member => ?_, filled.distinct⟩⟩
      · exact (pageAt_congr taken.layout page).symm
      · obtain ⟨other, same, available⟩ := filled.frames _ member
        obtain rfl := pageAt_injective same
        exact (available.quiet _ (inPage_pageAt _ _)).free page inside unused (inPage_pageAt _ _)

theorem Filled.map {current : FillState} {pd : PageDirectory} (filled : Filled pd.pml4 kept current)
    {virt frame : Nat} {flags : BitVec 64} (valid : ValidFill current (.map virt frame flags)) :
    Filled pd.pml4 kept (fillStep pd current (.map virt frame flags)) := by
  obtain ⟨low, member, clear⟩ := valid
  obtain ⟨page, rfl, available⟩ := filled.frames frame member
  have phys : current.mmu.virtToPhys (pageAt current.mmu.pmm page) = page * pageSize :=
    filled.space.direct.sub64_pageAt available.tracked
  obtain ⟨ok, next, step, space, grows, again, leaves⟩ := filled.space.mapPage available rfl (userPage_of_lt low) clear
  have frames (different : Nat → Prop) (others : ok = false ∨ ∀ other, different (pageAt current.mmu.pmm other) →
      other ≠ page) : ∀ frame ∈ current.frames, different frame → ∃ page, frame = pageAt next.pmm page ∧
      Available next pd.pml4 kept page := by
    intro frame member apart
    obtain ⟨other, rfl, old⟩ := filled.frames frame member
    refine ⟨other, (pageAt_congr grows.layout other).symm, old.grows grows fun virt entry user found => ?_⟩
    rw [leaves virt user] at found
    split at found
    · rename_i both
      obtain rfl := Option.some.inj found
      obtain failed | others := others
      · exact absurd both.1 (by simp [failed])
      · rw [filled.space.entryAddress_makeEntry available.tracked clear]
        refine Or.inr fun same => others other apart (Nat.eq_of_mul_eq_mul_right (by decide) same.symm)
    · exact Or.inl found
  unfold fillStep
  dsimp only
  rw [phys, step]
  cases ok with
  | true =>
      refine ⟨space, grows.plain filled.plain, fun frame rest => ?_, filled.distinct.erase _⟩
      obtain ⟨different, old⟩ := (filled.distinct.mem_erase_iff).mp rest
      refine frames (· ≠ pageAt current.mmu.pmm page) (Or.inr ?_) frame old different
      rintro other apart rfl
      exact apart rfl
  | false =>
      exact ⟨space, grows.plain filled.plain, fun frame old => frames (fun _ => True) (Or.inl rfl) frame old trivial,
        filled.distinct⟩

end Filling

/-- A page of the user half: a frame that it maps, or a table below the first one. -/
def UserFrame (state : MmuState) (root address : Nat) : Prop :=
  (∃ virt entry, virt < 2 ^ 47 ∧ leaf state root virt = some entry ∧ address = state.child entry) ∨
    ∃ path, UserPath path ∧ path ≠ [] ∧ path.length ≤ 3 ∧ walk state root path = some address

/-- The walks of four levels reach the pages of the user half. -/
theorem mem_listing_user : address ∈ listing state 4 256 root ↔ UserFrame state root address := by
  rw [mem_listing (by decide)]
  constructor
  · rintro ⟨path, user, nonempty, short, found⟩
    obtain table | ⟨virt, low, rfl⟩ := user.table_or_page short
    · exact Or.inr ⟨path, user, nonempty, table, found⟩
    · rw [walk_page, Option.map_eq_some_iff] at found
      obtain ⟨entry, mapped, rfl⟩ := found
      exact Or.inl ⟨virt, entry, low, mapped, rfl⟩
  · rintro (⟨virt, entry, low, mapped, rfl⟩ | ⟨path, user, nonempty, short, found⟩)
    · refine ⟨tablePath virt ++ [ptIndex virt], (userPage_of_lt low).path.concat (by simp [tablePath])
        (ptIndex_lt virt), by simp, by simp [tablePath], ?_⟩
      rw [walk_page, mapped]
      rfl
    · exact ⟨path, user, nonempty, by omega, found⟩

/-- The calls of `pmm_free` in the teardown of an address space. -/
def teardownCalls (state : MmuState) (address : Nat) (pd : PageDirectory) : List Nat :=
  (mmuDestroyAddressSpace (pagingFreeUserPages ⟨state, []⟩ pd) address pd).freed

/-- The teardown of an address space that was filled with different frames frees each frame and each table of the user
half, the first table and the directory exactly once, and nothing else. -/
theorem teardown_frees_once (state start : MmuState) (kernelPd : Option PageDirectory) (address : Nat)
    (pd : PageDirectory) (ops : List FillOp) (booted : Booted state.pmm)
    (created : mmuCreateAddressSpace state kernelPd = (some (address, pd), start))
    (valid : Guarded (fillStep pd) ValidFill ⟨start, []⟩ ops) :
    (teardownCalls (run (fillStep pd) ⟨start, []⟩ ops).mmu address pd).Nodup ∧
      ∀ freed, freed ∈ teardownCalls (run (fillStep pd) ⟨start, []⟩ ops).mmu address pd ↔
        UserFrame (run (fillStep pd) ⟨start, []⟩ ops).mmu pd.pml4 freed ∨ freed = pd.pml4 ∨ freed = address := by
  obtain ⟨first, second, fresh⟩ := mmuCreateAddressSpace_created booted created
  have initial : Filled pd.pml4 (· = address) ⟨start, []⟩ :=
    ⟨fresh.space booted, fresh.empty.plain, by simp, List.nodup_nil⟩
  have filled : Filled pd.pml4 (· = address) (run (fillStep pd) ⟨start, []⟩ ops) := by
    refine run_guarded_invariant _ _ _ (fun current op filled allowed => ?_) _ ops initial valid
    cases op with
    | alloc => exact filled.alloc
    | map virt frame flags => exact filled.map allowed
  have space := filled.space
  have plain := filled.plain
  generalize (run (fillStep pd) ⟨start, []⟩ ops).mmu = final at space plain ⊢
  rw [teardownCalls, teardown_freed space.toTables plain rfl space.nonzero]
  refine ⟨List.nodup_append.mpr ⟨nodup_listing (by decide) space.walk_unique, ?_, ?_⟩, fun freed => ?_⟩
  · have outside := (space.keeps address rfl).half
    simp only [List.nodup_cons, List.mem_singleton, List.not_mem_nil, not_false_eq_true, List.nodup_nil, and_true]
    omega
  · rintro freed listed other member rfl
    obtain ⟨path, user, nonempty, short, found⟩ := (mem_listing (by decide)).mp listed
    obtain rfl | rfl := List.mem_pair.mp member
    · exact nonempty (space.walk_unique path [] _ user PathBelow.nil short (by simp) found rfl)
    · exact space.kept_ne rfl user nonempty short found
  · rw [List.mem_append, mem_listing_user, List.mem_pair]

/-- Two frames are taken and mapped at two pages. -/
def sixteenFills : List FillOp :=
  [.alloc, .alloc, .map 0x400123 0xFFFF888000003000 (pageWrite ||| pageUser),
    .map 0x7FFFFFFFF000 0xFFFF888000002000 pageUser]

theorem teardown_frees_once_sixteen :
    (teardownCalls (run (fillStep sixteenDirectory) ⟨(mmuCreateAddressSpace sixteenFree none).2, []⟩ sixteenFills).mmu
      0xFFFF888000000000 sixteenDirectory).Nodup := by
  refine (teardown_frees_once sixteenFree _ none 0xFFFF888000000000 sixteenDirectory sixteenFills sixteenFree_created.1
    sixteenFree_created.2 ?_).1
  refine ⟨trivial, trivial, ⟨by decide, by decide +kernel, by decide⟩, ⟨by decide, by decide +kernel, by decide⟩, trivial⟩

end Uesi.Mmu
