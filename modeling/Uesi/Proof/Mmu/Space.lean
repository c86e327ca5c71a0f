import Uesi.Proof.Mmu.Map

namespace Uesi.Mmu

open Library Pmm

variable {address second first : Nat} {flags : BitVec 64} {pd : PageDirectory}

/-- An address lies in a page of the direct map. -/
def InPage (pmm : PmmState) (page address : Nat) : Prop :=
  pageAt pmm page ≤ address ∧ address < pageAt pmm page + pageSize

theorem InPage.congr {first second : PmmState} (layout : SameLayout first second) {page : Nat}
    (inside : InPage second page address) : InPage first page address := by
  unfold InPage at *
  rwa [pageAt_congr layout] at inside

/-- Two pages with a common address are the same. -/
theorem InPage.unique {pmm : PmmState} (inFirst : InPage pmm first address) (inSecond : InPage pmm second address) :
    first = second := by
  unfold InPage pageAt pageSize at *
  omega

theorem inPage_pageAt (pmm : PmmState) (page : Nat) : InPage pmm page (pageAt pmm page) := by
  unfold InPage pageSize
  omega

/-- A tracked page holds no table, no free memory and none of the kept addresses. -/
structure Private (state : MmuState) (root : Nat) (kept : Nat → Prop) (page : Nat) : Prop where
  tracked : page < state.pmm.totalPages
  quiet : ∀ address, InPage state.pmm page address → Quiet state root address
  unkept : ∀ address, InPage state.pmm page address → ¬ kept address

/-- A page that may be mapped or freed: it is private, and no page of the user half maps it. -/
structure Available (state : MmuState) (root : Nat) (kept : Nat → Prop) (page : Nat) : Prop
    extends Private state root kept page where
  unmapped : ∀ virt entry, UserPage virt → leaf state root virt = some entry →
    entryAddress entry ≠ page * pageSize

/-- An address space in order: the tables of the user half are a tree of allocated pages, every page of
the user half maps a private page of its own, and the kept addresses lie in none of these pages and in
no free page. -/
structure Space (state : MmuState) (root : Nat) (kept : Nat → Prop) : Prop extends toTables : Tables state root where
  nonzero : root ≠ 0
  keeps : ∀ address, kept address → Quiet state root address
  frame : ∀ virt entry, UserPage virt → leaf state root virt = some entry →
    ∃ page, Private state root kept page ∧ entryAddress entry = page * pageSize
  exclusive : ∀ first second firstEntry secondEntry, UserPage first → UserPage second →
    leaf state root first = some firstEntry → leaf state root second = some secondEntry →
    entryAddress firstEntry = entryAddress secondEntry → SamePage first second

variable {state next : MmuState} {root page : Nat} {kept : Nat → Prop}

/-- A page of quiet memory is no table. -/
theorem not_table_of_quiet
    (quiet : ∀ address, InPage state.pmm page address → Quiet state root address) {path : List Nat}
    (user : UserPath path) (short : path.length ≤ 3) :
    walk state root path ≠ some (pageAt state.pmm page) := by
  intro found
  have here := quiet _ (inPage_pageAt _ _)
  by_cases empty : path = []
  · subst empty
    have same : root = pageAt state.pmm page := Option.some.inj found
    exact here.half (by omega)
  · exact here.table path _ user empty short found (inPage_pageAt _ _)

theorem Private.grows (alone : Private state root kept page) (grows : Grows state next root) :
    Private next root kept page where
  tracked := by
    rw [grows.layout.totalPages]
    exact alone.tracked
  quiet address inside := (grows.quiet address (alone.quiet address (inside.congr grows.layout))).1
  unkept address inside := alone.unkept address (inside.congr grows.layout)

theorem SamePage.symm (same : SamePage first second) : SamePage second first :=
  ⟨same.1.symm, same.2.symm⟩

theorem SamePage.trans {third : Nat} (same : SamePage first second) (other : SamePage second third) :
    SamePage first third :=
  ⟨same.1.trans other.1, same.2.trans other.2⟩

/-- No page of the user half maps a frame. -/
def Unmapped (state : MmuState) (root page : Nat) : Prop :=
  ∀ virt entry, UserPage virt → leaf state root virt = some entry → entryAddress entry ≠ page * pageSize

/-- A growing step keeps the space when it adds at most a mapping of a private page that was not mapped. -/
theorem Space.step (space : Space state root kept) (grows : Grows state next root) (virt : Nat)
    (changes : ∀ other entry, UserPage other → leaf next root other = some entry →
      leaf state root other = some entry ∨
        (SamePage other virt ∧ ∃ page, Private next root kept page ∧ Unmapped state root page ∧
          entryAddress entry = page * pageSize)) : Space next root kept where
  toTables := grows.tables
  nonzero := space.nonzero
  keeps address member := (grows.quiet address (space.keeps address member)).1
  frame other entry user found := by
    obtain old | ⟨_, page, alone, _, address⟩ := changes other entry user found
    · obtain ⟨page, alone, address⟩ := space.frame other entry user old
      exact ⟨page, alone.grows grows, address⟩
    · exact ⟨page, alone, address⟩
  exclusive first second firstEntry secondEntry firstUser secondUser firstFound secondFound same := by
    obtain firstOld | ⟨firstSame, page, _, unmapped, firstAddress⟩ := changes first firstEntry firstUser firstFound
    · obtain secondOld | ⟨_, page, _, unmapped, address⟩ := changes second secondEntry secondUser secondFound
      · exact space.exclusive first second firstEntry secondEntry firstUser secondUser firstOld
          secondOld same
      · exact absurd (same.trans address) (unmapped first firstEntry firstUser firstOld)
    · obtain secondOld | ⟨secondSame, _⟩ := changes second secondEntry secondUser secondFound
      · exact absurd (same.symm.trans firstAddress) (unmapped second secondEntry secondUser secondOld)
      · exact firstSame.trans secondSame.symm

section Fresh

variable {pmm : PmmState} {memory : Memory}

/-- The memory of a page that was just taken is quiet. -/
theorem TablesBelow.fresh_quiet (held : Tables state root) (taken : Takes state.pmm pmm [page])
    (outside : ∀ address, address < pageAt state.pmm page ∨ pageAt state.pmm page + pageSize ≤ address →
      memory address = state.memory address) (inside : InPage state.pmm page address) :
    Quiet ⟨pmm, memory⟩ root address where
  half lower := by
    obtain ⟨used, _, set, rfl⟩ := held.allocated [] root PathBelow.nil (by simp) rfl
    obtain rfl : page = used := inside.unique ⟨lower.1, by unfold pageSize; omega⟩
    rw [(taken.clear page (by simp)).2] at set
    exact absurd set (by simp)
  table path table user _ short found bounds := by
    rw [(held.fresh_walks taken outside).walk path user short] at found
    obtain ⟨used, _, set, rfl⟩ := held.allocated path table user short found
    obtain rfl : page = used := inside.unique bounds
    rw [(taken.clear page (by simp)).2] at set
    exact absurd set (by simp)
  free other _ free bounds := by
    obtain rfl : page = other := inside.unique (InPage.congr taken.layout bounds)
    have set : bitmapTest pmm page = true := (taken.bits page).mpr (Or.inr (by simp))
    rw [show bitmapTest pmm page = false from free] at set
    exact absurd set (by simp)

section Free

variable (space : Space state root kept) (tracked : page < state.pmm.totalPages)
  (unused : bitmapTest state.pmm page = false)

include space tracked unused

/-- No page maps a frame that is free. -/
theorem Space.unmapped_of_free : Unmapped state root page := by
  intro virt entry user found same
  obtain ⟨other, alone, address⟩ := space.frame virt entry user found
  obtain rfl : other = page := Nat.eq_of_mul_eq_mul_right (by decide) (address.symm.trans same)
  exact (alone.quiet _ (inPage_pageAt _ _)).free other tracked unused (inPage_pageAt _ _)

/-- A page that was free is private once it is quiet. -/
theorem Space.private_of_free (layout : SameLayout state.pmm next.pmm)
    (quiet : ∀ address, InPage state.pmm page address → Quiet next root address) : Private next root kept page where
  tracked := by
    rw [layout.totalPages]
    exact tracked
  quiet address inside := quiet address (inside.congr layout)
  unkept address inside keep := (space.keeps address keep).free page tracked unused (inside.congr layout)

end Free

/-- A page that was free is available once it is taken. -/
theorem Space.fresh (space : Space state root kept) (taken : Takes state.pmm pmm [page])
    (outside : ∀ address, address < pageAt state.pmm page ∨ pageAt state.pmm page + pageSize ≤ address →
      memory address = state.memory address) :
    Space ⟨pmm, memory⟩ root kept ∧ Available ⟨pmm, memory⟩ root kept page ∧
      Grows state ⟨pmm, memory⟩ root := by
  have grows := space.fresh_grows taken outside
  have leaves : ∀ virt, UserPage virt → leaf ⟨pmm, memory⟩ root virt = leaf state root virt :=
    fun virt user => space.leaf_fresh taken outside user
  obtain ⟨inside, unused⟩ := taken.clear page (by simp)
  refine ⟨space.step grows 0 fun other entry user found => ?_,
    ⟨space.private_of_free inside unused taken.layout fun _ => space.toTables.fresh_quiet taken outside, ?_⟩, grows⟩
  · rw [leaves other user] at found
    exact Or.inl found
  · intro virt entry user found
    rw [leaves virt user] at found
    exact space.unmapped_of_free inside unused virt entry user found

end Fresh

/-- `mmu_unmap_page` keeps the space and makes the page that was mapped available. -/
theorem Space.unmapPage (space : Space state root kept) (given : pd.pml4 = root) {virt : Nat} (user : UserPage virt) :
    Space (mmuUnmapPage state pd virt).2 root kept ∧
      Grows state (mmuUnmapPage state pd virt).2 root ∧
      ∀ entry, leaf state root virt = some entry →
        ∃ page, Available (mmuUnmapPage state pd virt).2 root kept page ∧
          entryAddress entry = page * pageSize := by
  obtain ⟨grows, leaves⟩ := space.toTables.unmapPage given space.nonzero user
  refine ⟨space.step grows virt fun other entry otherUser found => ?_, grows, ?_⟩
  · rw [leaves other otherUser] at found
    split at found
    · exact absurd found (by simp)
    · exact Or.inl found
  · intro entry mapped
    obtain ⟨page, alone, address⟩ := space.frame virt entry user mapped
    refine ⟨page, ⟨alone.grows grows, ?_⟩, address⟩
    intro other otherEntry otherUser found same
    rw [leaves other otherUser] at found
    split at found
    · exact absurd found (by simp)
    · rename_i different
      exact different (space.exclusive other virt otherEntry entry otherUser user found mapped
        (same.trans address.symm))

/-- The entry of an available page holds its address. -/
theorem Space.entryAddress_makeEntry (space : Space state root kept) (tracked : page < state.pmm.totalPages)
    (clear : flags &&& pageAddrMask = 0) :
    entryAddress (makeEntry (page * pageSize) flags) = page * pageSize := by
  have physical := space.physical
  have below : page * pageSize < state.pmm.totalPages * pageSize :=
    Nat.mul_lt_mul_of_pos_right tracked (by decide)
  exact Mmu.entryAddress_makeEntry (Nat.mul_mod_left _ _) (by omega) clear

/-- `mmu_map_page` keeps the space when it is given an available page, which stays available if it
fails. -/
theorem Space.mapPage (space : Space state root kept) (available : Available state root kept page)
    (given : pd.pml4 = root) {virt : Nat} (user : UserPage virt) (clear : flags &&& pageAddrMask = 0) :
    ∃ ok next, mmuMapPage state pd virt (page * pageSize) flags = (ok, next) ∧
      Space next root kept ∧ Grows state next root ∧
      (ok = false → Available next root kept page) ∧
      ∀ other, UserPage other → leaf next root other =
        if ok = true ∧ SamePage other virt then some (makeEntry (page * pageSize) flags)
        else leaf state root other := by
  obtain ⟨ok, next, step, grows, leaves⟩ :
      ∃ ok next, mmuMapPage state pd virt (page * pageSize) flags = (ok, next) ∧ _ :=
    space.toTables.mapPage given space.nonzero user
  rw [alignDown_of_aligned (Nat.mul_mod_left page pageSize)] at leaves
  refine ⟨ok, next, step, space.step grows virt fun other entry otherUser found => ?_, grows,
    fun failed => ⟨available.toPrivate.grows grows, ?_⟩, leaves⟩
  · rw [leaves other otherUser] at found
    split at found
    · rename_i both
      obtain rfl := Option.some.inj found
      exact Or.inr ⟨both.2, page, available.toPrivate.grows grows, available.unmapped,
        space.entryAddress_makeEntry available.tracked clear⟩
    · exact Or.inl found
  · intro other entry otherUser found
    rw [leaves other otherUser, if_neg (by simp [failed])] at found
    exact available.unmapped other entry otherUser found

/-- The loop of `paging_protect_range` keeps the space. -/
theorem Space.protectPages (space : Space state root kept) (given : pd.pml4 = root) {virtBase : Nat}
    (clear : flags &&& pageAddrMask = 0) (indices : List Nat)
    (aligned : ∀ index ∈ indices, add64 virtBase (index * pageSize) % pageSize = 0)
    (user : ∀ index ∈ indices, UserPage (add64 virtBase (index * pageSize))) :
    Space (protectPages pd virtBase flags indices state).2 root kept ∧
      Grows state (protectPages pd virtBase flags indices state).2 root := by
  induction indices generalizing state with
  | nil => exact ⟨space, GrowsBelow.refl space.toTables⟩
  | cons first rest ih =>
      have hereAligned := aligned first (by simp)
      have here := user first (by simp)
      have later : ∀ {next : MmuState}, Space next root kept → Grows state next root →
          Space (Mmu.protectPages pd virtBase flags rest next).2 root kept ∧
            Grows state (Mmu.protectPages pd virtBase flags rest next).2 root := by
        intro next nextSpace grows
        obtain ⟨last, grown⟩ := ih nextSpace (fun index member => aligned index (by simp [member]))
          fun index member => user index (by simp [member])
        exact ⟨last, grows.trans grown⟩
      rw [Mmu.protectPages]
      dsimp only
      split
      · exact later space (GrowsBelow.refl space.toTables)
      · rename_i present
        obtain ⟨unmapped, grows, available⟩ := space.unmapPage given here
        unfold mmuIsMapped at present
        rw [mmuGetPhysicalAddress_eq given space.nonzero hereAligned] at present ⊢
        cases mapped : leaf state root (add64 virtBase (first * pageSize)) with
        | none => exact absurd (by simp [mapped]) present
        | some entry =>
            obtain ⟨page, free, address⟩ := available entry mapped
            obtain ⟨ok, next, step, final, mapGrows, _⟩ :=
              unmapped.mapPage free given here clear
            cases cleared : mmuUnmapPage state pd (add64 virtBase (first * pageSize)) with
            | mk done middle =>
                rw [cleared] at unmapped grows step mapGrows
                rw [Option.elim_some, address]
                cases done with
                | false => exact ⟨unmapped, grows⟩
                | true =>
                    dsimp only
                    rw [step]
                    cases ok with
                    | false => exact ⟨final, grows.trans mapGrows⟩
                    | true => exact later final (grows.trans mapGrows)

section Free

variable {pmm : PmmState}

/-- The walks depend on the allocator through the offset of the direct map only. -/
theorem walk_setPmm (same : pmm.hhdmOffset = state.pmm.hhdmOffset) (table : Nat) (path : List Nat) :
    walk { state with pmm := pmm } table path = walk state table path := by
  induction path generalizing table with
  | nil => rfl
  | cons index rest ih =>
      have child : ∀ entry, ({ state with pmm := pmm } : MmuState).child entry = state.child entry := child_congr same
      rw [walk, walk, child, ih]
      rfl

theorem leaf_setPmm (same : pmm.hhdmOffset = state.pmm.hhdmOffset) (virt : Nat) :
    leaf { state with pmm := pmm } root virt = leaf state root virt := by
  unfold leaf
  rw [walk_setPmm same]
  rfl

/-- The tables stay in order under another state of the allocator that has their pages in use. -/
theorem TablesBelow.setPmm {limit : Nat} (held : TablesBelow limit state root) (layout : SameLayout state.pmm pmm)
    (used : ∀ page, page < state.pmm.totalPages → bitmapTest state.pmm page = true →
      ∀ path, PathBelow limit path → path.length ≤ 3 → walk state root path = some (pageAt state.pmm page) →
      bitmapTest pmm page = true) : TablesBelow limit { state with pmm := pmm } root :=
  SameWalks.tables ⟨layout.hhdmOffset, fun _ _ _ _ _ _ => rfl⟩ held layout used

/-- A release of one page keeps an address quiet that does not lie in it. -/
theorem QuietBelow.release (quiet : Quiet state root address)
    (released : Releases state.pmm pmm fun other => other = page) (outside : ¬ InPage state.pmm page address) :
    Quiet { state with pmm := pmm } root address where
  half := quiet.half
  table path table user some short found := by
    rw [walk_setPmm released.layout.hhdmOffset] at found
    exact quiet.table path table user some short found
  free other tracked free bounds := by
    have inside : InPage state.pmm other address := InPage.congr released.layout bounds
    have otherTracked : other < state.pmm.totalPages := by
      rw [← released.layout.totalPages]
      exact tracked
    have different : other ≠ page := by
      rintro rfl
      exact outside inside
    have clear : bitmapTest state.pmm other = false := by
      by_contra used
      have still := (released.bits other otherTracked).mpr ⟨by simpa using used, different⟩
      have gone : bitmapTest pmm other = false := free
      rw [still] at gone
      exact absurd gone (by simp)
    exact quiet.free other otherTracked clear inside

theorem Private.release {other : Nat} (alone : Private state root kept other)
    (released : Releases state.pmm pmm fun released => released = page) (different : other ≠ page) :
    Private { state with pmm := pmm } root kept other where
  tracked := by
    change other < pmm.totalPages
    rw [released.layout.totalPages]
    exact alone.tracked
  quiet address inside := by
    have old : InPage state.pmm other address := InPage.congr released.layout inside
    exact (alone.quiet address old).release released fun both => different (old.unique both)
  unkept address inside := alone.unkept address (InPage.congr released.layout inside)

/-- The release of an available page keeps the space. -/
theorem Space.release (space : Space state root kept) (available : Available state root kept page)
    (released : Releases state.pmm pmm fun other => other = page) :
    Space { state with pmm := pmm } root kept where
  toTables := space.toTables.setPmm released.layout fun used tracked set path user short found => by
    refine (released.bits used tracked).mpr ⟨set, ?_⟩
    rintro rfl
    exact not_table_of_quiet available.quiet user short found
  nonzero := space.nonzero
  keeps address keep := (space.keeps address keep).release released fun inside =>
    available.unkept address inside keep
  frame virt entry user found := by
    rw [leaf_setPmm released.layout.hhdmOffset] at found
    obtain ⟨other, alone, address⟩ := space.frame virt entry user found
    refine ⟨other, alone.release released ?_, address⟩
    rintro rfl
    exact available.unmapped virt entry user found address
  exclusive first second firstEntry secondEntry firstUser secondUser := by
    rw [leaf_setPmm released.layout.hhdmOffset, leaf_setPmm released.layout.hhdmOffset]
    exact space.exclusive first second firstEntry secondEntry firstUser secondUser

/-- `pmm_free` of an available page keeps the space. -/
theorem Space.free (space : Space state root kept) (available : Available state root kept page) :
    Space { state with pmm := pmmFree state.pmm (pageAt state.pmm page) } root kept ∧
      SameLayout state.pmm (pmmFree state.pmm (pageAt state.pmm page)) := by
  by_cases null : pageAt state.pmm page = 0
  · have kept : pmmFree state.pmm (pageAt state.pmm page) = state.pmm := by
      unfold pmmFree
      rw [if_pos null]
    rw [kept]
    exact ⟨space, SameLayout.refl _⟩
  · have released := pmmFree_releases state.pmm (pageAt state.pmm page) null
    have inside := inPage_pageAt state.pmm page
    rw [space.direct.addressPage_eq available.tracked inside.1 inside.2] at released
    exact ⟨space.release available released, released.layout⟩

end Free

end Uesi.Mmu
