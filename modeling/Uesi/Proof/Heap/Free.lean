import Uesi.Proof.Heap.Alloc

namespace Uesi.Heap

open Library Pmm

variable {index slab place pointer page : Nat} {record : Slab} {rest : List Nat}

variable {start : PmmState} {heap : HeapState} {live : List (Nat × Nat)}

theorem slabMarkFree_freeBitmap (record : Slab) (place : Nat) :
    (slabMarkFree record place).freeBitmap = setBit record.freeBitmap place := rfl

/-- Marking an allocated object as free keeps the shape of its header. -/
theorem SlabShape.markFree {address : Nat} (shape : SlabShape record address index) (small : index < 8)
    (inside : place < classCount index) (allocated : testBit record.freeBitmap place = false) :
    SlabShape (slabMarkFree record place) address index ∧
      (slabMarkFree record place).freeCount = record.freeCount + 1 := by
  obtain ⟨counted, raised⟩ :=
    slabMarkFree_counted (class_layout index small).2.2.1 inside allocated shape.free
  exact ⟨⟨shape.objects, shape.total, counted⟩, raised⟩

/-- A slab whose objects are all free has no clear bit. -/
theorem SlabShape.all_free {address : Nat} (shape : SlabShape record address index)
    (full : record.freeCount = record.totalCount) (place : Nat) (inside : place < classCount index) :
    testBit record.freeBitmap place = true := by
  have counted : countBits record.freeBitmap (classCount index) = classCount index := by
    rw [← shape.free, full, shape.total]
  by_contra clear
  have raised := countBits_setBit inside (by simpa using clear)
  have most : countBits (setBit record.freeBitmap place) (classCount index) ≤ classCount index :=
    Nat.count_le _
  omega

/-- A busy slab of an unused cache does not exist. -/
theorem SlabInvariant.busy_small (held : SlabInvariant start heap) (below : index < cacheCount)
    (member : slab ∈ (heap.caches index).busySlabs) : index < 8 := by
  by_contra large
  have none := held.unused index (by omega) below
  have inside := Cache.busySlabs_subset _ member
  rw [none] at inside
  exact absurd inside List.not_mem_nil

theorem mem_searchOrder (heap : HeapState) (place : Nat × Nat) :
    place ∈ searchOrder heap ↔
      place.1 < cacheCount ∧ place.2 ∈ (heap.caches place.1).busySlabs := by
  obtain ⟨index, slab⟩ := place
  simp only [searchOrder, Cache.busySlabs, List.mem_flatMap, List.mem_range, List.mem_map,
    Prod.mk.injEq]
  constructor
  · rintro ⟨other, below, address, member, rfl, rfl⟩
    exact ⟨below, member⟩
  · rintro ⟨below, member⟩
    exact ⟨index, below, slab, member, rfl, rfl⟩

section Slab

variable (held : SlabInvariant start heap)

include held

/-- The end of the page of a slab does not wrap. -/
theorem SlabInvariant.slab_end (small : index < 8) (member : slab ∈ (heap.caches index).allSlabs) :
    add64 slab pageSize = slab + pageSize := by
  obtain ⟨page, address, obtained⟩ := (held.ok index small).page slab member
  rw [address]
  exact add64_of_lt (held.direct.page_end obtained.tracked)

/-- A pointer outside the page of a slab is none of its objects. -/
theorem SlabInvariant.inspect_other (small : index < 8) (member : slab ∈ (heap.caches index).allSlabs)
    (outside : pointer < slab ∨ slab + pageSize ≤ pointer) :
    inspectSlab heap pointer index slab = .next := by
  unfold inspectSlab
  rw [held.slab_end small member]
  dsimp only
  rw [if_neg (by omega)]

/-- The pointer of an object leads to the object. -/
theorem SlabInvariant.inspect_object (small : index < 8) (member : slab ∈ (heap.caches index).allSlabs)
    (inside : place < classCount index) :
    inspectSlab heap (slab + classHeader index + place * classSize index) index slab =
      .object place := by
  have below : index < cacheCount := by
    unfold cacheCount
    omega
  obtain ⟨positive, _, _, _, _⟩ := class_layout index small
  have bounds := object_inside slab small inside (show 1 ≤ classSize index from positive)
  unfold inspectSlab
  dsimp only
  rw [held.slab_end small member, ((held.ok index small).shape slab member).objects,
    held.config.size index below, held.config.count index below]
  have offset : slab + classHeader index + place * classSize index - (slab + classHeader index) =
      place * classSize index := Nat.add_sub_cancel_left _ _
  rw [if_pos (by omega), if_neg (by omega), offset, Nat.mul_mod_left,
    Nat.mul_div_cancel _ positive, if_neg (by simp), if_pos inside]

/-- A byte of one slab page lies outside every other slab page. -/
theorem SlabInvariant.outside_page (small : index < 8) (member : slab ∈ (heap.caches index).allSlabs)
    (different : slab ≠ pageAt heap.pmm page) (low : pageAt heap.pmm page ≤ pointer)
    (high : pointer < pageAt heap.pmm page + pageSize) :
    pointer < slab ∨ slab + pageSize ≤ pointer := by
  obtain ⟨other, address, _⟩ := (held.ok index small).page slab member
  have distinct : other ≠ page := by
    rintro rfl
    exact different address
  have apart := pageAt_apart heap.pmm distinct
  omega

end Slab

/-- `find_allocation` finds the object that one slab recognizes when all other slabs pass. -/
theorem findAllocation_unique (given : pointer ≠ 0) (inside : index < cacheCount)
    (member : slab ∈ (heap.caches index).busySlabs) (own : inspectSlab heap pointer index slab = .object place)
    (others : ∀ otherIndex other, otherIndex < cacheCount → other ∈ (heap.caches otherIndex).busySlabs →
      (otherIndex = index ∧ other = slab) ∨ inspectSlab heap pointer otherIndex other = .next) :
    findAllocation heap pointer = some (index, slab, place) := by
  have search : (searchOrder heap).findSome? (fun candidate =>
      (inspectSlab heap pointer candidate.1 candidate.2).answer candidate) =
      some (some (index, slab, place)) := by
    apply findSome?_eq_of_unique
    · rintro ⟨otherIndex, other⟩ candidate
      obtain ⟨below, otherMember⟩ := (mem_searchOrder heap _).mp candidate
      obtain ⟨rfl, rfl⟩ | passed := others otherIndex other below otherMember
      · right
        dsimp only
        rw [own]
        rfl
      · left
        dsimp only
        rw [passed]
        rfl
    · exact ⟨(index, slab), (mem_searchOrder heap _).mpr ⟨inside, member⟩, by dsimp only; rw [own]; rfl⟩
  unfold findAllocation
  rw [if_neg given, search]
  rfl

/-- `find_allocation` finds a live object. -/
theorem SlabInvariant.findAllocation_object (held : SlabInvariant start heap) (small : index < 8)
    (member : slab ∈ (heap.caches index).busySlabs) (inside : place < classCount index) :
    findAllocation heap (slab + classHeader index + place * classSize index) =
      some (index, slab, place) := by
  have all := Cache.busySlabs_subset _ member
  obtain ⟨positive, _, _, header, _⟩ := class_layout index small
  have bounds := object_inside slab small inside (show 1 ≤ classSize index from positive)
  have own := held.inspect_object small all inside
  obtain ⟨page, address, _⟩ := (held.ok index small).page slab all
  generalize slab + classHeader index + place * classSize index = pointer at own bounds
  have nonzero : pointer ≠ 0 := by
    unfold slabHeaderSize at bounds
    omega
  have known : index < cacheCount := by
    unfold cacheCount
    omega
  refine findAllocation_unique nonzero known member own ?_
  intro otherIndex other below otherMember
  have otherSmall := held.busy_small below otherMember
  have otherAll := Cache.busySlabs_subset _ otherMember
  by_cases same : other = slab
  · subst same
    exact Or.inl ⟨held.single otherIndex index otherSmall small other otherAll all, rfl⟩
  · have different : other ≠ pageAt heap.pmm page := by
      rw [← address]
      exact same
    have outside := held.outside_page otherSmall otherAll different
      (show pageAt heap.pmm page ≤ pointer by omega) (by omega)
    exact Or.inr (held.inspect_other otherSmall otherAll outside)

/-- `find_allocation` finds nothing for a page that is no slab. -/
theorem SlabInvariant.findAllocation_page (held : SlabInvariant start heap)
    (apart : ∀ index, index < 8 → pageAt heap.pmm page ∉ (heap.caches index).allSlabs) :
    findAllocation heap (pageAt heap.pmm page) = none := by
  unfold findAllocation
  split
  · rfl
  · have search : (searchOrder heap).findSome? (fun candidate =>
        (inspectSlab heap (pageAt heap.pmm page) candidate.1 candidate.2).answer candidate) = none := by
      apply List.findSome?_eq_none_iff.mpr
      rintro ⟨index, slab⟩ candidate
      obtain ⟨below, member⟩ := (mem_searchOrder heap _).mp candidate
      have small := held.busy_small below member
      have all := Cache.busySlabs_subset _ member
      have different : slab ≠ pageAt heap.pmm page := by
        intro same
        exact apart index small (same ▸ all)
      have outside := held.outside_page small all different le_rfl (by unfold pageSize; omega)
      dsimp only at *
      rw [held.inspect_other small all outside]
      rfl
    rw [search]
    rfl

/-- The live regions after the release of a pointer. -/
def afterFree (live : List (Nat × Nat)) (pointer : Nat) : List (Nat × Nat) :=
  live.filter fun region => region.1 ≠ pointer

theorem mem_afterFree {region : Nat × Nat} :
    region ∈ afterFree live pointer ↔ region ∈ live ∧ region.1 ≠ pointer := by
  unfold afterFree
  rw [List.mem_filter, decide_eq_true_eq]

theorem afterFree_sublist (live : List (Nat × Nat)) (pointer : Nat) :
    (afterFree live pointer).Sublist live := List.filter_sublist

/-- The slab invariant together with a place for each remaining region gives the whole invariant. -/
theorem HeapInvariant.forget (held : HeapInvariant start heap live) {next : HeapState}
    {remaining : List (Nat × Nat)} (fewer : remaining.Sublist live)
    (slabs : SlabInvariant start next)
    (placed : ∀ region ∈ remaining, Placed start next region.1 region.2) :
    HeapInvariant start next remaining where
  slabs := slabs
  positive region member := held.positive region (fewer.subset member)
  placed := placed
  apart := held.apart.sublist fewer

/-- The release of an object keeps the other live regions when its slab stays busy or becomes free. -/
theorem HeapInvariant.releaseObject (held : HeapInvariant start heap live) (small : index < 8)
    (member : slab ∈ (heap.caches index).allSlabs) {cache : Cache}
    (bits : record.freeBitmap = setBit (heap.slabs slab).freeBitmap place)
    (slabs : SlabInvariant start ((heap.setSlab slab record).setCache index cache))
    (permuted : cache.allSlabs.Perm (heap.caches index).allSlabs)
    (busy : ∀ other ∈ (heap.caches index).busySlabs, other ≠ slab → other ∈ cache.busySlabs)
    (kept : slab ∈ cache.busySlabs ∨
      ∀ other, other < classCount index → testBit record.freeBitmap other = true) :
    HeapInvariant start ((heap.setSlab slab record).setCache index cache)
      (afterFree live (slab + classHeader index + place * classSize index)) := by
  apply held.forget (afterFree_sublist _ _) slabs
  intro region remains
  obtain ⟨alive, different⟩ := mem_afterFree.mp remains
  refine (held.placed region alive).frame (SameLayout.refl _) ?_ ?_
  · intro otherIndex other otherPlace otherSmall otherMember inside allocated position
    by_cases same : other = slab
    · -- Another object of the slab keeps its bit.
      subst same
      obtain rfl : otherIndex = index := held.slabs.single otherIndex index otherSmall small other
        (Cache.busySlabs_subset _ otherMember) member
      have elsewhere : otherPlace ≠ place := by
        rintro rfl
        exact different position
      have clear : testBit record.freeBitmap otherPlace = false := by
        rw [bits, testBit_setBit]
        simp [elsewhere, allocated]
      rw [setCache_caches, setCache_slabs, setSlab_slabs]
      cases kept with
      | inl stays => exact ⟨stays, clear⟩
      | inr free =>
          rw [free otherPlace inside] at clear
          exact absurd clear (by simp)
    · rw [setCache_slabs, setSlab_slabs_of_ne heap record same]
      refine ⟨?_, allocated⟩
      by_cases equal : otherIndex = index
      · subst equal
        rw [setCache_caches]
        exact busy other otherMember same
      · rw [setCache_caches_of_ne _ _ equal]
        exact otherMember
  · intro _ _ _ _ page _ _ obtained apart
    refine ⟨obtained.used, ?_⟩
    intro otherIndex otherSmall inside
    by_cases equal : otherIndex = index
    · subst equal
      rw [setCache_caches] at inside
      exact apart otherIndex otherSmall (permuted.subset inside)
    · rw [setCache_caches_of_ne _ _ equal] at inside
      exact apart otherIndex otherSmall inside

/-- `pmm_free` on the address of a page releases at most this page. -/
theorem pmmFree_keeps {pmm : PmmState} (direct : DirectMapped pmm) (inside : page < pmm.totalPages) :
    SameLayout pmm (pmmFree pmm (pageAt pmm page)) ∧
      ∀ other, other < pmm.totalPages → other ≠ page → bitmapTest pmm other = true →
        bitmapTest (pmmFree pmm (pageAt pmm page)) other = true := by
  by_cases null : pageAt pmm page = 0
  · have nothing : pmmFree pmm (pageAt pmm page) = pmm := by
      unfold pmmFree
      rw [if_pos null]
    rw [nothing]
    exact ⟨SameLayout.refl _, fun _ _ _ used => used⟩
  · have released := pmmFree_releases pmm _ null
    have found : addressPage pmm (pageAt pmm page) = page :=
      direct.addressPage_eq inside le_rfl (by unfold pageSize; omega)
    refine ⟨released.layout, ?_⟩
    intro other tracked different used
    rw [released.bits other tracked, found]
    exact ⟨used, different⟩

/-- The release of a page that is no slab and was free at the start keeps the slab invariant. -/
theorem SlabInvariant.freePage (held : SlabInvariant start heap) (obtained : Obtained start heap.pmm page)
    (apart : ∀ index, index < 8 → pageAt heap.pmm page ∉ (heap.caches index).allSlabs) :
    SlabInvariant start { heap with pmm := pmmFree heap.pmm (pageAt heap.pmm page) } := by
  obtain ⟨same, keeps⟩ := pmmFree_keeps held.direct obtained.tracked
  refine held.repage heap.memory same ?_ ?_
  · intro other inside before used
    refine keeps other (by rw [held.layout.totalPages]; exact inside) ?_ used
    rintro rfl
    rw [obtained.wasFree] at before
    exact absurd before (by simp)
  · intro index small other member used
    obtain ⟨tracked, address, found⟩ := (held.ok index small).page _ member
    obtain rfl := pageAt_injective address
    refine keeps other found.tracked ?_ used
    rintro rfl
    exact apart index small member

/-- A cache may lose slabs that are not busy. -/
theorem SlabInvariant.shrink (held : SlabInvariant start heap) (small : index < 8)
    (fewer : rest.Sublist (heap.caches index).emptySlabs) :
    SlabInvariant start (heap.setCache index { heap.caches index with emptySlabs := rest }) := by
  have ok := held.ok index small
  have sublist : (Cache.allSlabs { heap.caches index with emptySlabs := rest }).Sublist
      (heap.caches index).allSlabs := (List.Sublist.refl _).append fewer
  refine held.update small (held.config.setCache index _ rfl rfl rfl) (SameLayout.refl _)
    held.reserved (fun other different => setCache_caches_of_ne _ _ different)
    (fun _ _ _ _ _ => rfl) (fun _ _ _ _ _ used => used) ?_ ?_
  · constructor
    · rw [setCache_caches]
      exact ok.nodup.sublist sublist
    · intro slab member
      rw [setCache_caches] at member
      exact ok.page slab (sublist.subset member)
    · intro slab member
      rw [setCache_caches] at member
      exact ok.shape slab (sublist.subset member)
    · rw [setCache_caches]
      exact ok.someFree
    · rw [setCache_caches]
      exact ok.noneFree
    · rw [setCache_caches]
      intro slab member
      exact ok.allFree slab (fewer.subset member)
  · intro slab member other otherSmall different elsewhere
    rw [setCache_caches] at member
    exact different (held.single other index otherSmall small slab elsewhere (sublist.subset member))

/-- The release of a page keeps the regions that do not cover it. -/
theorem HeapInvariant.freePage (held : HeapInvariant start heap live) {remaining : List (Nat × Nat)}
    (small : index < 8) (fewer : rest.Sublist (heap.caches index).emptySlabs)
    (obtained : Obtained start heap.pmm page) (apart : ∀ other, other < 8 → pageAt heap.pmm page ∉
      ((heap.setCache index { heap.caches index with emptySlabs := rest }).caches other).allSlabs)
    (sublist : remaining.Sublist live)
    (uncovered : ∀ region ∈ remaining, ∀ first count, region.1 = pageAt heap.pmm first →
      (count - 1) * pageSize < region.2 → first ≤ page → page < first + count →
      ∃ other, other < 8 ∧ pageAt heap.pmm page ∈ (heap.caches other).allSlabs) :
    HeapInvariant start { heap.setCache index { heap.caches index with emptySlabs := rest } with
      pmm := pmmFree heap.pmm (pageAt heap.pmm page) } remaining := by
  obtain ⟨same, keeps⟩ := pmmFree_keeps held.slabs.direct obtained.tracked
  have smaller := held.slabs.shrink small fewer
  apply held.forget sublist (smaller.freePage obtained apart)
  intro region remains
  refine (held.placed region (sublist.subset remains)).frame same ?_ ?_
  · intro other slab place _ member _ allocated _
    refine ⟨?_, allocated⟩
    change slab ∈ ((heap.setCache index _).caches other).busySlabs
    by_cases equal : other = index
    · subst equal
      rw [setCache_caches]
      exact member
    · rw [setCache_caches_of_ne _ _ equal]
      exact member
  · intro first count position lower covered low high found clear
    constructor
    · apply keeps covered found.tracked _ found.used
      rintro rfl
      obtain ⟨other, otherSmall, member⟩ := uncovered region remains first count position lower low high
      exact clear other otherSmall member
    · intro other otherSmall member
      change pageAt heap.pmm covered ∈ ((heap.setCache index _).caches other).allSlabs at member
      by_cases equal : other = index
      · subst equal
        rw [setCache_caches] at member
        exact clear other otherSmall (((List.Sublist.refl _).append fewer).subset member)
      · rw [setCache_caches_of_ne _ _ equal] at member
        exact clear other otherSmall member

/-- An empty slab may leave its cache, and its page goes back to the page allocator. -/
theorem HeapInvariant.dropEmpty (held : HeapInvariant start heap live) (small : index < 8)
    (head : (heap.caches index).emptySlabs = slab :: rest) :
    HeapInvariant start { heap.setCache index { heap.caches index with emptySlabs := rest } with
      pmm := pmmFree heap.pmm slab } live := by
  have ok := held.slabs.ok index small
  have listed : slab ∈ (heap.caches index).allSlabs := by simp [Cache.allSlabs, head]
  have fewer : rest.Sublist (heap.caches index).emptySlabs := by
    rw [head]
    exact List.sublist_cons_self _ _
  have gone : slab ∉ Cache.allSlabs { heap.caches index with emptySlabs := rest } := by
    have distinct := ok.nodup
    unfold Cache.allSlabs at distinct ⊢
    rw [head] at distinct
    exact (List.nodup_middle.mp distinct).notMem
  obtain ⟨page, rfl, obtained⟩ := ok.page slab listed
  apply held.freePage small fewer obtained _ (List.Sublist.refl _)
  · intro _ _ _ _ _ _ _ _
    exact ⟨index, small, listed⟩
  · intro other otherSmall member
    by_cases same : other = index
    · subst same
      rw [setCache_caches] at member
      exact gone member
    · rw [setCache_caches_of_ne _ _ same] at member
      exact same (held.slabs.single other index otherSmall small _ member listed)

/-- The header that `cache_free` leaves, and what it says about the list that held the slab. -/
structure Marked (heap : HeapState) (index slab place : Nat) (record : Slab) : Prop where
  bits : record.freeBitmap = setBit (heap.slabs slab).freeBitmap place
  shape : SlabShape record slab index
  raised : record.freeCount = (heap.slabs slab).freeCount + 1

/-- The first object that a full slab gets back moves the slab to the partial list. -/
theorem HeapInvariant.refillFull (held : HeapInvariant start heap live) (small : index < 8)
    (marked : Marked heap index slab place record) (member : slab ∈ (heap.caches index).fullSlabs) :
    HeapInvariant start ((heap.setSlab slab record).setCache index { heap.caches index with
      fullSlabs := (heap.caches index).fullSlabs.erase slab
      partialSlabs := slab :: (heap.caches index).partialSlabs })
      (afterFree live (slab + classHeader index + place * classSize index)) := by
  have listed : slab ∈ (heap.caches index).allSlabs := by simp [Cache.allSlabs, member]
  have permuted : (Cache.allSlabs { heap.caches index with
      fullSlabs := (heap.caches index).fullSlabs.erase slab
      partialSlabs := slab :: (heap.caches index).partialSlabs }).Perm (heap.caches index).allSlabs := by
    have moved := (List.perm_cons_erase member).symm
    simp only [Cache.allSlabs, List.cons_append]
    exact (List.perm_middle.symm.trans (moved.append_left _)).append_right _
  refine held.releaseObject small listed marked.bits (held.slabs.relist small listed record marked.shape
    _ rfl rfl rfl permuted (Or.inl ⟨List.mem_cons_self, by rw [marked.raised]; exact Nat.succ_pos _⟩)
    fun other different => ⟨fun inside => (List.mem_cons.mp inside).resolve_left different, List.mem_of_mem_erase, id⟩)
    permuted ?_ (Or.inl (by simp [Cache.busySlabs]))
  intro other busy different
  simp only [Cache.busySlabs, List.mem_append, List.mem_cons, List.mem_erase_of_ne different] at busy ⊢
  tauto

/-- The last object that a slab gets back moves the slab to the empty list. -/
theorem HeapInvariant.emptyPartial (held : HeapInvariant start heap live) (small : index < 8)
    (marked : Marked heap index slab place record) (member : slab ∈ (heap.caches index).partialSlabs)
    (all : record.freeCount = record.totalCount) :
    HeapInvariant start ((heap.setSlab slab record).setCache index { heap.caches index with
      partialSlabs := (heap.caches index).partialSlabs.erase slab
      emptySlabs := slab :: (heap.caches index).emptySlabs })
      (afterFree live (slab + classHeader index + place * classSize index)) := by
  have listed : slab ∈ (heap.caches index).allSlabs := by simp [Cache.allSlabs, member]
  have permuted : (Cache.allSlabs { heap.caches index with
      partialSlabs := (heap.caches index).partialSlabs.erase slab
      emptySlabs := slab :: (heap.caches index).emptySlabs }).Perm (heap.caches index).allSlabs := by
    have moved := (List.perm_cons_erase member).symm
    simp only [Cache.allSlabs]
    refine List.perm_middle.trans ?_
    exact (moved.append_right _).append_right _
  refine held.releaseObject small listed marked.bits (held.slabs.relist small listed record marked.shape
    _ rfl rfl rfl permuted (Or.inr (Or.inr ⟨List.mem_cons_self, all⟩))
    fun other different => ⟨List.mem_of_mem_erase, id, fun inside => (List.mem_cons.mp inside).resolve_left different⟩)
    permuted ?_ (Or.inr (marked.shape.all_free all))
  intro other busy different
  simp only [Cache.busySlabs, List.mem_append, List.mem_erase_of_ne different] at busy ⊢
  exact busy

/-- Any other object that a partial slab gets back leaves the lists as they are. -/
theorem HeapInvariant.keepPartial (held : HeapInvariant start heap live) (small : index < 8)
    (marked : Marked heap index slab place record) (member : slab ∈ (heap.caches index).partialSlabs) :
    HeapInvariant start (heap.setSlab slab record)
      (afterFree live (slab + classHeader index + place * classSize index)) := by
  have listed : slab ∈ (heap.caches index).allSlabs := by simp [Cache.allSlabs, member]
  have slabs : SlabInvariant start
      ((heap.setSlab slab record).setCache index (heap.caches index)) := by
    refine held.slabs.relist small listed record marked.shape _ rfl rfl rfl (List.Perm.refl _)
      (Or.inl ⟨member, ?_⟩) fun _ _ => ⟨id, id, id⟩
    rw [marked.raised]
    exact Nat.succ_pos _
  have kept := held.releaseObject small listed marked.bits slabs (List.Perm.refl _)
    (fun other busy _ => busy) (Or.inl (by simp [Cache.busySlabs, member]))
  have unchanged := setCache_self (heap.setSlab slab record) index
  rw [setSlab_caches] at unchanged
  rwa [unchanged] at kept

theorem setCache_setCache (heap : HeapState) (index : Nat) (first second : Cache) :
    (heap.setCache index first).setCache index second = heap.setCache index second := by
  unfold HeapState.setCache
  rw [Function.update_idem]

variable (held : HeapInvariant start heap live)

include held

/-- `cache_free` on an allocated object keeps the invariant and ends the life of the object. -/
theorem HeapInvariant.cacheFree (small : index < 8) (member : slab ∈ (heap.caches index).busySlabs)
    (inside : place < classCount index) (allocated : testBit (heap.slabs slab).freeBitmap place = false) :
    HeapInvariant start (Heap.cacheFree heap index slab place)
      (afterFree live (slab + classHeader index + place * classSize index)) := by
  have ok := held.slabs.ok index small
  have listed := Cache.busySlabs_subset _ member
  obtain ⟨shape, raised⟩ := (ok.shape slab listed).markFree small inside allocated
  have marked : Marked heap index slab place (slabMarkFree (heap.slabs slab) place) :=
    ⟨slabMarkFree_freeBitmap _ _, shape, raised⟩
  unfold Heap.cacheFree
  rw [isObjectFree_eq, allocated, if_neg (by simp)]
  dsimp only
  generalize slabMarkFree (heap.slabs slab) place = record at marked
  by_cases first : record.freeCount = 1
  · -- The slab had no free object before, so it was full.
    rw [if_pos first]
    apply held.refillFull small marked
    cases List.mem_append.mp member with
    | inl inPartial =>
        have some := ok.someFree slab inPartial
        have more := marked.raised
        omega
    | inr inFull => exact inFull
  · have inPartial : slab ∈ (heap.caches index).partialSlabs := by
      cases List.mem_append.mp member with
      | inl inPartial => exact inPartial
      | inr inFull =>
          have none := ok.noneFree slab inFull
          have more := marked.raised
          omega
    rw [if_neg first]
    by_cases last : record.freeCount = record.totalCount
    · rw [if_pos last]
      have emptied := held.emptyPartial small marked inPartial last
      by_cases room : min 2 (heap.caches index).emptySlabs.length < 2
      · rw [if_pos room]
        exact emptied
      · -- The cache keeps two empty slabs, so the page of a third one goes back.
        rw [if_neg room]
        have dropped := emptied.dropEmpty small (by rw [setCache_caches])
        rw [setCache_setCache, setCache_caches] at dropped
        exact dropped
    · rw [if_neg last]
      exact held.keepPartial small marked inPartial

/-- Two live regions with different pointers have no byte in common. -/
theorem HeapInvariant.live_apart {first second : Nat × Nat} (firstLive : first ∈ live) (secondLive : second ∈ live)
    (different : first ≠ second) :
    Apart first second := by
  have symmetric : Std.Symm Apart := ⟨fun _ _ apart => apart.symm⟩
  exact held.apart.forall firstLive secondLive different

/-- The first page of a live run belongs to no other live run. -/
theorem HeapInvariant.page_uncovered {size : Nat} (alive : (pageAt heap.pmm page, size) ∈ live) {region : Nat × Nat}
    (other : region ∈ live) (different : region.1 ≠ pageAt heap.pmm page) (first count : Nat)
    (position : region.1 = pageAt heap.pmm first) (lower : (count - 1) * pageSize < region.2) (low : first ≤ page)
    (high : page < first + count) :
    ∃ index, index < 8 ∧ pageAt heap.pmm page ∈ (heap.caches index).allSlabs := by
  exfalso
  have positive := held.positive _ alive
  have apart := held.live_apart alive other fun same => different (by rw [← same])
  have within : (page - first) * pageSize ≤ (count - 1) * pageSize :=
    Nat.mul_le_mul_right _ (by omega)
  unfold Apart at apart
  dsimp only at apart positive
  unfold pageAt at apart position
  unfold pageSize at *
  omega

/-- `kfree` on a live pointer keeps the invariant and ends the life of its region. -/
theorem HeapInvariant.kfree {size : Nat} (alive : (pointer, size) ∈ live) :
    HeapInvariant start (Heap.kfree heap pointer) (afterFree live pointer) := by
  have positive := held.positive _ alive
  unfold Heap.kfree
  by_cases null : pointer = 0
  · rw [if_pos null]
    exact held.forget (afterFree_sublist _ _) held.slabs fun region remains =>
      held.placed region (mem_afterFree.mp remains).1
  · rw [if_neg null]
    cases held.placed _ alive with
    | object index slab place small member inside allocated position fits =>
        dsimp only at position
        rw [position, held.slabs.findAllocation_object small member inside]
        exact held.cacheFree small member inside allocated
    | pages first count position lower upper obtained apart =>
        dsimp only at position lower upper positive
        have some : 0 < count := by
          by_contra none
          obtain rfl : count = 0 := by omega
          omega
        have noSlab := apart first le_rfl (by omega)
        rw [position, held.slabs.findAllocation_page noSlab]
        have whole := setCache_self heap 0
        have freed := held.freePage (show 0 < 8 by omega) (List.Sublist.refl _)
          (obtained first le_rfl (by omega)) (by
            rw [whole]
            exact noSlab) (afterFree_sublist live (pageAt heap.pmm first))
          (fun region remains => held.page_uncovered (position ▸ alive) (mem_afterFree.mp remains).1
            (mem_afterFree.mp remains).2)
        rwa [whole] at freed

end Uesi.Heap
