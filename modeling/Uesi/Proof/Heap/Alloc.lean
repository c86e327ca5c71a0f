import Uesi.Proof.Heap.Invariant

namespace Uesi.Heap

open Library Pmm

variable {index slab size place first : Nat} {rest : List Nat}

variable {start : PmmState} {heap : HeapState} {live : List (Nat × Nat)}

/-- Moving an empty slab to the partial list keeps the invariant. -/
theorem HeapInvariant.reuseEmpty (held : HeapInvariant start heap live) (small : index < 8)
    (noPartial : (heap.caches index).partialSlabs = []) (first : (heap.caches index).emptySlabs = slab :: rest) :
    HeapInvariant start (heap.setCache index { heap.caches index with
      emptySlabs := rest, partialSlabs := [slab] }) live := by
  have ok := held.slabs.ok index small
  have old : (heap.caches index).allSlabs = (heap.caches index).fullSlabs ++ slab :: rest := by
    simp [Cache.allSlabs, noPartial, first]
  have member : slab ∈ (heap.caches index).allSlabs := by
    rw [old]
    simp
  have positive : 0 < (heap.slabs slab).freeCount := by
    rw [ok.allFree slab (by simp [first]), (ok.shape slab member).total]
    exact (class_layout index small).2.1
  have unchanged : heap.setSlab slab (heap.slabs slab) = heap := by
    unfold HeapState.setSlab
    rw [Function.update_eq_self]
  have permuted : (Cache.allSlabs { heap.caches index with
      emptySlabs := rest, partialSlabs := [slab] }).Perm (heap.caches index).allSlabs := by
    rw [old]
    exact List.perm_middle.symm
  have slabs := held.slabs.relist small member (heap.slabs slab) (ok.shape slab member)
    { heap.caches index with emptySlabs := rest, partialSlabs := [slab] } rfl rfl rfl permuted
    (Or.inl ⟨List.mem_singleton_self slab, positive⟩) fun other different =>
      ⟨fun inside => absurd (List.mem_singleton.mp inside) different, id,
        fun inside => by rw [first]; exact List.mem_cons_of_mem _ inside⟩
  have moved := held.relist slabs permuted
    (by
      intro other inside
      simp only [Cache.busySlabs, noPartial, List.nil_append] at inside
      exact List.mem_append_right _ inside)
    (fun _ clear => clear)
  rwa [unchanged] at moved

/-- A fresh slab has the shape of its cache. -/
theorem freshSlab_shape (config : Configured heap) (small : index < 8) {address : Nat}
    (room : address + pageSize < 2 ^ 64) (old : Nat → BitVec 64) :
    SlabShape {
      objects := add64 address (alignedHeader (heap.caches index))
      freeCount := (heap.caches index).objectsPerSlab
      totalCount := (heap.caches index).objectsPerSlab
      freeBitmap := freshBitmap (heap.caches index).objectsPerSlab old } address index := by
  have inside : index < cacheCount := by
    unfold cacheCount
    omega
  have header : alignedHeader (heap.caches index) = classHeader index := by
    unfold classHeader alignedHeader
    rw [config.align index inside, config.count index inside]
    rfl
  have layout := (class_layout index small).2.2.2.2
  rw [header, config.count index inside]
  exact ⟨add64_of_lt (by omega), rfl, (countBits_freshBitmap _ _).symm⟩

/-- Adding a fresh slab to the partial list keeps the invariant. -/
theorem HeapInvariant.addSlab (held : HeapInvariant start heap live) (small : index < 8)
    (noPartial : (heap.caches index).partialSlabs = []) {pmm : PmmState} {page : Nat}
    (taken : Takes heap.pmm pmm [page]) {record : Slab} (shape : SlabShape record (pageAt heap.pmm page) index)
    (free : record.freeCount = record.totalCount) :
    HeapInvariant start (({ heap with pmm := pmm } : HeapState).setSlab (pageAt heap.pmm page)
      record |>.setCache index { heap.caches index with partialSlabs := [pageAt heap.pmm page] }) live := by
  have ok := held.slabs.ok index small
  have clear := (taken.clear page (by simp)).2
  have fresh : ∀ other, other < 8 → pageAt heap.pmm page ∉ (heap.caches other).allSlabs :=
    fun other otherSmall => held.slabs.not_slab_of_clear clear otherSmall
  have grown := held.takePages taken
  have members : Cache.allSlabs { heap.caches index with partialSlabs := [pageAt heap.pmm page] } =
      pageAt heap.pmm page :: (heap.caches index).allSlabs := by
    simp [Cache.allSlabs, noPartial]
  refine ⟨?_, held.positive, ?_, held.apart⟩
  · have page := (pageAt_congr taken.layout page).symm
    refine grown.slabs.put small ⟨_, page, held.slabs.obtained taken (by simp)⟩
      (fun other otherSmall _ => fresh other otherSmall) record shape _ rfl rfl rfl ?_
      (Or.inl ⟨List.mem_singleton_self _, ?_⟩) ?_
    · rw [members]
      exact List.nodup_cons.mpr ⟨fresh index small, ok.nodup⟩
    · rw [free, shape.total]
      exact (class_layout index small).2.1
    · exact fun other different => ⟨fun inside => absurd (List.mem_singleton.mp inside) different, id, id⟩
  · intro region inside
    refine (held.placed region inside).frame taken.layout ?_ ?_
    · intro other slab place otherSmall member _ allocated _
      have old := Cache.busySlabs_subset _ member
      have different : slab ≠ pageAt heap.pmm page := by
        rintro rfl
        exact fresh other otherSmall old
      rw [setCache_slabs, setSlab_slabs_of_ne _ _ different]
      refine ⟨?_, allocated⟩
      by_cases same : other = index
      · subst same
        rw [setCache_caches]
        simp only [Cache.busySlabs, noPartial, List.nil_append] at member
        exact List.mem_append_right _ member
      · rw [setCache_caches_of_ne _ _ same]
        exact member
    · intro _ _ _ _ run _ _ obtained apart
      refine ⟨(taken.bits run).mpr (Or.inl obtained.used), ?_⟩
      intro other otherSmall
      by_cases same : other = index
      · subst same
        rw [setCache_caches, members]
        rintro slabMember
        obtain equal | old := List.mem_cons.mp slabMember
        · obtain rfl := pageAt_injective equal
          have used := obtained.used
          rw [clear] at used
          exact absurd used (by simp)
        · exact apart other otherSmall old
      · rw [setCache_caches_of_ne _ _ same]
        exact apart other otherSmall

/-- The first part of `cache_alloc` keeps the invariant and leaves its slab at the head of the
partial list. -/
theorem HeapInvariant.takeSlab (held : HeapInvariant start heap live) (small : index < 8) :
    ∃ result next, Heap.takeSlab heap index = (result, next) ∧ HeapInvariant start next live ∧
      ∀ slab, result = some slab → ∃ rest, (next.caches index).partialSlabs = slab :: rest := by
  unfold Heap.takeSlab
  dsimp only
  cases partialList : (heap.caches index).partialSlabs with
  | cons slab rest =>
      refine ⟨some slab, heap, rfl, held, ?_⟩
      rintro other same
      obtain rfl := Option.some.inj same
      exact ⟨rest, partialList⟩
  | nil =>
      cases emptyList : (heap.caches index).emptySlabs with
      | cons slab rest =>
          refine ⟨some slab, _, rfl, held.reuseEmpty small partialList emptyList, ?_⟩
          rintro other same
          obtain rfl := Option.some.inj same
          exact ⟨[], by rw [setCache_caches]⟩
      | nil =>
          unfold slabCreate
          obtain failed | ⟨page, pmm, allocated, taken⟩ := pmmAlloc_cases heap.pmm
          · rw [failed]
            exact ⟨none, heap, rfl, held, by simp⟩
          · rw [allocated]
            have inside := (taken.clear page (by simp)).1
            have address := held.slabs.direct.pageAddress_eq inside
            dsimp only
            rw [address]
            by_cases null : pageAt heap.pmm page = 0
            · rw [if_pos null]
              exact ⟨none, _, rfl, held.takePages taken, by simp⟩
            · rw [if_neg null]
              have shape := freshSlab_shape held.slabs.config small (held.slabs.direct.page_end inside)
                (heap.slabs (pageAt heap.pmm page)).freeBitmap
              have added := held.addSlab small partialList taken shape rfl
              simp only [emptyList] at added
              refine ⟨_, _, rfl, added, ?_⟩
              rintro other same
              obtain rfl := Option.some.inj same
              exact ⟨[], by rw [setCache_caches]⟩

/-- An object lies behind the header and the bitmap of its slab, inside the page of the slab. -/
theorem object_inside (slab : Nat) (small : index < 8) (inside : place < classCount index)
    (fits : size ≤ classSize index) :
    slab + (slabHeaderSize + bitmapWords (classCount index) * 8) ≤
        slab + classHeader index + place * classSize index ∧
      slab + classHeader index + place * classSize index + size ≤ slab + pageSize := by
  obtain ⟨_, _, _, header, total⟩ := class_layout index small
  have next : (place + 1) * classSize index ≤ classCount index * classSize index :=
    Nat.mul_le_mul_right _ inside
  have expanded : (place + 1) * classSize index = place * classSize index + classSize index := by
    ring
  omega

/-- Distinct pages have no byte in common. -/
theorem pageAt_apart (pmm : PmmState) {second : Nat} (different : first ≠ second) :
    pageAt pmm first + pageSize ≤ pageAt pmm second ∨
      pageAt pmm second + pageSize ≤ pageAt pmm first := by
  unfold pageAt pageSize
  omega

/-- A free object has no byte in common with a live region. -/
theorem SlabInvariant.free_apart (held : SlabInvariant start heap) (small : index < 8)
    (member : slab ∈ (heap.caches index).allSlabs) (inside : place < classCount index) (fits : size ≤ classSize index)
    (free : testBit (heap.slabs slab).freeBitmap place = true) {region : Nat × Nat}
    (placed : Placed start heap region.1 region.2) :
    Apart (slab + classHeader index + place * classSize index, size) region := by
  have bounds := object_inside slab small inside fits
  obtain ⟨page, address, _⟩ := (held.ok index small).page slab member
  unfold Apart
  dsimp only
  cases placed with
  | object otherIndex other otherPlace otherSmall otherMember otherInside allocated position otherFits =>
      have otherBounds := object_inside other otherSmall otherInside otherFits
      have otherSlab := Cache.busySlabs_subset _ otherMember
      by_cases same : other = slab
      · subst same
        obtain rfl := held.single otherIndex index otherSmall small other otherSlab member
        have different : otherPlace ≠ place := by
          rintro rfl
          rw [free] at allocated
          exact absurd allocated (by simp)
        obtain below | above := Nat.lt_or_gt_of_ne different
        · have step : (otherPlace + 1) * classSize otherIndex ≤ place * classSize otherIndex :=
            Nat.mul_le_mul_right _ below
          have expanded : (otherPlace + 1) * classSize otherIndex =
              otherPlace * classSize otherIndex + classSize otherIndex := by ring
          omega
        · have step : (place + 1) * classSize otherIndex ≤ otherPlace * classSize otherIndex :=
            Nat.mul_le_mul_right _ above
          have expanded : (place + 1) * classSize otherIndex =
              place * classSize otherIndex + classSize otherIndex := by ring
          omega
      · obtain ⟨otherPage, otherAddress, _⟩ := (held.ok otherIndex otherSmall).page other otherSlab
        have different : page ≠ otherPage := by
          rintro rfl
          exact same (otherAddress.trans address.symm)
        have separate := pageAt_apart heap.pmm different
        omega
  | pages first count position lower upper obtained apart =>
      have outside : ¬ (first ≤ page ∧ page < first + count) := by
        rintro ⟨low, high⟩
        exact apart page low high index small (address ▸ member)
      rw [position, address]
      rw [address] at bounds
      unfold pageAt at *
      have before : page < first → (page + 1) * pageSize ≤ first * pageSize :=
        fun below => Nat.mul_le_mul_right _ below
      have behind : first + count ≤ page → (first + count) * pageSize ≤ page * pageSize :=
        fun above => Nat.mul_le_mul_right _ above
      have expanded : (page + 1) * pageSize = page * pageSize + pageSize := by ring
      have run : (first + count) * pageSize = first * pageSize + count * pageSize := by ring
      omega

theorem setCache_self (heap : HeapState) (index : Nat) : heap.setCache index (heap.caches index) = heap := by
  unfold HeapState.setCache
  rw [Function.update_eq_self]

theorem slabMarkAllocated_freeBitmap (record : Slab) (place : Nat) :
    (slabMarkAllocated record place).freeBitmap = clearBit record.freeBitmap place := rfl

/-- Marking a free object as allocated keeps the shape of its header. -/
theorem SlabShape.markAllocated {record : Slab} {address : Nat} (shape : SlabShape record address index)
    (small : index < 8) (inside : place < classCount index) (free : testBit record.freeBitmap place = true) :
    SlabShape (slabMarkAllocated record place) address index ∧
      (slabMarkAllocated record place).freeCount + 1 = record.freeCount := by
  obtain ⟨counted, lowered⟩ :=
    slabMarkAllocated_counted (class_layout index small).2.2.1 inside free shape.free
  refine ⟨⟨?_, ?_, counted⟩, lowered⟩
  · rw [slabMarkAllocated_objects]
    exact shape.objects
  · rw [slabMarkAllocated_totalCount]
    exact shape.total

/-- The lists after an allocation from the head of the partial list. -/
def afterTake (cache : Cache) (slab : Nat) (rest : List Nat) (marked : Slab) : Cache :=
  if marked.freeCount = 0 then
    { cache with partialSlabs := rest, fullSlabs := slab :: cache.fullSlabs }
  else cache

/-- Taking an object of the first partial slab keeps the invariant of the old live regions. -/
theorem HeapInvariant.markAllocated (held : HeapInvariant start heap live) (small : index < 8)
    (head : (heap.caches index).partialSlabs = slab :: rest) (inside : place < classCount index)
    (free : testBit (heap.slabs slab).freeBitmap place = true) :
    HeapInvariant start ((heap.setSlab slab (slabMarkAllocated (heap.slabs slab) place)).setCache index
      (afterTake (heap.caches index) slab rest (slabMarkAllocated (heap.slabs slab) place))) live := by
  have ok := held.slabs.ok index small
  have member : slab ∈ (heap.caches index).allSlabs := by simp [Cache.allSlabs, head]
  obtain ⟨shape, lowered⟩ := (ok.shape slab member).markAllocated small inside free
  have bits : ∀ other, testBit (heap.slabs slab).freeBitmap other = false →
      testBit (slabMarkAllocated (heap.slabs slab) place).freeBitmap other = false := by
    intro other clear
    rw [slabMarkAllocated_freeBitmap, testBit_clearBit, clear, Bool.and_false]
  generalize slabMarkAllocated (heap.slabs slab) place = marked at shape lowered bits
  unfold afterTake
  by_cases exhausted : marked.freeCount = 0
  · rw [if_pos exhausted]
    have permuted : (Cache.allSlabs { heap.caches index with
        partialSlabs := rest, fullSlabs := slab :: (heap.caches index).fullSlabs }).Perm
        (heap.caches index).allSlabs := by
      simp only [Cache.allSlabs, head, List.append_assoc, List.cons_append]
      exact List.perm_middle
    refine held.relist (held.slabs.relist small member marked shape _ rfl rfl rfl permuted
      (Or.inr (Or.inl ⟨List.mem_cons_self, exhausted⟩)) fun other different => ⟨?_, ?_, id⟩) permuted ?_ bits
    · intro inRest
      rw [head]
      exact List.mem_cons_of_mem _ inRest
    · exact fun inFull => (List.mem_cons.mp inFull).resolve_left different
    · intro other busy
      simp only [Cache.busySlabs, head, List.cons_append, List.mem_cons, List.mem_append] at busy ⊢
      tauto
  · rw [if_neg exhausted]
    exact held.relist (held.slabs.relist small member marked shape _ rfl rfl rfl (List.Perm.refl _)
      (Or.inl ⟨by simp [head], by omega⟩) fun _ _ => ⟨id, id, id⟩) (List.Perm.refl _) (List.Subset.refl _) bits

/-- A partial slab has an object that `slab_find_free` finds and that is free. -/
theorem SlabInvariant.finds (held : SlabInvariant start heap) (small : index < 8)
    (member : slab ∈ (heap.caches index).partialSlabs) :
    ∃ place, slabFindFree (heap.slabs slab) (heap.caches index) = some place ∧ place < classCount index ∧
      isObjectFree (heap.slabs slab) place = true := by
  have below : index < cacheCount := by
    unfold cacheCount
    omega
  have listed : slab ∈ (heap.caches index).allSlabs := by simp [Cache.allSlabs, member]
  have available : 0 < countBits (heap.slabs slab).freeBitmap (heap.caches index).objectsPerSlab := by
    rw [held.config.count index below, ← ((held.ok index small).shape slab listed).free]
    exact (held.ok index small).someFree slab member
  obtain ⟨place, found, inside, free⟩ := slabFindFree_of_countBits (heap.slabs slab) _ available
  rw [held.config.count index below] at inside
  exact ⟨place, found, inside, free⟩

/-- The second part of `cache_alloc` returns a new live object. -/
theorem HeapInvariant.takeObject (held : HeapInvariant start heap live) (small : index < 8)
    (head : (heap.caches index).partialSlabs = slab :: rest) (positive : 0 < size) (fits : size ≤ classSize index)
    (flags : BitVec 32) :
    ∃ pointer next, Heap.takeObject heap index slab flags = (pointer, next) ∧ pointer ≠ 0 ∧
      HeapInvariant start next ((pointer, size) :: live) ∧
      ∃ place, place < classCount index ∧ pointer = slab + classHeader index + place * classSize index := by
  have ok := held.slabs.ok index small
  have member : slab ∈ (heap.caches index).allSlabs := by simp [Cache.allSlabs, head]
  have shape := ok.shape slab member
  have below : index < cacheCount := by
    unfold cacheCount
    omega
  have objectSize := held.slabs.config.size index below
  obtain ⟨place, found, inside, free⟩ := held.slabs.finds small (show slab ∈ _ by simp [head])
  rw [isObjectFree_eq] at free
  have bounds := object_inside slab small inside fits
  obtain ⟨page, address, obtained⟩ := ok.page slab member
  have wraps : add64 (heap.slabs slab).objects (place * (heap.caches index).objectSize) =
      slab + classHeader index + place * classSize index := by
    have room := held.slabs.direct.page_end obtained.tracked
    rw [shape.objects, objectSize]
    exact add64_of_lt (by omega)
  have marked := held.markAllocated small head inside free
  have added : HeapInvariant start _
      ((slab + classHeader index + place * classSize index, size) :: live) :=
    { slabs := marked.slabs
      positive := by
        intro region inLive
        obtain rfl | old := List.mem_cons.mp inLive
        · exact positive
        · exact held.positive region old
      placed := by
        intro region inLive
        obtain rfl | old := List.mem_cons.mp inLive
        · refine .object index slab place small ?_ inside ?_ rfl fits
          · rw [setCache_caches]
            unfold afterTake
            split
            · simp [Cache.busySlabs]
            · simp [Cache.busySlabs, head]
          · rw [setCache_slabs, setSlab_slabs, slabMarkAllocated_freeBitmap, testBit_clearBit]
            simp
        · exact marked.placed region old
      apart := List.pairwise_cons.mpr ⟨fun region old =>
        held.slabs.free_apart small member inside fits free (held.placed region old), held.apart⟩ }
  have listed : (if (slabMarkAllocated (heap.slabs slab) place).freeCount = 0 then
        (heap.setSlab slab (slabMarkAllocated (heap.slabs slab) place)).setCache index
          { heap.caches index with
            partialSlabs := (heap.caches index).partialSlabs.tail
            fullSlabs := slab :: (heap.caches index).fullSlabs }
      else heap.setSlab slab (slabMarkAllocated (heap.slabs slab) place)) =
      (heap.setSlab slab (slabMarkAllocated (heap.slabs slab) place)).setCache index
        (afterTake (heap.caches index) slab rest (slabMarkAllocated (heap.slabs slab) place)) := by
    unfold afterTake
    split
    · rw [head]
      rfl
    · exact (setCache_self (heap.setSlab slab _) index).symm
  unfold Heap.takeObject
  simp only [found, isObjectFree_eq, free, wraps, listed]
  split
  · exact absurd ‹true = false› (by simp)
  · refine ⟨_, _, rfl, ?_, ?_, place, inside, rfl⟩
    · have header := (class_layout index small).2.2.2.1
      unfold slabHeaderSize at header
      omega
    · split
      · exact added.withMemory _
      · exact added

/-- A small request selects one of the first eight caches, whose objects are large enough. -/
theorem getCacheIndex_small (size : Nat) (small : size ≤ 2048) :
    ∃ index, getCacheIndex size = some index ∧ index < 8 ∧ size ≤ classSize index := by
  unfold getCacheIndex cacheSizes classSize
  simp only [List.findIdx?_cons, decide_eq_true_eq]
  split_ifs <;> exact ⟨_, rfl, by decide, by assumption⟩

theorem getCacheIndex_large (size : Nat) (large : 8192 < size) : getCacheIndex size = none := by
  unfold getCacheIndex cacheSizes
  simp only [List.findIdx?_cons, decide_eq_true_eq]
  split_ifs <;> first | rfl | omega

/-- A run of free pages has no byte in common with a live region. -/
theorem SlabInvariant.clear_apart (held : SlabInvariant start heap) {count : Nat}
    (clear : ∀ page, first ≤ page → page < first + count → bitmapTest heap.pmm page = false) (some : 0 < count)
    (fits : size ≤ count * pageSize) {region : Nat × Nat} (placed : Placed start heap region.1 region.2) :
    Apart (pageAt heap.pmm first, size) region := by
  have free : ∀ page, bitmapTest heap.pmm page = true → page < first ∨ first + count ≤ page := by
    intro page used
    by_contra inside
    rw [clear page (by omega) (by omega)] at used
    exact absurd used (by simp)
  have run : (first + count) * pageSize = first * pageSize + count * pageSize := by ring
  unfold Apart
  dsimp only
  cases placed with
  | object index slab place small member inside allocated position otherFits =>
      have bounds := object_inside slab small inside otherFits
      obtain ⟨page, address, obtained⟩ :=
        (held.ok index small).page slab (Cache.busySlabs_subset _ member)
      rw [address] at bounds position
      unfold pageAt at *
      obtain below | above := free page obtained.used
      · have step : (page + 1) * pageSize ≤ first * pageSize := Nat.mul_le_mul_right _ below
        have expanded : (page + 1) * pageSize = page * pageSize + pageSize := by ring
        omega
      · have step : (first + count) * pageSize ≤ page * pageSize := Nat.mul_le_mul_right _ above
        omega
  | pages otherFirst otherCount position lower upper obtained apart =>
      have otherSome : 0 < otherCount := by
        by_contra none
        obtain rfl : otherCount = 0 := by omega
        omega
      have otherRun : (otherFirst + otherCount) * pageSize =
          otherFirst * pageSize + otherCount * pageSize := by ring
      have separate : otherFirst + otherCount ≤ first ∨ first + count ≤ otherFirst := by
        by_contra overlap
        have used := (obtained (max first otherFirst) (by omega) (by omega)).used
        rw [clear (max first otherFirst) (by omega) (by omega)] at used
        exact absurd used (by simp)
      rw [position]
      unfold pageAt
      obtain below | above := separate
      · have step : (otherFirst + otherCount) * pageSize ≤ first * pageSize :=
          Nat.mul_le_mul_right _ below
        omega
      · have step : (first + count) * pageSize ≤ otherFirst * pageSize :=
          Nat.mul_le_mul_right _ above
        omega

/-- A large request returns a new live run of pages. -/
theorem HeapInvariant.takeRun (held : HeapInvariant start heap live) {pmm : PmmState} {count : Nat}
    (taken : Takes heap.pmm pmm (List.range' first count)) (some : 0 < count) (lower : (count - 1) * pageSize < size)
    (upper : size ≤ count * pageSize) :
    HeapInvariant start { heap with pmm := pmm } ((pageAt heap.pmm first, size) :: live) := by
  have grown := held.takePages taken
  have clear : ∀ page, first ≤ page → page < first + count →
      page < heap.pmm.totalPages ∧ bitmapTest heap.pmm page = false := by
    intro page low high
    exact taken.clear page (List.mem_range'_1.mpr ⟨low, high⟩)
  refine ⟨grown.slabs, ?_, ?_, ?_⟩
  · intro region inLive
    obtain rfl | old := List.mem_cons.mp inLive
    · dsimp only
      omega
    · exact held.positive region old
  · intro region inLive
    obtain rfl | old := List.mem_cons.mp inLive
    · refine .pages first count (pageAt_congr taken.layout first).symm lower upper ?_ ?_
      · intro page low high
        exact held.slabs.obtained taken (List.mem_range'_1.mpr ⟨low, high⟩)
      · intro page low high index small
        rw [pageAt_congr taken.layout]
        exact held.slabs.not_slab_of_clear (clear page low high).2 small
    · exact grown.placed region old
  · refine List.pairwise_cons.mpr ⟨?_, held.apart⟩
    intro region old
    exact held.slabs.clear_apart (fun page low high => (clear page low high).2) some upper
      (held.placed region old)

/-- The live regions after an allocation. -/
def afterAlloc (live : List (Nat × Nat)) (pointer size : Nat) : List (Nat × Nat) :=
  if pointer = 0 then live else (pointer, size) :: live

/-- `kmalloc_flags` keeps the invariant for every request that avoids the two largest caches. -/
theorem HeapInvariant.kmallocFlags (held : HeapInvariant start heap live) (size : Nat)
    (flags : BitVec 32) (word : size < 2 ^ 64) (sizes : size ≤ 2048 ∨ 8192 < size) :
    ∃ pointer next, Heap.kmallocFlags heap size flags = (pointer, next) ∧
      HeapInvariant start next (afterAlloc live pointer size) := by
  unfold Heap.kmallocFlags
  simp only [held.slabs.config.kmallocInit]
  by_cases empty : size = 0
  · rw [if_pos empty]
    exact ⟨0, heap, rfl, held⟩
  rw [if_neg empty]
  obtain small | large := sizes
  · obtain ⟨index, found, below, fits⟩ := getCacheIndex_small size small
    obtain ⟨result, middle, selected, between, head⟩ := held.takeSlab below
    simp only [found, cacheAlloc, selected]
    cases result with
    | none => exact ⟨0, middle, rfl, between⟩
    | some slab =>
        obtain ⟨rest, first⟩ := head slab rfl
        obtain ⟨pointer, next, taken, nonzero, final, -⟩ :=
          between.takeObject below first (by omega) fits flags
        refine ⟨pointer, next, taken, ?_⟩
        rw [afterAlloc, if_neg nonzero]
        exact final
  · simp only [getCacheIndex_large size large]
    obtain failed | ⟨first, pmm, allocated, taken⟩ :=
      pmmAllocContiguous_cases heap.pmm (add64 size (pageSize - 1) / pageSize)
    · rw [failed]
      exact ⟨0, heap, by simp, held⟩
    · by_cases none : add64 size (pageSize - 1) / pageSize = 0
      · rw [none]
        exact ⟨0, heap, by simp [pmmAllocContiguous, pmmAllocContiguousPage], held⟩
      · have whole : add64 size (pageSize - 1) = size + 4095 := by
          unfold add64 pageSize at *
          omega
        have bounds : 0 < (size + 4095) / pageSize ∧
            ((size + 4095) / pageSize - 1) * pageSize < size ∧
            size ≤ (size + 4095) / pageSize * pageSize := by
          unfold pageSize
          omega
        rw [allocated]
        rw [whole] at taken ⊢
        generalize (size + 4095) / pageSize = count at bounds taken
        have inside := (taken.clear first (List.mem_range'_1.mpr ⟨le_rfl, by omega⟩)).1
        rw [held.slabs.direct.pageAddress_eq inside]
        have final : HeapInvariant start { heap with pmm := pmm }
            (afterAlloc live (pageAt heap.pmm first) size) := by
          unfold afterAlloc
          split
          · exact held.takePages taken
          · exact held.takeRun taken bounds.1 bounds.2.1 bounds.2.2
        dsimp only
        split
        · exact ⟨_, _, rfl, final.withMemory _⟩
        · exact ⟨_, _, rfl, final⟩

end Uesi.Heap
