import Uesi.Proof.Heap.Free

namespace Uesi.Heap

open Library Pmm

/-- The calls of the allocator. -/
inductive HeapOp where
  | kmallocFlags (size : Nat) (flags : BitVec 32)
  | kfree (pointer : Nat)

/-- The history of a run is the allocator state with the regions that were returned and not freed. -/
structure History where
  heap : HeapState
  live : List (Nat × Nat)

/-- A call changes the allocator and the live regions. -/
def History.step (history : History) : HeapOp → History
  | .kmallocFlags size flags =>
      match kmallocFlags history.heap size flags with
      | (pointer, heap) => ⟨heap, afterAlloc history.live pointer size⟩
  | .kfree pointer => ⟨kfree history.heap pointer, afterFree history.live pointer⟩

/-- A caller passes sizes of 64 bits and frees only what it holds. -/
def Permitted (history : History) : HeapOp → Prop
  | .kmallocFlags size _ => size < 2 ^ 64
  | .kfree pointer => pointer = 0 ∨ ∃ size, (pointer, size) ∈ history.live

/-- The call keeps away from the caches for 4096 and 8192 bytes. -/
def Sized : HeapOp → Prop
  | .kmallocFlags size _ => size ≤ 2048 ∨ 8192 < size
  | .kfree _ => True

/-- The bytes of a region lie in pages that the allocator obtained and still holds. -/
def Owned (start : PmmState) (heap : HeapState) (region : Nat × Nat) : Prop :=
  ∀ address, region.1 ≤ address → address < region.1 + region.2 →
    ∃ page, pageAt heap.pmm page ≤ address ∧ address < pageAt heap.pmm page + pageSize ∧
      Obtained start heap.pmm page

/-- The header of a slab together with its bitmap. -/
def headerRegion (cache : Cache) (slab : Nat) : Nat × Nat :=
  (slab, slabHeaderSize + bitmapWords cache.objectsPerSlab * 8)

/-- The live regions lie in obtained pages, meet no slab header and no slab bitmap, and are disjoint. -/
structure HeapSafe (start : PmmState) (history : History) : Prop where
  owned : ∀ region ∈ history.live, Owned start history.heap region
  headers : ∀ region ∈ history.live, ∀ index, index < cacheCount →
    ∀ slab ∈ (history.heap.caches index).allSlabs,
      Apart region (headerRegion (history.heap.caches index) slab)
  disjoint : history.live.Pairwise Apart

variable {start : PmmState} {heap : HeapState} {live : List (Nat × Nat)}

/-- A live region lies in obtained pages. -/
theorem SlabInvariant.owned (held : SlabInvariant start heap) {region : Nat × Nat}
    (placed : Placed start heap region.1 region.2) : Owned start heap region := by
  intro address low high
  cases placed with
  | object index slab place small member inside allocated position fits =>
      obtain ⟨page, rfl, obtained⟩ :=
        (held.ok index small).page slab (Cache.busySlabs_subset _ member)
      have bounds := object_inside (pageAt heap.pmm page) small inside fits
      exact ⟨page, by omega, by omega, obtained⟩
  | pages first count position lower upper obtained apart =>
      -- The page of the address is counted from the first page of the run.
      have offset := Nat.div_add_mod (address - region.1) pageSize
      have rest : (address - region.1) % pageSize < pageSize := Nat.mod_lt _ (by decide)
      have inside : (address - region.1) / pageSize < count :=
        Nat.div_lt_of_lt_mul (by rw [Nat.mul_comm]; omega)
      refine ⟨first + (address - region.1) / pageSize, ?_, ?_,
        obtained _ (Nat.le_add_right _ _) (Nat.add_lt_add_left inside _)⟩
      · unfold pageAt at position ⊢
        rw [Nat.add_mul, Nat.mul_comm ((address - region.1) / pageSize)]
        omega
      · unfold pageAt at position ⊢
        rw [Nat.add_mul, Nat.mul_comm ((address - region.1) / pageSize)]
        omega

/-- A live region meets no slab header. -/
theorem SlabInvariant.region_apart_header (held : SlabInvariant start heap) {region : Nat × Nat}
    (placed : Placed start heap region.1 region.2) {index slab : Nat} (small : index < 8)
    (member : slab ∈ (heap.caches index).allSlabs) :
    Apart region (headerRegion (heap.caches index) slab) := by
  have below : index < cacheCount := by
    unfold cacheCount
    omega
  obtain ⟨_, _, _, header, total⟩ := class_layout index small
  obtain ⟨page, address, obtained⟩ := (held.ok index small).page slab member
  unfold Apart headerRegion
  rw [held.config.count index below]
  dsimp only
  cases placed with
  | object otherIndex other place otherSmall otherBusy inside allocated position fits =>
      have otherMember := Cache.busySlabs_subset _ otherBusy
      have bounds := object_inside other otherSmall inside fits
      by_cases same : other = slab
      · subst same
        obtain rfl := held.single otherIndex index otherSmall small other otherMember member
        omega
      · obtain ⟨otherPage, otherAddress, _⟩ := (held.ok otherIndex otherSmall).page other otherMember
        have distinct : otherPage ≠ page := by
          rintro rfl
          exact same (otherAddress.trans address.symm)
        have apart := pageAt_apart heap.pmm distinct
        omega
  | pages first count position lower upper runs apart =>
      have outside : page < first ∨ first + count ≤ page := by
        by_contra covered
        exact apart page (by omega) (by omega) index small (address ▸ member)
      cases outside with
      | inl before =>
          unfold pageAt at address position
          unfold pageSize at *
          omega
      | inr after =>
          unfold pageAt at address position
          unfold pageSize at *
          omega

/-- The invariant implies the safety of the live regions. -/
theorem HeapInvariant.safe (held : HeapInvariant start heap live) : HeapSafe start ⟨heap, live⟩ where
  owned region alive := held.slabs.owned (held.placed region alive)
  headers region alive index below slab member := by
    by_cases small : index < 8
    · exact held.slabs.region_apart_header (held.placed region alive) small member
    · rw [held.slabs.unused index (by omega) below] at member
      exact absurd member List.not_mem_nil
  disjoint := held.apart

/-- The initialization of an unused allocator establishes the invariant. -/
theorem HeapInvariant.init (unused : heap.initialized = false) (direct : DirectMapped heap.pmm)
    (layout : SameLayout start heap.pmm) (reserved : ∀ page, page < start.totalPages →
      bitmapTest start page = true → bitmapTest heap.pmm page = true) :
    HeapInvariant start (kmallocInit heap) [] := by
  have caches : ∀ index, index < cacheCount →
      (kmallocInit heap).caches index = cacheInit (classSize index) (classSize index) := by
    intro index below
    simp only [kmallocInit, unused, Bool.false_eq_true, if_false, below, if_true, classSize]
  have empty : ∀ index, index < cacheCount → ((kmallocInit heap).caches index).allSlabs = [] := by
    intro index below
    rw [caches index below]
    rfl
  have pmm : (kmallocInit heap).pmm = heap.pmm := by
    simp only [kmallocInit, unused, Bool.false_eq_true, if_false]
  have below : ∀ index, index < 8 → index < cacheCount := by
    intro index small
    unfold cacheCount
    omega
  constructor
  · constructor
    · constructor
      · simp only [kmallocInit, unused, Bool.false_eq_true, if_false]
      · intro index inside
        rw [caches index inside]
        rfl
      · intro index inside
        rw [caches index inside]
        rfl
      · intro index inside
        rw [caches index inside]
        rfl
    · rw [pmm]
      exact direct
    · rw [pmm]
      exact layout
    · rw [pmm]
      exact reserved
    · intro index small
      have none := empty index (below index small)
      simp only [Cache.allSlabs, List.append_eq_nil_iff] at none
      obtain ⟨⟨noPartial, noFull⟩, noEmpty⟩ := none
      constructor <;> simp [Cache.allSlabs, noPartial, noFull, noEmpty]
    · intro index _ inside
      exact empty index inside
    · intro first _ small _ slab member
      rw [empty first (below first small)] at member
      exact absurd member List.not_mem_nil
  · intro region member
    exact absurd member List.not_mem_nil
  · intro region member
    exact absurd member List.not_mem_nil
  · exact List.Pairwise.nil

/-- The first call that allocates initializes the allocator. -/
theorem kmallocFlags_init (heap : HeapState) (size : Nat) (flags : BitVec 32) :
    kmallocFlags (kmallocInit heap) size flags = kmallocFlags heap size flags := by
  have twice : kmallocInit (kmallocInit heap) = kmallocInit heap := by
    unfold kmallocInit
    cases ready : heap.initialized with
    | false => simp
    | true => simp [ready]
  unfold kmallocFlags
  rw [twice]

/-- Before its first allocation the allocator is unused, and afterwards it keeps the invariant. -/
inductive HistoryInvariant (start : PmmState) (history : History) : Prop where
  | unused (fresh : history.heap.initialized = false) (none : history.live = [])
      (same : history.heap.pmm = start)
  | used (held : HeapInvariant start history.heap history.live)

/-- Every allocation that avoids the two largest caches establishes the invariant. -/
theorem HistoryInvariant.kmallocFlags {history : History} (direct : DirectMapped start)
    (held : HistoryInvariant start history) {size : Nat} {flags : BitVec 32} (word : size < 2 ^ 64)
    (sizes : size ≤ 2048 ∨ 8192 < size) :
    HeapInvariant start (history.step (.kmallocFlags size flags)).heap
      (history.step (.kmallocFlags size flags)).live := by
  have ready : HeapInvariant start (kmallocInit history.heap) history.live := by
    cases held with
    | unused fresh none same =>
        subst same
        rw [none]
        exact HeapInvariant.init fresh direct (SameLayout.refl _) fun _ _ used => used
    | used held => rwa [held.slabs.config.kmallocInit]
  obtain ⟨pointer, next, result, kept⟩ := ready.kmallocFlags size flags word sizes
  rw [kmallocFlags_init] at result
  have moved : history.step (.kmallocFlags size flags) =
      ⟨next, afterAlloc history.live pointer size⟩ := by
    simp only [History.step, result]
  rw [moved]
  exact kept

/-- A free of `NULL` or of a live pointer keeps the invariant. -/
theorem HeapInvariant.kfree_permitted (held : HeapInvariant start heap live) {pointer : Nat}
    (permitted : pointer = 0 ∨ ∃ size, (pointer, size) ∈ live) :
    HeapInvariant start (Heap.kfree heap pointer) (afterFree live pointer) := by
  cases permitted with
  | inl null =>
      subst null
      exact held.forget (afterFree_sublist _ _) held.slabs fun region remains =>
        held.placed region (mem_afterFree.mp remains).1
  | inr alive =>
      obtain ⟨size, member⟩ := alive
      exact held.kfree member

/-- Every permitted call that avoids the two largest caches keeps the invariant of the history. -/
theorem HistoryInvariant.step {history : History} (direct : DirectMapped start)
    (held : HistoryInvariant start history) {op : HeapOp} (permitted : Permitted history op)
    (sized : Sized op) : HistoryInvariant start (history.step op) := by
  cases op with
  | kmallocFlags size flags => exact .used (held.kmallocFlags direct permitted sized)
  | kfree pointer =>
      cases held with
      | used held => exact .used (held.kfree_permitted permitted)
      | unused fresh none same =>
          -- Nothing is live, so the caller may free only `NULL`.
          obtain rfl | ⟨size, member⟩ := permitted
          · refine .unused fresh ?_ same
            unfold History.step
            rw [none]
            rfl
          · rw [none] at member
            exact absurd member List.not_mem_nil

/-- In every permitted run that avoids the two largest caches, the live regions are safe. -/
theorem kmalloc_regions_safe (heap : HeapState) (unused : heap.initialized = false)
    (direct : DirectMapped heap.pmm) (ops : List HeapOp)
    (guarded : Guarded History.step (fun history op => Permitted history op ∧ Sized op)
      ⟨heap, []⟩ ops) :
    HeapSafe heap.pmm (run History.step ⟨heap, []⟩ ops) := by
  have held : HistoryInvariant heap.pmm (run History.step ⟨heap, []⟩ ops) :=
    run_guarded_invariant History.step _ (HistoryInvariant heap.pmm)
      (fun _ _ held allowed => held.step direct allowed.1 allowed.2) _ ops (.unused unused rfl rfl)
      guarded
  cases held with
  | unused fresh none same => constructor <;> simp [none]
  | used held => exact held.safe

/-- An unused allocator over sixteen free pages of the direct map. -/
def sixteenPages : HeapState where
  pmm := {
    bitmap := 4096, bytes := fun _ => 0#8, totalPages := 16, freePages := 16
    hhdmOffset := 0xFFFF800000000000 }

/-- A run with two small objects, a run of three pages and two releases keeps its regions safe. -/
theorem kmalloc_regions_safe_sixteenPages :
    let ops : List HeapOp := [.kmallocFlags 100 0, .kmallocFlags 2048 1, .kmallocFlags 10000 0,
      .kfree 0xFFFF800000000080, .kfree 0xFFFF800000002000, .kmallocFlags 128 0]
    (run History.step ⟨sixteenPages, []⟩ ops).live =
        [(0xFFFF800000000080, 128), (0xFFFF800000001800, 2048)] ∧
      HeapSafe sixteenPages.pmm (run History.step ⟨sixteenPages, []⟩ ops) := by
  intro ops
  have guarded : Guarded History.step (fun history op => Permitted history op ∧ Sized op)
      ⟨sixteenPages, []⟩ ops :=
    ⟨⟨show 100 < 2 ^ 64 by decide, Or.inl (by decide)⟩,
      ⟨show 2048 < 2 ^ 64 by decide, Or.inl (by decide)⟩,
      ⟨show 10000 < 2 ^ 64 by decide, Or.inr (by decide)⟩,
      ⟨Or.inr ⟨100, by decide +kernel⟩, trivial⟩, ⟨Or.inr ⟨10000, by decide +kernel⟩, trivial⟩,
      ⟨show 128 < 2 ^ 64 by decide, Or.inl (by decide)⟩, trivial⟩
  refine ⟨by decide +kernel, ?_⟩
  exact kmalloc_regions_safe sixteenPages rfl (by unfold DirectMapped; decide) ops guarded

/-- The first request of 4096 bytes returns the page behind its slab, which is still free. -/
theorem kmalloc_4096_not_owned :
    let last := run History.step ⟨sixteenPages, []⟩ [.kmallocFlags 4096 0]
    last.live = [(0xFFFF800000001000, 4096)] ∧ bitmapTest last.heap.pmm 1 = false ∧
      ¬ HeapSafe sixteenPages.pmm last := by
  intro last
  have live : last.live = [(0xFFFF800000001000, 4096)] := by decide +kernel
  have free : bitmapTest last.heap.pmm 1 = false := by decide +kernel
  have offset : last.heap.pmm.hhdmOffset = 0xFFFF800000000000 := by decide +kernel
  refine ⟨live, free, ?_⟩
  intro safe
  obtain ⟨page, low, high, obtained⟩ := safe.owned (0xFFFF800000001000, 4096)
    (by rw [live]; exact List.mem_singleton_self _) 0xFFFF800000001000 le_rfl (by decide)
  unfold pageAt pageSize at low high
  rw [offset] at low high
  obtain rfl : page = 1 := by omega
  have used := obtained.used
  rw [free] at used
  exact absurd used (by decide)

end Uesi.Heap
