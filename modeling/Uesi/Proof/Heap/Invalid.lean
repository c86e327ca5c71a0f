import Uesi.Proof.Heap.Safety

namespace Uesi.Heap

open Library Pmm

/-- The pointer is not `NULL` and lies in the page of a slab that one of the lists of the cache
holds. -/
structure InSlabPage (heap : HeapState) (pointer index slab : Nat) : Prop where
  given : pointer ≠ 0
  cache : index < cacheCount
  listed : slab ∈ (heap.caches index).allSlabs
  low : slab ≤ pointer
  high : pointer < slab + pageSize

/-- The address of an object of a slab. -/
def objectStart (heap : HeapState) (index slab place : Nat) : Nat :=
  (heap.slabs slab).objects + place * (heap.caches index).objectSize

/-- The pointer is the start of no allocated object of the slab. -/
def NoLiveObject (heap : HeapState) (pointer index slab : Nat) : Prop :=
  ∀ place, place < (heap.caches index).objectsPerSlab → pointer = objectStart heap index slab place →
    isObjectFree (heap.slabs slab) place = true

/-- The pointer is the start of an object, allocated or not, of a slab that `find_allocation` visits. -/
def FoundObject (heap : HeapState) (pointer index slab : Nat) : Prop :=
  slab ∈ (heap.caches index).busySlabs ∧
    ∃ place, place < (heap.caches index).objectsPerSlab ∧ pointer = objectStart heap index slab place

/-- The slabs, the lists of the caches and the bitmap of the pages stay. -/
structure Untouched (heap next : HeapState) : Prop where
  slabs : next.slabs = heap.slabs
  caches : next.caches = heap.caches
  pages : ∀ page, page < heap.pmm.totalPages → bitmapTest next.pmm page = bitmapTest heap.pmm page

theorem Untouched.refl (heap : HeapState) : Untouched heap heap := ⟨rfl, rfl, fun _ _ => rfl⟩

/-- `find_allocation` finds nothing when no slab that it visits recognizes the pointer. -/
theorem findAllocation_none {heap : HeapState} {pointer : Nat}
    (unknown : ∀ index slab, index < cacheCount → slab ∈ (heap.caches index).busySlabs →
      ∀ place, inspectSlab heap pointer index slab ≠ .object place) :
    findAllocation heap pointer = none := by
  unfold findAllocation
  split
  · rfl
  · cases search : (searchOrder heap).findSome? fun place =>
        (inspectSlab heap pointer place.1 place.2).answer place with
    | none => rfl
    | some answer =>
        obtain ⟨candidate, listed, given⟩ := List.exists_of_findSome?_eq_some search
        obtain ⟨below, member⟩ := (mem_searchOrder heap candidate).mp listed
        have known := unknown candidate.1 candidate.2 below member
        cases verdict : inspectSlab heap pointer candidate.1 candidate.2 with
        | next =>
            rw [verdict] at given
            exact absurd given (by simp [SlabVerdict.answer])
        | invalid =>
            rw [verdict] at given
            obtain rfl := Option.some.inj given
            rfl
        | object place => exact absurd verdict (known place)

/-- A slab recognizes only the starts of its objects. -/
theorem inspectSlab_object {heap : HeapState} {pointer index slab place : Nat}
    (found : inspectSlab heap pointer index slab = .object place) :
    place < (heap.caches index).objectsPerSlab ∧ pointer = objectStart heap index slab place ∧
      slab ≤ pointer ∧ pointer < add64 slab pageSize := by
  unfold inspectSlab at found
  dsimp only at found
  split at found
  · rename_i covered
    split at found
    · exact absurd found (by simp)
    · rename_i above
      split at found
      · exact absurd found (by simp)
      · rename_i aligned
        split at found
        · rename_i inside
          obtain rfl := SlabVerdict.object.inj found
          refine ⟨inside, ?_, covered⟩
          have whole := Nat.div_mul_cancel (Nat.dvd_of_mod_eq_zero (not_not.mp aligned))
          unfold objectStart
          omega
        · exact absurd found (by simp)
  · exact absurd found (by simp)

variable {start : PmmState} {heap : HeapState}

/-- A pointer into a slab page is recognized by no slab unless it is the start of an object there. -/
theorem SlabInvariant.findAllocation_invalid (held : SlabInvariant start heap)
    {pointer index slab : Nat} (covered : InSlabPage heap pointer index slab) (small : index < 8)
    (unknown : ¬ FoundObject heap pointer index slab) : findAllocation heap pointer = none := by
  apply findAllocation_none
  intro otherIndex other below member place found
  obtain ⟨inside, position, low, high⟩ := inspectSlab_object found
  have otherSmall := held.busy_small below member
  have listed := Cache.busySlabs_subset _ member
  by_cases same : other = slab
  · subst same
    obtain rfl := held.single otherIndex index otherSmall small other listed covered.listed
    exact unknown ⟨member, place, inside, position⟩
  · obtain ⟨page, address, _⟩ := (held.ok index small).page slab covered.listed
    have apart := held.outside_page otherSmall listed (address ▸ same)
      (address ▸ covered.low) (address ▸ covered.high)
    rw [held.slab_end otherSmall listed] at high
    omega

/-- The search recognizes the start of an object of a slab that it visits. -/
theorem SlabInvariant.findAllocation_found (held : SlabInvariant start heap) {pointer index slab : Nat}
    (small : index < 8) (found : FoundObject heap pointer index slab) :
    ∃ place, place < (heap.caches index).objectsPerSlab ∧
      pointer = objectStart heap index slab place ∧
      findAllocation heap pointer = some (index, slab, place) := by
  have below : index < cacheCount := by
    unfold cacheCount
    omega
  obtain ⟨member, place, inside, position⟩ := found
  refine ⟨place, inside, position, ?_⟩
  have objects := ((held.ok index small).shape slab (Cache.busySlabs_subset _ member)).objects
  rw [position, objectStart, objects, held.config.size index below]
  exact held.findAllocation_object small member (by rwa [held.config.count index below] at inside)

/-- A pointer into a slab page that is the start of no live object is freed without effect exactly
when it is the start of a freed object of a slab that `find_allocation` visits. -/
theorem SlabInvariant.kfree_untouched_iff (held : SlabInvariant start heap) {pointer index slab : Nat}
    (covered : InSlabPage heap pointer index slab) (dead : NoLiveObject heap pointer index slab) :
    Untouched heap (kfree heap pointer) ↔ FoundObject heap pointer index slab := by
  have small : index < 8 := by
    by_contra large
    have none := held.unused index (by omega) covered.cache
    exact absurd (none ▸ covered.listed) List.not_mem_nil
  obtain ⟨page, address, obtained⟩ := (held.ok index small).page slab covered.listed
  constructor
  · intro untouched
    by_contra unknown
    have missing := held.findAllocation_invalid covered small unknown
    have result : kfree heap pointer = { heap with pmm := pmmFree heap.pmm pointer } := by
      unfold kfree
      rw [if_neg covered.given, missing]
    have same := untouched.pages page obtained.tracked
    have released := (pmmFree_releases heap.pmm pointer covered.given).bits page obtained.tracked
    have home : addressPage heap.pmm pointer = page :=
      held.direct.addressPage_eq obtained.tracked (address ▸ covered.low) (address ▸ covered.high)
    rw [result] at same
    rw [same, home] at released
    exact (released.mp obtained.used).2 rfl
  · intro found
    obtain ⟨place, inside, position, located⟩ := held.findAllocation_found small found
    have kept : kfree heap pointer = heap := by
      unfold kfree
      split
      · rfl
      · rw [located]
        unfold cacheFree
        dsimp only
        rw [if_pos (dead place inside position)]
    rw [kept]
    exact Untouched.refl heap

/-- The call requests at most 2048 bytes, or it frees. -/
def SmallRequest : HeapOp → Prop
  | .kmallocFlags size _ => size ≤ 2048
  | .kfree _ => True

theorem SmallRequest.sized {op : HeapOp} (small : SmallRequest op) : Sized op := by
  cases op with
  | kmallocFlags size flags => exact Or.inl small
  | kfree pointer => trivial

/-- A permitted call that avoids the two largest caches leaves the blank allocator blank or
establishes the invariant. -/
theorem History.step_blank_or_used {initial : HeapState} {history : History}
    (unused : initial.initialized = false) (direct : DirectMapped initial.pmm)
    (held : history = ⟨initial, []⟩ ∨ HeapInvariant initial.pmm history.heap history.live)
    {op : HeapOp} (permitted : Permitted history op) (sized : Sized op) :
    history.step op = ⟨initial, []⟩ ∨
      HeapInvariant initial.pmm (history.step op).heap (history.step op).live := by
  cases op with
  | kmallocFlags size flags =>
      have known : HistoryInvariant initial.pmm history := by
        obtain rfl | used := held
        · exact .unused unused rfl rfl
        · exact .used used
      exact Or.inr (known.kmallocFlags direct permitted sized)
  | kfree pointer =>
      obtain rfl | used := held
      · obtain rfl | ⟨size, member⟩ := permitted
        · exact Or.inl rfl
        · exact absurd member List.not_mem_nil
      · exact Or.inr (used.kfree_permitted permitted)

/-- After every permitted run of requests of at most 2048 bytes, a pointer into a slab page that is
the start of no live object is freed without effect exactly when it is the start of a freed object
of a slab on the partial or the full list. -/
theorem kfree_invalid_untouched_iff (initial : HeapState) (unused : initial.initialized = false)
    (blank : ∀ index, (initial.caches index).allSlabs = []) (direct : DirectMapped initial.pmm)
    (ops : List HeapOp)
    (guarded : Guarded History.step (fun history op => Permitted history op ∧ SmallRequest op)
      ⟨initial, []⟩ ops) (pointer index slab : Nat)
    (covered : InSlabPage (run History.step ⟨initial, []⟩ ops).heap pointer index slab)
    (dead : NoLiveObject (run History.step ⟨initial, []⟩ ops).heap pointer index slab) :
    Untouched (run History.step ⟨initial, []⟩ ops).heap
        (kfree (run History.step ⟨initial, []⟩ ops).heap pointer) ↔
      FoundObject (run History.step ⟨initial, []⟩ ops).heap pointer index slab := by
  have held := run_guarded_invariant History.step _
    (fun history => history = ⟨initial, []⟩ ∨ HeapInvariant initial.pmm history.heap history.live)
    (fun _ _ held allowed => History.step_blank_or_used unused direct held allowed.1 allowed.2.sized)
    _ ops (Or.inl rfl) guarded
  obtain still | used := held
  · have listed := covered.listed
    rw [still, blank index] at listed
    exact absurd listed List.not_mem_nil
  · exact used.slabs.kfree_untouched_iff covered dead

/-- A second free of an object has no effect while another object keeps its slab busy. -/
theorem kfree_invalid_untouched_iff_twice :
    let ops : List HeapOp := [.kmallocFlags 100 0, .kmallocFlags 100 0, .kfree 0xFFFF800000000080]
    let heap := (run History.step ⟨sixteenPages, []⟩ ops).heap
    Untouched heap (kfree heap 0xFFFF800000000080) := by
  intro ops heap
  have guarded : Guarded History.step (fun history op => Permitted history op ∧ SmallRequest op)
      ⟨sixteenPages, []⟩ ops :=
    ⟨⟨show 100 < 2 ^ 64 by decide, show 100 ≤ 2048 by decide⟩,
      ⟨show 100 < 2 ^ 64 by decide, show 100 ≤ 2048 by decide⟩,
      ⟨Or.inr ⟨100, by decide +kernel⟩, trivial⟩, trivial⟩
  have covered : InSlabPage heap 0xFFFF800000000080 3 0xFFFF800000000000 :=
    ⟨by decide, by decide, by decide +kernel, by decide, by decide⟩
  refine (kfree_invalid_untouched_iff sixteenPages rfl (fun _ => rfl)
    (by unfold DirectMapped; decide) ops guarded 0xFFFF800000000080 3 0xFFFF800000000000 covered
    ?_).mpr ⟨by decide +kernel, 0, by decide +kernel, by decide +kernel⟩
  change NoLiveObject heap _ _ _
  unfold NoLiveObject
  decide +kernel

/-- After a request of 100 bytes, the free of a pointer to the second byte of the object frees the
page of its slab. -/
theorem kfree_interior_frees_slab :
    let heap := (run History.step ⟨sixteenPages, []⟩ [.kmallocFlags 100 0]).heap
    InSlabPage heap 0xFFFF800000000081 3 0xFFFF800000000000 ∧
      NoLiveObject heap 0xFFFF800000000081 3 0xFFFF800000000000 ∧
      bitmapTest heap.pmm 0 = true ∧ bitmapTest (kfree heap 0xFFFF800000000081).pmm 0 = false ∧
      ¬ Untouched heap (kfree heap 0xFFFF800000000081) := by
  intro heap
  have used : bitmapTest heap.pmm 0 = true := by decide +kernel
  have freed : bitmapTest (kfree heap 0xFFFF800000000081).pmm 0 = false := by decide +kernel
  refine ⟨⟨by decide, by decide, by decide +kernel, by decide, by decide⟩, ?_, used, freed, ?_⟩
  · unfold NoLiveObject
    decide +kernel
  · intro untouched
    have same := untouched.pages 0 (by decide +kernel)
    rw [used, freed] at same
    exact absurd same (by decide)

end Uesi.Heap
