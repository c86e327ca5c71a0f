import Uesi.Proof.Heap.Safety

namespace Uesi.Heap

open Library Pmm

/-- The calls of small objects, between which the rest of the kernel uses the page allocator. -/
inductive SlabOp where
  | kmalloc (size : Nat)
  | kfree (pointer : Nat)
  | others (pmm : PmmState)

def SlabOp.step (history : History) : SlabOp → History
  | .kmalloc size => history.step (.kmallocFlags size 0)
  | .kfree pointer => history.step (.kfree pointer)
  | .others pmm => { history with heap := { history.heap with pmm := pmm } }

/-- Requests have at most 2048 bytes, only live objects are freed, and nobody else frees the page of a slab. -/
def SlabOp.Allowed (history : History) : SlabOp → Prop
  | .kmalloc size => 1 ≤ size ∧ size ≤ 2048
  | .kfree pointer => ∃ size, (pointer, size) ∈ history.live
  | .others pmm => SameLayout history.heap.pmm pmm ∧ ∀ index page, index < cacheCount →
      pageAt pmm page ∈ (history.heap.caches index).allSlabs → bitmapTest pmm page = true

/-- The metadata of the slabs of one cache. -/
structure CacheMetadata (heap : HeapState) (cache : Cache) : Prop where
  once : cache.allSlabs.Nodup
  counted : ∀ slab ∈ cache.allSlabs,
    (heap.slabs slab).freeCount = countBits (heap.slabs slab).freeBitmap cache.objectsPerSlab
  full : ∀ slab ∈ cache.fullSlabs, (heap.slabs slab).freeCount = 0
  some : ∀ slab ∈ cache.partialSlabs, 1 ≤ (heap.slabs slab).freeCount
  empty : ∀ slab ∈ cache.emptySlabs, (heap.slabs slab).freeCount = (heap.slabs slab).totalCount
  spare : cache.emptySlabs.length ≤ 2

/-- The metadata of all caches, together with the two checks that `cache_alloc` makes on the slab of its choice. -/
structure Metadata (heap : HeapState) : Prop where
  caches : ∀ index, index < cacheCount → CacheMetadata heap (heap.caches index)
  apart : ∀ first second slab, first < cacheCount → second < cacheCount →
    slab ∈ (heap.caches first).allSlabs → slab ∈ (heap.caches second).allSlabs → first = second
  noBug : ∀ size index slab next, size ≤ 2048 → getCacheIndex size = some index →
    takeSlab (kmallocInit heap) index = (some slab, next) →
      ∃ object, slabFindFree (next.slabs slab) (next.caches index) = some object ∧
        isObjectFree (next.slabs slab) object = true

/-- Every cache keeps at most two empty slabs. -/
def Spare (heap : HeapState) : Prop := ∀ index, (heap.caches index).emptySlabs.length ≤ 2

variable {start : PmmState} {heap : HeapState} {live : List (Nat × Nat)}

theorem Spare.setCache (spare : Spare heap) (index : Nat) {cache : Cache} (few : cache.emptySlabs.length ≤ 2) :
    Spare (heap.setCache index cache) := by
  intro other
  by_cases same : other = index
  · rw [same, setCache_caches]
    exact few
  · rw [setCache_caches_of_ne _ _ same]
    exact spare other

theorem Spare.takeSlab (spare : Spare heap) (index : Nat) : Spare (Heap.takeSlab heap index).2 := by
  unfold Heap.takeSlab
  dsimp only
  split
  · exact spare
  · split
    · rename_i slab rest listed
      refine spare.setCache index ?_
      have few := spare index
      rw [listed, List.length_cons] at few
      dsimp only
      omega
    · unfold slabCreate
      by_cases null : (pmmAlloc heap.pmm).1 = 0
      · simp only [null, if_true]
        exact spare
      · simp only [null, if_false]
        exact @Spare.setCache { heap with pmm := _, slabs := _ } spare index _ (spare index)

theorem Spare.takeObject (spare : Spare heap) (index slab : Nat) (flags : BitVec 32) :
    Spare (Heap.takeObject heap index slab flags).2 := by
  unfold Heap.takeObject
  dsimp only
  split
  · exact spare
  · split
    · exact spare
    · split
      · split
        · exact @Spare.setCache (heap.setSlab slab _) spare index _ (spare index)
        · exact spare
      · split
        · exact @Spare.setCache (heap.setSlab slab _) spare index _ (spare index)
        · exact spare

theorem Spare.cacheFree (spare : Spare heap) (index slab object : Nat) :
    Spare (Heap.cacheFree heap index slab object) := by
  unfold Heap.cacheFree
  split
  · exact spare
  · dsimp only
    split
    · exact @Spare.setCache (heap.setSlab slab _) spare index _ (spare index)
    · split
      · split
        · rename_i room
          refine @Spare.setCache (heap.setSlab slab _) spare index _ ?_
          dsimp only at room ⊢
          rw [List.length_cons]
          omega
        · exact @Spare.setCache (heap.setSlab slab _) spare index _ (spare index)
      · exact spare

theorem Spare.kfree (spare : Spare heap) (pointer : Nat) : Spare (Heap.kfree heap pointer) := by
  unfold Heap.kfree
  split
  · exact spare
  · split
    · exact spare.cacheFree _ _ _
    · exact spare

/-- The invariant of a run of small objects. The start is any state of the page allocator without a used page. -/
structure Slabbed (start : PmmState) (history : History) : Prop where
  held : HeapInvariant start history.heap history.live
  inner : ∀ region ∈ history.live, ∀ page, region.1 ≠ pageAt start page
  spare : Spare history.heap

/-- Before the first call the allocator has no slab. -/
structure Fresh (start : PmmState) (history : History) : Prop where
  fresh : history.heap.initialized = false
  none : history.live = []
  slabs : ∀ index, (history.heap.caches index).allSlabs = []
  layout : SameLayout start history.heap.pmm

theorem CacheMetadata.of_none {cache : Cache} (none : cache.allSlabs = []) : CacheMetadata heap cache := by
  simp only [Cache.allSlabs, List.append_eq_nil_iff] at none
  obtain ⟨⟨noPartial, noFull⟩, noEmpty⟩ := none
  constructor <;> simp [Cache.allSlabs, noPartial, noFull, noEmpty]

/-- The invariant gives the metadata. -/
theorem HeapInvariant.metadata (held : HeapInvariant start heap live) (spare : Spare heap) : Metadata heap where
  caches index below := by
    by_cases small : index < 8
    · have ok := held.slabs.ok index small
      refine ⟨ok.nodup, fun slab member => ?_, ok.noneFree, ok.someFree, ok.allFree, spare index⟩
      rw [held.slabs.config.count index below]
      exact (ok.shape slab member).free
    · exact CacheMetadata.of_none (held.slabs.unused index (by omega) below)
  apart first second slab below below' inFirst inSecond := by
    have small : ∀ index, index < cacheCount → slab ∈ (heap.caches index).allSlabs → index < 8 := by
      intro index below member
      by_contra large
      rw [held.slabs.unused index (by omega) below] at member
      exact absurd member List.not_mem_nil
    exact held.slabs.single first second (small first below inFirst) (small second below' inSecond) slab inFirst
      inSecond
  noBug size index slab next small found taken := by
    obtain ⟨other, same, below, -⟩ := getCacheIndex_small size small
    obtain rfl := Option.some.inj (found.symm.trans same)
    obtain ⟨result, after, selected, between, head⟩ := held.takeSlab below
    rw [held.slabs.config.kmallocInit, selected] at taken
    obtain ⟨rfl, rfl⟩ := Prod.mk.inj taken
    obtain ⟨rest, first⟩ := head slab rfl
    obtain ⟨object, searched, -, free⟩ := between.slabs.finds below (show slab ∈ _ by simp [first])
    exact ⟨object, searched, free⟩

/-- An object never starts at the start of a page. -/
theorem object_inner {index slab place page other : Nat} (small : index < 8) (inside : place < classCount index)
    (address : slab = pageAt start page) : slab + classHeader index + place * classSize index ≠ pageAt start other := by
  have bounds := object_inside slab small inside (show 1 ≤ classSize index from (class_layout index small).1)
  unfold slabHeaderSize at bounds
  unfold pageAt pageSize at *
  omega

/-- A small request keeps the invariant. -/
theorem Slabbed.kmalloc {history : History} (slabbed : Slabbed start history) {size : Nat} (positive : 1 ≤ size)
    (small : size ≤ 2048) : Slabbed start (history.step (.kmallocFlags size 0)) := by
  obtain ⟨held, inner, spare⟩ := slabbed
  obtain ⟨index, found, below, fits⟩ := getCacheIndex_small size small
  obtain ⟨result, middle, selected, between, head⟩ := held.takeSlab below
  have few : Spare middle := by
    have kept := spare.takeSlab index
    rwa [selected] at kept
  have moved : history.step (.kmallocFlags size 0) =
      ⟨(cacheAlloc history.heap index 0).2, afterAlloc history.live (cacheAlloc history.heap index 0).1 size⟩ := by
    unfold History.step kmallocFlags
    simp only [held.slabs.config.kmallocInit, found]
    rw [if_neg (by omega)]
  rw [moved, cacheAlloc, selected]
  cases result with
  | none => exact ⟨between, inner, few⟩
  | some slab =>
      obtain ⟨rest, first⟩ := head slab rfl
      obtain ⟨pointer, next, taken, nonzero, final, place, inside, position⟩ :=
        between.takeObject below first (by omega) fits 0
      have kept := few.takeObject index slab 0
      dsimp only
      rw [taken] at kept ⊢
      rw [afterAlloc, if_neg nonzero]
      refine ⟨final, fun region member page => ?_, kept⟩
      obtain rfl | old := List.mem_cons.1 member
      · obtain ⟨home, address, -⟩ := (between.slabs.ok index below).page slab (by simp [Cache.allSlabs, first])
        rw [pageAt_congr between.slabs.layout] at address
        exact position ▸ object_inner below inside address
      · exact inner region old page

/-- Whatever the rest of the kernel does with its own pages keeps the invariant. -/
theorem Slabbed.others {history : History} (slabbed : Slabbed start history)
    (vacant : ∀ page, bitmapTest start page = false) {pmm : PmmState} (layout : SameLayout history.heap.pmm pmm)
    (kept : ∀ index page, index < cacheCount → pageAt pmm page ∈ (history.heap.caches index).allSlabs →
      bitmapTest pmm page = true) : Slabbed start (SlabOp.step history (.others pmm)) := by
  obtain ⟨held, inner, spare⟩ := slabbed
  have slabs := held.slabs.repage history.heap.memory layout
    (fun page _ used => absurd (vacant page) (by simp [used])) fun index small page member _ =>
      kept index page (by unfold cacheCount; omega) (by rwa [pageAt_congr layout])
  refine ⟨⟨slabs, held.positive, fun region member => ?_, held.apart⟩, inner, spare⟩
  refine (held.placed region member).frame layout (fun _ _ _ _ busy _ clear _ => ⟨busy, clear⟩) ?_
  intro first count position
  rw [pageAt_congr held.slabs.layout] at position
  exact absurd position (inner region member first)

/-- The initialization by the first call establishes the invariant. -/
theorem Fresh.begins {history : History} (unused : Fresh start history)
    (vacant : ∀ page, bitmapTest start page = false) (direct : DirectMapped start) :
    Slabbed start ⟨kmallocInit history.heap, []⟩ := by
  refine ⟨HeapInvariant.init unused.fresh (direct.congr unused.layout) unused.layout fun page _ used =>
    absurd (vacant page) (by simp [used]), fun _ member => absurd member List.not_mem_nil, fun index => ?_⟩
  have none := unused.slabs index
  unfold kmallocInit
  rw [unused.fresh, if_neg (by simp)]
  dsimp only
  split
  · simp [cacheInit]
  · simp only [Cache.allSlabs, List.append_eq_nil_iff] at none
    simp [none.2]

/-- The caches of an allocator without slabs. -/
theorem Fresh.metadata {history : History} (unused : Fresh start history)
    (vacant : ∀ page, bitmapTest start page = false) (direct : DirectMapped start) : Metadata history.heap where
  caches index _ := CacheMetadata.of_none (unused.slabs index)
  apart first _ slab _ _ member := by
    rw [unused.slabs first] at member
    exact absurd member List.not_mem_nil
  noBug size index slab next small found taken := by
    obtain ⟨held, -, spare⟩ := unused.begins vacant direct
    refine (held.metadata spare).noBug size index slab next small found ?_
    rw [held.slabs.config.kmallocInit]
    exact taken

/-- Every allowed call keeps the invariant. -/
theorem slabbed_step (vacant : ∀ page, bitmapTest start page = false) (direct : DirectMapped start)
    (history : History) (op : SlabOp) (held : Fresh start history ∨ Slabbed start history)
    (allowed : op.Allowed history) : Fresh start (SlabOp.step history op) ∨ Slabbed start (SlabOp.step history op) := by
  obtain unused | slabbed := held
  · cases op with
    | kmalloc size =>
        have same : History.step ⟨kmallocInit history.heap, []⟩ (.kmallocFlags size 0) =
            SlabOp.step history (.kmalloc size) := by
          simp only [SlabOp.step, History.step, kmallocFlags_init, unused.none]
        exact Or.inr (same ▸ (unused.begins vacant direct).kmalloc allowed.1 allowed.2)
    | kfree pointer =>
        obtain ⟨size, member⟩ := allowed
        rw [unused.none] at member
        exact absurd member List.not_mem_nil
    | others pmm => exact Or.inl ⟨unused.fresh, unused.none, unused.slabs, unused.layout.trans allowed.1⟩
  · right
    cases op with
    | kmalloc size => exact slabbed.kmalloc allowed.1 allowed.2
    | kfree pointer =>
        obtain ⟨size, member⟩ := allowed
        exact ⟨slabbed.held.kfree member, fun region remains => slabbed.inner region (mem_afterFree.1 remains).1,
          slabbed.spare.kfree pointer⟩
    | others pmm => exact slabbed.others vacant allowed.1 allowed.2

/-- In every run of small objects, in which `pmm_alloc` returns any unused page or fails, the slab metadata is sound and
no allocation reports a bug. -/
theorem slab_metadata_sound (heap : HeapState) (unused : heap.initialized = false)
    (none : ∀ index, (heap.caches index).allSlabs = []) (direct : DirectMapped heap.pmm) (ops : List SlabOp)
    (guarded : Guarded SlabOp.step (fun history op => op.Allowed history) ⟨heap, []⟩ ops) :
    Metadata (run SlabOp.step ⟨heap, []⟩ ops).heap := by
  have layout : SameLayout { heap.pmm with bytes := fun _ => 0 } heap.pmm := ⟨rfl, rfl, rfl, rfl⟩
  have vacant : ∀ page, bitmapTest { heap.pmm with bytes := fun _ => 0 } page = false := by
    intro page
    rw [bitmapTest_eq]
    simp
  have direct' : DirectMapped { heap.pmm with bytes := fun _ => 0 } := direct
  generalize ({ heap.pmm with bytes := fun _ => 0 } : PmmState) = start at layout vacant direct'
  have held := run_guarded_invariant SlabOp.step _ (fun history => Fresh start history ∨ Slabbed start history)
    (slabbed_step vacant direct') ⟨heap, []⟩ ops (Or.inl ⟨unused, rfl, none, layout⟩) guarded
  obtain fresh | slabbed := held
  · exact fresh.metadata vacant direct'
  · exact slabbed.held.metadata slabbed.spare

/-- Another part of the kernel takes the first page, and the slab behind it holds a single object that is freed. -/
theorem slab_metadata_sound_single :
    let ops : List SlabOp := [.others { sixteenPages.pmm with bytes := fun _ => 1#8 }, .kmalloc 2048,
      .kfree 0xFFFF800000001800, .kmalloc 1]
    Metadata (run SlabOp.step ⟨sixteenPages, []⟩ ops).heap := by
  intro ops
  have guarded : Guarded SlabOp.step (fun history op => op.Allowed history) ⟨sixteenPages, []⟩ ops :=
    ⟨⟨⟨rfl, rfl, rfl, rfl⟩, fun _ _ _ member => absurd member List.not_mem_nil⟩, ⟨by decide, by decide⟩,
      ⟨2048, by decide +kernel⟩, ⟨by decide, by decide⟩, trivial⟩
  exact slab_metadata_sound sixteenPages rfl (fun _ => rfl) (by unfold DirectMapped; decide) ops guarded

end Uesi.Heap
