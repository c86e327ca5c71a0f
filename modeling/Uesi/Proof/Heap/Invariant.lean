import Uesi.Proof.Heap.Slab
import Uesi.Proof.Pmm.Address

namespace Uesi.Heap

open Library Pmm

variable {heap next : HeapState} {start pmm : PmmState} {index page : Nat} {live : List (Nat × Nat)}

/-- All slabs of a cache. -/
def Cache.allSlabs (cache : Cache) : List Nat :=
  cache.partialSlabs ++ cache.fullSlabs ++ cache.emptySlabs

/-- The slabs of a cache that hold live objects. -/
def Cache.busySlabs (cache : Cache) : List Nat := cache.partialSlabs ++ cache.fullSlabs

theorem Cache.busySlabs_subset (cache : Cache) : cache.busySlabs ⊆ cache.allSlabs :=
  fun _ member => List.mem_append_left _ member

/-- The allocator obtained the page after the start, and the page is still allocated. -/
structure Obtained (start pmm : PmmState) (page : Nat) : Prop where
  tracked : page < pmm.totalPages
  wasFree : bitmapTest start page = false
  used : bitmapTest pmm page = true

/-- A slab header describes the layout of its cache and counts its free objects. -/
structure SlabShape (slab : Slab) (address index : Nat) : Prop where
  objects : slab.objects = address + classHeader index
  total : slab.totalCount = classCount index
  free : slab.freeCount = countBits slab.freeBitmap (classCount index)

/-- The slabs of a cache are distinct obtained pages, and each list has the slabs that it should. -/
structure CacheOk (start : PmmState) (heap : HeapState) (index : Nat) : Prop where
  nodup : (heap.caches index).allSlabs.Nodup
  page : ∀ slab ∈ (heap.caches index).allSlabs,
    ∃ page, slab = pageAt heap.pmm page ∧ Obtained start heap.pmm page
  shape : ∀ slab ∈ (heap.caches index).allSlabs, SlabShape (heap.slabs slab) slab index
  someFree : ∀ slab ∈ (heap.caches index).partialSlabs, 0 < (heap.slabs slab).freeCount
  noneFree : ∀ slab ∈ (heap.caches index).fullSlabs, (heap.slabs slab).freeCount = 0
  allFree : ∀ slab ∈ (heap.caches index).emptySlabs,
    (heap.slabs slab).freeCount = (heap.slabs slab).totalCount

/-- The caches keep their parameters. -/
structure Configured (heap : HeapState) : Prop where
  ready : heap.initialized = true
  size : ∀ index, index < cacheCount → (heap.caches index).objectSize = classSize index
  align : ∀ index, index < cacheCount → (heap.caches index).align = classSize index
  count : ∀ index, index < cacheCount → (heap.caches index).objectsPerSlab = classCount index

/-- The invariant of the slab lists while only the caches up to 2048 bytes are in use. -/
structure SlabInvariant (start : PmmState) (heap : HeapState) : Prop where
  config : Configured heap
  direct : DirectMapped heap.pmm
  layout : SameLayout start heap.pmm
  reserved : ∀ page, page < start.totalPages → bitmapTest start page = true →
    bitmapTest heap.pmm page = true
  ok : ∀ index, index < 8 → CacheOk start heap index
  unused : ∀ index, 8 ≤ index → index < cacheCount → (heap.caches index).allSlabs = []
  single : ∀ first second, first < 8 → second < 8 → ∀ slab,
    slab ∈ (heap.caches first).allSlabs → slab ∈ (heap.caches second).allSlabs → first = second

/-- A live region is an allocated object of a slab, or the front of a run of whole pages. -/
inductive Placed (start : PmmState) (heap : HeapState) (pointer size : Nat) : Prop where
  | object (index slab place : Nat) (small : index < 8)
      (member : slab ∈ (heap.caches index).busySlabs) (inside : place < classCount index)
      (allocated : testBit (heap.slabs slab).freeBitmap place = false)
      (position : pointer = slab + classHeader index + place * classSize index)
      (fits : size ≤ classSize index)
  | pages (first count : Nat) (position : pointer = pageAt heap.pmm first)
      (lower : (count - 1) * pageSize < size) (upper : size ≤ count * pageSize)
      (held : ∀ page, first ≤ page → page < first + count → Obtained start heap.pmm page)
      (apart : ∀ page, first ≤ page → page < first + count → ∀ index, index < 8 →
        pageAt heap.pmm page ∉ (heap.caches index).allSlabs)

/-- Two regions have no byte in common. -/
def Apart (first second : Nat × Nat) : Prop :=
  first.1 + first.2 ≤ second.1 ∨ second.1 + second.2 ≤ first.1

/-- The invariant of the allocator together with the live regions. -/
structure HeapInvariant (start : PmmState) (heap : HeapState) (live : List (Nat × Nat)) : Prop where
  slabs : SlabInvariant start heap
  positive : ∀ region ∈ live, 0 < region.2
  placed : ∀ region ∈ live, Placed start heap region.1 region.2
  apart : live.Pairwise Apart

theorem Obtained.congr {first second : PmmState} (held : Obtained start first page) (layout : SameLayout first second)
    (kept : bitmapTest first page = true → bitmapTest second page = true) :
    Obtained start second page :=
  ⟨by rw [layout.totalPages]; exact held.tracked, held.wasFree, kept held.used⟩

/-- A cache stays in order when its lists, its headers and its pages stay. -/
theorem CacheOk.frame (held : CacheOk start heap index) (cache : next.caches index = heap.caches index)
    (headers : ∀ slab ∈ (heap.caches index).allSlabs, next.slabs slab = heap.slabs slab)
    (layout : SameLayout heap.pmm next.pmm) (pages : ∀ page, pageAt heap.pmm page ∈ (heap.caches index).allSlabs →
      bitmapTest heap.pmm page = true → bitmapTest next.pmm page = true) :
    CacheOk start next index where
  nodup := by rw [cache]; exact held.nodup
  page slab member := by
    rw [cache] at member
    obtain ⟨page, rfl, obtained⟩ := held.page slab member
    exact ⟨page, (pageAt_congr layout page).symm, obtained.congr layout (pages page member)⟩
  shape slab member := by
    rw [cache] at member
    rw [headers slab member]
    exact held.shape slab member
  someFree slab member := by
    rw [cache] at member
    rw [headers slab (by simp [Cache.allSlabs, member])]
    exact held.someFree slab member
  noneFree slab member := by
    rw [cache] at member
    rw [headers slab (by simp [Cache.allSlabs, member])]
    exact held.noneFree slab member
  allFree slab member := by
    rw [cache] at member
    rw [headers slab (by simp [Cache.allSlabs, member])]
    exact held.allFree slab member

@[simp] theorem setCache_caches (heap : HeapState) (index : Nat) (cache : Cache) :
    (heap.setCache index cache).caches index = cache := Function.update_self _ _ _

theorem setCache_caches_of_ne (heap : HeapState) {other : Nat} (cache : Cache) (different : other ≠ index) :
    (heap.setCache index cache).caches other = heap.caches other :=
  Function.update_of_ne different _ _

@[simp] theorem setCache_slabs (heap : HeapState) (index : Nat) (cache : Cache) :
    (heap.setCache index cache).slabs = heap.slabs := rfl

@[simp] theorem setSlab_caches (heap : HeapState) (address : Nat) (slab : Slab) :
    (heap.setSlab address slab).caches = heap.caches := rfl

@[simp] theorem setSlab_slabs (heap : HeapState) (address : Nat) (slab : Slab) :
    (heap.setSlab address slab).slabs address = slab := Function.update_self _ _ _

theorem setSlab_slabs_of_ne (heap : HeapState) {address other : Nat} (slab : Slab)
    (different : other ≠ address) : (heap.setSlab address slab).slabs other = heap.slabs other :=
  Function.update_of_ne different _ _

/-- The initialization runs once. -/
theorem Configured.kmallocInit (config : Configured heap) : Heap.kmallocInit heap = heap := by
  unfold Heap.kmallocInit
  rw [if_pos config.ready]

/-- The parameters of the caches survive an update of the lists of one cache. -/
theorem Configured.setCache (config : Configured heap) (index : Nat) (cache : Cache)
    (size : cache.objectSize = (heap.caches index).objectSize) (align : cache.align = (heap.caches index).align)
    (count : cache.objectsPerSlab = (heap.caches index).objectsPerSlab) :
    Configured (heap.setCache index cache) := by
  have same : ∀ other, ((heap.setCache index cache).caches other).objectSize = (heap.caches other).objectSize ∧
      ((heap.setCache index cache).caches other).align = (heap.caches other).align ∧
      ((heap.setCache index cache).caches other).objectsPerSlab = (heap.caches other).objectsPerSlab := by
    intro other
    by_cases equal : other = index
    · rw [equal, setCache_caches]
      exact ⟨size, align, count⟩
    · rw [setCache_caches_of_ne _ _ equal]
      exact ⟨rfl, rfl, rfl⟩
  exact ⟨config.ready, fun other inside => (same other).1.trans (config.size other inside),
    fun other inside => (same other).2.1.trans (config.align other inside),
    fun other inside => (same other).2.2.trans (config.count other inside)⟩

/-- A step that changes one cache, headers of that cache only, and pages of no other cache keeps the
slab invariant when it leaves the changed cache in order. -/
theorem SlabInvariant.update (held : SlabInvariant start heap) (small : index < 8) (config : Configured next)
    (layout : SameLayout heap.pmm next.pmm)
    (reserved : ∀ page, page < start.totalPages → bitmapTest start page = true →
      bitmapTest next.pmm page = true) (others : ∀ other, other ≠ index → next.caches other = heap.caches other)
    (headers : ∀ other, other < 8 → other ≠ index → ∀ slab ∈ (heap.caches other).allSlabs,
      next.slabs slab = heap.slabs slab) (pages : ∀ other, other < 8 → other ≠ index → ∀ page,
      pageAt heap.pmm page ∈ (heap.caches other).allSlabs →
      bitmapTest heap.pmm page = true → bitmapTest next.pmm page = true) (ok : CacheOk start next index)
    (fresh : ∀ slab ∈ (next.caches index).allSlabs, ∀ other, other < 8 → other ≠ index →
      slab ∉ (heap.caches other).allSlabs) : SlabInvariant start next where
  config := config
  direct := held.direct.congr layout
  layout := held.layout.trans layout
  reserved := reserved
  ok other inside := by
    by_cases same : other = index
    · rw [same]
      exact ok
    · exact (held.ok other inside).frame (others other same) (headers other inside same) layout
        (pages other inside same)
  unused other low high := by
    rw [others other (by omega)]
    exact held.unused other low high
  single first second firstSmall secondSmall slab firstMember secondMember := by
    by_cases firstSame : first = index
    · by_cases secondSame : second = index
      · rw [firstSame, secondSame]
      · subst firstSame
        rw [others second secondSame] at secondMember
        exact absurd secondMember (fresh slab firstMember second secondSmall secondSame)
    · rw [others first firstSame] at firstMember
      by_cases secondSame : second = index
      · subst secondSame
        exact absurd firstMember (fresh slab secondMember first firstSmall firstSame)
      · rw [others second secondSame] at secondMember
        exact held.single first second firstSmall secondSmall slab firstMember secondMember

/-- A live region stays in place when its object stays allocated, or its pages stay obtained and
become no slab. -/
theorem Placed.frame {pointer size : Nat} (placed : Placed start heap pointer size)
    (layout : SameLayout heap.pmm next.pmm)
    (objects : ∀ index slab place, index < 8 → slab ∈ (heap.caches index).busySlabs →
      place < classCount index → testBit (heap.slabs slab).freeBitmap place = false →
      pointer = slab + classHeader index + place * classSize index →
      slab ∈ (next.caches index).busySlabs ∧ testBit (next.slabs slab).freeBitmap place = false)
    (pages : ∀ first count, pointer = pageAt heap.pmm first → (count - 1) * pageSize < size →
      ∀ page, first ≤ page → page < first + count → Obtained start heap.pmm page →
        (∀ index, index < 8 → pageAt heap.pmm page ∉ (heap.caches index).allSlabs) →
        bitmapTest next.pmm page = true ∧
          ∀ index, index < 8 → pageAt heap.pmm page ∉ (next.caches index).allSlabs) :
    Placed start next pointer size := by
  cases placed with
  | object index slab place small member inside allocated position fits =>
      obtain ⟨kept, clear⟩ := objects index slab place small member inside allocated position
      exact .object index slab place small kept inside clear position fits
  | pages first count position lower upper held apart =>
      have stays := fun page low high => pages first count position lower page low high
        (held page low high) (apart page low high)
      refine .pages first count ?_ lower upper ?_ ?_
      · rw [pageAt_congr layout]
        exact position
      · intro page low high
        exact (held page low high).congr layout fun _ => (stays page low high).1
      · intro page low high
        rw [pageAt_congr layout]
        exact (stays page low high).2

/-- A step that keeps all slabs, all busy slabs, all allocated objects and all used pages keeps every
live region. -/
theorem Placed.keep {pointer size : Nat} (placed : Placed start heap pointer size)
    (layout : SameLayout heap.pmm next.pmm)
    (busy : ∀ index, index < 8 → (heap.caches index).busySlabs ⊆ (next.caches index).busySlabs)
    (slabs : ∀ index, index < 8 → (next.caches index).allSlabs ⊆ (heap.caches index).allSlabs)
    (bits : ∀ index, index < 8 → ∀ slab ∈ (heap.caches index).busySlabs, ∀ place,
      testBit (heap.slabs slab).freeBitmap place = false →
      testBit (next.slabs slab).freeBitmap place = false)
    (used : ∀ page, bitmapTest heap.pmm page = true → bitmapTest next.pmm page = true) :
    Placed start next pointer size := by
  apply placed.frame layout
  · intro index slab place small member _ allocated _
    exact ⟨busy index small member, bits index small slab member place allocated⟩
  · intro first count _ _ page _ _ obtained apart
    exact ⟨used page obtained.used, fun index small inside => apart index small (slabs index small inside)⟩

/-- A slab stands in the list that its header belongs to. -/
def Listed (cache : Cache) (slab : Nat) (record : Slab) : Prop :=
  (slab ∈ cache.partialSlabs ∧ 0 < record.freeCount) ∨ (slab ∈ cache.fullSlabs ∧ record.freeCount = 0) ∨
    (slab ∈ cache.emptySlabs ∧ record.freeCount = record.totalCount)

/-- The slabs apart from one stand in the lists in which they stood before. -/
def Relisted (old cache : Cache) (slab : Nat) : Prop :=
  ∀ other, other ≠ slab → (other ∈ cache.partialSlabs → other ∈ old.partialSlabs) ∧
    (other ∈ cache.fullSlabs → other ∈ old.fullSlabs) ∧ (other ∈ cache.emptySlabs → other ∈ old.emptySlabs)

/-- A step that writes one header and puts its slab into one of the lists of a cache keeps the slab invariant when the
header and the list fit together. -/
theorem SlabInvariant.put (held : SlabInvariant start heap) {slab : Nat} (small : index < 8)
    (page : ∃ page, slab = pageAt heap.pmm page ∧ Obtained start heap.pmm page)
    (alone : ∀ other, other < 8 → other ≠ index → slab ∉ (heap.caches other).allSlabs) (record : Slab)
    (shape : SlabShape record slab index) (cache : Cache) (size : cache.objectSize = (heap.caches index).objectSize)
    (align : cache.align = (heap.caches index).align)
    (count : cache.objectsPerSlab = (heap.caches index).objectsPerSlab) (nodup : cache.allSlabs.Nodup)
    (own : Listed cache slab record) (others : Relisted (heap.caches index) cache slab) :
    SlabInvariant start ((heap.setSlab slab record).setCache index cache) := by
  have ok := held.ok index small
  have config : Configured (heap.setSlab slab record) :=
    ⟨held.config.ready, held.config.size, held.config.align, held.config.count⟩
  have elsewhere : ∀ other, other ≠ slab → (heap.setSlab slab record).slabs other = heap.slabs other :=
    fun other different => setSlab_slabs_of_ne heap record different
  have old : ∀ other ∈ cache.allSlabs, other ≠ slab → other ∈ (heap.caches index).allSlabs := by
    intro other inside different
    obtain ⟨first, second, third⟩ := others other different
    simp only [Cache.allSlabs, List.mem_append] at inside ⊢
    exact inside.imp (Or.imp first second) third
  have distinct := nodup
  simp only [Cache.allSlabs, List.nodup_append, List.mem_append] at distinct
  obtain ⟨⟨_, _, partialFull⟩, _, busyEmpty⟩ := distinct
  refine held.update small (config.setCache index cache size align count) (SameLayout.refl _)
    held.reserved (fun other different => setCache_caches_of_ne _ _ different) ?_ (fun _ _ _ _ _ used => used) ?_ ?_
  · intro other otherSmall different address inside
    apply setSlab_slabs_of_ne
    rintro rfl
    exact alone other otherSmall different inside
  · constructor
    all_goals simp only [setCache_caches, setCache_slabs]
    · exact nodup
    · intro other inside
      by_cases equal : other = slab
      · rw [equal]
        exact page
      · exact ok.page other (old other inside equal)
    · intro other inside
      by_cases equal : other = slab
      · rw [equal, setSlab_slabs]
        exact shape
      · rw [elsewhere other equal]
        exact ok.shape other (old other inside equal)
    -- A slab of a list is an old one, or it is the slab itself and the list fits its header.
    · intro other inside
      by_cases equal : other = slab
      · rw [equal] at inside ⊢
        rw [setSlab_slabs]
        obtain ⟨_, fits⟩ | ⟨member, _⟩ | ⟨member, _⟩ := own
        · exact fits
        · exact absurd rfl (partialFull slab inside slab member)
        · exact absurd rfl (busyEmpty slab (Or.inl inside) slab member)
      · rw [elsewhere other equal]
        exact ok.someFree other ((others other equal).1 inside)
    · intro other inside
      by_cases equal : other = slab
      · rw [equal] at inside ⊢
        rw [setSlab_slabs]
        obtain ⟨member, _⟩ | ⟨_, fits⟩ | ⟨member, _⟩ := own
        · exact absurd rfl (partialFull slab member slab inside)
        · exact fits
        · exact absurd rfl (busyEmpty slab (Or.inr inside) slab member)
      · rw [elsewhere other equal]
        exact ok.noneFree other ((others other equal).2.1 inside)
    · intro other inside
      by_cases equal : other = slab
      · rw [equal] at inside ⊢
        rw [setSlab_slabs]
        obtain ⟨member, _⟩ | ⟨member, _⟩ | ⟨_, fits⟩ := own
        · exact absurd rfl (busyEmpty slab (Or.inl member) slab inside)
        · exact absurd rfl (busyEmpty slab (Or.inr member) slab inside)
        · exact fits
      · rw [elsewhere other equal]
        exact ok.allFree other ((others other equal).2.2 inside)
  · intro other inside cacheIndex cacheSmall different elsewhere
    rw [setCache_caches] at inside
    by_cases equal : other = slab
    · rw [equal] at elsewhere
      exact alone cacheIndex cacheSmall different elsewhere
    · exact different (held.single cacheIndex index cacheSmall small other elsewhere (old other inside equal))

/-- A step that rewrites the header of a slab and rearranges the lists of its cache keeps the slab invariant. -/
theorem SlabInvariant.relist (held : SlabInvariant start heap) {slab : Nat} (small : index < 8)
    (member : slab ∈ (heap.caches index).allSlabs) (record : Slab) (shape : SlabShape record slab index)
    (cache : Cache) (size : cache.objectSize = (heap.caches index).objectSize)
    (align : cache.align = (heap.caches index).align)
    (count : cache.objectsPerSlab = (heap.caches index).objectsPerSlab)
    (permuted : cache.allSlabs.Perm (heap.caches index).allSlabs) (own : Listed cache slab record)
    (others : Relisted (heap.caches index) cache slab) :
    SlabInvariant start ((heap.setSlab slab record).setCache index cache) :=
  held.put small ((held.ok index small).page slab member)
    (fun other otherSmall different inside => different (held.single other index otherSmall small slab inside member))
    record shape cache size align count (permuted.nodup_iff.mpr (held.ok index small).nodup) own others

/-- The live regions stay when the rewritten header keeps its allocated objects and no busy slab
leaves the busy lists. -/
theorem HeapInvariant.relist (held : HeapInvariant start heap live) {slab : Nat} {record : Slab} {cache : Cache}
    (slabs : SlabInvariant start ((heap.setSlab slab record).setCache index cache))
    (permuted : cache.allSlabs.Perm (heap.caches index).allSlabs)
    (busy : (heap.caches index).busySlabs ⊆ cache.busySlabs)
    (bits : ∀ place, testBit (heap.slabs slab).freeBitmap place = false →
      testBit record.freeBitmap place = false) :
    HeapInvariant start ((heap.setSlab slab record).setCache index cache) live := by
  refine ⟨slabs, held.positive, ?_, held.apart⟩
  intro region inside
  refine (held.placed region inside).keep (SameLayout.refl _) ?_ ?_ ?_ fun _ used => used
  · intro other _
    by_cases same : other = index
    · subst same
      rw [setCache_caches]
      exact busy
    · rw [setCache_caches_of_ne _ _ same]
      exact List.Subset.refl _
  · intro other _
    by_cases same : other = index
    · subst same
      rw [setCache_caches]
      exact permuted.subset
    · rw [setCache_caches_of_ne _ _ same]
      exact List.Subset.refl _
  · intro _ _ other _ place clear
    rw [setCache_slabs]
    by_cases same : other = slab
    · subst same
      rw [setSlab_slabs]
      exact bits place clear
    · rw [setSlab_slabs_of_ne heap record same]
      exact clear

/-- A step on the pages and on the memory of the objects keeps the slab invariant when it keeps the pages that were in
use at the start and the pages of the slabs. -/
theorem SlabInvariant.repage (held : SlabInvariant start heap) (memory : Nat → BitVec 8)
    (same : SameLayout heap.pmm pmm)
    (reserved : ∀ page, page < start.totalPages → bitmapTest start page = true → bitmapTest heap.pmm page = true →
      bitmapTest pmm page = true)
    (pages : ∀ index, index < 8 → ∀ page, pageAt heap.pmm page ∈ (heap.caches index).allSlabs →
      bitmapTest heap.pmm page = true → bitmapTest pmm page = true) :
    SlabInvariant start { heap with pmm := pmm, memory := memory } where
  config := ⟨held.config.ready, held.config.size, held.config.align, held.config.count⟩
  direct := held.direct.congr same
  layout := held.layout.trans same
  reserved page inside used := reserved page inside used (held.reserved page inside used)
  ok index small := (held.ok index small).frame rfl (fun _ _ => rfl) same (pages index small)
  unused := held.unused
  single := held.single

/-- The memory of the objects takes no part in the invariant. -/
theorem HeapInvariant.withMemory (held : HeapInvariant start heap live) (memory : Nat → BitVec 8) :
    HeapInvariant start { heap with memory := memory } live where
  slabs := held.slabs.repage memory (SameLayout.refl _) (fun _ _ _ used => used) fun _ _ _ _ used => used
  positive := held.positive
  placed region member := (held.placed region member).keep (SameLayout.refl _)
    (fun _ _ => List.Subset.refl _) (fun _ _ => List.Subset.refl _) (fun _ _ _ _ _ clear => clear)
    fun _ used => used
  apart := held.apart

/-- An allocation of pages keeps every slab and every live region. -/
theorem HeapInvariant.takePages (held : HeapInvariant start heap live) {pages : List Nat}
    (taken : Takes heap.pmm pmm pages) : HeapInvariant start { heap with pmm := pmm } live where
  slabs := held.slabs.repage heap.memory taken.layout (fun page _ _ used => (taken.bits page).mpr (Or.inl used))
    fun _ _ page _ used => (taken.bits page).mpr (Or.inl used)
  positive := held.positive
  placed region member := (held.placed region member).keep taken.layout
    (fun _ _ => List.Subset.refl _) (fun _ _ => List.Subset.refl _) (fun _ _ _ _ _ clear => clear)
    fun page used => (taken.bits page).mpr (Or.inl used)
  apart := held.apart

/-- A page that an allocation takes counts as obtained. -/
theorem SlabInvariant.obtained (held : SlabInvariant start heap) {pages : List Nat} (taken : Takes heap.pmm pmm pages)
    (member : page ∈ pages) : Obtained start pmm page := by
  obtain ⟨inside, clear⟩ := taken.clear page member
  refine ⟨by rw [taken.layout.totalPages]; exact inside, ?_, (taken.bits page).mpr (Or.inr member)⟩
  by_contra used
  have still := held.reserved page (by rw [← held.layout.totalPages]; exact inside) (by simpa using used)
  rw [clear] at still
  exact absurd still (by simp)

/-- A page that is free is no slab. -/
theorem SlabInvariant.not_slab_of_clear (held : SlabInvariant start heap) (clear : bitmapTest heap.pmm page = false)
    (small : index < 8) : pageAt heap.pmm page ∉ (heap.caches index).allSlabs := by
  intro member
  obtain ⟨other, same, obtained⟩ := (held.ok index small).page _ member
  obtain rfl := pageAt_injective same
  have used := obtained.used
  rw [clear] at used
  exact absurd used (by simp)

end Uesi.Heap
