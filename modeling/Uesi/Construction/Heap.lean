import Uesi.Construction.Pmm
import Uesi.Library.Memory

namespace Uesi.Heap

open Library Pmm

def cacheCount : Nat := 10

def cacheSizes : List Nat := [16, 32, 64, 128, 256, 512, 1024, 2048, 4096, 8192]

/-- This is `sizeof(slab_t)`. -/
def slabHeaderSize : Nat := 32

def kmallocZero : BitVec 32 := 1

/-- The fields of `slab_t` except the list link, with the words of the bitmap behind the header. -/
structure Slab where
  objects : Nat := 0
  freeCount : Nat := 0
  totalCount : Nat := 0
  freeBitmap : Nat → BitVec 64 := fun _ => 0

/-- The fields of `cache_t`, where each slab list holds the addresses of its slabs. -/
structure Cache where
  objectSize : Nat := 0
  align : Nat := 0
  objectsPerSlab : Nat := 0
  partialSlabs : List Nat := []
  fullSlabs : List Nat := []
  emptySlabs : List Nat := []

/-- The state of the allocator: the page allocator, the caches, the slab headers by address and the
memory of the objects. -/
structure HeapState where
  pmm : PmmState
  initialized : Bool := false
  caches : Nat → Cache := fun _ => {}
  slabs : Nat → Slab := fun _ => {}
  memory : Nat → BitVec 8 := fun _ => 0

/-- This is `get_cache_index`, where `none` stands for `-1`. -/
def getCacheIndex (size : Nat) : Option Nat := cacheSizes.findIdx? fun cacheSize => size ≤ cacheSize

def calculateObjectsPerSlab (objectSize align : Nat) : Nat :=
  let estimatedObjects := 200
  let bitmapSize := (estimatedObjects + 63) / 64 * 8
  let headerTotal := slabHeaderSize + bitmapSize
  let alignedStart := alignUp64 align headerTotal
  let usableSize := sub64 pageSize alignedStart
  let objects := usableSize / objectSize % 2 ^ 32
  let objects := if 256 < objects then 256 else objects
  if objects < 1 then 1 else objects

def cacheInit (objectSize align : Nat) : Cache where
  objectSize := objectSize
  align := align
  objectsPerSlab := calculateObjectsPerSlab objectSize align

def kmallocInit (heap : HeapState) : HeapState :=
  if heap.initialized then heap
  else { heap with
    initialized := true
    caches := fun index => if index < cacheCount then
      cacheInit (cacheSizes.getD index 0) (cacheSizes.getD index 0) else heap.caches index }

/-- The number of bitmap words of a slab. -/
def bitmapWords (objectsPerSlab : Nat) : Nat := (objectsPerSlab + 63) / 64

/-- The words of a fresh bitmap have one set bit for each object. -/
def freshBitmap (objectsPerSlab : Nat) (old : Nat → BitVec 64) : Nat → BitVec 64 :=
  let words := bitmapWords objectsPerSlab
  let filled := fun index => if index < words then BitVec.allOnes 64 else old index
  let extraBits := words * 64 - objectsPerSlab
  if 0 < extraBits ∧ extraBits < 64 then
    let validBits := 64 - extraBits
    let mask := if validBits = 64 then BitVec.allOnes 64 else (1#64 <<< validBits) - 1#64
    Function.update filled (words - 1) mask
  else filled

/-- The offset of the first object in a slab. -/
def alignedHeader (cache : Cache) : Nat :=
  alignUp64 cache.align (slabHeaderSize + bitmapWords cache.objectsPerSlab * 8)

/-- This is `slab_create`, where `none` stands for `NULL`. -/
def slabCreate (heap : HeapState) (cache : Cache) : Option Nat × HeapState :=
  match pmmAlloc heap.pmm with
  | (page, pmm) =>
      if page = 0 then (none, { heap with pmm := pmm })
      else
        let slab : Slab := {
          objects := add64 page (alignedHeader cache)
          freeCount := cache.objectsPerSlab
          totalCount := cache.objectsPerSlab
          freeBitmap := freshBitmap cache.objectsPerSlab (heap.slabs page).freeBitmap }
        (some page, { heap with pmm := pmm, slabs := Function.update heap.slabs page slab })

/-- The inner loop of `slab_find_free` visits the bits of one word. -/
def findInWord (word : BitVec 64) (wordIndex objectsPerSlab : Nat) : Option Nat :=
  (List.range 64).findSome? fun bit =>
    if word &&& (1#64 <<< bit) ≠ 0 then
      if wordIndex * 64 + bit < objectsPerSlab then some (wordIndex * 64 + bit) else none
    else none

/-- This is `slab_find_free`, where `none` stands for `-1`. -/
def slabFindFree (slab : Slab) (cache : Cache) : Option Nat :=
  (List.range (bitmapWords cache.objectsPerSlab)).findSome? fun index =>
    if slab.freeBitmap index ≠ 0 then findInWord (slab.freeBitmap index) index cache.objectsPerSlab
    else none

def isObjectFree (slab : Slab) (index : Nat) : Bool :=
  (slab.freeBitmap (index / 64) &&& (1#64 <<< (index % 64))) != 0

def slabMarkAllocated (slab : Slab) (index : Nat) : Slab :=
  { slab with
    freeBitmap := Function.update slab.freeBitmap (index / 64)
      (slab.freeBitmap (index / 64) &&& ~~~(1#64 <<< (index % 64)))
    freeCount := (slab.freeCount + (2 ^ 32 - 1)) % 2 ^ 32 }

def slabMarkFree (slab : Slab) (index : Nat) : Slab :=
  { slab with
    freeBitmap := Function.update slab.freeBitmap (index / 64)
      (slab.freeBitmap (index / 64) ||| (1#64 <<< (index % 64)))
    freeCount := (slab.freeCount + 1) % 2 ^ 32 }

/-- An update of one cache. -/
def HeapState.setCache (heap : HeapState) (index : Nat) (cache : Cache) : HeapState :=
  { heap with caches := Function.update heap.caches index cache }

/-- An update of one slab header. -/
def HeapState.setSlab (heap : HeapState) (address : Nat) (slab : Slab) : HeapState :=
  { heap with slabs := Function.update heap.slabs address slab }

/-- The first part of `cache_alloc` finds a slab and puts it at the head of the partial list. -/
def takeSlab (heap : HeapState) (index : Nat) : Option Nat × HeapState :=
  let cache := heap.caches index
  match cache.partialSlabs with
  | slab :: _ => (some slab, heap)
  | [] =>
      match cache.emptySlabs with
      | slab :: rest =>
          (some slab, heap.setCache index { cache with emptySlabs := rest, partialSlabs := [slab] })
      | [] =>
          match slabCreate heap cache with
          | (none, heap) => (none, heap)
          | (some slab, heap) => (some slab, heap.setCache index { cache with partialSlabs := [slab] })

/-- The second part of `cache_alloc` takes an object of the slab, where zero stands for `NULL`. -/
def takeObject (heap : HeapState) (index slab : Nat) (flags : BitVec 32) : Nat × HeapState :=
  let cache := heap.caches index
  match slabFindFree (heap.slabs slab) cache with
  | none => (0, heap)
  | some object =>
      if isObjectFree (heap.slabs slab) object = false then (0, heap)
      else
        let address := add64 (heap.slabs slab).objects (object * cache.objectSize)
        let marked := slabMarkAllocated (heap.slabs slab) object
        let heap := heap.setSlab slab marked
        let heap := if marked.freeCount = 0 then
          heap.setCache index { cache with
            partialSlabs := cache.partialSlabs.tail
            fullSlabs := slab :: cache.fullSlabs } else heap
        let heap := if flags &&& kmallocZero ≠ 0 then
          { heap with memory := memset heap.memory address 0 cache.objectSize } else heap
        (address, heap)

def cacheAlloc (heap : HeapState) (index : Nat) (flags : BitVec 32) : Nat × HeapState :=
  match takeSlab heap index with
  | (none, heap) => (0, heap)
  | (some slab, heap) => takeObject heap index slab flags

/-- This is `kmalloc_flags`, where zero stands for `NULL`. -/
def kmallocFlags (heap : HeapState) (size : Nat) (flags : BitVec 32) : Nat × HeapState :=
  let heap := kmallocInit heap
  if size = 0 then (0, heap)
  else
    match getCacheIndex size with
    | some index => cacheAlloc heap index flags
    | none =>
        let numPages := add64 size (pageSize - 1) / pageSize
        match pmmAllocContiguous heap.pmm numPages with
        | (address, pmm) =>
            let heap := { heap with pmm := pmm }
            if address ≠ 0 ∧ flags &&& kmallocZero ≠ 0 then
              (address, { heap with memory := memset heap.memory address 0 (numPages * pageSize) })
            else (address, heap)

/-- What `find_allocation` learns from one slab. -/
inductive SlabVerdict where
  | next
  | invalid
  | object (index : Nat)
  deriving DecidableEq, Repr

/-- The body of the loops of `find_allocation`. -/
def inspectSlab (heap : HeapState) (pointer index slab : Nat) : SlabVerdict :=
  let cache := heap.caches index
  let objects := (heap.slabs slab).objects
  if slab ≤ pointer ∧ pointer < add64 slab pageSize then
    if pointer < objects then .invalid
    else if (pointer - objects) % cache.objectSize ≠ 0 then .invalid
    else if (pointer - objects) / cache.objectSize < cache.objectsPerSlab then
      .object ((pointer - objects) / cache.objectSize)
    else .next
  else .next

/-- The slabs in the order in which `find_allocation` visits them, with the index of their cache. -/
def searchOrder (heap : HeapState) : List (Nat × Nat) :=
  (List.range cacheCount).flatMap fun index =>
    ((heap.caches index).partialSlabs ++ (heap.caches index).fullSlabs).map fun slab => (index, slab)

/-- A verdict continues the search, ends it without an answer or gives the answer. -/
def SlabVerdict.answer (place : Nat × Nat) : SlabVerdict → Option (Option (Nat × Nat × Nat))
  | .next => none
  | .invalid => some none
  | .object index => some (some (place.1, place.2, index))

/-- This is `find_allocation`, with the cache, the slab and the index of the object. -/
def findAllocation (heap : HeapState) (pointer : Nat) : Option (Nat × Nat × Nat) :=
  if pointer = 0 then none
  else
    ((searchOrder heap).findSome? fun place =>
      (inspectSlab heap pointer place.1 place.2).answer place).join

def cacheFree (heap : HeapState) (index slab object : Nat) : HeapState :=
  if isObjectFree (heap.slabs slab) object then heap
  else
    let cache := heap.caches index
    let marked := slabMarkFree (heap.slabs slab) object
    let heap := heap.setSlab slab marked
    if marked.freeCount = 1 then
      heap.setCache index { cache with
        fullSlabs := cache.fullSlabs.erase slab
        partialSlabs := slab :: cache.partialSlabs }
    else if marked.freeCount = marked.totalCount then
      let cache := { cache with partialSlabs := cache.partialSlabs.erase slab }
      if min 2 cache.emptySlabs.length < 2 then
        heap.setCache index { cache with emptySlabs := slab :: cache.emptySlabs }
      else { heap.setCache index cache with pmm := pmmFree heap.pmm slab }
    else heap

def kfree (heap : HeapState) (pointer : Nat) : HeapState :=
  if pointer = 0 then heap
  else
    match findAllocation heap pointer with
    | some (index, slab, object) => cacheFree heap index slab object
    | none => { heap with pmm := pmmFree heap.pmm pointer }

end Uesi.Heap
