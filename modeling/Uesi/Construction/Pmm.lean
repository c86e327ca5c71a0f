import Uesi.Library.Loop
import Uesi.Library.Word64
import Mathlib.Logic.Function.Basic

namespace Uesi.Pmm

open Library

def pageSize : Nat := 4096

/-- The boot protocol gives each region of the memory map a type. -/
inductive MemmapType where
  | usable
  | reserved
  | acpiReclaimable
  | acpiNvs
  | badMemory
  | bootloaderReclaimable
  | kernelAndModules
  | framebuffer
  | unknown (code : Nat)
  deriving DecidableEq, Repr

/-- This is `struct limine_memmap_entry`. -/
structure MemmapEntry where
  base : Nat
  length : Nat
  type : MemmapType
  deriving DecidableEq, Repr

/-- This is `pmm_stats_t`. -/
structure PmmStats where
  totalPhysical : Nat := 0
  usableMemory : Nat := 0
  reservedMemory : Nat := 0
  bootloaderReclaimable : Nat := 0
  totalPages : Nat := 0
  freePages : Nat := 0
  usedPages : Nat := 0
  peakUsedPages : Nat := 0
  allocCount : Nat := 0
  freeCount : Nat := 0
  bitmapSize : Nat := 0
  deriving DecidableEq, Repr

/-- The static variables of the allocator, with the memory that starts at the bitmap. -/
structure PmmState where
  bitmap : Nat := 0
  bytes : Nat → BitVec 8
  totalPages : Nat := 0
  totalPages_lt : totalPages < 2 ^ 64 := by decide
  freePages : Nat := 0
  usablePages : Nat := 0
  bitmapSize : Nat := 0
  hhdmOffset : Nat := 0
  lastAllocHint : Nat := 0
  stats : PmmStats := {}
  savedMemmap : Option (List MemmapEntry) := none

def bitmapSet (state : PmmState) (index : Nat) : PmmState :=
  { state with
    bytes := Function.update state.bytes (index / 8)
      (state.bytes (index / 8) ||| (1#8 <<< (index % 8))) }

def bitmapClear (state : PmmState) (index : Nat) : PmmState :=
  { state with
    bytes := Function.update state.bytes (index / 8)
      (state.bytes (index / 8) &&& ~~~(1#8 <<< (index % 8))) }

def bitmapTest (state : PmmState) (index : Nat) : Bool :=
  (state.bytes (index / 8) &&& (1#8 <<< (index % 8))) != 0#8

/-- The word view of `bitmap_as_qwords` reads eight bytes in little-endian order. -/
def qword (state : PmmState) (index : Nat) : BitVec 64 :=
  state.bytes (8 * index + 7) ++ state.bytes (8 * index + 6) ++ state.bytes (8 * index + 5) ++
    state.bytes (8 * index + 4) ++ state.bytes (8 * index + 3) ++ state.bytes (8 * index + 2) ++
    state.bytes (8 * index + 1) ++ state.bytes (8 * index)

def builtinCtzll (word : BitVec 64) : Nat :=
  ((List.range 64).find? fun bit => word.getLsbD bit).getD 64

/-- One loop of `find_free_page_fast` visits `count` words from `index` on. -/
def scanQwords (state : PmmState) : Nat → Nat → Option Nat
  | 0, _ => none
  | count + 1, index =>
      if qword state index ≠ BitVec.allOnes 64 then
        let page := index * 64 + builtinCtzll (~~~qword state index)
        if page < state.totalPages then some page else scanQwords state count (index + 1)
      else scanQwords state count (index + 1)

/-- This is `find_free_page_fast`, where `none` stands for `(uint64_t)-1`. -/
def findFreePageFast (state : PmmState) : Option Nat × PmmState :=
  let bitmapQwords := add64 state.totalPages 63 / 64
  let startQword := state.lastAllocHint / 64
  match scanQwords state (bitmapQwords - startQword) startQword with
  | some page => (some page, { state with lastAllocHint := page })
  | none =>
      match scanQwords state startQword 0 with
      | some page => (some page, { state with lastAllocHint := page })
      | none => (none, state)

/-- The loop of `find_free_contiguous` has `remaining` pages left from `index` on. -/
def scanContiguous (state : PmmState) (numPages : Nat) : Nat → Nat → Nat → Nat → Option Nat
  | 0, _, _, _ => none
  | remaining + 1, index, start, count =>
      if bitmapTest state index = false then
        let start := if count = 0 then index else start
        if count + 1 = numPages then some start
        else scanContiguous state numPages remaining (index + 1) start (count + 1)
      else scanContiguous state numPages remaining (index + 1) start 0

/-- This is `find_free_contiguous`, where `none` stands for `(uint64_t)-1`. -/
def findFreeContiguous (state : PmmState) (numPages : Nat) : Option Nat :=
  if numPages = 0 ∨ state.totalPages < numPages then none
  else scanContiguous state numPages state.totalPages 0 0 0

/-- The allocators refresh the free, used and peak counts. -/
def recordAlloc (state : PmmState) (count : Nat) : PmmState :=
  let used := sub64 state.usablePages state.freePages
  { state with stats := { state.stats with
      freePages := state.freePages
      usedPages := used
      allocCount := add64 state.stats.allocCount count
      peakUsedPages := max state.stats.peakUsedPages used } }

/-- The releases refresh the free and used counts. -/
def recordFree (state : PmmState) (count : Nat) : PmmState :=
  { state with stats := { state.stats with
      freePages := state.freePages
      usedPages := sub64 state.usablePages state.freePages
      freeCount := add64 state.stats.freeCount count } }

/-- The body of both allocators marks one page and lowers the free count. -/
def takePage (state : PmmState) (page : Nat) : PmmState :=
  { bitmapSet state page with freePages := sub64 state.freePages 1 }

/-- The body of every release clears one page and raises the free count. -/
def returnPage (state : PmmState) (page : Nat) : PmmState :=
  { bitmapClear state page with freePages := add64 state.freePages 1 }

/-- This is `pmm_alloc` up to the page index that it hands out. -/
def pmmAllocPage (state : PmmState) : Option Nat × PmmState :=
  match findFreePageFast state with
  | (none, state) => (none, state)
  | (some page, state) => (some page, recordAlloc (takePage state page) 1)

/-- The higher-half address of a page index. -/
def pageAddress (state : PmmState) (page : Nat) : Nat :=
  add64 (page * pageSize % 2 ^ 64) state.hhdmOffset

/-- The page index of a higher-half address. -/
def addressPage (state : PmmState) (address : Nat) : Nat :=
  sub64 address state.hhdmOffset / pageSize

/-- This is `pmm_alloc`, where address zero is `NULL`. -/
def pmmAlloc (state : PmmState) : Nat × PmmState :=
  match pmmAllocPage state with
  | (none, next) => (0, next)
  | (some page, next) => (pageAddress state page, next)

def pmmFree (state : PmmState) (address : Nat) : PmmState :=
  if address = 0 then state
  else
    let page := addressPage state address
    if state.totalPages ≤ page then state
    else if bitmapTest state page = false then state
    else
      let next := recordFree (returnPage state page) 1
      if page < state.lastAllocHint then { next with lastAllocHint := page } else next

/-- This is `pmm_alloc_contiguous` up to the first page index that it hands out. -/
def pmmAllocContiguousPage (state : PmmState) (numPages : Nat) : Option Nat × PmmState :=
  if numPages = 0 then (none, state)
  else if numPages = 1 then pmmAllocPage state
  else
    match findFreeContiguous state numPages with
    | none => (none, state)
    | some start =>
        (some start, recordAlloc
          (countedLoop (fun index current => takePage current (start + index)) numPages state) numPages)

/-- This is `pmm_alloc_contiguous`, where address zero is `NULL`. -/
def pmmAllocContiguous (state : PmmState) (numPages : Nat) : Nat × PmmState :=
  match pmmAllocContiguousPage state numPages with
  | (none, next) => (0, next)
  | (some start, next) => (pageAddress state start, next)

/-- One iteration of `pmm_free_contiguous` skips pages out of range and pages already free. -/
def releasePage (state : PmmState) (page : Nat) : PmmState :=
  if state.totalPages ≤ page then state
  else if bitmapTest state page = false then state
  else returnPage state page

def pmmFreeContiguous (state : PmmState) (base numPages : Nat) : PmmState :=
  if base = 0 ∨ numPages = 0 then state
  else
    let start := addressPage state base
    recordFree (countedLoop (fun index current => releasePage current (add64 start index))
      numPages state) numPages

/-- The first whole page of an entry, rounded up in 64 bits. -/
def alignedBase (entry : MemmapEntry) : Nat := alignUp64 pageSize entry.base

/-- The end of the last whole page of an entry, rounded down in 64 bits. -/
def alignedEnd (entry : MemmapEntry) : Nat :=
  alignDown pageSize (add64 entry.base entry.length)

/-- Both map loops visit the whole pages of one entry. -/
def forEntryPages (body : Nat → PmmState → PmmState) (entry : MemmapEntry)
    (state : PmmState) : PmmState :=
  if alignedBase entry < alignedEnd entry then
    countedLoop (fun index => body (alignedBase entry / pageSize + index))
      ((alignedEnd entry - alignedBase entry) / pageSize) state
  else state

/-- One iteration of `pmm_reclaim_bootloader_memory` frees a page that is not free. -/
def reclaimPage (page : Nat) (state : PmmState) : PmmState :=
  if page < state.totalPages ∧ bitmapTest state page = true then
    { returnPage state page with usablePages := add64 state.usablePages 1 }
  else state

def pmmReclaimBootloaderMemory (state : PmmState) : PmmState :=
  match state.savedMemmap with
  | none => state
  | some entries =>
      let next := entries.foldl (fun current entry =>
        if entry.type = .bootloaderReclaimable then forEntryPages reclaimPage entry current
        else current) state
      { next with stats := { next.stats with
          freePages := next.freePages
          usedPages := sub64 next.usablePages next.freePages } }

/-- The counting loop of `pmm_validate` runs over the pages below `count`. -/
def countFree (state : PmmState) (count : Nat) : Nat :=
  countedLoop (fun page counted => if bitmapTest state page = false then counted + 1 else counted)
    count 0

def pmmValidate (state : PmmState) : Bool :=
  if state.bitmap = 0 then false
  else countFree state state.totalPages == state.freePages

/-- One iteration of the first loop of `pmm_init` records an entry that does not overflow. -/
def surveyEntry (survey : Nat × PmmStats) (entry : MemmapEntry) : Nat × PmmStats :=
  if 2 ^ 64 - 1 - entry.length < entry.base then survey
  else
    let top := add64 entry.base entry.length
    match entry.type with
    | .usable => (max survey.1 top, { survey.2 with
        usableMemory := add64 survey.2.usableMemory entry.length
        totalPhysical := add64 survey.2.totalPhysical entry.length })
    | .bootloaderReclaimable => (max survey.1 top, { survey.2 with
        bootloaderReclaimable := add64 survey.2.bootloaderReclaimable entry.length
        totalPhysical := add64 survey.2.totalPhysical entry.length })
    | .reserved | .acpiReclaimable | .acpiNvs =>
        if entry.base < 0x100000000 then
          (survey.1, { survey.2 with
            reservedMemory := add64 survey.2.reservedMemory entry.length })
        else survey
    | _ => survey

/-- The first loop of `pmm_init` finds `highest_usable_addr` and the region totals. -/
def surveyMemmap (entries : List MemmapEntry) (stats : PmmStats) : Nat × PmmStats :=
  entries.foldl surveyEntry (0, { stats with
    totalPhysical := 0, usableMemory := 0, reservedMemory := 0, bootloaderReclaimable := 0 })

theorem surveyEntry_lt (survey : Nat × PmmStats) (entry : MemmapEntry)
    (bounded : survey.1 < 2 ^ 64) : (surveyEntry survey entry).1 < 2 ^ 64 := by
  have top := add64_lt entry.base entry.length
  unfold surveyEntry
  split
  · exact bounded
  · dsimp only
    split
    · exact max_lt bounded top
    · exact max_lt bounded top
    all_goals first | exact bounded | (split <;> exact bounded)

theorem surveyMemmap_lt (entries : List MemmapEntry) (stats : PmmStats) :
    (surveyMemmap entries stats).1 < 2 ^ 64 := by
  unfold surveyMemmap
  generalize survey : (0, { stats with
    totalPhysical := 0, usableMemory := 0, reservedMemory := 0, bootloaderReclaimable := 0 }) = start
  have bounded : start.1 < 2 ^ 64 := by rw [← survey]; exact Nat.two_pow_pos 64
  clear survey
  induction entries generalizing start with
  | nil => exact bounded
  | cons entry rest ih => exact ih _ (surveyEntry_lt start entry bounded)

/-- The second loop of `pmm_init` carves the bitmap out of the first usable entry that holds it. -/
def placeBitmap (bitmapSize hhdmOffset : Nat) : List MemmapEntry → Nat × List MemmapEntry
  | [] => (0, [])
  | entry :: rest =>
      if entry.type = .usable ∧ bitmapSize ≤ entry.length then
        (add64 entry.base hhdmOffset, { entry with
          base := add64 entry.base bitmapSize
          length := entry.length - bitmapSize } :: rest)
      else
        let placed := placeBitmap bitmapSize hhdmOffset rest
        (placed.1, entry :: placed.2)

/-- The bitmap starts with every page used, and then the code patches its last byte. -/
def initialBytes (memory : Nat → BitVec 8) (totalPages bitmapSize : Nat) : Nat → BitVec 8 :=
  let filled := fun index => if index < bitmapSize then 0xFF#8 else memory index
  let excessBits := totalPages % 8
  if excessBits ≠ 0 then
    let mask := (1#8 <<< excessBits) - 1#8
    Function.update filled (bitmapSize - 1) (0xFF#8 &&& ~~~mask)
  else filled

/-- One iteration of the last loop of `pmm_init` frees a page of a usable entry. -/
def initPage (page : Nat) (state : PmmState) : PmmState :=
  if page < state.totalPages then
    { returnPage state page with usablePages := add64 state.usablePages 1 }
  else state

/-- The last loop of `pmm_init` frees the whole pages of each usable entry. -/
def initEntries (entries : List MemmapEntry) (state : PmmState) : PmmState :=
  entries.foldl (fun current entry =>
    if entry.type = .usable then forEntryPages initPage entry current else current) state

/-- This is `pmm_init`, where `memory` is the content found at the address of the bitmap. -/
def pmmInit (state : PmmState) (memory : Nat → BitVec 8) (memmap : Option (List MemmapEntry))
    (hhdm : Option Nat) : PmmState :=
  match memmap, hhdm with
  | some entries, some offset =>
      let survey := surveyMemmap entries state.stats
      let totalPages := survey.1 / pageSize
      let bitmapSize := add64 totalPages 7 / 8
      let placed := placeBitmap bitmapSize offset entries
      let start := { state with
        savedMemmap := some placed.2
        hhdmOffset := offset
        totalPages := totalPages
        totalPages_lt := lt_of_le_of_lt (Nat.div_le_self _ _) (surveyMemmap_lt entries state.stats)
        bitmapSize := bitmapSize
        bitmap := placed.1
        stats := survey.2 }
      if placed.1 = 0 then start
      else
        let next := initEntries placed.2 { start with
          bytes := initialBytes memory totalPages bitmapSize
          freePages := 0
          usablePages := 0 }
        { next with stats := { next.stats with
            totalPages := next.totalPages
            freePages := next.freePages
            usedPages := 0
            peakUsedPages := 0
            allocCount := 0
            freeCount := 0
            bitmapSize := next.bitmapSize } }
  | _, _ => state

end Uesi.Pmm
