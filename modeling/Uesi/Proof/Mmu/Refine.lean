import Uesi.Proof.Mmu.Create

namespace Uesi.Mmu

open Library Pmm

variable {pd : PageDirectory} {virt : Nat}

/-- The operations on one directory, with the calls of the page allocator by others in between. -/
inductive TableOp where
  | map (virt phys : Nat) (flags : BitVec 64)
  | unmap (virt : Nat)
  | other (op : PmmOp)

/-- The state after an operation and the answer of `mmu_map_page` or `mmu_unmap_page`. -/
def tableStep (pd : PageDirectory) (state : MmuState) : TableOp → MmuState × Bool
  | .map virt phys flags => (mmuMapPage state pd virt phys flags).swap
  | .unmap virt => (mmuUnmapPage state pd virt).swap
  | .other op => ({ state with pmm := pmmStep state.pmm op }, true)

/-- The state after a run of operations. -/
def tableRun (pd : PageDirectory) : MmuState → List TableOp → MmuState :=
  Library.run fun current op => (tableStep pd current op).1

/-- The calls that the map is about: addresses in the user half, non-zero aligned physical addresses of
52 bits and flags outside the address bits. The others do not free the tables of the directory. -/
def ValidTableOp (pd : PageDirectory) (state : MmuState) : TableOp → Prop
  | .map virt phys flags => virt < 2 ^ 47 ∧ phys ≠ 0 ∧ phys % pageSize = 0 ∧ phys < 2 ^ 52 ∧
      flags &&& pageAddrMask = 0
  | .unmap virt => virt < 2 ^ 47
  | .other op => ∀ page, Released state.pmm op page → ∀ path, UserPath path → path.length ≤ 3 →
      walk state pd.pml4 path ≠ some (pageAt state.pmm page)

/-- A finite map from virtual pages to physical addresses after an operation with its answer: a mapping
that succeeds binds its page, and an unmapping removes it. -/
def record (map : Nat → Option Nat) : TableOp × Bool → Nat → Option Nat
  | (.map virt phys _, true) => Function.update map (virt / pageSize) (some phys)
  | (.unmap virt, _) => Function.update map (virt / pageSize) none
  | _ => map

/-- The last successful mapping of each page that no unmapping followed. -/
def lastMapping (events : List (TableOp × Bool)) : Nat → Option Nat :=
  events.foldl record fun _ => none

/-- The tables are in order and hold the map. -/
structure Refines (state : MmuState) (root : Nat) (map : Nat → Option Nat) : Prop where
  tables : Tables state root
  agrees : ∀ virt, virt < 2 ^ 47 → (leaf state root virt).map entryAddress = map (virt / pageSize)

variable {state : MmuState} {root : Nat} {map : Nat → Option Nat}

/-- `mmu_get_physical_address` reads the map and adds the offset in the page. -/
theorem Refines.getPhysicalAddress (refines : Refines state root map) (given : pd.pml4 = root) (nonzero : root ≠ 0)
    (low : virt < 2 ^ 47) :
    mmuGetPhysicalAddress state pd virt = (map (virt / pageSize)).elim 0 (· + virt % pageSize) := by
  rw [mmuGetPhysicalAddress_leaf given nonzero, ← refines.agrees virt low]
  cases leaf state root virt with
  | none => rfl
  | some entry => rfl

/-- A mapping binds its page in the map if it succeeds. -/
theorem Refines.mapPage (refines : Refines state root map) (given : pd.pml4 = root) (nonzero : root ≠ 0) {phys : Nat}
    {flags : BitVec 64} (low : virt < 2 ^ 47) (aligned : phys % pageSize = 0) (small : phys < 2 ^ 52)
    (clear : flags &&& pageAddrMask = 0) :
    Refines (mmuMapPage state pd virt phys flags).2 root
      (record map (.map virt phys flags, (mmuMapPage state pd virt phys flags).1)) := by
  obtain ⟨ok, next, step, grows, leaves⟩ : ∃ ok next, mmuMapPage state pd virt phys flags = (ok, next) ∧ _ :=
    refines.tables.mapPage given nonzero (userPage_of_lt low)
  rw [alignDown_of_aligned aligned] at leaves
  rw [step]
  refine ⟨grows.tables, fun other otherLow => ?_⟩
  rw [leaves other (userPage_of_lt otherLow)]
  cases ok with
  | false =>
      rw [if_neg (by simp)]
      exact refines.agrees other otherLow
  | true =>
      change _ = Function.update map (virt / pageSize) (some phys) (other / pageSize)
      by_cases same : other / pageSize = virt / pageSize
      · rw [if_pos ⟨rfl, (samePage_iff otherLow low).mpr same⟩, same, Function.update_self,
          Option.map_some, entryAddress_makeEntry aligned small clear]
      · rw [if_neg fun both => same ((samePage_iff otherLow low).mp both.2),
          Function.update_of_ne same]
        exact refines.agrees other otherLow

/-- An unmapping removes its page from the map. -/
theorem Refines.unmapPage (refines : Refines state root map) (given : pd.pml4 = root) (nonzero : root ≠ 0)
    (low : virt < 2 ^ 47) :
    Refines (mmuUnmapPage state pd virt).2 root
      (record map (.unmap virt, (mmuUnmapPage state pd virt).1)) := by
  obtain ⟨grows, leaves⟩ := refines.tables.unmapPage given nonzero (userPage_of_lt low)
  refine ⟨grows.tables, fun other otherLow => ?_⟩
  rw [leaves other (userPage_of_lt otherLow)]
  change _ = Function.update map (virt / pageSize) none (other / pageSize)
  by_cases same : other / pageSize = virt / pageSize
  · rw [if_pos ((samePage_iff otherLow low).mpr same), same, Function.update_self, Option.map_none]
  · rw [if_neg fun both => same ((samePage_iff otherLow low).mp both), Function.update_of_ne same]
    exact refines.agrees other otherLow

/-- The calls of the page allocator by others keep the tables in order when they spare them. -/
theorem TablesBelow.pmmStep {limit : Nat} (held : TablesBelow limit state root) (op : PmmOp)
    (spared : ∀ page, Released state.pmm op page → ∀ path, PathBelow limit path → path.length ≤ 3 →
      walk state root path ≠ some (pageAt state.pmm page)) :
    TablesBelow limit { state with pmm := Pmm.pmmStep state.pmm op } root ∧
      (Pmm.pmmStep state.pmm op).hhdmOffset = state.pmm.hhdmOffset := by
  obtain taken | ⟨_, released⟩ := pmmStep_cases state.pmm op
  · exact ⟨held.setPmm taken.layout fun page _ set _ _ _ _ => (taken.bits page).mpr (Or.inl set),
      taken.layout.hhdmOffset⟩
  · refine ⟨held.setPmm released.layout fun page tracked set path user short found => ?_,
      released.layout.hhdmOffset⟩
    exact (released.bits page tracked).mpr ⟨set, fun freed => spared page freed path user short found⟩

/-- One operation keeps the refinement. -/
theorem Refines.step (refines : Refines state pd.pml4 map) (nonzero : pd.pml4 ≠ 0) (op : TableOp)
    (valid : ValidTableOp pd state op) :
    Refines (tableStep pd state op).1 pd.pml4 (record map (op, (tableStep pd state op).2)) := by
  cases op with
  | map virt phys flags =>
      obtain ⟨low, _, aligned, small, clear⟩ := valid
      exact refines.mapPage rfl nonzero low aligned small clear
  | unmap virt => exact refines.unmapPage rfl nonzero valid
  | other op =>
      obtain ⟨tables, offset⟩ := refines.tables.pmmStep op valid
      refine ⟨tables, fun virt low => ?_⟩
      change (leaf { state with pmm := Pmm.pmmStep state.pmm op } pd.pml4 virt).map entryAddress = _
      rw [leaf_setPmm offset]
      exact refines.agrees virt low

/-- A run of operations keeps the refinement. -/
theorem Refines.run (refines : Refines state pd.pml4 map) (nonzero : pd.pml4 ≠ 0) (ops : List TableOp)
    (valid : Guarded (fun current op => (tableStep pd current op).1) (ValidTableOp pd) state ops) :
    Refines (tableRun pd state ops) pd.pml4 ((ops.zip (trace (tableStep pd) state ops)).foldl record map) := by
  induction ops generalizing state map with
  | nil => exact refines
  | cons op rest ih =>
      obtain ⟨allowed, tail⟩ := valid
      exact ih (refines.step nonzero op allowed) tail

/-- A new address space is in order, apart from the page of its directory. -/
theorem Created.space {state next : MmuState} {address first second : Nat}
    (created : Created state next address pd first second) (booted : Booted state.pmm) :
    Space next pd.pml4 (· = address) := by
  have later := booted.congr created.taken.layout
  have inside := (created.taken.clear second (by simp)).1
  have place := pageAt_congr created.taken.layout
  refine created.empty.space later.direct later.offset later.physical
    (by rw [created.taken.layout.totalPages]; exact inside) ((created.taken.bits second).mpr (Or.inr (by simp)))
    (by rw [place]; exact created.rootAt) created.nonzero ?_
  rintro _ rfl
  have here := inPage_pageAt next.pmm first
  rw [created.structAt, created.rootAt, ← place, ← place]
  refine ⟨fun bounds => ?_, fun page tracked free inside => ?_⟩
  · exact created.different (here.unique ⟨bounds.1, by unfold pageSize; omega⟩)
  · obtain rfl := here.unique inside
    rw [(created.taken.bits first).mpr (Or.inr (by simp))] at free
    exact absurd free (by simp)

/-- A directory with an empty user half holds the empty map. -/
theorem Created.refines {state next : MmuState} {address first second : Nat}
    (created : Created state next address pd first second) (booted : Booted state.pmm) :
    Refines next pd.pml4 fun _ => none := by
  refine ⟨(created.space booted).toTables, fun virt low => ?_⟩
  rw [created.empty.leaf (userPage_of_lt low)]
  rfl

/-- The page tables of a fresh directory refine a finite map: after every run of mappings and
unmappings, the translation of an address is the last successful mapping of its page that no unmapping
followed, plus the offset, and a mapping that fails changes no translation. -/
theorem pageTables_refine_map (state start : MmuState) (kernelPd : Option PageDirectory) (address : Nat)
    (pd : PageDirectory) (ops : List TableOp) (booted : Booted state.pmm)
    (created : mmuCreateAddressSpace state kernelPd = (some (address, pd), start))
    (valid : Guarded (fun current op => (tableStep pd current op).1) (ValidTableOp pd) start ops) :
    (∀ virt, virt < 2 ^ 47 → mmuGetPhysicalAddress (tableRun pd start ops) pd virt =
      (lastMapping (ops.zip (trace (tableStep pd) start ops)) (virt / pageSize)).elim 0
        (· + virt % pageSize)) ∧
    ∀ virt phys flags, virt < 2 ^ 47 → phys % pageSize = 0 → phys < 2 ^ 52 →
      flags &&& pageAddrMask = 0 →
      (mmuMapPage (tableRun pd start ops) pd virt phys flags).1 = false →
      ∀ other, other < 2 ^ 47 →
        mmuGetPhysicalAddress (mmuMapPage (tableRun pd start ops) pd virt phys flags).2 pd other =
          mmuGetPhysicalAddress (tableRun pd start ops) pd other := by
  obtain ⟨first, second, fresh⟩ := mmuCreateAddressSpace_created booted created
  have refines := (fresh.refines booted).run fresh.nonzero ops valid
  refine ⟨fun virt low => refines.getPhysicalAddress rfl fresh.nonzero low, ?_⟩
  intro virt phys flags low aligned small clear failed other otherLow
  have next := refines.mapPage rfl fresh.nonzero low aligned small clear
  rw [failed] at next
  rw [next.getPhysicalAddress rfl fresh.nonzero otherLow,
    refines.getPhysicalAddress rfl fresh.nonzero otherLow]
  rfl

theorem sixteenFree_lt : 16 < 2 ^ 64 := by decide

/-- An allocator over sixteen free pages and cleared memory. -/
def sixteenFree : MmuState where
  pmm := { bytes := fun _ => 0, totalPages := 16, totalPages_lt := sixteenFree_lt, freePages := 16,
           usablePages := 16, bitmapSize := 2, hhdmOffset := 0xFFFF888000000000 }
  memory _ := 0

/-- The directory on the second of the sixteen pages. -/
def sixteenDirectory : PageDirectory := ⟨0xFFFF888000001000, 0x1000⟩

theorem sixteenFree_created : Booted sixteenFree.pmm ∧ mmuCreateAddressSpace sixteenFree none =
    (some (0xFFFF888000000000, sixteenDirectory), (mmuCreateAddressSpace sixteenFree none).2) := by
  refine ⟨⟨?_, by decide, by decide⟩, Prod.ext (by decide +kernel) rfl⟩
  unfold DirectMapped
  decide

/-- A mapping, an allocation by others, a second mapping and an unmapping. -/
def sixteenOps : List TableOp :=
  [.map 0x400123 0x7000 (pageWrite ||| pageUser), .other .alloc, .map 0x401000 0x9000 pageUser,
    .unmap 0x401FFF]

theorem pageTables_refine_map_sixteen :
    mmuGetPhysicalAddress
      (tableRun sixteenDirectory (mmuCreateAddressSpace sixteenFree none).2 sixteenOps)
      sixteenDirectory 0x400ABC = 0x7ABC := by
  have valid : Guarded (fun current op => (tableStep sixteenDirectory current op).1)
      (ValidTableOp sixteenDirectory) (mmuCreateAddressSpace sixteenFree none).2 sixteenOps := by
    refine ⟨⟨by decide, by decide, by decide, by decide, by decide⟩, fun page freed => freed.elim,
      ⟨by decide, by decide, by decide, by decide, by decide⟩, ?_, trivial⟩
    change 0x401FFF < 2 ^ 47
    decide
  have translation := (pageTables_refine_map sixteenFree _ none 0xFFFF888000000000 sixteenDirectory
    sixteenOps sixteenFree_created.1 sixteenFree_created.2 valid).1 0x400ABC (by decide)
  rw [translation]
  decide +kernel

end Uesi.Mmu
