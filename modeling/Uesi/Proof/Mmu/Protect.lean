import Uesi.Proof.Mmu.Levels

namespace Uesi.Mmu

open Library Pmm

variable {limit : Nat} {state next : MmuState} {root : Nat} {pd : PageDirectory} {flags : BitVec 64}

/-- The entry with the same frame and other flags. -/
def reflag (flags entry : BitVec 64) : BitVec 64 := makeEntry (entryAddress entry) flags

theorem entryAddress_lt (entry : BitVec 64) : entryAddress entry < 2 ^ 52 := by
  unfold entryAddress
  rw [BitVec.toNat_and]
  exact lt_of_le_of_lt Nat.and_le_right (by decide)

theorem entryAddress_reflag (clear : flags &&& pageAddrMask = 0) (entry : BitVec 64) :
    entryAddress (reflag flags entry) = entryAddress entry :=
  entryAddress_makeEntry (entryAddress_aligned entry) (entryAddress_lt entry) clear

theorem reflag_twice (clear : flags &&& pageAddrMask = 0) (entry : BitVec 64) :
    reflag flags (reflag flags entry) = reflag flags entry := by
  unfold reflag
  rw [show entryAddress (makeEntry (entryAddress entry) flags) = _ from entryAddress_reflag clear entry]

/-- The bits of the entry outside the address are the flags and the present bit. -/
theorem reflag_flags (clear : flags &&& pageAddrMask = 0) (entry : BitVec 64) :
    reflag flags entry &&& ~~~pageAddrMask = flags ||| pagePresent := by
  have address : BitVec.ofNat 64 (entryAddress entry) &&& ~~~pageAddrMask = 0#64 := by
    unfold entryAddress
    rw [BitVec.ofNat_toNat, BitVec.setWidth_eq, BitVec.and_assoc, BitVec.and_not_self]
    exact BitVec.and_zero
  have kept : flags &&& ~~~pageAddrMask = flags := by
    apply BitVec.eq_of_getLsbD_eq
    intro index inside
    have bit := congrArg (fun value : BitVec 64 => value.getLsbD index) clear
    simp only [BitVec.getLsbD_and, BitVec.getLsbD_not, inside, decide_true, Bool.true_and] at bit ⊢
    cases flag : flags.getLsbD index with
    | false => rfl
    | true =>
        rw [flag] at bit
        simpa using bit
  unfold reflag makeEntry
  rw [BitVec.and_or_distrib_right, BitVec.and_or_distrib_right, address, kept, BitVec.zero_or,
    show pagePresent &&& ~~~pageAddrMask = pagePresent by decide]

/-- No page is mapped to the frame zero. -/
def Framed (limit : Nat) (state : MmuState) (root : Nat) : Prop :=
  ∀ virt entry, PageBelow limit virt → leaf state root virt = some entry → entryAddress entry ≠ 0

/-- A step has given other flags to the given pages and has changed nothing else. -/
structure Protected (limit : Nat) (flags : BitVec 64) (root : Nat) (pages : List Nat) (state next : MmuState) :
    Prop where
  pmm : next.pmm = state.pmm
  walks : ∀ path, PathBelow limit path → path.length ≤ 3 → walk next root path = walk state root path
  leaves : ∀ other, PageBelow limit other → leaf next root other =
    if ∃ page ∈ pages, SamePage other page then (leaf state root other).map (reflag flags) else leaf state root other
  memory : ∀ address, (∀ page ∈ pages, ∀ table, walk state root (tablePath page) = some table →
      address < table + 8 * ptIndex page ∨ table + 8 * ptIndex page + 8 ≤ address) →
    next.memory address = state.memory address

theorem Protected.nil : Protected limit flags root [] state state where
  pmm := rfl
  walks _ _ _ := rfl
  leaves other _ := by rw [if_neg (by simp)]
  memory _ _ := rfl

/-- The pages may be taken one after the other, and a page that occurs again keeps its flags. -/
theorem Protected.cons {middle : MmuState} {page : Nat} {pages : List Nat} (clear : flags &&& pageAddrMask = 0)
    (first : Protected limit flags root [page] state middle) (rest : Protected limit flags root pages middle next)
    (below : ∀ page ∈ pages, PageBelow limit page) : Protected limit flags root (page :: pages) state next where
  pmm := rest.pmm.trans first.pmm
  walks path inside short := (rest.walks path inside short).trans (first.walks path inside short)
  leaves other inside := by
    rw [rest.leaves other inside, first.leaves other inside]
    simp only [List.mem_cons, List.not_mem_nil, or_false, exists_eq_left, exists_eq_or_imp]
    by_cases here : SamePage other page
    · rw [if_pos here, if_pos (Or.inl here), Option.map_map]
      split
      · congr 1
        funext entry
        exact reflag_twice clear entry
      · rfl
    · rw [if_neg here]
      simp only [here, false_or]
  memory address outside := by
    rw [rest.memory address fun other member table found => ?_, first.memory address fun other member table found => ?_]
    · rw [List.mem_singleton.mp member] at found ⊢
      exact outside page List.mem_cons_self table found
    · rw [first.walks _ (below other member).path le_rfl] at found
      exact outside other (List.mem_cons_of_mem _ member) table found

/-- A directory with frames stays in order when pages get other flags. -/
theorem Protected.keeps {pages : List Nat} (clear : flags &&& pageAddrMask = 0)
    (step : Protected limit flags root pages state next) (held : TablesBelow limit state root)
    (framed : Framed limit state root) : TablesBelow limit next root ∧ Framed limit next root := by
  refine ⟨⟨⟨?_, held.aligned, ?_⟩, ?_, ?_, ?_⟩, ?_⟩
  · rw [step.pmm]
    exact held.offset
  · intro first second table firstBelow secondBelow firstShort secondShort
    rw [step.walks first firstBelow firstShort, step.walks second secondBelow secondShort]
    exact held.unique first second table firstBelow secondBelow firstShort secondShort
  · rw [step.pmm]
    exact held.direct
  · rw [step.pmm]
    exact held.physical
  · intro path table below short found
    rw [step.walks path below short] at found
    rw [step.pmm]
    exact held.allocated path table below short found
  · intro virt entry below found
    rw [step.leaves virt below] at found
    split at found
    · obtain ⟨old, mapped, rfl⟩ := Option.map_eq_some_iff.mp found
      rw [entryAddress_reflag clear]
      exact framed virt old below mapped
    · exact framed virt entry below found

/-- An unmapping and a mapping with other flags change the entry of the page. -/
theorem TablesBelow.protectPage (held : TablesBelow limit state root) (given : pd.pml4 = root) (nonzero : root ≠ 0)
    {virt : Nat} {entry : BitVec 64} (below : PageBelow limit virt) (mapped : leaf state root virt = some entry) :
    ∃ middle next, mmuUnmapPage state pd virt = (true, middle) ∧
      mmuMapPage middle pd virt (entryAddress entry) flags = (true, next) ∧
      Protected limit flags root [virt] state next := by
  obtain ⟨table, found, present⟩ := Option.bind_eq_some_iff.mp mapped
  split at present
  · obtain rfl := Option.some.inj present
    have inside := ptIndex_lt virt
    have unmapped : mmuUnmapPage state pd virt = (true, state.setEntry table (ptIndex virt) 0) := by
      unfold mmuUnmapPage
      dsimp only
      rw [findTable_alignDown given nonzero, (indices_alignDown virt).2, found]
    have still : walk (state.setEntry table (ptIndex virt) 0) root (tablePath virt) = some table := by
      rw [(held.setLeaf below.path rfl found inside 0).walk _ below.path le_rfl, found]
    have cleared := (held.setLeaf_grows below.path rfl found inside 0).tables
    have remapped := mmuMapPage_of_walk given nonzero still (entryAddress (state.entry table (ptIndex virt))) flags
    rw [alignDown_of_aligned (entryAddress_aligned _)] at remapped
    refine ⟨_, _, unmapped, remapped, rfl, ?_, ?_, ?_⟩
    · intro path pathBelow short
      rw [(cleared.setLeaf below.path rfl still inside _).walk path pathBelow short,
        (held.setLeaf below.path rfl found inside 0).walk path pathBelow short]
    · intro other otherBelow
      rw [cleared.leaf_setLeaf below still _ otherBelow, held.leaf_setLeaf below found 0 otherBelow,
        if_pos (present_makeEntry _ _)]
      simp only [List.mem_singleton, exists_eq_left]
      by_cases same : SamePage other virt
      · rw [if_pos same, if_pos same, leaf_congr state root same.1 same.2, mapped]
        rfl
      · rw [if_neg same, if_neg same, if_neg same]
    · intro address outside
      have apart := outside virt (by simp) table found
      unfold MmuState.setEntry
      dsimp only
      rw [store64_of_outside _ apart, store64_of_outside _ apart]
  · exact absurd present (by simp)

/-- The loop of `paging_protect_range` gives every mapped page its flags and never fails. -/
theorem TablesBelow.protectPages (held : TablesBelow limit state root) (framed : Framed limit state root)
    (given : pd.pml4 = root) (nonzero : root ≠ 0) (clear : flags &&& pageAddrMask = 0) {virtBase : Nat}
    (indices : List Nat) (aligned : ∀ index ∈ indices, add64 virtBase (index * pageSize) % pageSize = 0)
    (below : ∀ index ∈ indices, PageBelow limit (add64 virtBase (index * pageSize))) :
    ∃ next, protectPages pd virtBase flags indices state = (true, next) ∧
      Protected limit flags root (indices.map fun index => add64 virtBase (index * pageSize)) state next := by
  induction indices generalizing state with
  | nil => exact ⟨state, rfl, Protected.nil⟩
  | cons index rest ih =>
      have here := below index List.mem_cons_self
      have hereAligned := aligned index List.mem_cons_self
      have later := fun {middle : MmuState} tables frames => @ih middle tables frames
        (fun other member => aligned other (List.mem_cons_of_mem _ member))
        (fun other member => below other (List.mem_cons_of_mem _ member))
      have restBelow : ∀ page ∈ rest.map fun index => add64 virtBase (index * pageSize), PageBelow limit page := by
        intro page member
        obtain ⟨other, listed, rfl⟩ := List.mem_map.mp member
        exact below other (List.mem_cons_of_mem _ listed)
      rw [Mmu.protectPages]
      dsimp only
      unfold mmuIsMapped
      rw [mmuGetPhysicalAddress_eq given nonzero hereAligned]
      cases mapped : leaf state root (add64 virtBase (index * pageSize)) with
      | none =>
          obtain ⟨next, ran, done⟩ := later held framed
          refine ⟨next, by rw [if_pos (by simp)]; exact ran, ?_⟩
          -- Nothing happens to a page that is not mapped.
          refine Protected.cons clear ⟨rfl, fun _ _ _ => rfl, fun other _ => ?_, fun _ _ => rfl⟩ done restBelow
          split
          · rename_i same
            obtain ⟨page, member, same⟩ := same
            rw [List.mem_singleton.mp member] at same
            rw [leaf_congr state root same.1 same.2, mapped]
            rfl
          · rfl
      | some entry =>
          obtain ⟨middle, changed, unmapped, remapped, step⟩ : ∃ middle next, _ ∧
              mmuMapPage middle pd (add64 virtBase (index * pageSize)) (entryAddress entry) flags = (true, next) ∧ _ :=
            held.protectPage given nonzero here mapped
          obtain ⟨tables, frames⟩ := step.keeps clear held framed
          obtain ⟨next, ran, done⟩ := later tables frames
          have nonzeroFrame := framed _ entry here mapped
          rw [if_neg (by simp [nonzeroFrame]), unmapped]
          dsimp only [Option.elim_some]
          rw [remapped]
          exact ⟨next, ran, step.cons clear done restBelow⟩

/-- The calls of a directory whose pages are mapped to frames other than zero. -/
def FramedOp (limit : Nat) (pd : PageDirectory) (state : MmuState) (op : TableOp) : Prop :=
  OpBelow limit pd state op ∧
    ∀ virt phys flags, op = .map virt phys flags → entryAddress (BitVec.ofNat 64 (alignDown pageSize phys)) ≠ 0

theorem entryAddress_makeEntry_ne {phys : Nat} (nonzero : entryAddress (BitVec.ofNat 64 phys) ≠ 0)
    (flags : BitVec 64) : entryAddress (makeEntry phys flags) ≠ 0 := by
  intro zero
  apply nonzero
  unfold entryAddress makeEntry at *
  have masked : (BitVec.ofNat 64 phys ||| flags ||| pagePresent) &&& pageAddrMask = 0#64 :=
    BitVec.eq_of_toNat_eq zero
  rw [BitVec.and_or_distrib_right, BitVec.and_or_distrib_right] at masked
  rw [(BitVec.or_eq_zero_iff.mp (BitVec.or_eq_zero_iff.mp masked).1).1]
  rfl

/-- A run of calls builds a directory with frames. -/
theorem Framed.run (held : TablesBelow limit state pd.pml4) (framed : Framed limit state pd.pml4)
    (nonzero : pd.pml4 ≠ 0) (ops : List TableOp)
    (allowed : Guarded (fun current op => (tableStep pd current op).1) (FramedOp limit pd) state ops) :
    TablesBelow limit (tableRun pd state ops) pd.pml4 ∧ Framed limit (tableRun pd state ops) pd.pml4 := by
  refine run_guarded_invariant _ _ (fun current => TablesBelow limit current pd.pml4 ∧ Framed limit current pd.pml4)
    ?_ state ops ⟨held, framed⟩ allowed
  rintro current op ⟨tables, frames⟩ ⟨below, mapsFrame⟩
  obtain ⟨after, leaves⟩ := tables.step nonzero op below
  refine ⟨after, fun virt entry inside found => ?_⟩
  obtain before | ⟨_, phys, flags, made, rfl⟩ := leaves virt entry inside found
  · exact frames virt entry inside before
  · exact entryAddress_makeEntry_ne (mapsFrame _ phys flags made) flags

/-- A page lies in a range of pages. -/
def InRange (virtBase numPages virt : Nat) : Prop :=
  ∃ index, index < numPages ∧ SamePage virt (virtBase + index * pageSize)

instance (virtBase numPages virt : Nat) : Decidable (InRange virtBase numPages virt) :=
  inferInstanceAs (Decidable (∃ index, index < numPages ∧ _))

/-- `paging_protect_range` on a directory with frames returns true and takes no page. It keeps every translation, gives
the flags to the mapped pages of the range and changes no entry besides. -/
theorem pagingProtectRange_preserves (state start : MmuState) (kernelPd : Option PageDirectory) (address : Nat)
    (pd : PageDirectory) (limit : Nat) (ops : List TableOp) (virtBase numPages : Nat) (flags : BitVec 64)
    (booted : Booted state.pmm) (created : mmuCreateAddressSpace state kernelPd = (some (address, pd), start))
    (inOrder : limit ≤ emptyEntries kernelPd ∨ TablesBelow limit start pd.pml4 ∧ Framed limit start pd.pml4)
    (allowed : Guarded (fun current op => (tableStep pd current op).1) (FramedOp limit pd) start ops)
    (aligned : virtBase % pageSize = 0) (noWrap : virtBase + numPages * pageSize ≤ 2 ^ 64)
    (below : ∀ index, index < numPages → PageBelow limit (virtBase + index * pageSize))
    (clear : flags &&& pageAddrMask = 0) :
    let built := tableRun pd start ops
    let after := (pagingProtectRange built pd virtBase numPages flags).2
    (pagingProtectRange built pd virtBase numPages flags).1 = true ∧ after.pmm = built.pmm ∧
    (∀ virt entry, InRange virtBase numPages virt → leaf built pd.pml4 virt = some entry →
      ∃ changed, leaf after pd.pml4 virt = some changed ∧ entryAddress changed = entryAddress entry ∧
        changed &&& ~~~pageAddrMask = flags ||| pagePresent) ∧
    (∀ virt, InRange virtBase numPages virt → leaf built pd.pml4 virt = none → leaf after pd.pml4 virt = none) ∧
    (∀ virt, PageBelow limit virt → ¬ InRange virtBase numPages virt →
      leaf after pd.pml4 virt = leaf built pd.pml4 virt) ∧
    (∀ virt, PageBelow limit virt → mmuGetPhysicalAddress after pd virt = mmuGetPhysicalAddress built pd virt) ∧
    ∀ cell, (∀ index, index < numPages → ∀ table,
        walk built pd.pml4 (tablePath (virtBase + index * pageSize)) = some table →
        cell < table + 8 * ptIndex (virtBase + index * pageSize) ∨
          table + 8 * ptIndex (virtBase + index * pageSize) + 8 ≤ cell) →
      after.memory cell = built.memory cell := by
  obtain ⟨_, _, fresh⟩ := mmuCreateAddressSpace_created booted created
  have initial : TablesBelow limit start pd.pml4 ∧ Framed limit start pd.pml4 := by
    cases inOrder with
    | inr held => exact held
    | inl small =>
        obtain ⟨tables, empty⟩ := mmuCreateAddressSpace_tables booted created small
        refine ⟨tables, fun virt entry inside found => ?_⟩
        rw [empty.leaf inside] at found
        exact absurd found (by simp)
  obtain ⟨tables, frames⟩ := Framed.run initial.1 initial.2 fresh.nonzero ops allowed
  have addresses : ∀ index ∈ List.range numPages,
      add64 virtBase (index * pageSize) = virtBase + index * pageSize := by
    intro index member
    have inside := List.mem_range.mp member
    have small : index * pageSize < numPages * pageSize := Nat.mul_lt_mul_of_pos_right inside (by decide)
    exact add64_of_lt (by omega)
  obtain ⟨after, ran, done⟩ : ∃ after, protectPages pd virtBase flags (List.range numPages) (tableRun pd start ops) =
      (true, after) ∧ _ := by
    refine tables.protectPages frames rfl fresh.nonzero clear (List.range numPages) ?_ ?_
    · intro index member
      rw [addresses index member, Nat.add_mul_mod_self_right]
      exact aligned
    · intro index member
      rw [addresses index member]
      exact below index (List.mem_range.mp member)
  have result : pagingProtectRange (tableRun pd start ops) pd virtBase numPages flags = (true, after) := by
    unfold pagingProtectRange
    rw [alignDown_of_aligned aligned, ran]
  rw [List.map_congr_left addresses] at done
  have listed : ∀ virt, (∃ page ∈ (List.range numPages).map fun index => virtBase + index * pageSize,
      SamePage virt page) ↔ InRange virtBase numPages virt := by
    intro virt
    simp only [List.mem_map, List.mem_range, InRange, exists_exists_and_eq_and]
  have inside : ∀ virt, InRange virtBase numPages virt → PageBelow limit virt := by
    rintro virt ⟨index, small, same⟩
    have first : pml4Index virt = pml4Index (virtBase + index * pageSize) :=
      Option.some.inj (congrArg List.head? same.1)
    unfold PageBelow
    rw [first]
    exact below index small
  have leaves := done.leaves
  simp only [listed] at leaves
  intro built final
  have same : final = after := congrArg Prod.snd result
  rw [same]
  refine ⟨congrArg Prod.fst result, done.pmm, ?_, ?_, ?_, ?_, ?_⟩
  · intro virt entry range mapped
    refine ⟨reflag flags entry, ?_, entryAddress_reflag clear entry, reflag_flags clear entry⟩
    rw [leaves virt (inside virt range), if_pos range, show leaf _ _ _ = _ from mapped]
    rfl
  · intro virt range unmapped
    rw [leaves virt (inside virt range), if_pos range, show leaf _ _ _ = _ from unmapped]
    rfl
  · intro virt small outside
    rw [leaves virt small, if_neg outside]
  · intro virt small
    rw [mmuGetPhysicalAddress_leaf rfl fresh.nonzero, mmuGetPhysicalAddress_leaf rfl fresh.nonzero,
      leaves _ small]
    split
    · change _ = (leaf (tableRun pd start ops) pd.pml4 virt).elim 0 _
      cases leaf (tableRun pd start ops) pd.pml4 virt with
      | none => rfl
      | some entry =>
          rw [Option.map_some, Option.elim_some, Option.elim_some, entryAddress_reflag clear]
    · rfl
  · intro cell outside
    refine done.memory cell fun page member table found => ?_
    obtain ⟨index, small, rfl⟩ := List.mem_map.mp member
    exact outside index (List.mem_range.mp small) table found

theorem pagingProtectRange_preserves_one :
    (pagingProtectRange (oneMapping 0xFFFFC00000400000 pageUser) sixteenDirectory 0xFFFFC00000400000 512 pageWrite).1 =
      true := by
  refine (pagingProtectRange_preserves sixteenFree _ none 0xFFFF888000000000 sixteenDirectory 512
    [.map 0xFFFFC00000400000 0x7000 pageUser] 0xFFFFC00000400000 512 pageWrite sixteenFree_created.1
    sixteenFree_created.2 (Or.inl le_rfl) ⟨⟨?_, ?_⟩, trivial⟩ (by decide) (by decide)
    (fun _ _ => Nat.mod_lt _ (by decide)) (by decide)).1
  · exact Nat.mod_lt _ (by decide)
  · intro virt phys flags made
    obtain ⟨_, rfl, _⟩ := TableOp.map.inj made
    decide

end Uesi.Mmu
