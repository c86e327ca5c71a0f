import Uesi.Proof.Pmm.Init

namespace Uesi.Pmm

open Library

instance (state : PmmState) : (op : PmmOp) → DecidablePred (Passed state op)
  | .free _, _ => inferInstanceAs (Decidable (_ ∧ _))
  | .freeContiguous _ _, _ => inferInstanceAs (Decidable (_ ∧ ∃ index, index < _ ∧ _))
  | .alloc, _ | .allocContiguous _, _ | .reclaim, _ => inferInstanceAs (Decidable False)

/-- A page lies entirely inside a usable or bootloader entry. -/
def ManagedPage (entries : List MemmapEntry) (page : Nat) : Prop :=
  ∃ entry ∈ entries, entry.Managed ∧ entry.Covers page

instance (entries : List MemmapEntry) (page : Nat) : Decidable (ManagedPage entries page) :=
  inferInstanceAs (Decidable (∃ entry ∈ entries, _))

/-- The history of a run is the allocator state with the pages that are currently handed out. -/
structure History where
  pmm : PmmState
  owned : List Nat

/-- A call removes the pages that it is passed from the history and adds those that it hands out. -/
def History.step (history : History) (op : PmmOp) : History where
  pmm := pmmStep history.pmm op
  owned := history.owned.filter (fun page => ¬ Passed history.pmm op page) ++
    handedOut history.pmm op

/-- The next call hands out only managed pages that nobody holds. -/
def Exclusive (entries : List MemmapEntry) (history : History) : Prop :=
  ∀ op, ∀ page ∈ handedOut history.pmm op, page ∉ history.owned ∧ ManagedPage entries page

/-- A call respects ownership when the pages that it is passed are managed, and a reclaim happens
only while no bootloader page is handed out. -/
def Respectful (entries : List MemmapEntry) (history : History) (op : PmmOp) : Prop :=
  (∀ page, Passed history.pmm op page → page < history.pmm.totalPages → ManagedPage entries page) ∧
    (op = .reclaim → ∀ page ∈ history.owned, ¬ Reclaimable history.pmm page)

/-- Every clear page is managed and not handed out, and the reclaim touches managed pages only. -/
structure OwnershipInvariant (entries : List MemmapEntry) (history : History) : Prop where
  clear : ∀ page, page < history.pmm.totalPages → bitmapTest history.pmm page = false →
    page ∉ history.owned ∧ ManagedPage entries page
  reclaimable : ∀ page, Reclaimable history.pmm page → ManagedPage entries page

theorem Reclaimable.congr {first second : PmmState} {page : Nat} (layout : SameLayout first second)
    (held : Reclaimable second page) : Reclaimable first page := by
  obtain ⟨entries, saved, rest⟩ := held
  exact ⟨entries, by rw [← layout.savedMemmap]; exact saved, rest⟩

/-- A released page is managed, and nobody holds it after the call. -/
theorem Respectful.released {entries : List MemmapEntry} {history : History} {op : PmmOp}
    (held : OwnershipInvariant entries history) (allowed : Respectful entries history op)
    {page : Nat} (inside : page < history.pmm.totalPages) (released : Released history.pmm op page) :
    page ∉ history.owned.filter (fun other => ¬ Passed history.pmm op other) ∧
      ManagedPage entries page := by
  by_cases passed : Passed history.pmm op page
  · exact ⟨by simp [passed], allowed.1 page passed inside⟩
  · cases op with
    | reclaim =>
        refine ⟨?_, held.reclaimable page released⟩
        intro member
        exact allowed.2 rfl page (List.mem_of_mem_filter member) released
    | _ => exact absurd released passed

/-- A respectful call keeps the ownership invariant. -/
theorem OwnershipInvariant.step {entries : List MemmapEntry} {history : History} {op : PmmOp}
    (held : OwnershipInvariant entries history) (allowed : Respectful entries history op) :
    OwnershipInvariant entries (history.step op) := by
  obtain taken | ⟨nothing, released⟩ := pmmStep_cases history.pmm op
  · refine ⟨?_, fun page reclaimable => held.reclaimable page (reclaimable.congr taken.layout)⟩
    intro page inside clear
    change page < (pmmStep history.pmm op).totalPages at inside
    rw [taken.layout.totalPages] at inside
    have unset : ¬ bitmapTest (pmmStep history.pmm op) page = true := by
      change bitmapTest (pmmStep history.pmm op) page = false at clear
      simp [clear]
    rw [taken.bits, not_or] at unset
    obtain ⟨before, fresh⟩ := unset
    obtain ⟨free, managed⟩ := held.clear page inside (by simpa using before)
    refine ⟨?_, managed⟩
    intro member
    obtain kept | added := List.mem_append.mp member
    · exact free (List.mem_of_mem_filter kept)
    · exact fresh added
  · refine ⟨?_, fun page reclaimable => held.reclaimable page (reclaimable.congr released.layout)⟩
    intro page inside clear
    change page < (pmmStep history.pmm op).totalPages at inside
    rw [released.layout.totalPages] at inside
    have unset : ¬ bitmapTest (pmmStep history.pmm op) page = true := by
      change bitmapTest (pmmStep history.pmm op) page = false at clear
      simp [clear]
    rw [released.bits page inside] at unset
    have same : (history.step op).owned =
        history.owned.filter (fun other => ¬ Passed history.pmm op other) := by
      simp [History.step, nothing]
    rw [same]
    by_cases before : bitmapTest history.pmm page = true
    · have returned : Released history.pmm op page := by
        by_contra kept
        exact unset ⟨before, kept⟩
      exact allowed.released held inside returned
    · obtain ⟨free, managed⟩ := held.clear page inside (by simpa using before)
      exact ⟨fun member => free (List.mem_of_mem_filter member), managed⟩

/-- The invariant makes the next call exclusive. -/
theorem OwnershipInvariant.exclusive {entries : List MemmapEntry} {history : History}
    (held : OwnershipInvariant entries history) : Exclusive entries history := by
  intro op page member
  obtain taken | ⟨nothing, _⟩ := pmmStep_cases history.pmm op
  · obtain ⟨inside, clear⟩ := taken.clear page member
    exact held.clear page inside clear
  · rw [nothing] at member
    exact absurd member List.not_mem_nil

/-- The history of the allocator right after its initialization. -/
def History.boot (memory : Nat → BitVec 8) (entries : List MemmapEntry) (offset : Nat) : History where
  pmm := pmmInit { bytes := fun _ => 0#8 } memory (some entries) (some offset)
  owned := []

/-- The initialization establishes the ownership invariant when the pages of an incomplete last
byte are managed. -/
theorem OwnershipInvariant.boot (memory : Nat → BitVec 8) {entries : List MemmapEntry}
    {holder : MemmapEntry} {offset : Nat} (sane : SaneMemmap entries)
    (found : bitmapHolder entries = some holder) (mapped : add64 holder.base offset ≠ 0)
    (tail : ∀ page, TailPage entries page → ManagedPage entries page) :
    OwnershipInvariant entries (History.boot memory entries offset) := by
  have result := pmmInit_result { bytes := fun _ => 0#8 } memory sane found mapped
  constructor
  · intro page inside clear
    refine ⟨List.not_mem_nil, ?_⟩
    change page < (pmmInit _ memory _ _).totalPages at inside
    rw [result.totalPages] at inside
    obtain extra | ⟨⟨entry, member, usable, covered⟩, _⟩ := (result.bits page inside).mp clear
    · exact tail page extra
    · exact ⟨entry, member, Or.inl usable, covered⟩
  · rintro page ⟨saved, equal, entry, member, bootloader, whole⟩
    obtain ⟨before, after, split, placed⟩ := result.savedMemmap
    obtain rfl := Option.some.inj (placed.symm.trans equal)
    have usable : holder.type = .usable := by
      have selected := List.find?_some found
      simp only [decide_eq_true_eq] at selected
      exact selected.1
    have original : entry ∈ entries := by
      rw [split]
      simp only [List.mem_append, List.mem_cons] at member ⊢
      obtain earlier | rfl | later := member
      · exact Or.inl earlier
      · exact absurd (bootloader.symm.trans usable) (by decide)
      · exact Or.inr (Or.inr later)
    exact ⟨entry, original, Or.inr bootloader,
      (sane.inEntry_iff_covers original (Or.inr bootloader) page).mp whole⟩

/-- In every respectful run after the initialization, the next call hands out only managed pages
that nobody holds. -/
theorem pmm_ownership (memory : Nat → BitVec 8) {entries : List MemmapEntry}
    {holder : MemmapEntry} {offset : Nat} (sane : SaneMemmap entries)
    (found : bitmapHolder entries = some holder) (mapped : add64 holder.base offset ≠ 0)
    (tail : ∀ page, TailPage entries page → ManagedPage entries page) (ops : List PmmOp)
    (respectful : Guarded History.step (Respectful entries) (History.boot memory entries offset) ops) :
    Exclusive entries (run History.step (History.boot memory entries offset) ops) := by
  apply OwnershipInvariant.exclusive
  exact run_guarded_invariant History.step (Respectful entries) (OwnershipInvariant entries)
    (fun _ _ held allowed => held.step allowed) _ ops
    (OwnershipInvariant.boot memory sane found mapped tail) respectful

/-- Two usable pages are followed by six pages of the bootloader. -/
def eightPageMap : List MemmapEntry :=
  [⟨0, 0x2000, .usable⟩, ⟨0x2000, 0x6000, .bootloaderReclaimable⟩]

theorem eightPageMap_sane : SaneMemmap eightPageMap where
  aligned := by decide
  bounded := by decide
  disjoint := by
    refine List.pairwise_pair.mpr fun _ _ address => ?_
    rintro ⟨⟨_, below⟩, above, _⟩
    exact absurd (lt_of_le_of_lt above below) (by decide)

instance (state : PmmState) (page : Nat) : Decidable (Reclaimable state page) :=
  match saved : state.savedMemmap with
  | none => isFalse (by simp [Reclaimable, saved])
  | some entries => decidable_of_iff
      (∃ entry ∈ entries, entry.type = .bootloaderReclaimable ∧
        (alignedBase entry / pageSize ≤ page ∧ page < alignedEnd entry / pageSize))
      (by simp [Reclaimable, saved, InEntry])

/-- A run that allocates, reclaims once, allocates a bootloader page and frees it is respectful. -/
theorem pmm_ownership_eightPageMap :
    let start := History.boot (fun _ => 0#8) eightPageMap 0xFFFF800000000000
    let ops : List PmmOp := [.alloc, .reclaim, .alloc, .free 0xFFFF800000002000]
    (run History.step start (ops.take 3)).owned = [1, 2] ∧
      Guarded History.step (Respectful eightPageMap) start ops ∧
      Exclusive eightPageMap (run History.step start ops) := by
  intro start ops
  have guarded : Guarded History.step (Respectful eightPageMap) start ops := by
    refine ⟨⟨?_, by simp⟩, ⟨?_, ?_⟩, ⟨?_, by simp⟩, ⟨?_, by simp⟩, trivial⟩
    · intro page passed
      exact absurd passed id
    · intro page passed
      exact absurd passed id
    · intro _
      decide +kernel
    · intro page passed
      exact absurd passed id
    · rintro page ⟨_, rfl⟩ _
      decide +kernel
  refine ⟨by decide +kernel, guarded, ?_⟩
  have found : bitmapHolder eightPageMap = some ⟨0, 0x2000, .usable⟩ := by decide
  refine pmm_ownership _ eightPageMap_sane found (by decide) ?_ ops guarded
  intro page tailPage
  obtain ⟨low, high⟩ : 8 ≤ page ∧ page < 8 := tailPage
  omega

/-- A second reclaim releases a bootloader page that is handed out, and the next allocation hands
it out again. -/
theorem pmm_reclaim_twice_not_exclusive :
    let start := History.boot (fun _ => 0#8) eightPageMap 0xFFFF800000000000
    let last := run History.step start [.reclaim, .alloc, .alloc, .reclaim]
    SaneMemmap eightPageMap ∧ bitmapHolder eightPageMap = some ⟨0, 0x2000, .usable⟩ ∧
      last.owned = [1, 2] ∧ handedOut last.pmm .alloc = [2] ∧ ¬ Exclusive eightPageMap last := by
  intro start last
  have owned : last.owned = [1, 2] := by decide +kernel
  have again : handedOut last.pmm .alloc = [2] := by decide +kernel
  refine ⟨eightPageMap_sane, by decide, owned, again, ?_⟩
  intro exclusive
  have fresh := (exclusive .alloc 2 (by rw [again]; decide)).1
  rw [owned] at fresh
  exact absurd fresh (by decide)

end Uesi.Pmm
