import Uesi.Proof.Mmu.Tables

namespace Uesi.Mmu

open Library Pmm

variable {table virt index address : Nat} {pd : PageDirectory} {path : List Nat} {flags : BitVec 64} {next : MmuState}

variable {limit : Nat} {state : MmuState} {root : Nat}

/-- The tables below a limit are a tree of allocated pages. -/
structure TablesBelow (limit : Nat) (state : MmuState) (root : Nat) : Prop extends TreeBelow limit state root where
  direct : DirectMapped state.pmm
  physical : state.pmm.totalPages * pageSize ≤ 2 ^ 52
  allocated : ∀ path table, PathBelow limit path → path.length ≤ 3 → walk state root path = some table →
    ∃ page, page < state.pmm.totalPages ∧ bitmapTest state.pmm page = true ∧
      table = pageAt state.pmm page

/-- The tables of the user half are a tree of allocated pages. -/
abbrev Tables (state : MmuState) (root : Nat) : Prop := TablesBelow 256 state root

/-- The state after the creation of a table on a fresh page. -/
def withTable (state : MmuState) (pmm : PmmState) (page parent index : Nat) (flags : BitVec 64) :
    MmuState :=
  ({ pmm := pmm, memory := memset state.memory (pageAt state.pmm page) 0 pageSize } : MmuState).setEntry
    parent index (makeEntry (page * pageSize) flags)

theorem pageAt_aligned {pmm : PmmState} (offset : pmm.hhdmOffset % pageSize = 0) (page : Nat) :
    pageAt pmm page % pageSize = 0 := by
  unfold pageAt
  rw [Nat.add_mul_mod_self_right]
  exact offset

/-- The entries of a cleared page are zero, and the other pages keep their entries. -/
theorem entry_memset (state : MmuState) (pmm : PmmState) {page : Nat} (pageAligned : page % pageSize = 0)
    (aligned : table % pageSize = 0) (inside : index < 512) :
    ({ pmm := pmm, memory := memset state.memory page 0 pageSize } : MmuState).entry table index =
      if table = page then 0 else state.entry table index := by
  unfold MmuState.entry
  dsimp only
  unfold pageSize at *
  by_cases same : table = page
  · subst same
    rw [if_pos rfl]
    exact load64_memset_zero (by omega) (by omega)
  · rw [if_neg same]
    apply load64_memset_of_apart
    omega

/-- An address lies in no table below a limit and in no free page. -/
structure QuietBelow (limit : Nat) (state : MmuState) (root address : Nat) : Prop where
  half : ¬ (root ≤ address ∧ address < root + 8 * limit)
  table : ∀ path table, PathBelow limit path → path ≠ [] → path.length ≤ 3 →
    walk state root path = some table → ¬ (table ≤ address ∧ address < table + pageSize)
  free : ∀ page, page < state.pmm.totalPages → bitmapTest state.pmm page = false →
    ¬ (pageAt state.pmm page ≤ address ∧ address < pageAt state.pmm page + pageSize)

/-- An address lies in no table of the user half and in no free page. -/
abbrev Quiet (state : MmuState) (root address : Nat) : Prop := QuietBelow 256 state root address

/-- No entry below a limit that leads to a table maps a large page instead. -/
def PlainBelow (limit : Nat) (state : MmuState) (root : Nat) : Prop :=
  ∀ path index table, PathBelow limit (path ++ [index]) → path.length < 3 → walk state root path = some table →
    Present (state.entry table index) → state.entry table index &&& pageHuge = 0

/-- The flags of a new table hold no address and do not ask for a large page. -/
structure TableFlags (flags : BitVec 64) : Prop where
  address : flags &&& pageAddrMask = 0
  small : flags &&& pageHuge = 0

/-- A step keeps the tables in order, frees no page, makes no large page and leaves the quiet addresses alone. -/
structure GrowsBelow (limit : Nat) (before after : MmuState) (root : Nat) : Prop where
  tables : TablesBelow limit after root
  plain : PlainBelow limit before root → PlainBelow limit after root
  layout : SameLayout before.pmm after.pmm
  used : ∀ page, bitmapTest before.pmm page = true → bitmapTest after.pmm page = true
  quiet : ∀ address, QuietBelow limit before root address →
    QuietBelow limit after root address ∧ after.memory address = before.memory address

/-- A step keeps the tables of the user half in order, frees no page and leaves the quiet addresses alone. -/
abbrev Grows (before after : MmuState) (root : Nat) : Prop := GrowsBelow 256 before after root

theorem GrowsBelow.refl (held : TablesBelow limit state root) : GrowsBelow limit state state root :=
  ⟨held, id, SameLayout.refl _, fun _ used => used, fun _ quiet => ⟨quiet, rfl⟩⟩

theorem GrowsBelow.trans {first second third : MmuState} (earlier : GrowsBelow limit first second root)
    (later : GrowsBelow limit second third root) : GrowsBelow limit first third root where
  tables := later.tables
  plain plain := later.plain (earlier.plain plain)
  layout := earlier.layout.trans later.layout
  used page used := later.used page (earlier.used page used)
  quiet address quiet := by
    obtain ⟨still, same⟩ := earlier.quiet address quiet
    obtain ⟨last, equal⟩ := later.quiet address still
    exact ⟨last, equal.trans same⟩

/-- A quiet address lies outside every cell that a walk of the user half reaches. -/
theorem QuietBelow.outside_cell (quiet : QuietBelow limit state root address)
    (user : PathBelow limit (path ++ [index])) (short : path.length ≤ 3) (found : walk state root path = some table) :
    address < table + 8 * index ∨ table + 8 * index + 8 ≤ address := by
  obtain ⟨pathUser, inside, lower⟩ := user.of_concat
  by_cases empty : path = []
  · subst empty
    obtain rfl := Option.some.inj found
    have first := lower rfl
    have outside := quiet.half
    omega
  · have outside := quiet.table path table pathUser empty short found
    unfold pageSize at outside
    omega

/-- A quiet address lies in no free page as long as no page gets free. -/
theorem QuietBelow.still_free (quiet : QuietBelow limit state root address) {pmm : PmmState}
    (layout : SameLayout state.pmm pmm) (used : ∀ page, bitmapTest state.pmm page = true → bitmapTest pmm page = true)
    (page : Nat) (tracked : page < pmm.totalPages) (free : bitmapTest pmm page = false) :
    ¬ (pageAt pmm page ≤ address ∧ address < pageAt pmm page + pageSize) := by
  rw [pageAt_congr layout]
  rw [layout.totalPages] at tracked
  apply quiet.free page tracked
  by_contra set
  rw [used page (by simpa using set)] at free
  exact absurd free (by simp)

/-- The tables stay in order when the walks stay the same and their pages stay in use. -/
theorem SameWalks.tables (same : SameWalks limit state next root) (held : TablesBelow limit state root)
    (layout : SameLayout state.pmm next.pmm)
    (used : ∀ page, page < state.pmm.totalPages → bitmapTest state.pmm page = true →
      ∀ path, PathBelow limit path → path.length ≤ 3 → Mmu.walk state root path = some (pageAt state.pmm page) →
      bitmapTest next.pmm page = true) : TablesBelow limit next root where
  offset := by
    rw [layout.hhdmOffset]
    exact held.offset
  aligned := held.aligned
  unique first second table firstUser secondUser firstShort secondShort := by
    rw [same.walk first firstUser firstShort, same.walk second secondUser secondShort]
    exact held.unique first second table firstUser secondUser firstShort secondShort
  direct := held.direct.congr layout
  physical := by
    rw [layout.totalPages]
    exact held.physical
  allocated path table user short found := by
    rw [same.walk path user short] at found
    obtain ⟨page, tracked, set, rfl⟩ := held.allocated path table user short found
    refine ⟨page, ?_, used page tracked set path user short found, (pageAt_congr layout page).symm⟩
    rw [layout.totalPages]
    exact tracked

theorem SameWalks.quiet (same : SameWalks limit state next root) (layout : SameLayout state.pmm next.pmm)
    (used : ∀ page, bitmapTest state.pmm page = true → bitmapTest next.pmm page = true)
    (quiet : QuietBelow limit state root address) : QuietBelow limit next root address where
  half := quiet.half
  table path table user some short found := by
    rw [same.walk path user short] at found
    exact quiet.table path table user some short found
  free := quiet.still_free layout used

/-- A step grows the tables when the walks stay the same and it writes to the memory of others only. -/
theorem SameWalks.grows (same : SameWalks limit state next root) (held : TablesBelow limit state root)
    (layout : SameLayout state.pmm next.pmm)
    (used : ∀ page, bitmapTest state.pmm page = true → bitmapTest next.pmm page = true)
    (memory : ∀ address, QuietBelow limit state root address → next.memory address = state.memory address) :
    GrowsBelow limit state next root where
  tables := same.tables held layout fun page _ set _ _ _ _ => used page set
  plain plain path index table user short found := by
    rw [same.walk path user.of_concat.1 (by omega)] at found
    rw [same.entries path index table user short found]
    exact plain path index table user short found
  layout := layout
  used := used
  quiet address quiet := ⟨same.quiet layout used quiet, memory address quiet⟩

theorem makeEntry_small {phys : Nat} (aligned : phys % pageSize = 0) (small : flags &&& pageHuge = 0) :
    makeEntry phys flags &&& pageHuge = 0 := by
  have address : BitVec.ofNat 64 phys &&& pageHuge = 0 := by
    have bits : ∀ index, index < 64 → pageHuge.getLsbD index = decide (index = 7) := by decide
    apply BitVec.eq_of_getLsbD_eq
    intro index inside
    rw [BitVec.getLsbD_and, bits index inside, BitVec.getLsbD_ofNat]
    by_cases here : index = 7
    · obtain ⟨count, rfl⟩ := Nat.dvd_of_mod_eq_zero aligned
      subst here
      rw [show pageSize = 2 ^ 12 from rfl, Nat.testBit_two_pow_mul]
      simp
    · simp [here]
  rw [makeEntry, BitVec.and_or_distrib_right, BitVec.and_or_distrib_right, address, small]
  decide

section Creation

variable {pmm : PmmState} {path : List Nat} {page parent index : Nat} {flags : BitVec 64}

/-- The fresh page is none of the tables. -/
theorem TablesBelow.fresh_ne (held : TablesBelow limit state root) (taken : Takes state.pmm pmm [page])
    {other : List Nat} (user : PathBelow limit other) (short : other.length ≤ 3)
    (found : walk state root other = some table) : table ≠ pageAt state.pmm page := by
  obtain ⟨used, _, set, rfl⟩ := held.allocated other table user short found
  intro same
  obtain rfl := pageAt_injective same
  have clear := (taken.clear used (by simp)).2
  rw [set] at clear
  exact absurd clear (by simp)

/-- The entries after the creation of a table. -/
theorem TablesBelow.entry_withTable (held : TablesBelow limit state root) {position : Nat}
    (parentAligned : parent % pageSize = 0) (aligned : table % pageSize = 0) (inside : index < 512)
    (positionInside : position < 512) :
    (withTable state pmm page parent index flags).entry table position =
      if table = parent ∧ position = index then makeEntry (page * pageSize) flags
      else if table = pageAt state.pmm page then 0 else state.entry table position := by
  unfold withTable
  rw [entry_setEntry _ _ parentAligned aligned inside positionInside,
    entry_memset state pmm (pageAt_aligned held.offset page) aligned positionInside]

/-- The new entry leads to the fresh page. -/
theorem TablesBelow.child_withTable (held : TablesBelow limit state root) (taken : Takes state.pmm pmm [page])
    (clear : TableFlags flags) :
    (withTable state pmm page parent index flags).child (makeEntry (page * pageSize) flags) =
      pageAt state.pmm page := by
  have inside := (taken.clear page (by simp)).1
  have below : page * pageSize < state.pmm.totalPages * pageSize :=
    Nat.mul_lt_mul_of_pos_right inside (by decide)
  have physical := held.physical
  unfold MmuState.child MmuState.physToVirt
  rw [entryAddress_makeEntry (Nat.mul_mod_left _ _) (by omega) clear.address]
  change add64 (page * pageSize) pmm.hhdmOffset = _
  rw [taken.layout.hhdmOffset, held.direct.add64_page inside]

variable (held : TablesBelow limit state root) (taken : Takes state.pmm pmm [page]) (clear : TableFlags flags)
  (user : PathBelow limit (path ++ [index])) (short : path.length < 3) (found : walk state root path = some parent)
  (absent : ¬ Present (state.entry parent index))

section Entries

include held taken user found

/-- The other tables get one new entry. -/
theorem TablesBelow.withTable_entry {front : List Nat} {last : Nat} (frontUser : PathBelow limit front)
    (frontShort : front.length ≤ 3) (reached : walk state root front = some table) (inside : last < 512) :
    (Mmu.withTable state pmm page parent index flags).entry table last =
      if table = parent ∧ last = index then makeEntry (page * pageSize) flags else state.entry table last := by
  rw [held.entry_withTable (held.table_aligned found) (held.table_aligned reached) user.of_concat.2.1 inside,
    if_neg (held.fresh_ne taken frontUser frontShort reached)]

include short

/-- The fresh table is empty. -/
theorem TablesBelow.withTable_empty {position : Nat} (inside : position < 512) :
    (Mmu.withTable state pmm page parent index flags).entry (pageAt state.pmm page) position = 0 := by
  obtain ⟨pathUser, indexInside, _⟩ := user.of_concat
  rw [held.entry_withTable (held.table_aligned found) (pageAt_aligned held.offset page) indexInside inside,
    if_neg fun both => held.fresh_ne taken pathUser (by omega) found both.1.symm, if_pos rfl]

end Entries

include held taken clear user short found absent

/-- The creation of a table adds one walk. -/
theorem TablesBelow.walk_withTable (other : List Nat) (otherUser : PathBelow limit other)
    (otherShort : other.length ≤ 3) :
    walk (withTable state pmm page parent index flags) root other =
      if other = path ++ [index] then some (pageAt state.pmm page) else walk state root other := by
  have missing : walk state root (path ++ [index]) = none := by
    rw [walk_concat, found, Option.bind_some, if_neg absent]
  have children : ∀ entry, (withTable state pmm page parent index flags).child entry = state.child entry :=
    child_congr taken.layout.hhdmOffset
  induction other using List.reverseRecOn with
  | nil => rw [if_neg (by simp)]; rfl
  | append_singleton front last ih =>
      obtain ⟨frontUser, lastInside, _⟩ := otherUser.of_concat
      have frontShort : front.length < 3 := by simpa using otherShort
      rw [walk_concat, ih frontUser (by omega)]
      by_cases new : front = path ++ [index]
      · -- Below the fresh table every entry is zero.
        have longer : front ++ [last] ≠ path ++ [index] := by
          rw [new]
          simp
        rw [if_pos new, if_neg longer, walk_concat, new, missing, Option.bind_some, Option.bind_none,
          held.withTable_empty taken user short found lastInside, if_neg not_present_zero]
      · rw [if_neg new]
        cases reached : walk state root front with
        | none =>
            have different : front ++ [last] ≠ path ++ [index] := by
              intro same
              obtain ⟨equal, _⟩ := List.append_inj' same rfl
              rw [equal, found] at reached
              exact absurd reached (by simp)
            rw [if_neg different, walk_concat, reached, Option.bind_none, Option.bind_none]
        | some table =>
            have entry : (withTable state pmm page parent index flags).entry table last = _ :=
              held.withTable_entry taken user found frontUser (by omega) reached lastInside
            rw [Option.bind_some]
            by_cases same : front ++ [last] = path ++ [index]
            · obtain ⟨rfl, equal⟩ := List.append_inj' same rfl
              obtain rfl : last = index := by simpa using equal
              rw [found] at reached
              obtain rfl := Option.some.inj reached
              rw [if_pos ⟨rfl, rfl⟩] at entry
              rw [if_pos same, entry, if_pos (present_makeEntry _ _), held.child_withTable taken clear]
            · have different : ¬ (table = parent ∧ last = index) := by
                rintro ⟨rfl, rfl⟩
                have equal := held.unique front path table frontUser user.of_concat.1 (by omega) (by omega)
                  reached found
                exact same (by rw [equal])
              rw [if_neg different] at entry
              rw [entry, if_neg same, walk_concat, reached, Option.bind_some, children]

/-- The creation of a table keeps the tables in order. -/
theorem TablesBelow.withTable : TablesBelow limit (Mmu.withTable state pmm page parent index flags) root := by
  have walks := held.walk_withTable taken clear user short found absent
  have offset : pmm.hhdmOffset % pageSize = 0 := by
    rw [taken.layout.hhdmOffset]
    exact held.offset
  refine ⟨⟨offset, held.aligned, ?_⟩, held.direct.congr taken.layout, ?_, ?_⟩
  · intro first second table firstUser secondUser firstShort secondShort firstFound secondFound
    rw [walks first firstUser firstShort] at firstFound
    rw [walks second secondUser secondShort] at secondFound
    by_cases firstNew : first = path ++ [index]
    · by_cases secondNew : second = path ++ [index]
      · rw [firstNew, secondNew]
      · rw [if_pos firstNew] at firstFound
        rw [if_neg secondNew] at secondFound
        exact absurd (Option.some.inj firstFound).symm
          (held.fresh_ne taken secondUser secondShort secondFound)
    · rw [if_neg firstNew] at firstFound
      by_cases secondNew : second = path ++ [index]
      · rw [if_pos secondNew] at secondFound
        exact absurd (Option.some.inj secondFound).symm
          (held.fresh_ne taken firstUser firstShort firstFound)
      · rw [if_neg secondNew] at secondFound
        exact held.unique first second table firstUser secondUser firstShort secondShort firstFound
          secondFound
  · change pmm.totalPages * pageSize ≤ 2 ^ 52
    rw [taken.layout.totalPages]
    exact held.physical
  · intro other table otherUser otherShort reached
    change ∃ used, used < pmm.totalPages ∧ bitmapTest pmm used = true ∧ table = pageAt pmm used
    simp only [taken.layout.totalPages, pageAt_congr taken.layout, taken.bits]
    rw [walks other otherUser otherShort] at reached
    split at reached
    · exact ⟨page, (taken.clear page (by simp)).1, Or.inr (by simp), (Option.some.inj reached).symm⟩
    · obtain ⟨used, tracked, set, address⟩ := held.allocated other table otherUser otherShort reached
      exact ⟨used, tracked, Or.inl set, address⟩

/-- The creation of a table maps no page. -/
theorem TablesBelow.leaf_withTable (mapped : PageBelow limit virt) :
    leaf (Mmu.withTable state pmm page parent index flags) root virt = leaf state root virt := by
  unfold leaf
  rw [held.walk_withTable taken clear user short found absent _ mapped.path le_rfl]
  by_cases new : tablePath virt = path ++ [index]
  · have missing : walk state root (path ++ [index]) = none := by
      rw [walk_concat, found, Option.bind_some, if_neg absent]
    rw [if_pos new, new, missing, Option.bind_some, Option.bind_none,
      held.withTable_empty taken user short found (ptIndex_lt virt), if_neg not_present_zero]
  · rw [if_neg new]
    cases reached : walk state root (tablePath virt) with
    | none => rw [Option.bind_none, Option.bind_none]
    | some table =>
        have notParent : table ≠ parent := by
          rintro rfl
          have equal := held.unique _ path table mapped.path user.of_concat.1 le_rfl (by omega) reached found
          have length : (tablePath virt).length = 3 := rfl
          rw [equal] at length
          omega
        have entry : (Mmu.withTable state pmm page parent index flags).entry table (ptIndex virt) = _ :=
          held.withTable_entry taken user found mapped.path le_rfl reached (ptIndex_lt virt)
        rw [if_neg fun both => notParent both.1] at entry
        rw [Option.bind_some, Option.bind_some, entry]

/-- The creation of a table makes no large page. -/
theorem TablesBelow.withTable_plain (plain : PlainBelow limit state root) :
    PlainBelow limit (Mmu.withTable state pmm page parent index flags) root := by
  intro front last table lastUser frontShort reached present
  obtain ⟨frontUser, lastInside, _⟩ := lastUser.of_concat
  rw [held.walk_withTable taken clear user short found absent front frontUser (by omega)] at reached
  split at reached
  · obtain rfl := Option.some.inj reached
    rw [held.withTable_empty taken user short found lastInside] at present
    exact absurd present not_present_zero
  · rw [held.withTable_entry taken user found frontUser (by omega) reached lastInside] at present ⊢
    split
    · exact makeEntry_small (Nat.mul_mod_left _ _) clear.small
    · rename_i elsewhere
      rw [if_neg elsewhere] at present
      exact plain front last table lastUser frontShort reached present

/-- The creation of a table leaves the quiet addresses alone. -/
theorem TablesBelow.withTable_grows : GrowsBelow limit state (Mmu.withTable state pmm page parent index flags) root := by
  obtain ⟨inside, unused⟩ := taken.clear page (by simp)
  have used : ∀ other, bitmapTest state.pmm other = true → bitmapTest pmm other = true :=
    fun other used => (taken.bits other).mpr (Or.inl used)
  refine ⟨held.withTable taken clear user short found absent,
    held.withTable_plain taken clear user short found absent, taken.layout, used, ?_⟩
  intro address quiet
  refine ⟨⟨quiet.half, ?_, quiet.still_free taken.layout used⟩, ?_⟩
  · intro other table otherUser some otherShort reached
    rw [held.walk_withTable taken clear user short found absent other otherUser otherShort] at reached
    split at reached
    · obtain rfl := Option.some.inj reached
      exact quiet.free page inside unused
    · exact quiet.table other table otherUser some otherShort reached
  · have cell := quiet.outside_cell user (by omega) found
    have fresh := quiet.free page inside unused
    unfold Mmu.withTable MmuState.setEntry
    dsimp only
    rw [store64_of_outside _ cell, memset_of_outside _ (by omega)]

end Creation

/-- A write of a last-level entry leaves the quiet addresses alone. -/
theorem TablesBelow.setLeaf_grows (held : TablesBelow limit state root) (user : PathBelow limit path)
    (deep : path.length = 3) (found : walk state root path = some table) (inside : index < 512) (value : BitVec 64) :
    GrowsBelow limit state (state.setEntry table index value) root := by
  refine (held.setLeaf user deep found inside value).grows held (SameLayout.refl _) (fun _ used => used) ?_
  intro address quiet
  have outside := quiet.table path table user (by rintro rfl; simp at deep) deep.le found
  unfold pageSize at outside
  exact store64_of_outside value (by omega)

section Fresh

variable {pmm : PmmState} {page : Nat} {memory : Memory} (held : TablesBelow limit state root)
  (taken : Takes state.pmm pmm [page])
  (outside : ∀ address, address < pageAt state.pmm page ∨ pageAt state.pmm page + pageSize ≤ address →
    memory address = state.memory address)

include held taken outside

/-- The entries of the tables do not depend on a fresh page. -/
theorem TablesBelow.entry_fresh (user : PathBelow limit path) (short : path.length ≤ 3)
    (found : walk state root path = some table) (inside : index < 512) :
    (⟨pmm, memory⟩ : MmuState).entry table index = state.entry table index := by
  have different := held.fresh_ne taken user short found
  have tableAligned := held.table_aligned found
  have pageAligned := pageAt_aligned held.offset page
  apply load64_congr
  intro offset small
  apply outside
  unfold pageSize at *
  omega

theorem TablesBelow.fresh_walks : SameWalks limit state ⟨pmm, memory⟩ root where
  offset := taken.layout.hhdmOffset
  entries path index table user short found :=
    held.entry_fresh taken outside user.of_concat.1 (by omega) found user.of_concat.2.1

theorem TablesBelow.leaf_fresh (user : PageBelow limit virt) : leaf ⟨pmm, memory⟩ root virt = leaf state root virt :=
  (held.fresh_walks taken outside).leaf user fun _ reached =>
    held.entry_fresh taken outside user.path le_rfl reached (ptIndex_lt virt)

/-- Taking a fresh page and writing to it leaves the quiet addresses alone. -/
theorem TablesBelow.fresh_grows : GrowsBelow limit state ⟨pmm, memory⟩ root := by
  refine (held.fresh_walks taken outside).grows held taken.layout
    (fun other used => (taken.bits other).mpr (Or.inl used)) fun address quiet => outside address ?_
  obtain ⟨inside, unused⟩ := taken.clear page (by simp)
  have fresh := quiet.free page inside unused
  omega

end Fresh

/-- `get_next_level` follows an entry that is present, fails without a page, or creates a table. -/
theorem TablesBelow.getNextLevel_cases (held : TablesBelow limit state root) (parent index : Nat)
    (flags : BitVec 64) :
    (Present (state.entry parent index) ∧ Mmu.getNextLevel state parent index true flags =
      (some (state.child (state.entry parent index)), state)) ∨
    (¬ Present (state.entry parent index) ∧
      ((pmmAlloc state.pmm = (0, state.pmm) ∧ Mmu.getNextLevel state parent index true flags = (none, state)) ∨
      ∃ page pmm, Takes state.pmm pmm [page] ∧
        ((pageAt state.pmm page = 0 ∧
          Mmu.getNextLevel state parent index true flags = (none, ⟨pmm, state.memory⟩)) ∨
        Mmu.getNextLevel state parent index true flags =
          (some ((Mmu.withTable state pmm page parent index flags).child
            ((Mmu.withTable state pmm page parent index flags).entry parent index)),
            Mmu.withTable state pmm page parent index flags)))) := by
  unfold Mmu.getNextLevel
  by_cases present : Present (state.entry parent index)
  · rw [if_pos present]
    exact Or.inl ⟨present, rfl⟩
  · refine Or.inr ⟨present, ?_⟩
    rw [if_neg present, if_neg (by simp)]
    obtain failed | ⟨page, pmm, succeeded, taken⟩ := pmmAlloc_cases state.pmm
    · rw [failed]
      dsimp only
      rw [if_pos rfl]
      exact Or.inl ⟨rfl, rfl⟩
    · obtain ⟨inside, unused⟩ := taken.clear page (by simp)
      refine Or.inr ⟨page, pmm, taken, ?_⟩
      rw [succeeded]
      dsimp only
      rw [held.direct.pageAddress_eq inside]
      by_cases null : pageAt state.pmm page = 0
      · rw [if_pos null]
        exact Or.inl ⟨null, rfl⟩
      · have phys : MmuState.virtToPhys ⟨pmm, memset state.memory (pageAt state.pmm page) 0 pageSize⟩
            (pageAt state.pmm page) = page * pageSize := by
          unfold MmuState.virtToPhys
          rw [taken.layout.hhdmOffset, held.direct.sub64_pageAt inside]
        rw [if_neg null, phys]
        exact Or.inr rfl

/-- A step grows the tables and maps nothing. -/
def Extends (limit root : Nat) (before after : MmuState) : Prop :=
  GrowsBelow limit before after root ∧ ∀ virt, PageBelow limit virt → leaf after root virt = leaf before root virt

/-- `get_next_level` keeps the tables in order, maps nothing and extends the walk. -/
theorem TablesBelow.getNextLevel (held : TablesBelow limit state root) {parent : Nat} (clear : TableFlags flags)
    (user : PathBelow limit (path ++ [index])) (short : path.length < 3) (found : walk state root path = some parent) :
    ∃ result next, Mmu.getNextLevel state parent index true flags = (result, next) ∧
      Extends limit root state next ∧ ∀ table, result = some table → walk next root (path ++ [index]) = some table := by
  obtain ⟨present, ran⟩ | ⟨absent, ⟨_, failed⟩ | ⟨page, pmm, taken, ⟨_, ran⟩ | ran⟩⟩ :=
    held.getNextLevel_cases parent index flags
  · refine ⟨_, _, ran, ⟨GrowsBelow.refl held, fun _ _ => rfl⟩, fun table same => ?_⟩
    rw [walk_concat, found, Option.bind_some, if_pos present]
    exact same
  · exact ⟨none, state, failed, ⟨GrowsBelow.refl held, fun _ _ => rfl⟩, fun _ same => absurd same (by simp)⟩
  · exact ⟨none, _, ran, ⟨held.fresh_grows taken fun _ _ => rfl,
      fun _ mapped => held.leaf_fresh taken (fun _ _ => rfl) mapped⟩, fun _ same => absurd same (by simp)⟩
  · refine ⟨_, _, ran, ⟨held.withTable_grows taken clear user short found absent,
      fun _ mapped => held.leaf_withTable taken clear user short found absent mapped⟩, fun table same => ?_⟩
    rw [held.withTable_entry taken user found user.of_concat.1 (by omega) found user.of_concat.2.1,
      if_pos ⟨rfl, rfl⟩, held.child_withTable taken clear] at same
    rw [held.walk_withTable taken clear user short found absent _ user (by simp; omega), if_pos rfl]
    exact same

/-- Flags without address bits may be joined. -/
theorem or_clear {first second : BitVec 64} (firstClear : first &&& pageAddrMask = 0)
    (secondClear : second &&& pageAddrMask = 0) : (first ||| second) &&& pageAddrMask = 0 := by
  rw [BitVec.and_or_distrib_right]
  exact BitVec.or_eq_zero_iff.mpr ⟨firstClear, secondClear⟩

theorem tableFlags_clear (flags : BitVec 64) : TableFlags (pageWrite ||| (flags &&& pageUser)) where
  address := by
    apply or_clear (by decide)
    rw [BitVec.and_assoc, show pageUser &&& pageAddrMask = 0#64 by decide, BitVec.and_zero]
    rfl
  small := by
    rw [BitVec.and_or_distrib_right, BitVec.and_assoc, show pageUser &&& pageHuge = 0#64 by decide, BitVec.and_zero]
    decide

theorem alignDown_aligned (address : Nat) : alignDown pageSize address % pageSize = 0 :=
  Nat.mul_mod_left _ _

theorem alignDown_of_aligned (aligned : virt % pageSize = 0) : alignDown pageSize virt = virt := by
  unfold alignDown
  exact Nat.div_mul_cancel (Nat.dvd_of_mod_eq_zero aligned)

/-- `mmu_unmap_page` keeps the tables in order and clears the entry of its page. -/
theorem TablesBelow.unmapPage (held : TablesBelow limit state root) (given : pd.pml4 = root) (nonzero : root ≠ 0)
    (user : PageBelow limit virt) :
    GrowsBelow limit state (mmuUnmapPage state pd virt).2 root ∧
      ∀ other, PageBelow limit other → leaf (mmuUnmapPage state pd virt).2 root other =
        if SamePage other virt then none else leaf state root other := by
  unfold mmuUnmapPage
  dsimp only
  rw [findTable_alignDown given nonzero, (indices_alignDown virt).2]
  cases found : walk state root (tablePath virt) with
  | none =>
      refine ⟨GrowsBelow.refl held, ?_⟩
      intro other _
      by_cases same : SamePage other virt
      · rw [if_pos same]
        unfold leaf
        rw [same.1, found]
        rfl
      · rw [if_neg same]
  | some table =>
      refine ⟨held.setLeaf_grows user.path rfl found (ptIndex_lt virt) 0, ?_⟩
      intro other otherUser
      rw [held.leaf_setLeaf user found 0 otherUser, if_neg not_present_zero]

/-- `mmu_get_physical_address` reads the entry of a page and adds the offset. -/
theorem mmuGetPhysicalAddress_leaf (given : pd.pml4 = root) (nonzero : root ≠ 0) (virt : Nat) :
    mmuGetPhysicalAddress state pd virt = (leaf state root virt).elim 0
      fun entry => entryAddress entry + virt % pageSize := by
  unfold mmuGetPhysicalAddress leaf
  dsimp only
  rw [findTable_alignDown given nonzero, (indices_alignDown virt).2]
  cases walk state root (tablePath virt) with
  | none => rfl
  | some table =>
      rw [Option.bind_some]
      dsimp only
      split
      · -- The address is aligned, so the offset joins it without a carry.
        obtain ⟨count, address⟩ := Nat.dvd_of_mod_eq_zero
          (entryAddress_aligned (state.entry table (ptIndex virt)))
        have offset : virt % pageSize < 2 ^ 12 := Nat.mod_lt _ (by decide)
        rw [Option.elim_some, address, show pageSize * count = 2 ^ 12 * count from rfl,
          Nat.two_pow_add_eq_or_of_lt offset]
      · rfl

theorem mmuGetPhysicalAddress_eq (given : pd.pml4 = root) (nonzero : root ≠ 0) (aligned : virt % pageSize = 0) :
    mmuGetPhysicalAddress state pd virt = (leaf state root virt).elim 0 entryAddress := by
  rw [mmuGetPhysicalAddress_leaf given nonzero, aligned]
  rfl

/-- What holds at the root and is carried from level to level by `mmu_map_page` holds at the last table, into which the
entry is written, unless a level fails. -/
theorem mmuMapPage_levels (given : pd.pml4 = root) (nonzero : root ≠ 0) (below : PageBelow limit virt) (phys : Nat)
    (flags : BitVec 64) (reached : List Nat → MmuState → Prop) (failed : MmuState → Prop) (start : reached [] state)
    (level : ∀ path index current parent result next, PathBelow limit (path ++ [index]) → path.length < 3 →
      path ++ [index] <+: tablePath virt → reached path current → walk current root path = some parent →
      Mmu.getNextLevel current parent index true (pageWrite ||| (flags &&& pageUser)) = (result, next) →
      result.elim (failed next) fun table => reached (path ++ [index]) next ∧
        walk next root (path ++ [index]) = some table) :
    (∃ last table, reached (tablePath virt) last ∧ walk last root (tablePath virt) = some table ∧
      mmuMapPage state pd virt phys flags =
        (true, last.setEntry table (ptIndex virt) (makeEntry (alignDown pageSize phys) flags))) ∨
    ∃ last, failed last ∧ mmuMapPage state pd virt phys flags = (false, last) := by
  have three : PathBelow limit ([pml4Index virt, pdptIndex virt] ++ [pdIndex virt]) := below.path
  have two : PathBelow limit ([pml4Index virt] ++ [pdptIndex virt]) := three.of_concat.1
  have one : PathBelow limit ([] ++ [pml4Index virt]) := two.of_concat.1
  obtain ⟨paths, entry⟩ := indices_alignDown virt
  simp only [tablePath, List.cons.injEq, and_true] at paths
  obtain ⟨pml4Same, pdptSame, pdSame⟩ := paths
  unfold mmuMapPage
  rw [if_neg (by rw [given]; exact nonzero), given]
  dsimp only
  rw [pml4Same, pdptSame, pdSame, entry]
  cases firstStep : Mmu.getNextLevel state root (pml4Index virt) true (pageWrite ||| (flags &&& pageUser)) with
  | mk pdpt first =>
      have here := level [] _ state root pdpt first one (by simp) (by simp [tablePath]) start rfl firstStep
      cases pdpt with
      | none => exact Or.inr ⟨first, here, rfl⟩
      | some pdpt =>
          dsimp only
          cases secondStep : Mmu.getNextLevel first pdpt (pdptIndex virt) true (pageWrite ||| (flags &&& pageUser)) with
          | mk pdTable second =>
              have here := level _ _ first pdpt pdTable second two (by simp) (by simp [tablePath]) here.1 here.2
                secondStep
              cases pdTable with
              | none => exact Or.inr ⟨second, here, rfl⟩
              | some pdTable =>
                  dsimp only
                  cases thirdStep : Mmu.getNextLevel second pdTable (pdIndex virt) true
                      (pageWrite ||| (flags &&& pageUser)) with
                  | mk pt third =>
                      have here := level _ _ second pdTable pt third three (by simp) (by simp [tablePath]) here.1 here.2
                        thirdStep
                      cases pt with
                      | none => exact Or.inr ⟨third, here, rfl⟩
                      | some pt => exact Or.inl ⟨third, pt, here.1, here.2, rfl⟩

/-- `mmu_map_page` keeps the tables in order and sets at most the entry of its page. -/
theorem TablesBelow.mapPage (held : TablesBelow limit state root) (given : pd.pml4 = root) (nonzero : root ≠ 0)
    {phys : Nat} (user : PageBelow limit virt) :
    ∃ ok next, mmuMapPage state pd virt phys flags = (ok, next) ∧ GrowsBelow limit state next root ∧
      ∀ other, PageBelow limit other → leaf next root other =
        if ok = true ∧ SamePage other virt then some (makeEntry (alignDown pageSize phys) flags)
        else leaf state root other := by
  refine (mmuMapPage_levels given nonzero user phys flags (fun _ => Extends limit root state) (Extends limit root state)
    ⟨GrowsBelow.refl held, fun _ _ => rfl⟩ ?_).elim ?_ ?_
  · rintro path index current parent result next below short _ ⟨grows, leaves⟩ found step
    obtain ⟨_, _, again, ⟨more, same⟩, walks⟩ := grows.tables.getNextLevel (tableFlags_clear flags) below short found
    obtain ⟨rfl, rfl⟩ := Prod.mk.inj (step.symm.trans again)
    have kept : Extends limit root state next :=
      ⟨grows.trans more, fun other mapped => (same other mapped).trans (leaves other mapped)⟩
    cases result with
    | none => exact kept
    | some table => exact ⟨kept, walks table rfl⟩
  · rintro ⟨last, table, ⟨grows, leaves⟩, found, ran⟩
    refine ⟨true, _, ran, grows.trans (grows.tables.setLeaf_grows user.path rfl found (ptIndex_lt virt) _), ?_⟩
    intro other mapped
    rw [grows.tables.leaf_setLeaf user found _ mapped, leaves other mapped, if_pos (present_makeEntry _ _)]
    simp only [true_and]
  · rintro ⟨last, ⟨grows, leaves⟩, ran⟩
    exact ⟨false, last, ran, grows, fun other mapped => by simpa using leaves other mapped⟩

end Uesi.Mmu
