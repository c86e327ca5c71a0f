import Uesi.Proof.Mmu.Refine

namespace Uesi.Mmu

open Library Pmm

variable {flags : BitVec 64} {path : List Nat} {next : MmuState} {virt table : Nat}

variable {limit : Nat} {state : MmuState} {root : Nat} {pd : PageDirectory}

/-- The calls reach tables below the limit only, and the others do not free these tables. -/
def OpBelow (limit : Nat) (pd : PageDirectory) (state : MmuState) : TableOp → Prop
  | .map virt _ _ => PageBelow limit virt
  | .unmap virt => PageBelow limit virt
  | .other op => ∀ page, Released state.pmm op page → ∀ path, PathBelow limit path → path.length ≤ 3 →
      walk state pd.pml4 path ≠ some (pageAt state.pmm page)

/-- One operation keeps the tables in order, and an entry that it leaves for a page was there or is the one that it
has made. -/
theorem TablesBelow.step (held : TablesBelow limit state pd.pml4) (nonzero : pd.pml4 ≠ 0) (op : TableOp)
    (allowed : OpBelow limit pd state op) :
    TablesBelow limit (tableStep pd state op).1 pd.pml4 ∧
      ∀ other entry, PageBelow limit other → leaf (tableStep pd state op).1 pd.pml4 other = some entry →
        leaf state pd.pml4 other = some entry ∨
          ∃ virt phys flags, op = .map virt phys flags ∧ entry = makeEntry (alignDown pageSize phys) flags := by
  cases op with
  | map virt phys flags =>
      obtain ⟨ok, next, ran, grows, leaves⟩ : ∃ ok next, mmuMapPage state pd virt phys flags = (ok, next) ∧ _ :=
        held.mapPage rfl nonzero allowed
      have result : (tableStep pd state (.map virt phys flags)).1 = next := by
        rw [tableStep, ran]
        rfl
      rw [result]
      refine ⟨grows.tables, fun other entry otherBelow found => ?_⟩
      rw [leaves other otherBelow] at found
      split at found
      · exact Or.inr ⟨virt, phys, flags, rfl, (Option.some.inj found).symm⟩
      · exact Or.inl found
  | unmap virt =>
      obtain ⟨grows, leaves⟩ := held.unmapPage rfl nonzero allowed
      refine ⟨grows.tables, fun other entry otherBelow found => Or.inl ?_⟩
      change leaf (mmuUnmapPage state pd virt).2 pd.pml4 other = some entry at found
      rw [leaves other otherBelow] at found
      split at found
      · exact absurd found (by simp)
      · exact found
  | other op =>
      obtain ⟨tables, offset⟩ := held.pmmStep op allowed
      refine ⟨tables, fun other entry _ found => Or.inl ?_⟩
      change leaf { state with pmm := Pmm.pmmStep state.pmm op } pd.pml4 other = some entry at found
      rw [leaf_setPmm offset] at found
      exact found

theorem TablesBelow.run (held : TablesBelow limit state pd.pml4) (nonzero : pd.pml4 ≠ 0) (ops : List TableOp)
    (allowed : Guarded (fun current op => (tableStep pd current op).1) (OpBelow limit pd) state ops) :
    TablesBelow limit (tableRun pd state ops) pd.pml4 :=
  run_guarded_invariant _ _ (fun current => TablesBelow limit current pd.pml4)
    (fun _ op tables below => (tables.step nonzero op below).1) state ops held allowed

/-- A new directory is in order as far as it is empty. -/
theorem mmuCreateAddressSpace_tables {start : MmuState} {kernelPd : Option PageDirectory} {address : Nat}
    (booted : Booted state.pmm) (created : mmuCreateAddressSpace state kernelPd = (some (address, pd), start))
    (small : limit ≤ emptyEntries kernelPd) :
    TablesBelow limit start pd.pml4 ∧ EmptyBelow limit start pd.pml4 := by
  obtain ⟨first, second, fresh, empty⟩ := mmuCreateAddressSpace_empty booted created
  have later := booted.congr fresh.taken.layout
  have tracked : second < start.pmm.totalPages := by
    rw [fresh.taken.layout.totalPages]
    exact (fresh.taken.clear second (by simp)).1
  have root : pd.pml4 = pageAt start.pmm second := by
    rw [pageAt_congr fresh.taken.layout]
    exact fresh.rootAt
  have part : EmptyBelow limit start pd.pml4 := fun index lower => empty index (by omega)
  exact ⟨part.tables later.direct later.offset later.physical tracked
    ((fresh.taken.bits second).mpr (Or.inr (by simp))) root, part⟩

/-- The entries that a walk reads, down to the first one that is not present. -/
def walkEntries (state : MmuState) : Nat → List Nat → List (BitVec 64)
  | _, [] => []
  | table, index :: rest =>
      state.entry table index ::
        if Present (state.entry table index) then walkEntries state (state.child (state.entry table index)) rest
        else []

theorem mem_walkEntries (state : MmuState) (table : Nat) (path : List Nat) (entry : BitVec 64) :
    entry ∈ walkEntries state table path ↔
      ∃ front last reached, front ++ [last] <+: path ∧ walk state table front = some reached ∧
        state.entry reached last = entry := by
  induction path generalizing table with
  | nil => simp [walkEntries]
  | cons index tail ih =>
      rw [walkEntries, List.mem_cons]
      constructor
      · rintro (rfl | later)
        · exact ⟨[], index, table, ⟨tail, rfl⟩, rfl, rfl⟩
        · split at later
          · rename_i present
            obtain ⟨front, last, reached, part, found, same⟩ := (ih _).mp later
            refine ⟨index :: front, last, reached, List.cons_prefix_cons.mpr ⟨rfl, part⟩, ?_, same⟩
            rw [walk, if_pos present]
            exact found
          · exact absurd later List.not_mem_nil
      · rintro ⟨front, last, reached, part, found, same⟩
        cases front with
        | nil =>
            obtain ⟨rfl, _⟩ := List.cons_prefix_cons.mp part
            obtain rfl := Option.some.inj found
            exact Or.inl same.symm
        | cons first front =>
            obtain ⟨rfl, rest⟩ := List.cons_prefix_cons.mp part
            rw [walk] at found
            split at found
            · rename_i present
              rw [if_pos present]
              exact Or.inr ((ih _).mpr ⟨front, last, reached, rest, found, same⟩)
            · exact absurd found (by simp)

/-- A walk that arrives has read one present entry for each index. -/
theorem walkEntries_append {reached : Nat} (found : walk state table path = some reached) (rest : List Nat) :
    walkEntries state table (path ++ rest) = walkEntries state table path ++ walkEntries state reached rest ∧
      (walkEntries state table path).length = path.length ∧
      ∀ entry ∈ walkEntries state table path, Present entry := by
  induction path generalizing table with
  | nil =>
      obtain rfl := Option.some.inj found
      exact ⟨rfl, rfl, fun _ member => absurd member List.not_mem_nil⟩
  | cons index tail ih =>
      rw [walk] at found
      split at found
      · rename_i present
        obtain ⟨joined, length, all⟩ := ih found
        simp only [List.cons_append, walkEntries, if_pos present, joined, List.length_cons, length, List.mem_cons,
          true_and]
        rintro entry (rfl | member)
        · exact present
        · exact all entry member
      · exact absurd found (by simp)

/-- Every entry on a walk that is present lets user code through. -/
def Spared (state : MmuState) (root : Nat) (path : List Nat) : Prop :=
  ∀ entry ∈ walkEntries state root path, Present entry → entry &&& pageUser ≠ 0

theorem spared_iff (path : List Nat) :
    Spared state root path ↔ ∀ front last table, front ++ [last] <+: path →
      walk state root front = some table → Present (state.entry table last) →
        state.entry table last &&& pageUser ≠ 0 := by
  unfold Spared
  constructor
  · intro spared front last table part found
    exact spared _ ((mem_walkEntries _ _ _ _).mpr ⟨front, last, table, part, found, rfl⟩)
  · intro spared entry member
    obtain ⟨front, last, table, part, found, rfl⟩ := (mem_walkEntries _ _ _ _).mp member
    exact spared front last table part found

/-- Whether a path through the upper levels is spared depends on the walks only. -/
theorem SameWalks.spared (same : SameWalks limit state next root) (below : PathBelow limit path)
    (short : path.length ≤ 3) : Spared next root path ↔ Spared state root path := by
  rw [spared_iff, spared_iff]
  refine forall₄_congr fun front last table part => ?_
  have length : front.length < 3 := by simpa using part.length_le.trans short
  have inside := below.of_prefix part
  rw [same.walk front inside.of_concat.1 (by omega)]
  refine forall_congr' fun found => ?_
  rw [same.entries front last table inside length found]

/-- A bit of one part is a bit of the whole. -/
theorem or_user {first second : BitVec 64} (user : second &&& pageUser ≠ 0) :
    (first ||| second) &&& pageUser ≠ 0 := by
  rw [BitVec.and_or_distrib_right]
  exact fun zero => user (BitVec.or_eq_zero_iff.mp zero).2

theorem makeEntry_user (phys : Nat) (user : flags &&& pageUser ≠ 0) : makeEntry phys flags &&& pageUser ≠ 0 := by
  unfold makeEntry
  rw [BitVec.or_comm]
  exact or_user (or_user user)

/-- A table that is created for user code spares a path exactly if the path was spared before. -/
theorem TablesBelow.withTable_spared (held : TablesBelow limit state root) {pmm : PmmState} {page parent index : Nat}
    (taken : Takes state.pmm pmm [page]) (clear : TableFlags flags) (below : PathBelow limit (path ++ [index]))
    (short : path.length < 3) (found : walk state root path = some parent)
    (absent : ¬ Present (state.entry parent index)) (user : flags &&& pageUser ≠ 0) {whole : List Nat}
    (inside : PathBelow limit whole) (length : whole.length ≤ 3) :
    Spared (Mmu.withTable state pmm page parent index flags) root whole ↔ Spared state root whole := by
  have parts : ∀ front last, front ++ [last] <+: whole → PathBelow limit front ∧ front.length ≤ 3 ∧ last < 512 := by
    intro front last part
    have longer := part.length_le
    rw [List.length_append] at longer
    exact ⟨(inside.of_prefix part).of_concat.1, by omega, (inside.of_prefix part).of_concat.2.1⟩
  rw [spared_iff, spared_iff]
  constructor
  · intro spared front last table part reached present
    obtain ⟨frontBelow, frontShort, lastInside⟩ := parts front last part
    have different : front ≠ path ++ [index] := by
      rintro rfl
      rw [walk_concat, found, Option.bind_some, if_neg absent] at reached
      exact absurd reached (by simp)
    have elsewhere : ¬ (table = parent ∧ last = index) := by
      rintro ⟨rfl, rfl⟩
      exact absent present
    have entry : (Mmu.withTable state pmm page parent index flags).entry table last = _ :=
      held.withTable_entry taken below found frontBelow frontShort reached lastInside
    have after := held.walk_withTable taken clear below short found absent front frontBelow frontShort
    rw [if_neg elsewhere] at entry
    rw [if_neg different, reached] at after
    rw [← entry] at present ⊢
    exact spared front last table part after present
  · intro spared front last table part reached present
    obtain ⟨frontBelow, frontShort, lastInside⟩ := parts front last part
    rw [held.walk_withTable taken clear below short found absent front frontBelow frontShort] at reached
    split at reached
    · -- The entries of the fresh table are zero.
      obtain rfl := Option.some.inj reached
      rw [held.withTable_empty taken below short found lastInside] at present
      exact absurd present not_present_zero
    · rw [held.withTable_entry taken below found frontBelow frontShort reached lastInside] at present ⊢
      split
      · exact makeEntry_user _ user
      · rename_i elsewhere
        rw [if_neg elsewhere] at present
        exact spared front last table part reached present

/-- A level that is found or created for user code leaves it to the entries before whether a path is spared. -/
theorem TablesBelow.getNextLevel_spared (held : TablesBelow limit state root) {parent index : Nat}
    (clear : TableFlags flags) (below : PathBelow limit (path ++ [index])) (short : path.length < 3)
    (found : walk state root path = some parent) (user : flags &&& pageUser ≠ 0) {whole : List Nat}
    (inside : PathBelow limit whole) (length : whole.length ≤ 3)
    (ran : Mmu.getNextLevel state parent index true flags = (some table, next)) :
    TablesBelow limit next root ∧ walk next root (path ++ [index]) = some table ∧
      (Spared next root whole ↔ Spared state root whole) := by
  obtain ⟨result, after, step, ⟨grows, _⟩, walks⟩ := held.getNextLevel clear below short found
  rw [ran] at step
  obtain ⟨rfl, rfl⟩ := Prod.mk.inj step
  refine ⟨grows.tables, walks table rfl, ?_⟩
  obtain ⟨_, same⟩ | ⟨absent, ⟨_, failed⟩ | ⟨page, pmm, taken, ⟨_, failed⟩ | same⟩⟩ :=
    held.getNextLevel_cases parent index flags
  · rw [ran] at same
    rw [(Prod.mk.inj same).2]
  · rw [ran] at failed
    exact absurd (Prod.mk.inj failed).1 (by simp)
  · rw [ran] at failed
    exact absurd (Prod.mk.inj failed).1 (by simp)
  · rw [ran] at same
    rw [(Prod.mk.inj same).2]
    exact held.withTable_spared taken clear below short found absent user inside length

theorem tableFlags_user (user : flags &&& pageUser ≠ 0) : (pageWrite ||| (flags &&& pageUser)) &&& pageUser ≠ 0 := by
  apply or_user
  rw [BitVec.and_assoc, BitVec.and_self]
  exact user

/-- A mapping for user code that succeeds ends in the write of its entry, below levels that are spared exactly if they
were spared before. -/
theorem TablesBelow.mapPage_spared (held : TablesBelow limit state root) (given : pd.pml4 = root) (nonzero : root ≠ 0)
    {phys : Nat} (below : PageBelow limit virt) (user : flags &&& pageUser ≠ 0)
    (ran : mmuMapPage state pd virt phys flags = (true, next)) :
    ∃ last table, TablesBelow limit last root ∧ walk last root (tablePath virt) = some table ∧
      (Spared last root (tablePath virt) ↔ Spared state root (tablePath virt)) ∧
      next = last.setEntry table (ptIndex virt) (makeEntry (alignDown pageSize phys) flags) := by
  refine (mmuMapPage_levels given nonzero below phys flags (fun _ current => TablesBelow limit current root ∧
    (Spared current root (tablePath virt) ↔ Spared state root (tablePath virt))) (fun _ => True)
    ⟨held, Iff.rfl⟩ ?_).elim ?_ ?_
  · rintro path index current parent result next inside short _ ⟨tables, same⟩ found step
    cases result with
    | none => trivial
    | some table =>
        obtain ⟨after, walks, spared⟩ := tables.getNextLevel_spared (tableFlags_clear flags) inside short found
          (tableFlags_user user) below.path le_rfl step
        exact ⟨⟨after, spared.trans same⟩, walks⟩
  · rintro ⟨last, table, ⟨tables, same⟩, found, step⟩
    exact ⟨last, table, tables, found, same, (Prod.mk.inj (ran.symm.trans step)).2⟩
  · rintro ⟨last, _, step⟩
    exact absurd (Prod.mk.inj (ran.symm.trans step)).1 (by simp)

/-- A mapping whose tables exist writes its entry and nothing else. -/
theorem mmuMapPage_of_walk (given : pd.pml4 = root) (nonzero : root ≠ 0)
    (found : walk state root (tablePath virt) = some table) (phys : Nat) (flags : BitVec 64) :
    mmuMapPage state pd virt phys flags =
      (true, state.setEntry table (ptIndex virt) (makeEntry (alignDown pageSize phys) flags)) := by
  obtain ⟨paths, entry⟩ := indices_alignDown virt
  simp only [tablePath, List.cons.injEq, and_true] at paths
  obtain ⟨pml4Same, pdptSame, pdSame⟩ := paths
  simp only [tablePath, walk] at found
  split_ifs at found with pml4Present pdptPresent pdPresent
  obtain rfl := Option.some.inj found
  unfold mmuMapPage getNextLevel
  rw [if_neg (by rw [given]; exact nonzero), given]
  dsimp only
  rw [pml4Same, pdptSame, pdSame, entry, if_pos pml4Present]
  dsimp only
  rw [if_pos pdptPresent]
  dsimp only
  rw [if_pos pdPresent]

/-- The walk of a page reads four entries that are present and let user code through. -/
def UserAccessible (state : MmuState) (root virt : Nat) : Prop :=
  (walkEntries state root (tablePath virt ++ [ptIndex virt])).length = 4 ∧
    ∀ entry ∈ walkEntries state root (tablePath virt ++ [ptIndex virt]), Present entry ∧ entry &&& pageUser ≠ 0

theorem TablesBelow.mapPage_accessible (held : TablesBelow limit state root) (given : pd.pml4 = root)
    (nonzero : root ≠ 0) {phys : Nat} (below : PageBelow limit virt) (user : flags &&& pageUser ≠ 0)
    (ran : mmuMapPage state pd virt phys flags = (true, next)) :
    UserAccessible next root virt ↔ Spared state root (tablePath virt) := by
  obtain ⟨last, table, tables, found, spared, rfl⟩ := held.mapPage_spared given nonzero below user ran
  have inside := ptIndex_lt virt
  have after : walk (last.setEntry table (ptIndex virt) (makeEntry (alignDown pageSize phys) flags)) root
      (tablePath virt) = some table := by
    rw [(tables.setLeaf below.path rfl found inside _).walk _ below.path le_rfl, found]
  have written : (last.setEntry table (ptIndex virt) (makeEntry (alignDown pageSize phys) flags)).entry table
      (ptIndex virt) = makeEntry (alignDown pageSize phys) flags := by
    rw [entry_setEntry last _ (tables.table_aligned found) (tables.table_aligned found) inside inside,
      if_pos ⟨rfl, rfl⟩]
  obtain ⟨joined, length, present⟩ := walkEntries_append after [ptIndex virt]
  rw [← spared, ← (tables.setLeaf below.path rfl found inside _).spared below.path le_rfl]
  unfold UserAccessible
  rw [joined]
  simp only [walkEntries, written, ite_self, List.length_append, length, List.mem_append, List.mem_singleton]
  constructor
  · rintro ⟨_, all⟩ entry member _
    exact (all entry (Or.inl member)).2
  · intro spared
    refine ⟨rfl, ?_⟩
    rintro entry (member | rfl)
    · exact ⟨present entry member, spared entry member (present entry member)⟩
    · exact ⟨present_makeEntry _ _, makeEntry_user _ user⟩

/-- After a successful mapping for user code the page can be reached by user code at every level exactly if no entry
on its way was present without the user bit before. -/
theorem mmuMapPage_accessible_iff (state start : MmuState) (kernelPd : Option PageDirectory) (address : Nat)
    (pd : PageDirectory) (limit : Nat) (ops : List TableOp) (virt phys : Nat) (flags : BitVec 64)
    (booted : Booted state.pmm) (created : mmuCreateAddressSpace state kernelPd = (some (address, pd), start))
    (inOrder : limit ≤ emptyEntries kernelPd ∨ TablesBelow limit start pd.pml4)
    (allowed : Guarded (fun current op => (tableStep pd current op).1) (OpBelow limit pd) start ops)
    (below : PageBelow limit virt) (user : flags &&& pageUser ≠ 0)
    (mapped : (mmuMapPage (tableRun pd start ops) pd virt phys flags).1 = true) :
    UserAccessible (mmuMapPage (tableRun pd start ops) pd virt phys flags).2 pd.pml4 virt ↔
      ∀ entry ∈ walkEntries (tableRun pd start ops) pd.pml4 (tablePath virt),
        Present entry → entry &&& pageUser ≠ 0 := by
  obtain ⟨_, _, fresh⟩ := mmuCreateAddressSpace_created booted created
  have initial : TablesBelow limit start pd.pml4 := by
    cases inOrder with
    | inl small => exact (mmuCreateAddressSpace_tables booted created small).1
    | inr tables => exact tables
  exact (initial.run fresh.nonzero ops allowed).mapPage_accessible rfl fresh.nonzero below user
    (Prod.ext mapped rfl)

/-- A new directory with one page. -/
def oneMapping (virt : Nat) (flags : BitVec 64) : MmuState :=
  tableRun sixteenDirectory (mmuCreateAddressSpace sixteenFree none).2 [.map virt 0x7000 flags]

/-- A second page whose tables exist can be mapped. -/
theorem oneMapping_maps {second : Nat} (phys : Nat) (more : BitVec 64)
    (tables : (walk (oneMapping virt flags) sixteenDirectory.pml4 (tablePath second)).isSome) :
    (mmuMapPage (oneMapping virt flags) sixteenDirectory second phys more).1 = true := by
  obtain ⟨table, found⟩ := Option.isSome_iff_exists.mp tables
  rw [mmuMapPage_of_walk rfl (by decide) found]

theorem mmuMapPage_accessible_iff_one :
    UserAccessible (mmuMapPage (oneMapping 0xFFFFC00000400000 pageUser) sixteenDirectory 0xFFFFC00000401000 0x9000
      pageUser).2 sixteenDirectory.pml4 0xFFFFC00000401000 := by
  have spared : ((walkEntries (oneMapping 0xFFFFC00000400000 pageUser) sixteenDirectory.pml4
      (tablePath 0xFFFFC00000401000)).all fun entry => decide (entry &&& pageUser ≠ 0)) = true := by
    decide +kernel
  have mapped : (mmuMapPage (oneMapping 0xFFFFC00000400000 pageUser) sixteenDirectory 0xFFFFC00000401000 0x9000
      pageUser).1 = true := oneMapping_maps _ _ (by decide +kernel)
  refine (mmuMapPage_accessible_iff sixteenFree _ none 0xFFFF888000000000 sixteenDirectory 512
    [.map 0xFFFFC00000400000 0x7000 pageUser] 0xFFFFC00000401000 0x9000 pageUser sixteenFree_created.1
    sixteenFree_created.2 (Or.inl le_rfl) ⟨?_, trivial⟩ ?_ (by decide) mapped).mpr
    fun entry member _ => of_decide_eq_true (List.all_eq_true.mp spared entry member)
  all_goals exact Nat.mod_lt _ (by decide)

/-- A page for user code in the same region of 2 MiB as an earlier page of the kernel cannot be reached by user
code. -/
theorem mmuMapPage_inaccessible :
    (mmuMapPage (oneMapping 0x400000 pageWrite) sixteenDirectory 0x401000 0x9000 pageUser).1 = true ∧
      ¬ UserAccessible (mmuMapPage (oneMapping 0x400000 pageWrite) sixteenDirectory 0x401000 0x9000 pageUser).2
        sixteenDirectory.pml4 0x401000 := by
  have mapped : (mmuMapPage (oneMapping 0x400000 pageWrite) sixteenDirectory 0x401000 0x9000 pageUser).1 = true :=
    oneMapping_maps _ _ (by decide +kernel)
  have tables : TablesBelow 512 (oneMapping 0x400000 pageWrite) sixteenDirectory.pml4 :=
    (mmuCreateAddressSpace_tables sixteenFree_created.1 sixteenFree_created.2 le_rfl).1.run (by decide) _
      ⟨Nat.mod_lt _ (by decide), trivial⟩
  have closed : Present ((oneMapping 0x400000 pageWrite).entry sixteenDirectory.pml4 (pml4Index 0x401000)) ∧
      (oneMapping 0x400000 pageWrite).entry sixteenDirectory.pml4 (pml4Index 0x401000) &&& pageUser = 0 := by
    decide +kernel
  refine ⟨mapped, fun reached => ?_⟩
  have spared := (tables.mapPage_accessible rfl (by decide) (Nat.mod_lt _ (by decide)) (by decide)
    (Prod.ext mapped rfl)).mp reached
  exact spared _ List.mem_cons_self closed.1 closed.2

end Uesi.Mmu
