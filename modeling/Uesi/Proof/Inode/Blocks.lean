import Uesi.Construction.Inode.Blocks
import Uesi.Proof.Blkalloc.Invariant

namespace Uesi.Inode

open Library Blkalloc

section Allocator

variable {alloc : BlkAllocator} {block : Nat}

/-- The counter is the number of blocks in use, and the hint lies in range. -/
structure Counted (alloc : BlkAllocator) : Prop where
  used : alloc.usedBlocks = countBits alloc.bitmap alloc.totalBlocks
  hint : alloc.firstFree ≤ alloc.totalBlocks

/-- No block that `blk_alloc` looks at is free. -/
def Exhausted (alloc : BlkAllocator) : Prop :=
  ∀ block, min alloc.firstDataBlock alloc.firstFree ≤ block → block < alloc.totalBlocks → alloc.free block = false

/-- The first free block that `blk_alloc` looks at is block 0. -/
def ZeroNext (alloc : BlkAllocator) : Prop :=
  alloc.free 0 = true ∧ (alloc.firstFree = 0 ∨ alloc.firstDataBlock = 0 ∧
    ∀ block, alloc.firstFree ≤ block → block < alloc.totalBlocks → alloc.free block = false)

theorem countBits_free (free : alloc.free block = true) (inside : block < alloc.totalBlocks) :
    countBits alloc.bitmap alloc.totalBlocks < alloc.totalBlocks := by
  have set := countBits_setBit inside (free_iff.mp free)
  have most : countBits (setBit alloc.bitmap block) alloc.totalBlocks ≤ alloc.totalBlocks := Nat.count_le _
  omega

/-- The call finds no free block, or it takes one, and this is block 0 exactly if block 0 comes first. -/
theorem Counted.blkAlloc_cases (counted : Counted alloc) :
    (Exhausted alloc ∧ blkAlloc alloc = (0, alloc)) ∨
    (¬ Exhausted alloc ∧ ∃ block, block < alloc.totalBlocks ∧ alloc.free block = true ∧
      blkAlloc alloc = (block, takeBlock alloc block) ∧ (block = 0 ↔ ZeroNext alloc)) := by
  have hint := counted.hint
  unfold blkAlloc
  by_cases full : alloc.totalBlocks ≤ alloc.usedBlocks
  · rw [if_pos full]
    refine Or.inl ⟨fun block _ below => ?_, rfl⟩
    by_contra free
    have room := countBits_free (Bool.not_eq_false _ ▸ free) below
    have used := counted.used
    omega
  · rw [if_neg full]
    cases first : Blkalloc.findFree alloc alloc.firstFree alloc.totalBlocks with
    | some block =>
        obtain ⟨above, below, free⟩ := Blkalloc.findFree_some first
        refine Or.inr ⟨fun none => ?_, block, below, free, rfl, ?_⟩
        · rw [none block (le_trans (min_le_right _ _) above) below] at free
          exact absurd free Bool.false_ne_true
        · constructor
          · rintro rfl
            exact ⟨free, Or.inl (by omega)⟩
          · rintro ⟨zero, start | ⟨_, none⟩⟩
            · by_contra positive
              rw [Blkalloc.findFree_first first (by omega) (by omega)] at zero
              exact absurd zero Bool.false_ne_true
            · rw [none block above below] at free
              exact absurd free Bool.false_ne_true
    | none =>
        cases second : Blkalloc.findFree alloc alloc.firstDataBlock alloc.firstFree with
        | some block =>
            obtain ⟨above, below, free⟩ := Blkalloc.findFree_some second
            refine Or.inr ⟨fun none => ?_, block, by omega, free, rfl, ?_⟩
            · rw [none block (le_trans (min_le_left _ _) above) (by omega)] at free
              exact absurd free Bool.false_ne_true
            · constructor
              · rintro rfl
                exact ⟨free, Or.inr ⟨by omega, fun other => Blkalloc.findFree_none first⟩⟩
              · rintro ⟨zero, start | ⟨start, _⟩⟩
                · omega
                · by_contra positive
                  rw [Blkalloc.findFree_first second (by omega) (by omega)] at zero
                  exact absurd zero Bool.false_ne_true
        | none =>
            refine Or.inl ⟨fun block above below => ?_, rfl⟩
            by_cases before : block < alloc.firstFree
            · exact Blkalloc.findFree_none second (by omega) before
            · exact Blkalloc.findFree_none first (by omega) below

theorem Counted.takeBlock (counted : Counted alloc) (free : alloc.free block = true)
    (inside : block < alloc.totalBlocks) : Counted (takeBlock alloc block) := by
  have bounded := alloc.totalBlocks_lt
  have room := countBits_free free inside
  have used := counted.used
  refine ⟨?_, ?_⟩
  · change (alloc.usedBlocks + 1) % 2 ^ 32 = countBits (setBit alloc.bitmap block) alloc.totalBlocks
    rw [countBits_setBit inside (free_iff.mp free), Nat.mod_eq_of_lt (by omega), used]
  · change (block + 1) % 2 ^ 32 ≤ alloc.totalBlocks
    rw [Nat.mod_eq_of_lt (by omega)]
    omega

theorem test_takeBlock (alloc : BlkAllocator) (block other : Nat) :
    bitmapTestBit (takeBlock alloc block).bitmap other = true ↔
      other = block ∨ bitmapTestBit alloc.bitmap other = true := by
  change testBit (setBit alloc.bitmap block) other = true ↔ _
  rw [testBit_setBit, Bool.or_eq_true, decide_eq_true_iff]
  rfl

/-- `blk_free` clears the bit of a data block and no other. -/
theorem blkFree_effect (counted : Counted alloc) (block : Nat) :
    Counted (blkFree alloc block).2 ∧ (blkFree alloc block).2.totalBlocks = alloc.totalBlocks ∧
      (blkFree alloc block).2.firstDataBlock = alloc.firstDataBlock ∧
      ∀ other, bitmapTestBit (blkFree alloc block).2.bitmap other = true ↔
        bitmapTestBit alloc.bitmap other = true ∧
          ¬ (other = block ∧ alloc.firstDataBlock ≤ block ∧ block < alloc.totalBlocks) := by
  have kept : ∀ {condition : Prop}, ¬ condition → ∀ other,
      (bitmapTestBit alloc.bitmap other = true ↔ bitmapTestBit alloc.bitmap other = true ∧
        ¬ (other = block ∧ condition)) := fun no other => ⟨fun set => ⟨set, fun both => no both.2⟩, And.left⟩
  unfold blkFree
  by_cases outside : alloc.totalBlocks ≤ block
  · rw [if_pos outside]
    exact ⟨counted, rfl, rfl, kept (by omega)⟩
  rw [if_neg outside]
  by_cases reserved : block < alloc.firstDataBlock
  · rw [if_pos reserved]
    exact ⟨counted, rfl, rfl, kept (by omega)⟩
  rw [if_neg reserved]
  by_cases free : alloc.free block = true
  · rw [if_pos free]
    refine ⟨counted, rfl, rfl, fun other => ⟨fun set => ⟨set, ?_⟩, And.left⟩⟩
    rintro ⟨rfl, _⟩
    rw [free_iff.mp free] at set
    exact absurd set Bool.false_ne_true
  · rw [if_neg free]
    have taken : testBit alloc.bitmap block = true := by
      rw [free_iff, Bool.not_eq_false] at free
      exact free
    have lowered := countBits_clearBit (show block < alloc.totalBlocks by omega) taken
    have used := counted.used
    have hint := counted.hint
    refine ⟨⟨?_, ?_⟩, rfl, rfl, fun other => ?_⟩
    · change (if alloc.usedBlocks = 0 then _ else _) = countBits (clearBit alloc.bitmap block) alloc.totalBlocks
      rw [if_neg (by omega)]
      omega
    · change (if block < alloc.firstFree then block else alloc.firstFree) ≤ alloc.totalBlocks
      split_ifs
      all_goals omega
    · change testBit (clearBit alloc.bitmap block) other = true ↔ testBit alloc.bitmap other = true ∧ _
      rw [testBit_clearBit, Bool.and_eq_true, Bool.not_eq_true', decide_eq_false_iff_not]
      constructor
      · rintro ⟨different, set⟩
        exact ⟨set, fun both => different both.1⟩
      · rintro ⟨set, different⟩
        exact ⟨fun same => different ⟨same, by omega, by omega⟩, set⟩

/-- The loop of `inode_truncate_blocks` gives back the data blocks in its slots. -/
theorem truncateLoop_effect (counted : Counted alloc) (slotOf : Fin 12 → Nat) (slots : List (Fin 12)) :
    Counted (truncateLoop slotOf slots alloc) ∧
      (truncateLoop slotOf slots alloc).totalBlocks = alloc.totalBlocks ∧
      (truncateLoop slotOf slots alloc).firstDataBlock = alloc.firstDataBlock ∧
      ∀ other, bitmapTestBit (truncateLoop slotOf slots alloc).bitmap other = true ↔
        bitmapTestBit alloc.bitmap other = true ∧
          ¬ ∃ slot ∈ slots, other ≠ 0 ∧ slotOf slot = other ∧
            alloc.firstDataBlock ≤ other ∧ other < alloc.totalBlocks := by
  induction slots generalizing alloc with
  | nil => exact ⟨counted, rfl, rfl, fun other => by simp [truncateLoop]⟩
  | cons slot rest ih =>
      rw [truncateLoop]
      by_cases zero : slotOf slot = 0
      · rw [if_pos zero]
        obtain ⟨after, total, data, bits⟩ := ih counted
        refine ⟨after, total, data, fun other => ?_⟩
        rw [bits other, List.exists_mem_cons_iff]
        refine and_congr_right fun _ => not_congr ⟨Or.inr, ?_⟩
        rintro (⟨nonzero, same, _⟩ | later)
        · exact absurd (same.symm.trans zero) nonzero
        · exact later
      · rw [if_neg zero]
        obtain ⟨once, onceTotal, onceData, onceBits⟩ := blkFree_effect counted (slotOf slot)
        obtain ⟨after, total, data, bits⟩ := ih once
        refine ⟨after, total.trans onceTotal, data.trans onceData, fun other => ?_⟩
        rw [bits other, onceBits other, onceTotal, onceData, List.exists_mem_cons_iff, and_assoc, ← not_or]
        refine and_congr_right fun _ => not_congr (or_congr_left ?_)
        constructor
        · rintro ⟨rfl, low, high⟩
          exact ⟨zero, rfl, low, high⟩
        · rintro ⟨_, rfl, low, high⟩
          exact ⟨rfl, low, high⟩

end Allocator

variable {ι : Type} [DecidableEq ι] {system : FileSystem ι}

/-- The number of slots of an inode that are not zero. -/
def FileInode.attached (inode : FileInode) : Nat := (Finset.univ.filter fun slot => inode.block slot ≠ 0).card

/-- Every data block in use belongs to one slot of one inode, every slot that is not zero refers to a block in use, and
`di_blocks` counts these slots. -/
structure Owned (system : FileSystem ι) : Prop where
  data : ∀ block, system.alloc.firstDataBlock ≤ block → block < system.alloc.totalBlocks →
    bitmapTestBit system.alloc.bitmap block = true →
    ∃! place : ι × Fin 12, block ≠ 0 ∧ (system.inodes place.1).block place.2 = block
  slots : ∀ inode slot, (system.inodes inode).block slot ≠ 0 →
    (system.inodes inode).block slot < system.alloc.totalBlocks ∧
      bitmapTestBit system.alloc.bitmap ((system.inodes inode).block slot) = true
  counts : ∀ inode, (system.inodes inode).blocks = (system.inodes inode).attached

/-- The states in which a call keeps the owners. -/
def KeepsOwners (system : FileSystem ι) : BlockCall ι → Prop
  | .truncateBlocks _ => True
  | .allocBlock inode fileBlock place =>
      place = false ∨ Exhausted system.alloc ∨ (ZeroNext system.alloc ∧ 1 ≤ system.alloc.firstDataBlock) ∨
        (¬ ZeroNext system.alloc ∧ ∃ slot : Fin 12, slot.val = fileBlock ∧ (system.inodes inode).block slot = 0)

theorem attached_le (inode : FileInode) : inode.attached ≤ 12 := by
  unfold FileInode.attached
  exact (Finset.card_filter_le _ _).trans (by simp)

/-- A block in an empty slot adds one to the slots that are not zero. -/
theorem attached_attach (inode : FileInode) {newBlock : Nat} (nonzero : newBlock ≠ 0) (slot : Fin 12)
    (empty : inode.block slot = 0) : (inode.attach slot.val newBlock).attached = inode.attached + 1 := by
  have more : (Finset.univ.filter fun other => (inode.attach slot.val newBlock).block other ≠ 0) =
      insert slot (Finset.univ.filter fun other => inode.block other ≠ 0) := by
    ext other
    simp only [FileInode.attach, Finset.mem_filter, Finset.mem_univ, true_and, Finset.mem_insert, Fin.val_inj]
    by_cases same : other = slot
    · simp [same, nonzero]
    · simp [same]
  unfold FileInode.attached
  rw [more, Finset.card_insert_of_notMem (by simp [empty])]

/-- A block that goes to no empty slot adds none. -/
theorem attached_attach_of_full (inode : FileInode) {fileBlock newBlock : Nat} (nonzero : newBlock ≠ 0)
    (full : ¬ ∃ slot : Fin 12, slot.val = fileBlock ∧ inode.block slot = 0) :
    (inode.attach fileBlock newBlock).attached = inode.attached := by
  unfold FileInode.attached FileInode.attach
  congr 1
  ext other
  simp only [Finset.mem_filter, Finset.mem_univ, true_and]
  by_cases here : other.val = fileBlock
  · have taken : inode.block other ≠ 0 := fun zero => full ⟨other, here, zero⟩
    simp [here, nonzero, taken]
  · simp [here]

/-- The state behind an allocation that has an answer. -/
def FileSystem.attach (system : FileSystem ι) (inode : ι) (fileBlock newBlock : Nat) : FileSystem ι :=
  { alloc := takeBlock system.alloc newBlock
    inodes := Function.update system.inodes inode ((system.inodes inode).attach fileBlock newBlock) }

/-- The state behind `inode_alloc_block` with a place for its answer. -/
theorem allocBlock_run (system : FileSystem ι) (inode : ι) (fileBlock : Nat) :
    blockCall (.allocBlock inode fileBlock true) system = .ok ()
      (if (blkAlloc system.alloc).1 = 0 then { system with alloc := (blkAlloc system.alloc).2 }
        else { alloc := (blkAlloc system.alloc).2
               inodes := Function.update system.inodes inode
                 ((system.inodes inode).attach fileBlock (blkAlloc system.alloc).1) }) := by
  have run : Post (fun _ => False) (blockCall (.allocBlock inode fileBlock true)) (fun _ final => final =
      if (blkAlloc system.alloc).1 = 0 then { system with alloc := (blkAlloc system.alloc).2 }
        else { alloc := (blkAlloc system.alloc).2
               inodes := Function.update system.inodes inode
                 ((system.inodes inode).attach fileBlock (blkAlloc system.alloc).1) }) system := by
    refine (post_map (fun _ => ()) _).mpr ?_
    unfold inodeAllocBlock
    simp only [Bool.true_eq_false, if_false, post_bind, post_get]
    refine Post.ite (fun zero => ?_) fun nonzero => ?_
    · rw [if_pos zero]
      exact rfl
    · rw [if_neg nonzero]
      exact rfl
  obtain ⟨_, final, ran, rfl⟩ := run.result
  exact ran

/-- The call changes nothing, loses block 0, or attaches a free block. -/
theorem allocBlock_cases (counted : Counted system.alloc) (inode : ι) (fileBlock : Nat) (place : Bool) :
    ((place = false ∨ Exhausted system.alloc) ∧ blockCall (.allocBlock inode fileBlock place) system = .ok () system) ∨
    (place = true ∧ ¬ Exhausted system.alloc ∧ ∃ block, block < system.alloc.totalBlocks ∧
      system.alloc.free block = true ∧ (block = 0 ↔ ZeroNext system.alloc) ∧
      blockCall (.allocBlock inode fileBlock place) system =
        .ok () (if block = 0 then { system with alloc := takeBlock system.alloc block }
          else system.attach inode fileBlock block)) := by
  cases place with
  | false => exact Or.inl ⟨Or.inl rfl, rfl⟩
  | true =>
      rcases counted.blkAlloc_cases with ⟨none, result⟩ | ⟨some, block, below, free, result, zero⟩
      · refine Or.inl ⟨Or.inr none, ?_⟩
        rw [allocBlock_run, result, if_pos rfl]
      · refine Or.inr ⟨rfl, some, block, below, free, zero, ?_⟩
        rw [allocBlock_run, result]
        rfl

/-- A free block in an empty slot has its owner. -/
theorem Owned.attach (owned : Owned system) {inode : ι} {slot : Fin 12} {block : Nat}
    (free : system.alloc.free block = true) (inside : block < system.alloc.totalBlocks) (nonzero : block ≠ 0)
    (empty : (system.inodes inode).block slot = 0) : Owned (system.attach inode slot.val block) := by
  have unused : ∀ other place, (system.inodes other).block place ≠ block := by
    intro other place same
    have set := (owned.slots other place (by rw [same]; exact nonzero)).2
    rw [same, free_iff.mp free] at set
    exact absurd set Bool.false_ne_true
  have values : ∀ other place, ((system.attach inode slot.val block).inodes other).block place =
      if other = inode ∧ place = slot then block else (system.inodes other).block place := by
    intro other place
    unfold FileSystem.attach
    by_cases same : other = inode
    · subst same
      simp only [Function.update_self, FileInode.attach, Fin.val_inj, true_and]
    · simp only [Function.update_of_ne same, same, false_and, if_false]
  refine ⟨fun other low high set => ?_, fun other place value => ?_, fun other => ?_⟩
  · rcases (test_takeBlock _ _ _).mp set with rfl | before
    · refine ⟨(inode, slot), ⟨nonzero, ?_⟩, ?_⟩
      · rw [values, if_pos ⟨rfl, rfl⟩]
      · rintro ⟨holder, place⟩ ⟨_, held⟩
        dsimp only at held
        rw [values] at held
        by_cases here : holder = inode ∧ place = slot
        · rw [here.1, here.2]
        · rw [if_neg here] at held
          exact absurd held (unused holder place)
    · obtain ⟨⟨holder, place⟩, ⟨positive, held⟩, only⟩ := owned.data other low high before
      have elsewhere : ¬ (holder = inode ∧ place = slot) := by
        rintro ⟨rfl, rfl⟩
        exact positive (held.symm.trans empty)
      refine ⟨(holder, place), ⟨positive, ?_⟩, ?_⟩
      · rw [values, if_neg elsewhere]
        exact held
      · rintro ⟨second, another⟩ ⟨_, alsoHeld⟩
        dsimp only at alsoHeld
        rw [values] at alsoHeld
        by_cases here : second = inode ∧ another = slot
        · rw [if_pos here] at alsoHeld
          rw [← alsoHeld, free_iff.mp free] at before
          exact absurd before Bool.false_ne_true
        · rw [if_neg here] at alsoHeld
          exact only (second, another) ⟨positive, alsoHeld⟩
  · rw [values] at value ⊢
    by_cases here : other = inode ∧ place = slot
    · rw [if_pos here]
      exact ⟨inside, (test_takeBlock _ _ _).mpr (Or.inl rfl)⟩
    · rw [if_neg here] at value ⊢
      obtain ⟨below, set⟩ := owned.slots other place value
      exact ⟨below, (test_takeBlock _ _ _).mpr (Or.inr set)⟩
  · have before := owned.counts other
    have most := attached_le (system.inodes other)
    unfold FileSystem.attach
    by_cases same : other = inode
    · subst same
      dsimp only
      rw [Function.update_self, attached_attach _ nonzero slot empty]
      change ((system.inodes other).blocks + 1) % 2 ^ 32 = _
      rw [before, Nat.mod_eq_of_lt (by omega)]
    · dsimp only
      rw [Function.update_of_ne same]
      exact before

omit [DecidableEq ι] in
/-- The allocation of block 0 as a reserved block changes no owner. -/
theorem Owned.loseZero (owned : Owned system) (reserved : 1 ≤ system.alloc.firstDataBlock) :
    Owned { system with alloc := takeBlock system.alloc 0 } := by
  refine ⟨fun other low high set => ?_, fun other place value => ?_, owned.counts⟩
  · rcases (test_takeBlock _ _ _).mp set with rfl | before
    · have data : system.alloc.firstDataBlock ≤ 0 := low
      omega
    · exact owned.data other low high before
  · obtain ⟨below, set⟩ := owned.slots other place value
    exact ⟨below, (test_takeBlock _ _ _).mpr (Or.inr set)⟩

/-- The truncation of a file keeps the owners of the others. -/
theorem Owned.truncate (owned : Owned system) (counted : Counted system.alloc) (inode : ι) :
    Owned ({ alloc := truncateLoop (system.inodes inode).block (List.finRange 12) system.alloc
             inodes := Function.update system.inodes inode
               { block := fun _ => 0, blocks := 0, size := 0, dirty := true } } : FileSystem ι) := by
  obtain ⟨_, total, data, bits⟩ := truncateLoop_effect counted (system.inodes inode).block (List.finRange 12)
  have values : ∀ other place, other ≠ inode → (Function.update system.inodes inode
      { block := fun _ => 0, blocks := 0, size := 0, dirty := true } other).block place =
      (system.inodes other).block place := by
    intro other place different
    rw [Function.update_of_ne different]
  refine ⟨fun block low high set => ?_, fun other place value => ?_, fun other => ?_⟩
  · dsimp only at low high set
    rw [data] at low
    rw [total] at high
    obtain ⟨before, kept⟩ := (bits block).mp set
    obtain ⟨⟨holder, place⟩, ⟨positive, held⟩, only⟩ := owned.data block low high before
    have other : holder ≠ inode := by
      rintro rfl
      exact kept ⟨place, List.mem_finRange place, positive, held, low, high⟩
    refine ⟨(holder, place), ⟨positive, (values holder place other).trans held⟩, ?_⟩
    rintro ⟨second, another⟩ ⟨_, alsoHeld⟩
    dsimp only at alsoHeld
    by_cases same : second = inode
    · rw [same, Function.update_self] at alsoHeld
      exact absurd alsoHeld.symm positive
    · rw [values second another same] at alsoHeld
      exact only (second, another) ⟨positive, alsoHeld⟩
  · dsimp only at value ⊢
    have different : other ≠ inode := by
      rintro rfl
      rw [Function.update_self] at value
      exact value rfl
    rw [values other place different] at value ⊢
    obtain ⟨below, set⟩ := owned.slots other place value
    refine ⟨by rw [total]; exact below, (bits _).mpr ⟨set, ?_⟩⟩
    rintro ⟨slot, _, _, same, low, high⟩
    obtain ⟨_, _, only⟩ := owned.data _ low high set
    have one := only (other, place) ⟨value, rfl⟩
    have two := only (inode, slot) ⟨value, same⟩
    exact different (congrArg Prod.fst (one.trans two.symm))
  · dsimp only
    by_cases same : other = inode
    · rw [same, Function.update_self]
      simp [FileInode.attached]
    · rw [Function.update_of_ne same]
      exact owned.counts other

/-- A call in such a state keeps the owners. -/
theorem Owned.step (owned : Owned system) (counted : Counted system.alloc) (call : BlockCall ι)
    (keeps : KeepsOwners system call) :
    ∃ next, blockCall call system = .ok () next ∧ Owned next ∧ Counted next.alloc := by
  cases call with
  | truncateBlocks inode =>
      exact ⟨_, rfl, owned.truncate counted inode, (truncateLoop_effect counted _ _).1⟩
  | allocBlock inode fileBlock place =>
      rcases allocBlock_cases counted inode fileBlock place with
        ⟨_, ran⟩ | ⟨given, some, block, below, free, zero, ran⟩
      · exact ⟨system, ran, owned, counted⟩
      · refine ⟨_, ran, ?_⟩
        have taken := counted.takeBlock free below
        by_cases isZero : block = 0
        · rw [if_pos isZero]
          subst isZero
          rcases keeps with absent | exhausted | ⟨_, reserved⟩ | ⟨notZero, _⟩
          · rw [given] at absent
            exact absurd absent (by decide)
          · exact absurd exhausted some
          · exact ⟨owned.loseZero reserved, taken⟩
          · exact absurd (zero.mp rfl) notZero
        · rw [if_neg isZero]
          rcases keeps with absent | exhausted | ⟨next, _⟩ | ⟨_, slot, rfl, empty⟩
          · rw [given] at absent
            exact absurd absent (by decide)
          · exact absurd exhausted some
          · exact absurd (zero.mpr next) isZero
          · exact ⟨owned.attach free below isZero empty, taken⟩

/-- A call in another state breaks them. -/
theorem Owned.broken (owned : Owned system) (counted : Counted system.alloc) (call : BlockCall ι)
    (breaks : ¬ KeepsOwners system call) : ∃ next, blockCall call system = .ok () next ∧ ¬ Owned next := by
  cases call with
  | truncateBlocks inode => exact absurd trivial breaks
  | allocBlock inode fileBlock place =>
      unfold KeepsOwners at breaks
      simp only [not_or] at breaks
      obtain ⟨given, some, reserved, slots⟩ := breaks
      rcases allocBlock_cases counted inode fileBlock place with
        ⟨absent | exhausted, _⟩ | ⟨_, _, block, below, free, zero, ran⟩
      · exact absurd absent given
      · exact absurd exhausted some
      · refine ⟨_, ran, fun after => ?_⟩
        by_cases isZero : block = 0
        · -- Block 0 is a data block that no slot can name.
          rw [if_pos isZero] at after
          subst isZero
          have data : system.alloc.firstDataBlock = 0 := by
            by_contra positive
            exact reserved ⟨zero.mp rfl, by omega⟩
          obtain ⟨_, ⟨wrong, _⟩, _⟩ := after.data 0 data.le below ((test_takeBlock _ _ _).mpr (Or.inl rfl))
          exact wrong rfl
        · -- The counter rises, but no slot is filled.
          rw [if_neg isZero] at after
          have full : ¬ ∃ slot : Fin 12, slot.val = fileBlock ∧ (system.inodes inode).block slot = 0 :=
            fun empty => slots ⟨fun next => isZero (zero.mpr next), empty⟩
          have counts := after.counts inode
          unfold FileSystem.attach at counts
          dsimp only at counts
          rw [Function.update_self, attached_attach_of_full _ isZero full, ← owned.counts inode] at counts
          have most := attached_le (system.inodes inode)
          rw [← owned.counts inode] at most
          change ((system.inodes inode).blocks + 1) % 2 ^ 32 = (system.inodes inode).blocks at counts
          rw [Nat.mod_eq_of_lt (by omega)] at counts
          omega

/-- From a file system without data blocks in use, every state of a run has its owners in order exactly if every call
is made in a state in which it keeps them. -/
theorem fileBlocks_owned_iff (system : FileSystem ι)
    (used : system.alloc.usedBlocks = countBits system.alloc.bitmap system.alloc.totalBlocks)
    (hint : system.alloc.firstFree ≤ system.alloc.totalBlocks)
    (unused : ∀ block, system.alloc.firstDataBlock ≤ block → block < system.alloc.totalBlocks →
      system.alloc.free block = true)
    (blank : ∀ inode, system.inodes inode = FileInode.blank) (calls : List (BlockCall ι)) :
    Throughout blockCall Owned system calls ↔ CallGuarded blockCall KeepsOwners system calls := by
  have initial : Owned system ∧ Counted system.alloc := by
    refine ⟨⟨fun block low high set => ?_, fun inode slot value => ?_, fun inode => ?_⟩, used, hint⟩
    · rw [free_iff.mp (unused block low high)] at set
      exact absurd set Bool.false_ne_true
    · rw [blank inode] at value
      exact absurd rfl value
    · rw [blank inode]
      simp [FileInode.attached, FileInode.blank]
  have preserved : ∀ (start : FileSystem ι) call, Owned start ∧ Counted start.alloc → KeepsOwners start call →
      Post (fun _ => True) (blockCall call) (fun _ next => Owned next ∧ Counted next.alloc) start := by
    rintro start call ⟨owned, counted⟩ keeps
    obtain ⟨next, ran, after⟩ := owned.step counted call keeps
    exact Post.of_ok ran after
  constructor
  · refine Throughout.guarded preserved ?_ initial
    rintro start call ⟨owned, counted⟩ breaks
    obtain ⟨next, ran, fails⟩ := owned.broken counted call breaks
    exact ⟨(), next, ran, fails⟩
  · exact CallGuarded.throughout (fun _ => And.left) preserved initial

theorem sixteenFiles_lt : 16 < 2 ^ 32 := by decide

/-- Two new files on a device of sixteen blocks, of which the first is reserved. -/
def sixteenFiles : FileSystem Bool where
  alloc :=
    { totalBlocks := 16, totalBlocks_lt := sixteenFiles_lt, usedBlocks := 0, firstDataBlock := 1, firstFree := 1,
      blockSize := 512, bitmap := fun _ => 0, bitmapSize := 2, bitmapBlocks := 1, dirty := false }
  inodes _ := FileInode.blank

theorem fileBlocks_owned_iff_sixteen :
    Throughout blockCall Owned sixteenFiles [.allocBlock true 3 true, .truncateBlocks true] := by
  refine (fileBlocks_owned_iff sixteenFiles (by decide) (by decide) ?_ (fun _ => rfl) _).mpr
    ⟨Or.inr (Or.inr (Or.inr ⟨?_, 3, rfl, rfl⟩)), fun _ _ _ => ⟨trivial, fun _ _ _ => trivial⟩⟩
  · intro block _ below
    have small : block < 16 := below
    interval_cases block
    all_goals rfl
  · rintro ⟨_, start | ⟨start, _⟩⟩
    all_goals exact absurd start (by decide)

/-- A file block that is allocated twice counts twice and loses its first block. -/
theorem allocBlock_loses_block :
    ¬ Throughout blockCall Owned sixteenFiles [.allocBlock true 0 true, .allocBlock true 0 true] := by
  intro always
  have last : Owned _ := (always.2 () _ (allocBlock_run _ _ _)).2 () _ (allocBlock_run _ _ _)
  exact absurd (last.counts true) (by decide +kernel)

end Uesi.Inode
