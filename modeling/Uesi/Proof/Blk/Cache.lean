import Uesi.Construction.Blk
import Uesi.Library.Buckets
import Uesi.Library.Loop

namespace Uesi.Blk

open Library

variable {block : BitVec 64} {id dev : Nat}

variable {Data : Type} {state : CacheState Data} {history : History Data}

/-- The chains are in order when every buffer in them is filed under its device and block. -/
def Chained (state : CacheState Data) : Prop := Filed state.hash (keyOf state) (chainOf state)

section Update

variable {id : Nat} {change : BlkBuffer Data → BlkBuffer Data}

theorem updateBuffer_self (state : CacheState Data) (id : Nat) (change : BlkBuffer Data → BlkBuffer Data) :
    (updateBuffer state id change).buffers id = (state.buffers id).map change := Function.update_self ..

theorem updateBuffer_other {other : Nat} (different : other ≠ id) :
    (updateBuffer state id change).buffers other = state.buffers other := Function.update_of_ne different ..

/-- A change that keeps device and block keeps the keys of all buffers. -/
theorem keyOf_updateBuffer (dev : ∀ buffer, (change buffer).dev = buffer.dev)
    (block : ∀ buffer, (change buffer).block = buffer.block) : keyOf (updateBuffer state id change) = keyOf state := by
  funext other
  unfold keyOf
  by_cases same : other = id
  · rw [same, updateBuffer_self, Option.map_map]
    congr 1
    funext buffer
    exact Prod.ext (dev buffer) (block buffer)
  · rw [updateBuffer_other same]

end Update

theorem keyOf_addReference (id : Nat) : keyOf (updateBuffer state id addReference) = keyOf state :=
  keyOf_updateBuffer (fun _ => rfl) (fun _ => rfl)

/-- A section that searches finds the buffer of the block in the chains, or there is none. -/
theorem searchCache_cases (chained : Chained state) (dev : Nat) (block : BitVec 64) :
    (∃ id, Listed state.hash id ∧ keyOf state id = some (dev, block) ∧
      searchCache state dev block = (some id, updateBuffer state id addReference)) ∨
    ((∀ id, Listed state.hash id → keyOf state id ≠ some (dev, block)) ∧
      searchCache state dev block = (none, state)) := by
  unfold searchCache
  cases found : (state.hash (chainOf state (dev, block))).find?
      (fun id => decide (keyOf state id = some (dev, block))) with
  | some id =>
      obtain ⟨listed, known⟩ := Filed.find_some found
      exact Or.inl ⟨id, listed, known, rfl⟩
  | none => exact Or.inr ⟨fun id listed => chained.find_none found listed, rfl⟩

/-- All devices can be read and written. -/
def Works (device : Nat → BlkDevice) : Prop :=
  ∀ dev, (device dev).readOnly = false ∧ (device dev).hasRead = true ∧ (device dev).hasWrite = true

/-- The check of `blk_read` and `blk_write` for the number of a block. -/
def InRange (state : CacheState Data) (dev : Nat) (block : BitVec 64) : Prop :=
  (block + 1).toNat ≤ (state.device dev).totalBlocks

theorem blkReadBlock_inRange (works : Works state.device) (range : InRange state dev block) :
    blkReadBlock state dev block = .ok (state.contents dev block) := by
  unfold blkReadBlock
  rw [if_neg (Nat.not_lt.mpr range), (works dev).2.1, if_neg Bool.noConfusion]

theorem prepareBuffer_cases (given : Bool) (dev : Nat) (block : BitVec 64) :
    (∃ code, prepareBuffer state given dev block = (.error code, state)) ∨
    (InRange state dev block ∧ prepareBuffer state given dev block = (.ok state.fresh, { state with
      buffers := Function.update state.buffers state.fresh
        (some ⟨dev, block, state.contents dev block, false, true, 1⟩)
      fresh := state.fresh + 1 })) := by
  unfold prepareBuffer blkReadBlock
  split_ifs with absent outside unreadable
  · exact Or.inl ⟨_, rfl⟩
  · exact Or.inl ⟨_, rfl⟩
  · exact Or.inl ⟨_, rfl⟩
  · exact Or.inr ⟨Nat.not_lt.mp outside, rfl⟩

/-- The relation between the cache and the latest contents. Every buffer is in its chain and holds the latest
contents, which are also on the device if it is clean; a block without a buffer is on the device. -/
structure Coherent (history : History Data) : Prop where
  works : Works history.cache.device
  chained : Chained history.cache
  listed : ∀ id buffer, history.cache.buffers id = some buffer → Listed history.cache.hash id
  known : ∀ id, history.cache.fresh ≤ id → history.cache.buffers id = none
  range : ∀ id buffer, history.cache.buffers id = some buffer → InRange history.cache buffer.dev buffer.block
  latest : ∀ id buffer, history.cache.buffers id = some buffer →
    buffer.data = history.latest buffer.dev buffer.block
  clean : ∀ id buffer, history.cache.buffers id = some buffer → buffer.dirty = false →
    history.cache.contents buffer.dev buffer.block = history.latest buffer.dev buffer.block
  absent : ∀ dev block, (∀ id, keyOf history.cache id ≠ some (dev, block)) →
    history.cache.contents dev block = history.latest dev block

theorem keyOf_of_buffer {buffer : BlkBuffer Data} (present : state.buffers id = some buffer) :
    keyOf state id = some (buffer.dev, buffer.block) := by
  rw [keyOf, present, Option.map_some]

/-- Two buffers with the same device and block are the same. -/
theorem Coherent.unique {first second : Nat} {one two : BlkBuffer Data} (coherent : Coherent history)
    (left : history.cache.buffers first = some one) (right : history.cache.buffers second = some two)
    (dev : one.dev = two.dev) (block : one.block = two.block) : first = second := by
  apply coherent.chained.distinct first second (coherent.listed first one left) (coherent.listed second two right)
  rw [keyOf_of_buffer left, keyOf_of_buffer right, dev, block]

/-- A new state of one buffer keeps the relation if device, block and data stay and the buffer is clean only if its
data is on the device. -/
theorem Coherent.touch {change : BlkBuffer Data → BlkBuffer Data} (coherent : Coherent history)
    (dev : ∀ buffer, (change buffer).dev = buffer.dev) (block : ∀ buffer, (change buffer).block = buffer.block)
    (data : ∀ buffer, (change buffer).data = buffer.data)
    (clean : ∀ buffer, history.cache.buffers id = some buffer → (change buffer).dirty = false →
      history.cache.contents buffer.dev buffer.block = history.latest buffer.dev buffer.block) :
    Coherent { history with cache := updateBuffer history.cache id change } := by
  have keys : keyOf (updateBuffer history.cache id change) = keyOf history.cache := keyOf_updateBuffer dev block
  have old : ∀ other buffer, (updateBuffer history.cache id change).buffers other = some buffer →
      ∃ before, history.cache.buffers other = some before ∧ buffer.dev = before.dev ∧ buffer.block = before.block ∧
        buffer.data = before.data ∧ (other = id ∧ buffer = change before ∨ buffer = before) := by
    intro other buffer present
    by_cases same : other = id
    · rw [same, updateBuffer_self, Option.map_eq_some_iff] at present
      obtain ⟨before, present, rfl⟩ := present
      exact ⟨before, same ▸ present, dev before, block before, data before, Or.inl ⟨same, rfl⟩⟩
    · rw [updateBuffer_other same] at present
      exact ⟨buffer, present, rfl, rfl, rfl, Or.inr rfl⟩
  refine ⟨coherent.works, ?_, ?_, ?_, ?_, ?_, ?_, ?_⟩
  · unfold Chained
    rw [keys]
    exact coherent.chained
  · intro other buffer present
    obtain ⟨before, was, _⟩ := old other buffer present
    exact coherent.listed other before was
  · intro other above
    have none := coherent.known other above
    by_cases same : other = id
    · rw [same] at none ⊢
      dsimp only
      rw [updateBuffer_self, none, Option.map_none]
    · dsimp only
      rw [updateBuffer_other same, none]
  · intro other buffer present
    obtain ⟨before, was, sameDev, sameBlock, _⟩ := old other buffer present
    rw [sameDev, sameBlock]
    exact coherent.range other before was
  · intro other buffer present
    obtain ⟨before, was, sameDev, sameBlock, sameData, _⟩ := old other buffer present
    rw [sameDev, sameBlock, sameData]
    exact coherent.latest other before was
  · intro other buffer present unmarked
    obtain ⟨before, was, sameDev, sameBlock, _, changed | same⟩ := old other buffer present
    · rw [sameDev, sameBlock]
      exact clean before (changed.1 ▸ was) (changed.2 ▸ unmarked)
    · rw [same] at unmarked ⊢
      exact coherent.clean other before was unmarked
  · intro dev block none
    refine coherent.absent dev block fun other => ?_
    rw [← keys]
    exact none other

/-- The state with a new buffer that is in no chain yet. -/
def withBuffer (state : CacheState Data) (buffer : BlkBuffer Data) : CacheState Data :=
  { state with
    buffers := Function.update state.buffers state.fresh (some buffer)
    fresh := state.fresh + 1 }

theorem withBuffer_self (state : CacheState Data) (buffer : BlkBuffer Data) :
    (withBuffer state buffer).buffers state.fresh = some buffer := Function.update_self ..

theorem withBuffer_other (different : id ≠ state.fresh) (buffer : BlkBuffer Data) :
    (withBuffer state buffer).buffers id = state.buffers id := Function.update_of_ne different ..

theorem keyOf_withBuffer (different : id ≠ state.fresh) (buffer : BlkBuffer Data) :
    keyOf (withBuffer state buffer) id = keyOf state id := by
  unfold keyOf
  rw [withBuffer_other different]

/-- The chains stay in order when a buffer for a block that has none is made and filed. -/
theorem Chained.insert (chained : Chained state) (known : keyOf state id = some (dev, block))
    (unused : ∀ id, Listed state.hash id → keyOf state id ≠ some (dev, block)) :
    Chained (insertBuffer state dev block id) :=
  Filed.insert chained known unused

theorem Chained.withBuffer (chained : Chained state) (known : state.buffers state.fresh = none)
    (buffer : BlkBuffer Data) : Chained (withBuffer state buffer) := by
  refine Filed.congr chained fun id listed => keyOf_withBuffer (fun same => ?_) buffer
  obtain ⟨bucket, inside⟩ := listed
  obtain ⟨key, present, _⟩ := chained.filed bucket id inside
  rw [same, keyOf, known] at present
  exact nomatch present

/-- The state with a new buffer for a block in its chain. -/
def addBuffer (state : CacheState Data) (dev : Nat) (block : BitVec 64) : CacheState Data :=
  insertBuffer (withBuffer state ⟨dev, block, state.contents dev block, false, true, 1⟩) dev block state.fresh

/-- A new buffer with the contents of its block goes into its chain. -/
theorem Coherent.add (coherent : Coherent history) (range : InRange history.cache dev block)
    (unused : ∀ id, Listed history.cache.hash id → keyOf history.cache id ≠ some (dev, block)) :
    Coherent { history with cache := addBuffer history.cache dev block } := by
  have missing : ∀ id, keyOf history.cache id ≠ some (dev, block) := by
    intro id same
    obtain ⟨buffer, present, _⟩ := Option.map_eq_some_iff.mp same
    exact unused id (coherent.listed id buffer present) same
  have equal := coherent.absent dev block missing
  unfold addBuffer
  generalize fresh : (⟨dev, block, history.cache.contents dev block, false, true, 1⟩ : BlkBuffer Data) = added
  have chained : Chained (withBuffer history.cache added) :=
    coherent.chained.withBuffer (coherent.known _ le_rfl) added
  have old : ∀ id, Listed history.cache.hash id → id ≠ history.cache.fresh := by
    rintro id ⟨bucket, inside⟩ same
    obtain ⟨key, present, _⟩ := coherent.chained.filed bucket id inside
    rw [same, keyOf, coherent.known _ le_rfl] at present
    exact nomatch present
  -- A buffer of the new state is the added one or an old one.
  have cases : ∀ id buffer, (withBuffer history.cache added).buffers id = some buffer →
      id = history.cache.fresh ∧ buffer = added ∨ history.cache.buffers id = some buffer := by
    intro id buffer present
    by_cases same : id = history.cache.fresh
    · rw [same, withBuffer_self] at present
      cases present
      exact Or.inl ⟨same, rfl⟩
    · rw [withBuffer_other same] at present
      exact Or.inr present
  refine ⟨coherent.works, ?_, ?_, ?_, ?_, ?_, ?_, ?_⟩
  · refine chained.insert ?_ fun id listed => ?_
    · rw [keyOf_of_buffer (withBuffer_self _ _), ← fresh]
    · rw [keyOf_withBuffer (old id listed)]
      exact missing id
  · intro id buffer present
    rw [insertBuffer, listed_insert]
    rcases cases id buffer present with ⟨same, _⟩ | before
    · exact Or.inl same
    · exact Or.inr (coherent.listed id buffer before)
  · intro id above
    have later : history.cache.fresh < id := above
    exact (withBuffer_other later.ne' added).trans (coherent.known id later.le)
  · intro id buffer present
    rcases cases id buffer present with ⟨_, rfl⟩ | before
    · rw [← fresh]
      exact range
    · exact coherent.range id buffer before
  · intro id buffer present
    rcases cases id buffer present with ⟨_, rfl⟩ | before
    · rw [← fresh]
      exact equal
    · exact coherent.latest id buffer before
  · intro id buffer present unmarked
    rcases cases id buffer present with ⟨_, rfl⟩ | before
    · rw [← fresh]
      exact equal
    · exact coherent.clean id buffer before unmarked
  · intro other place none
    refine coherent.absent other place fun id same => ?_
    have different : id ≠ history.cache.fresh := by
      rintro rfl
      rw [keyOf, coherent.known _ le_rfl] at same
      exact nomatch same
    exact none id ((keyOf_withBuffer different added).trans same)

/-- The call finds the buffer of the block, fails and changes nothing, or adds a buffer. -/
theorem blkBufferGet_cases (chained : Chained state) (given : Bool) (dev : Nat) (block : BitVec 64) :
    (∃ id, Listed state.hash id ∧ keyOf state id = some (dev, block) ∧
      blkBufferGet state given dev block = (.ok id, updateBuffer state id addReference)) ∨
    (∃ code, blkBufferGet state given dev block = (.error code, state)) ∨
    (InRange state dev block ∧ (∀ id, Listed state.hash id → keyOf state id ≠ some (dev, block)) ∧
      blkBufferGet state given dev block = (.ok state.fresh, addBuffer state dev block)) := by
  unfold blkBufferGet
  rcases searchCache_cases chained dev block with ⟨id, listed, known, same⟩ | ⟨unused, same⟩
  · rw [same]
    exact Or.inl ⟨id, listed, known, rfl⟩
  · rw [same]
    dsimp only
    rcases prepareBuffer_cases given dev block with ⟨code, failed⟩ | ⟨range, made⟩
    · rw [failed]
      exact Or.inr (Or.inl ⟨code, rfl⟩)
    · rw [made]
      exact Or.inr (Or.inr ⟨range, unused, rfl⟩)

section Calls

variable (coherent : Coherent history)

include coherent

theorem Coherent.get (given : Bool) (dev : Nat) (block : BitVec 64) :
    Coherent (bufferStep history (.get given dev block)) := by
  unfold bufferStep
  dsimp only
  rcases blkBufferGet_cases coherent.chained given dev block with ⟨id, _, _, same⟩ | ⟨code, same⟩ |
    ⟨range, unused, same⟩
  · rw [same]
    refine coherent.touch (fun _ => rfl) (fun _ => rfl) (fun _ => rfl) fun buffer present unmarked => ?_
    exact coherent.clean id buffer present unmarked
  · rw [same]
    exact coherent
  · rw [same]
    exact coherent.add range unused

/-- The write of a dirty buffer puts the latest contents of its block on the device. -/
theorem Coherent.sync_eq {buffer : BlkBuffer Data} (present : history.cache.buffers id = some buffer)
    (dirty : buffer.dirty = true) :
    blkBufferSync history.cache id = (.ok (), updateBuffer { history.cache with
      contents := Function.update history.cache.contents buffer.dev
        (Function.update (history.cache.contents buffer.dev) buffer.block buffer.data) } id
      fun buffer => { buffer with dirty := false }) := by
  have range := coherent.range id buffer present
  have works := coherent.works buffer.dev
  unfold blkBufferSync blkWriteBlock
  rw [present]
  dsimp only
  rw [dirty, if_neg Bool.noConfusion, if_neg (Nat.not_lt.mpr range), works.1, if_neg Bool.noConfusion, works.2.2,
    if_neg Bool.noConfusion]

/-- A write of the latest contents of a block to the device keeps the relation. -/
theorem Coherent.write {buffer : BlkBuffer Data} (present : history.cache.buffers id = some buffer) :
    Coherent { history with cache := { history.cache with
      contents := Function.update history.cache.contents buffer.dev
        (Function.update (history.cache.contents buffer.dev) buffer.block buffer.data) } } := by
  have updated : ∀ dev block, history.cache.contents dev block = history.latest dev block →
      Function.update history.cache.contents buffer.dev
        (Function.update (history.cache.contents buffer.dev) buffer.block buffer.data) dev block =
        history.latest dev block := by
    intro dev block equal
    by_cases sameDev : dev = buffer.dev
    · rw [sameDev, Function.update_self]
      by_cases sameBlock : block = buffer.block
      · rw [sameBlock, Function.update_self]
        exact coherent.latest id buffer present
      · rw [Function.update_of_ne sameBlock, ← sameDev]
        exact equal
    · rw [Function.update_of_ne sameDev]
      exact equal
  refine ⟨coherent.works, coherent.chained, coherent.listed, coherent.known, coherent.range, coherent.latest, ?_, ?_⟩
  · intro other one was unmarked
    exact updated _ _ (coherent.clean other one was unmarked)
  · intro dev block none
    exact updated _ _ (coherent.absent dev block none)

theorem Coherent.sync (id : Nat) : Coherent { history with cache := (blkBufferSync history.cache id).2 } := by
  cases present : history.cache.buffers id with
  | none =>
      unfold blkBufferSync
      rw [present]
      exact coherent
  | some buffer =>
      cases dirty : buffer.dirty with
      | false =>
          unfold blkBufferSync
          rw [present]
          dsimp only
          rw [dirty, if_pos rfl]
          exact coherent
      | true =>
          rw [coherent.sync_eq present dirty]
          refine (coherent.write present).touch (fun _ => rfl) (fun _ => rfl) (fun _ => rfl)
            fun other same _ => ?_
          dsimp only at same ⊢
          rw [present] at same
          cases same
          rw [Function.update_self, Function.update_self]
          exact coherent.latest id buffer present

theorem Coherent.put (id : Nat) : Coherent { history with cache := blkBufferPut history.cache id } := by
  unfold blkBufferPut
  cases present : history.cache.buffers id with
  | none => exact coherent
  | some buffer =>
      have less : Coherent { history with cache := updateBuffer history.cache id fun buffer =>
          { buffer with refcount := buffer.refcount - 1 } } :=
        coherent.touch (fun _ => rfl) (fun _ => rfl) (fun _ => rfl) fun buffer was unmarked =>
          coherent.clean id buffer was unmarked
      dsimp only
      split_ifs
      · exact coherent
      · exact less.sync id
      · exact less

end Calls

section Modify

variable {id : Nat} {change : Data → Data}

/-- The buffer behind a modification in place that is marked as dirty. -/
def modified (change : Data → Data) (buffer : BlkBuffer Data) : BlkBuffer Data :=
  { buffer with data := change buffer.data, dirty := true }

theorem markDirty_updateBuffer (state : CacheState Data) (id : Nat) (change : Data → Data) :
    blkBufferMarkDirty (updateBuffer state id fun buffer => { buffer with data := change buffer.data }) id =
      updateBuffer state id (modified change) := by
  unfold blkBufferMarkDirty
  rw [updateBuffer, updateBuffer_self, Option.map_map, updateBuffer, updateBuffer, Function.update_idem]
  rfl

theorem updateBuffer_none {change : BlkBuffer Data → BlkBuffer Data} (missing : state.buffers id = none) :
    updateBuffer state id change = state := by
  have same : Function.update state.buffers id none = state.buffers := by
    rw [← missing, Function.update_eq_self]
  rw [updateBuffer, missing, Option.map_none, same]

theorem latestAfter_self {buffer : BlkBuffer Data} (latest : Nat → BitVec 64 → Data)
    (present : state.buffers id = some buffer) :
    latestAfter state id change latest buffer.dev buffer.block = change (latest buffer.dev buffer.block) := by
  unfold latestAfter
  rw [present]
  dsimp only
  rw [Function.update_self, Function.update_self]

theorem latestAfter_other {buffer : BlkBuffer Data} (latest : Nat → BitVec 64 → Data)
    (present : state.buffers id = some buffer) (different : ¬(dev = buffer.dev ∧ block = buffer.block)) :
    latestAfter state id change latest dev block = latest dev block := by
  unfold latestAfter
  rw [present]
  dsimp only
  by_cases same : dev = buffer.dev
  · rw [same, Function.update_self, Function.update_of_ne fun equal => different ⟨same, equal⟩]
  · rw [Function.update_of_ne same]

theorem Coherent.modify (coherent : Coherent history) (id : Nat) (change : Data → Data) :
    Coherent (bufferStep history (.modify id change)) := by
  unfold bufferStep
  dsimp only
  rw [markDirty_updateBuffer]
  cases present : history.cache.buffers id with
  | none =>
      have same : latestAfter history.cache id change history.latest = history.latest := by
        rw [latestAfter, present]
      rw [updateBuffer_none present, same]
      exact coherent
  | some buffer =>
      have keys : keyOf (updateBuffer history.cache id (modified change)) = keyOf history.cache :=
        keyOf_updateBuffer (fun _ => rfl) (fun _ => rfl)
      -- A buffer behind the modification is the modified one or another one, which has another key.
      have cases : ∀ other one, (updateBuffer history.cache id (modified change)).buffers other = some one →
          other = id ∧ one = modified change buffer ∨ history.cache.buffers other = some one ∧
            ¬(one.dev = buffer.dev ∧ one.block = buffer.block) := by
        intro other one found
        by_cases same : other = id
        · rw [same, updateBuffer_self, present, Option.map_some] at found
          cases found
          exact Or.inl ⟨same, rfl⟩
        · rw [updateBuffer_other same] at found
          exact Or.inr ⟨found, fun equal => same (coherent.unique found present equal.1 equal.2)⟩
      refine ⟨coherent.works, ?_, ?_, ?_, ?_, ?_, ?_, ?_⟩
      · unfold Chained
        rw [keys]
        exact coherent.chained
      · intro other one found
        rcases cases other one found with ⟨same, _⟩ | ⟨old, _⟩
        · rw [same]
          exact coherent.listed id buffer present
        · exact coherent.listed other one old
      · intro other above
        have different : other ≠ id := by
          rintro rfl
          rw [coherent.known other above] at present
          exact nomatch present
        exact (updateBuffer_other different).trans (coherent.known other above)
      · intro other one found
        rcases cases other one found with ⟨_, rfl⟩ | ⟨old, _⟩
        · exact coherent.range id buffer present
        · exact coherent.range other one old
      · intro other one found
        rcases cases other one found with ⟨_, rfl⟩ | ⟨old, different⟩
        · exact (congrArg change (coherent.latest id buffer present)).trans
            (latestAfter_self history.latest present).symm
        · exact (coherent.latest other one old).trans (latestAfter_other history.latest present different).symm
      · intro other one found unmarked
        rcases cases other one found with ⟨_, rfl⟩ | ⟨old, different⟩
        · exact nomatch unmarked
        · exact (coherent.clean other one old unmarked).trans
            (latestAfter_other history.latest present different).symm
      · intro dev block none
        have different : ¬(dev = buffer.dev ∧ block = buffer.block) := by
          rintro ⟨rfl, rfl⟩
          exact none id (by dsimp only; rw [keys, keyOf_of_buffer present])
        have missing : ∀ other, keyOf history.cache other ≠ some (dev, block) := by
          intro other
          rw [← keys]
          exact none other
        exact (coherent.absent dev block missing).trans (latestAfter_other history.latest present different).symm

end Modify

section SyncAll

/-- A buffer that is not dirty. -/
def IsClean (state : CacheState Data) (id : Nat) : Prop :=
  ∀ buffer, state.buffers id = some buffer → buffer.dirty = false

/-- A part of `blk_buffer_sync_all` keeps the chains and the relation and leaves the given buffers clean. -/
structure Cleans (latest : Nat → BitVec 64 → Data) (before after : CacheState Data) (ids : List Nat) : Prop where
  coherent : Coherent ⟨after, latest⟩
  hash : after.hash = before.hash
  clean : ∀ id ∈ ids, IsClean after id
  kept : ∀ id, IsClean before id → IsClean after id

variable {latest : Nat → BitVec 64 → Data} {before after final : CacheState Data} {ids others : List Nat}

theorem Cleans.refl (coherent : Coherent ⟨state, latest⟩) : Cleans latest state state [] :=
  ⟨coherent, rfl, fun _ inside => absurd inside List.not_mem_nil, fun _ clean => clean⟩

theorem Cleans.trans (first : Cleans latest before after ids) (second : Cleans latest after final others) :
    Cleans latest before final (ids ++ others) where
  coherent := second.coherent
  hash := second.hash.trans first.hash
  clean := by
    intro id inside
    rcases List.mem_append.mp inside with early | late
    · exact second.kept id (first.clean id early)
    · exact second.clean id late
  kept := fun id clean => second.kept id (first.kept id clean)

section Writes

variable (coherent : Coherent ⟨state, latest⟩)

include coherent

theorem Coherent.syncDirty (id : Nat) : Cleans latest state (syncDirty state id) [id] := by
  unfold Blk.syncDirty
  cases present : state.buffers id with
  | none =>
      refine ⟨coherent, rfl, fun other inside buffer found => ?_, fun _ clean => clean⟩
      rw [List.mem_singleton.mp inside] at found
      exact nomatch present.symm.trans found
  | some buffer =>
      cases dirty : buffer.dirty with
      | false =>
          rw [Option.any_some, dirty, if_neg Bool.false_ne_true]
          refine ⟨coherent, rfl, fun other inside one found => ?_, fun _ clean => clean⟩
          rw [List.mem_singleton.mp inside, present] at found
          cases found
          exact dirty
      | true =>
          rw [Option.any_some, dirty, if_pos rfl]
          have kept := coherent.sync id
          rw [coherent.sync_eq present dirty] at kept ⊢
          have own : IsClean (updateBuffer { state with
              contents := Function.update state.contents buffer.dev
                (Function.update (state.contents buffer.dev) buffer.block buffer.data) } id
              fun buffer => { buffer with dirty := false }) id := by
            intro one found
            rw [updateBuffer_self] at found
            obtain ⟨old, _, rfl⟩ := Option.map_eq_some_iff.mp found
            rfl
          refine ⟨kept, rfl, fun other inside => ?_, fun other clean => ?_⟩
          · rw [List.mem_singleton.mp inside]
            exact own
          · by_cases same : other = id
            · rw [same]
              exact own
            · intro one found
              rw [updateBuffer_other same] at found
              exact clean one found

theorem Coherent.syncChain (ids : List Nat) : Cleans latest state (ids.foldl Blk.syncDirty state) ids := by
  induction ids generalizing state with
  | nil => exact Cleans.refl coherent
  | cons id rest ih =>
      have first := coherent.syncDirty id
      exact first.trans (ih first.coherent)

theorem Coherent.syncChains (indexes : List Nat) :
    Cleans latest state (indexes.foldl (fun state index => (state.hash index).foldl Blk.syncDirty state) state)
      (indexes.flatMap state.hash) := by
  induction indexes generalizing state with
  | nil => exact Cleans.refl coherent
  | cons index rest ih =>
      have first := coherent.syncChain (state.hash index)
      have others := ih first.coherent
      rw [first.hash] at others
      exact first.trans others

theorem Coherent.syncAll : Cleans latest state (blkBufferSyncAll state) (cached state) := by
  unfold blkBufferSyncAll cached
  exact coherent.syncChains _

end Writes

/-- When all cached buffers are clean, the device holds the latest contents. -/
theorem Cleans.contents (cleans : Cleans latest state after (cached state)) (dev : Nat) (block : BitVec 64) :
    after.contents dev block = latest dev block := by
  have coherent := cleans.coherent
  by_cases present : ∃ id, keyOf after id = some (dev, block)
  · obtain ⟨id, known⟩ := present
    obtain ⟨buffer, found, same⟩ := Option.map_eq_some_iff.mp known
    cases same
    obtain ⟨bucket, inside⟩ := coherent.listed id buffer found
    obtain ⟨key, _, place⟩ := coherent.chained.filed bucket id inside
    have small : bucket < hashSize := by
      rw [← place]
      exact Nat.mod_lt _ (by decide)
    have member : id ∈ cached state := by
      rw [cached, ← cleans.hash]
      exact List.mem_flatMap.mpr ⟨bucket, List.mem_range.mpr small, inside⟩
    exact coherent.clean id buffer found (cleans.clean id member buffer found)
  · exact coherent.absent dev block fun id known => present ⟨id, known⟩

end SyncAll

theorem Coherent.step (coherent : Coherent history) (call : BufferCall Data) :
    Coherent (bufferStep history call) := by
  cases call with
  | get given dev block => exact coherent.get given dev block
  | modify id change => exact coherent.modify id change
  | put id => exact coherent.put id
  | sync id => exact coherent.sync id
  | syncAll =>
      have cleans := coherent.syncAll
      unfold bufferStep
      exact cleans.coherent

theorem Coherent.initial {device : Nat → BlkDevice} (works : Works device) (contents : Nat → BitVec 64 → Data) :
    Coherent ⟨{ device := device, contents := contents }, contents⟩ where
  works := works
  chained := Filed.empty _ _
  listed := fun _ _ present => nomatch present
  known := fun _ _ => rfl
  range := fun _ _ present => nomatch present
  latest := fun _ _ present => nomatch present
  clean := fun _ _ present => nomatch present
  absent := fun _ _ _ => rfl

/-- A call that succeeds returns a buffer of the block with its latest contents. -/
theorem Coherent.get_latest {given : Bool} (coherent : Coherent history)
    (answer : (blkBufferGet history.cache given dev block).1 = .ok id) :
    ∃ buffer, (blkBufferGet history.cache given dev block).2.buffers id = some buffer ∧ buffer.dev = dev ∧
      buffer.block = block ∧ buffer.data = history.latest dev block := by
  have after := coherent.get given dev block
  have found : keyOf (blkBufferGet history.cache given dev block).2 id = some (dev, block) := by
    rcases blkBufferGet_cases coherent.chained given dev block with ⟨own, _, known, same⟩ | ⟨code, same⟩ |
      ⟨_, _, same⟩
    all_goals rw [same] at answer ⊢
    all_goals cases answer
    · exact (congrFun (keyOf_addReference id) id).trans known
    · exact keyOf_of_buffer (withBuffer_self _ _)
  obtain ⟨buffer, present, same⟩ := Option.map_eq_some_iff.mp found
  cases same
  exact ⟨buffer, present, rfl, rfl, after.latest id buffer present⟩

/-- A call with enough memory succeeds for every block of the device. -/
theorem Coherent.get_succeeds (coherent : Coherent history) (range : InRange history.cache dev block) :
    ∃ id, (blkBufferGet history.cache true dev block).1 = .ok id := by
  unfold blkBufferGet
  rcases searchCache_cases coherent.chained dev block with ⟨id, _, _, same⟩ | ⟨_, same⟩
  · rw [same]
    exact ⟨id, rfl⟩
  · rw [same]
    dsimp only
    rw [prepareBuffer, if_neg Bool.noConfusion, blkReadBlock_inRange coherent.works range]
    exact ⟨_, rfl⟩

/-- In every sequence of calls on devices that work, each `blk_buffer_get` returns a buffer with the latest contents
of its block, no two cached buffers belong to the same block, and `blk_buffer_sync_all` leaves the latest contents
of every block on its device. -/
theorem blkBuffer_coherent (device : Nat → BlkDevice) (works : Works device) (contents : Nat → BitVec 64 → Data)
    (calls : List (BufferCall Data)) :
    let history := run bufferStep ⟨{ device := device, contents := contents }, contents⟩ calls
    (∀ given dev block id, (blkBufferGet history.cache given dev block).1 = .ok id →
      ∃ buffer, (blkBufferGet history.cache given dev block).2.buffers id = some buffer ∧ buffer.dev = dev ∧
        buffer.block = block ∧ buffer.data = history.latest dev block) ∧
    (∀ dev block, InRange history.cache dev block → ∃ id, (blkBufferGet history.cache true dev block).1 = .ok id) ∧
    (cached history.cache).Pairwise (fun first second => keyOf history.cache first ≠ keyOf history.cache second) ∧
    ∀ dev block, (blkBufferSyncAll history.cache).contents dev block = history.latest dev block := by
  have coherent := run_invariant bufferStep Coherent (fun history call held => held.step call)
    ⟨{ device := device, contents := contents }, contents⟩ calls (Coherent.initial works contents)
  generalize run bufferStep ⟨{ device := device, contents := contents }, contents⟩ calls = history at coherent ⊢
  obtain ⟨cache, latest⟩ := history
  have cleans := coherent.syncAll
  dsimp only
  exact ⟨fun _ _ _ _ answer => coherent.get_latest answer, fun _ _ range => coherent.get_succeeds range,
    coherent.chained.pairwise hashSize, cleans.contents⟩

def largeDevice : Nat → BlkDevice := fun _ => ⟨0, 512, false, true, true⟩

/-- Two blocks with the same place in the hash table are changed. -/
def changedBlocks : History Nat :=
  run bufferStep ⟨{ device := largeDevice, contents := fun _ _ => 0 }, fun _ _ => 0⟩
    [.get true 0 3, .modify 0 (· + 5), .put 0, .get true 0 259, .modify 1 (· + 7)]

theorem blkBuffer_coherent_of_two :
    Works largeDevice ∧ changedBlocks.cache.hash 3 = [1, 0] ∧
      (blkBufferSyncAll changedBlocks.cache).contents 0 3 = 5 ∧
      (blkBufferSyncAll changedBlocks.cache).contents 0 259 = 7 := by
  have works : Works largeDevice := fun _ => ⟨rfl, rfl, rfl⟩
  have one : changedBlocks.latest 0 3 = 5 := by decide +kernel
  have two : changedBlocks.latest 0 259 = 7 := by decide +kernel
  refine ⟨works, by decide +kernel, ?_⟩
  unfold changedBlocks at one two ⊢
  obtain ⟨_, _, _, latest⟩ := blkBuffer_coherent largeDevice works (fun _ _ => 0)
    [.get true 0 3, .modify 0 (· + 5), .put 0, .get true 0 259, .modify 1 (· + 7)]
  rw [latest, latest]
  exact ⟨one, two⟩

end Uesi.Blk
