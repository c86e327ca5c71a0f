import Mathlib.Tactic

namespace Uesi.Blk

/-- The error numbers of the block layer, negated in the source. -/
inductive BlkError where
  | einval
  | enomem
  | erofs
  | enosys
  deriving DecidableEq, Repr

/-- The fields of `blk_device_t` that the functions read. -/
structure BlkDevice where
  bdDev : BitVec 32
  totalBlocks : Nat
  readOnly : Bool := false
  hasRead : Bool := true
  hasWrite : Bool := true

/-- The fields of `blk_buffer_t`, where the device is named by a number and the link field is the place in a chain. -/
structure BlkBuffer (Data : Type) where
  dev : Nat
  block : BitVec 64
  data : Data
  dirty : Bool
  valid : Bool
  refcount : Nat

/-- The devices with their contents, the buffers and the chains of `blk_buffer_hash`. -/
structure CacheState (Data : Type) where
  device : Nat → BlkDevice
  contents : Nat → BitVec 64 → Data
  buffers : Nat → Option (BlkBuffer Data) := fun _ => none
  hash : Nat → List Nat := fun _ => []
  fresh : Nat := 0

variable {Data : Type}

/-- The size of the hash table. -/
def hashSize : Nat := 256

def blkBufferHashFunc (dev : BitVec 32) (block : BitVec 64) : Nat := (dev ^^^ block.setWidth 32).toNat % hashSize

/-- The device and the block of a buffer. -/
def keyOf (state : CacheState Data) (id : Nat) : Option (Nat × BitVec 64) :=
  (state.buffers id).map fun buffer => (buffer.dev, buffer.block)

/-- The chain in which a block is filed. -/
def chainOf (state : CacheState Data) (key : Nat × BitVec 64) : Nat :=
  blkBufferHashFunc (state.device key.1).bdDev key.2

/-- This is `blk_read` for one block. -/
def blkReadBlock (state : CacheState Data) (dev : Nat) (block : BitVec 64) : Except BlkError Data :=
  if (state.device dev).totalBlocks < (block + 1).toNat then .error .einval
  else if (state.device dev).hasRead = false then .error .enosys
  else .ok (state.contents dev block)

/-- This is `blk_write` for one block. -/
def blkWriteBlock (state : CacheState Data) (dev : Nat) (block : BitVec 64) (data : Data) :
    Except BlkError (CacheState Data) :=
  if (state.device dev).totalBlocks < (block + 1).toNat then .error .einval
  else if (state.device dev).readOnly then .error .erofs
  else if (state.device dev).hasWrite = false then .error .enosys
  else
    let blocks := Function.update (state.contents dev) block data
    .ok { state with contents := Function.update state.contents dev blocks }

/-- The state with a buffer changed. -/
def updateBuffer (state : CacheState Data) (id : Nat) (change : BlkBuffer Data → BlkBuffer Data) : CacheState Data :=
  { state with buffers := Function.update state.buffers id ((state.buffers id).map change) }

/-- The increment of `bb_refcount`. -/
def addReference (buffer : BlkBuffer Data) : BlkBuffer Data :=
  { buffer with refcount := (buffer.refcount + 1) % 2 ^ 32 }

/-- The first critical section of `blk_buffer_get`. -/
def searchCache (state : CacheState Data) (dev : Nat) (block : BitVec 64) : Option Nat × CacheState Data :=
  match (state.hash (chainOf state (dev, block))).find? (fun id => decide (keyOf state id = some (dev, block))) with
  | some id => (some id, updateBuffer state id addReference)
  | none => (none, state)

/-- The part of `blk_buffer_get` between its critical sections. Whether both calls of `kmalloc` succeed is given. -/
def prepareBuffer (state : CacheState Data) (given : Bool) (dev : Nat) (block : BitVec 64) :
    Except BlkError Nat × CacheState Data :=
  if given = false then (.error .enomem, state)
  else
    match blkReadBlock state dev block with
    | .error code => (.error code, state)
    | .ok data => (.ok state.fresh, { state with
        buffers := Function.update state.buffers state.fresh (some ⟨dev, block, data, false, true, 1⟩)
        fresh := state.fresh + 1 })

/-- The second critical section of `blk_buffer_get`. -/
def insertBuffer (state : CacheState Data) (dev : Nat) (block : BitVec 64) (id : Nat) : CacheState Data :=
  let index := chainOf state (dev, block)
  { state with hash := Function.update state.hash index (id :: state.hash index) }

/-- This is `blk_buffer_get` for a device that is given. -/
def blkBufferGet (state : CacheState Data) (given : Bool) (dev : Nat) (block : BitVec 64) :
    Except BlkError Nat × CacheState Data :=
  match searchCache state dev block with
  | (some id, state) => (.ok id, state)
  | (none, state) =>
      match prepareBuffer state given dev block with
      | (.error code, state) => (.error code, state)
      | (.ok id, state) => (.ok id, insertBuffer state dev block id)

def blkBufferMarkDirty (state : CacheState Data) (id : Nat) : CacheState Data :=
  updateBuffer state id fun buffer => { buffer with dirty := true }

/-- This is `blk_buffer_sync`. A pointer that is no buffer changes nothing. -/
def blkBufferSync (state : CacheState Data) (id : Nat) : Except BlkError Unit × CacheState Data :=
  match state.buffers id with
  | none => (.error .einval, state)
  | some buffer =>
      if buffer.dirty = false then (.ok (), state)
      else
        match blkWriteBlock state buffer.dev buffer.block buffer.data with
        | .error code => (.error code, state)
        | .ok state => (.ok (), updateBuffer state id fun buffer => { buffer with dirty := false })

def blkBufferPut (state : CacheState Data) (id : Nat) : CacheState Data :=
  match state.buffers id with
  | none => state
  | some buffer =>
      if buffer.refcount = 0 then state
      else
        let state := updateBuffer state id fun buffer => { buffer with refcount := buffer.refcount - 1 }
        if buffer.refcount - 1 = 0 ∧ buffer.dirty = true then (blkBufferSync state id).2 else state

/-- The test of `blk_buffer_sync_all` for one buffer. -/
def syncDirty (state : CacheState Data) (id : Nat) : CacheState Data :=
  if (state.buffers id).any BlkBuffer.dirty then (blkBufferSync state id).2 else state

/-- This is `blk_buffer_sync_all`, whose calls leave the chains as they are. -/
def blkBufferSyncAll (state : CacheState Data) : CacheState Data :=
  (List.range hashSize).foldl (fun state index => (state.hash index).foldl syncDirty state) state

/-- The calls of a user of the cache. A modification changes the data of a buffer in place and marks it as dirty. -/
inductive BufferCall (Data : Type) where
  | get (given : Bool) (dev : Nat) (block : BitVec 64)
  | modify (id : Nat) (change : Data → Data)
  | put (id : Nat)
  | sync (id : Nat)
  | syncAll

/-- The cache with the latest contents of every block. -/
structure History (Data : Type) where
  cache : CacheState Data
  latest : Nat → BitVec 64 → Data

/-- The latest contents behind a modification of a buffer. -/
def latestAfter (state : CacheState Data) (id : Nat) (change : Data → Data) (latest : Nat → BitVec 64 → Data) :
    Nat → BitVec 64 → Data :=
  match state.buffers id with
  | none => latest
  | some buffer => Function.update latest buffer.dev
      (Function.update (latest buffer.dev) buffer.block (change (latest buffer.dev buffer.block)))

/-- One call. -/
def bufferStep (history : History Data) : BufferCall Data → History Data
  | .get given dev block => { history with cache := (blkBufferGet history.cache given dev block).2 }
  | .modify id change => {
      cache := blkBufferMarkDirty
        (updateBuffer history.cache id fun buffer => { buffer with data := change buffer.data }) id
      latest := latestAfter history.cache id change history.latest }
  | .put id => { history with cache := blkBufferPut history.cache id }
  | .sync id => { history with cache := (blkBufferSync history.cache id).2 }
  | .syncAll => { history with cache := blkBufferSyncAll history.cache }

/-- The buffers in all chains. -/
def cached (state : CacheState Data) : List Nat := (List.range hashSize).flatMap state.hash

/-- Where a task is inside `blk_buffer_get`. -/
inductive GetPhase where
  | idle
  | missed (dev : Nat) (block : BitVec 64)
  | prepared (dev : Nat) (block : BitVec 64) (id : Nat)
  deriving DecidableEq

/-- The cache with the tasks and the buffers that calls have returned. -/
structure GetState (Data : Type) where
  cache : CacheState Data
  phase : Nat → GetPhase := fun _ => .idle
  returned : List ((Nat × BitVec 64) × Nat) := []

/-- The state with a task in a new phase. -/
def setPhase (state : GetState Data) (task : Nat) (phase : GetPhase) : GetState Data :=
  { state with phase := Function.update state.phase task phase }

/-- The parts of `blk_buffer_get` by a task. -/
inductive GetStep where
  | search (task dev : Nat) (block : BitVec 64)
  | prepare (task : Nat) (given : Bool)
  | insert (task : Nat)

/-- One step. A step that the task cannot make changes nothing. -/
def getStep (state : GetState Data) : GetStep → GetState Data
  | .search task dev block =>
      if state.phase task = .idle then
        match searchCache state.cache dev block with
        | (some id, cache) => { state with cache := cache, returned := ((dev, block), id) :: state.returned }
        | (none, cache) => setPhase { state with cache := cache } task (.missed dev block)
      else state
  | .prepare task given =>
      match state.phase task with
      | .missed dev block =>
          match prepareBuffer state.cache given dev block with
          | (.error _, cache) => setPhase { state with cache := cache } task .idle
          | (.ok id, cache) => setPhase { state with cache := cache } task (.prepared dev block id)
      | _ => state
  | .insert task =>
      match state.phase task with
      | .prepared dev block id => setPhase { state with
          cache := insertBuffer state.cache dev block id
          returned := ((dev, block), id) :: state.returned } task .idle
      | _ => state

end Uesi.Blk
