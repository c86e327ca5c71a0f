import Mathlib.Tactic

namespace Uesi.Locking

/-- The panics of a call on a mutex by a current task. -/
inductive Panic where
  | kmallocFailed
  | recursiveLock
  | notOwned
  deriving DecidableEq, Repr

def mtxRecurse : BitVec 32 := 1

def mtxSpin : BitVec 32 := 2

/-- The fields of `mutex_t` that `mtx_lock` protects, with the tasks of the wait queue from its head on. -/
structure Mutex where
  owner : Option Nat := none
  recurse : BitVec 32 := 0
  type : BitVec 32 := 0
  waitq : List Nat := []
  deriving DecidableEq, Repr

def mutexInit (type : BitVec 32) : Mutex := { type := type }

/-- A flag of `mtx_type` is set. -/
def Mutex.has (mtx : Mutex) (flag : BitVec 32) : Bool := mtx.type &&& flag != 0

/-- This is `mtx_waitq_enqueue`, where `entry` says whether `kmalloc` returns a block. -/
def mtxWaitqEnqueue (mtx : Mutex) (task : Nat) (entry : Bool) : Except Panic Mutex :=
  if entry then .ok { mtx with waitq := mtx.waitq ++ [task] } else .error .kmallocFailed

def mtxWaitqDequeue (mtx : Mutex) : Option Nat × Mutex :=
  match mtx.waitq with
  | [] => (none, mtx)
  | task :: rest => (some task, { mtx with waitq := rest })

/-- The task becomes the owner. -/
def Mutex.acquire (mtx : Mutex) (task : Nat) : Mutex := { mtx with owner := some task, recurse := 1 }

/-- The check of `mutex_lock` for a task that owns the mutex already: the mutex with which the call returns, or
`none` if the task is not the owner. -/
def lockRecursive (mtx : Mutex) (task : Nat) : Except Panic (Option Mutex) :=
  if mtx.owner = some task then
    if mtx.has mtxRecurse then .ok (some { mtx with recurse := mtx.recurse + 1 }) else .error .recursiveLock
  else .ok none

/-- One round of the loop of `mutex_lock` up to the point where it blocks: whether the task has the mutex now. -/
def lockRound (mtx : Mutex) (task : Nat) (entry : Bool) : Except Panic (Bool × Mutex) :=
  if mtx.owner = none then .ok (true, mtx.acquire task)
  else if mtx.has mtxSpin then .ok (false, mtx)
  else (mtxWaitqEnqueue mtx task entry).map fun mtx => (false, mtx)

/-- The first critical section of `mutex_lock`. -/
def lockSection (mtx : Mutex) (task : Nat) (entry : Bool) : Except Panic (Bool × Mutex) := do
  match ← lockRecursive mtx task with
  | some mtx => return (true, mtx)
  | none => lockRound mtx task entry

/-- The critical section of `mutex_trylock`. -/
def trylockSection (mtx : Mutex) (task : Nat) : Bool × Mutex :=
  if mtx.owner = some task then
    if mtx.has mtxRecurse then (true, { mtx with recurse := mtx.recurse + 1 }) else (false, mtx)
  else if mtx.owner ≠ none then (false, mtx)
  else (true, mtx.acquire task)

/-- The critical section of `mutex_unlock`, with the task that it wakes. -/
def unlockSection (mtx : Mutex) (task : Nat) : Except Panic (Option Nat × Mutex) :=
  if mtx.owner ≠ some task then .error .notOwned
  else if 1 < mtx.recurse then .ok (none, { mtx with recurse := mtx.recurse - 1 })
  else .ok (mtxWaitqDequeue { mtx with owner := none, recurse := 0 })

end Uesi.Locking
