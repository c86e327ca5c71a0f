import Mathlib.Tactic

namespace Uesi.Spinlock

/-- The fields of `spinlock_t` that its functions read. -/
structure Lock where
  locked : BitVec 32
  cpu : Int
  intrSave : BitVec 64

/-- The flags of the processor and the locks, with what they were after each write since the start. -/
structure Machine (L : Type) where
  rflags : BitVec 64
  locks : L → Lock
  past : List (BitVec 64 × (L → Lock))

/-- The ways in which a call does not return. -/
inductive Stuck where
  | recursive
  | notHeld
  | spins
  deriving DecidableEq

section Functions

variable {L : Type}

/-- The flag `IF` is bit 9. -/
def interruptsEnabled (rflags : BitVec 64) : Bool := rflags &&& 0x200 != 0

def writeRflags (flags : BitVec 64) (machine : Machine L) : Machine L :=
  ⟨flags, machine.locks, (flags, machine.locks) :: machine.past⟩

def cli (machine : Machine L) : Machine L := writeRflags (machine.rflags &&& ~~~0x200) machine

def intrDisable (machine : Machine L) : BitVec 64 × Machine L := (machine.rflags, cli machine)

def intrRestore (flags : BitVec 64) (machine : Machine L) : Machine L := writeRflags flags machine

/-- There is one processor. -/
def getCpuId : Int := 0

variable [DecidableEq L]

/-- A store to a field of a lock. -/
def writeLock (lock : L) (value : Lock) (machine : Machine L) : Machine L :=
  let locks := Function.update machine.locks lock value
  ⟨machine.rflags, locks, (machine.rflags, locks) :: machine.past⟩

def spinlockHolding (lock : L) (machine : Machine L) : Bool × Machine L :=
  let (flags, machine) := intrDisable machine
  let r := (machine.locks lock).locked ≠ 0 ∧ (machine.locks lock).cpu = getCpuId
  (r, intrRestore flags machine)

/-- The `spinlock_acquire` function. No other processor releases a lock, so a locked one is waited for without end. -/
def spinlockAcquire (lock : L) (machine : Machine L) : Except Stuck (Machine L) :=
  let (flags, machine) := intrDisable machine
  let (holding, machine) := spinlockHolding lock machine
  if holding then .error .recursive
  else if (machine.locks lock).locked ≠ 0 then .error .spins
  else
    let machine := writeLock lock { machine.locks lock with locked := 1 } machine
    let machine := writeLock lock { machine.locks lock with cpu := getCpuId } machine
    .ok (writeLock lock { machine.locks lock with intrSave := flags } machine)

def spinlockRelease (lock : L) (machine : Machine L) : Except Stuck (Machine L) :=
  let (holding, machine) := spinlockHolding lock machine
  if ¬ holding then .error .notHeld
  else
    let machine := writeLock lock { machine.locks lock with cpu := -1 } machine
    let flags := (machine.locks lock).intrSave
    let machine := writeLock lock { machine.locks lock with locked := 0 } machine
    .ok (intrRestore flags machine)

def spinlockAcquireIrqsave (lock : L) (machine : Machine L) : Except Stuck (BitVec 64 × Machine L) := do
  let (flags, machine) := intrDisable machine
  return (flags, ← spinlockAcquire lock machine)

def spinlockReleaseIrqrestore (lock : L) (flags : BitVec 64) (machine : Machine L) : Except Stuck (Machine L) := do
  return intrRestore flags (← spinlockRelease lock machine)

/-- A properly nested sequence of calls: pairs of either kind, each around a sequence and before another one. -/
inductive Calls (L : Type) where
  | done
  | plain (lock : L) (body rest : Calls L)
  | irqsave (lock : L) (body rest : Calls L)

def Calls.run : Calls L → Machine L → Except Stuck (Machine L)
  | .done, machine => .ok machine
  | .plain lock body rest, machine => do
      let machine ← spinlockAcquire lock machine
      let machine ← spinlockRelease lock (← body.run machine)
      rest.run machine
  | .irqsave lock body rest, machine => do
      let (flags, machine) ← spinlockAcquireIrqsave lock machine
      let machine ← spinlockReleaseIrqrestore lock flags (← body.run machine)
      rest.run machine

/-- No lock is taken inside of a pair on the same lock. -/
def Calls.Distinct : List L → Calls L → Prop
  | _, .done => True
  | held, .plain lock body rest | held, .irqsave lock body rest =>
      lock ∉ held ∧ body.Distinct (lock :: held) ∧ rest.Distinct held

end Functions

end Uesi.Spinlock
