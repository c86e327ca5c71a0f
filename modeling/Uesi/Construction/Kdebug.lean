import Uesi.Library.Loop

namespace Uesi.Kdebug

/-- An entry of the table of breakpoints. -/
structure Breakpoint where
  address : BitVec 64
  originalByte : BitVec 8
  enabled : Bool

/-- The table with its `MAX_BREAKPOINTS` slots, and the code that it patches. -/
structure State where
  breakpoints : Fin 16 → Breakpoint
  memory : BitVec 64 → BitVec 8

/-- The zeroed table over some code. -/
def State.boot (memory : BitVec 64 → BitVec 8) : State := ⟨fun _ => ⟨0, 0, false⟩, memory⟩

/-- The first slot that is not in use. -/
def State.freeSlot (state : State) : Option (Fin 16) :=
  Fin.find? fun slot => !(state.breakpoints slot).enabled

/-- A slot holds an enabled breakpoint at an address. -/
def State.holds (state : State) (address : BitVec 64) (slot : Fin 16) : Bool :=
  (state.breakpoints slot).enabled && (state.breakpoints slot).address == address

def kdebugSetBreakpoint (state : State) (address : BitVec 64) : State × Bool :=
  match state.freeSlot with
  | some slot =>
      -- The saved byte is read before the `INT3` is written.
      ({ breakpoints := Function.update state.breakpoints slot ⟨address, state.memory address, true⟩
         memory := Function.update state.memory address 0xCC }, true)
  | none => (state, false)

def kdebugClearBreakpoint (state : State) (address : BitVec 64) : State × Bool :=
  match Fin.find? (state.holds address) with
  | some slot =>
      let breakpoint := state.breakpoints slot
      ({ breakpoints := Function.update state.breakpoints slot { breakpoint with enabled := false }
         memory := Function.update state.memory address breakpoint.originalByte }, true)
  | none => (state, false)

/-- A call on the table of breakpoints. -/
inductive Op where
  | set (address : BitVec 64)
  | clear (address : BitVec 64)

def State.step (state : State) : Op → State
  | .set address => (kdebugSetBreakpoint state address).1
  | .clear address => (kdebugClearBreakpoint state address).1

end Uesi.Kdebug
