import Uesi.Construction.Kdebug

namespace Uesi.Kdebug

open Library

/-- Code without an enabled breakpoint has its original byte, and code with one is an `INT3`. -/
def Patched (original : BitVec 64 → BitVec 8) (state : State) : Prop :=
  ∀ address, ((∀ slot, state.holds address slot = false) → state.memory address = original address) ∧
    ((∃ slot, state.holds address slot = true) → state.memory address = 0xCC)

/-- A second breakpoint at an address goes to a slot below an older one, or finds no slot. -/
def Layered (state : State) : Op → Prop
  | .set address => ∀ free, state.freeSlot = some free → (∃ slot, state.holds address slot = true) →
      ∃ slot, free < slot ∧ state.holds address slot = true
  | .clear _ => True

instance (state : State) : (op : Op) → Decidable (Layered state op)
  | .set address => inferInstanceAs (Decidable (∀ free, state.freeSlot = some free →
      (∃ slot, state.holds address slot = true) → ∃ slot, free < slot ∧ state.holds address slot = true))
  | .clear _ => inferInstanceAs (Decidable True)

/-- A slot saves the original byte of its address, unless a higher slot has the same address. -/
structure Invariant (original : BitVec 64 → BitVec 8) (state : State) : Prop where
  patched : Patched original state
  covered : ∀ slot above address, state.holds address slot = true → state.holds address above = true →
    slot < above → (state.breakpoints slot).originalByte = 0xCC
  saved : ∀ slot address, state.holds address slot = true →
    (∀ above, slot < above → state.holds address above = false) →
    (state.breakpoints slot).originalByte = original address

theorem Invariant.boot (original : BitVec 64 → BitVec 8) : Invariant original (State.boot original) where
  patched _ := ⟨fun _ => rfl, fun ⟨_, held⟩ => nomatch held⟩
  covered _ _ _ held := nomatch held
  saved _ _ held := nomatch held

/-- The slots of a table with one entry replaced. -/
theorem holds_update (state : State) (slot : Fin 16) (entry : Breakpoint) (memory : BitVec 64 → BitVec 8)
    (address : BitVec 64) (place : Fin 16) :
    State.holds ⟨Function.update state.breakpoints slot entry, memory⟩ address place =
      if place = slot then entry.enabled && entry.address == address else state.holds address place := by
  unfold State.holds
  by_cases same : place = slot
  · simp [same]
  · simp [same]

theorem holds_address {state : State} {address : BitVec 64} {slot : Fin 16}
    (held : state.holds address slot = true) : (state.breakpoints slot).address = address := by
  simp only [State.holds, Bool.and_eq_true, beq_iff_eq] at held
  exact held.2

section Steps

variable {original : BitVec 64 → BitVec 8} {state : State} (held : Invariant original state)
include held

/-- A new breakpoint saves the byte that it covers. -/
theorem Invariant.set (address : BitVec 64) (layered : Layered state (.set address)) :
    Invariant original (kdebugSetBreakpoint state address).1 := by
  unfold kdebugSetBreakpoint
  cases found : state.freeSlot with
  | none => exact held
  | some free =>
      have unused : ∀ place, state.holds place free = false := by
        have disabled := Fin.eq_true_of_find?_eq_some found
        simp only [Bool.not_eq_true'] at disabled
        simp [State.holds, disabled]
      have others : ∀ place, place ≠ address → ∀ slot,
          (if slot = free then true && address == place else state.holds place slot) =
            state.holds place slot := by
        intro place apart slot
        split
        · rename_i same
          simpa [same, unused] using Ne.symm apart
        · rfl
      refine ⟨fun place => ?_, fun slot above place => ?_, fun slot place => ?_⟩
      · by_cases same : place = address
        · subst same
          refine ⟨fun empty => ?_, fun _ => Function.update_self ..⟩
          have added := empty free
          simp [holds_update] at added
        · simp only [holds_update, Function.update_of_ne same, others place same]
          exact held.patched place
      · simp only [holds_update, Function.update_apply]
        intro first second below
        by_cases isFree : slot = free
        · obtain rfl : address = place := by simpa [isFree] using first
          rw [if_neg (isFree ▸ below.ne')] at second
          rw [if_pos isFree]
          exact (held.patched address).2 ⟨above, second⟩
        · rw [if_neg isFree] at first ⊢
          by_cases top : above = free
          · obtain rfl : address = place := by simpa [top] using second
            obtain ⟨higher, beyond, same⟩ := layered free found ⟨slot, first⟩
            exact held.covered slot higher address first same (below.trans (top ▸ beyond))
          · rw [if_neg top] at second
            exact held.covered slot above place first second below
      · simp only [holds_update, Function.update_apply]
        intro first none
        by_cases isFree : slot = free
        · obtain rfl : address = place := by simpa [isFree] using first
          rw [if_pos isFree]
          refine (held.patched address).1 fun other => ?_
          by_contra taken
          obtain ⟨higher, beyond, same⟩ := layered free found ⟨other, by simpa using taken⟩
          have absent := none higher (isFree ▸ beyond)
          rw [if_neg beyond.ne', same] at absent
          exact absurd absent (by decide)
        · rw [if_neg isFree] at first ⊢
          refine held.saved slot place first fun above below => ?_
          have absent := none above below
          by_cases top : above = free
          · exact top ▸ unused place
          · rwa [if_neg top] at absent

/-- A cleared breakpoint is the lowest one of its address, so that it uncovers the next one. -/
theorem Invariant.clear (address : BitVec 64) : Invariant original (kdebugClearBreakpoint state address).1 := by
  unfold kdebugClearBreakpoint
  cases found : Fin.find? (state.holds address) with
  | none => exact held
  | some slot =>
      obtain ⟨here, lowest⟩ := Fin.find?_eq_some_iff.mp found
      have lower : ∀ other, state.holds address other = true → other = slot ∨ slot < other := by
        intro other taken
        rcases lt_trichotomy other slot with below | same | beyond
        · exact absurd taken (by simp [lowest other below])
        · exact Or.inl same
        · exact Or.inr beyond
      refine ⟨fun place => ?_, fun first above place => ?_, fun first place => ?_⟩
      · by_cases same : place = address
        · subst same
          simp only [holds_update, Function.update_self]
          refine ⟨fun empty => held.saved slot place here fun above beyond => ?_, fun ⟨other, taken⟩ => ?_⟩
          · have absent := empty above
            rwa [if_neg beyond.ne'] at absent
          · by_cases isSlot : other = slot
            · simp [isSlot] at taken
            · rw [if_neg isSlot] at taken
              exact held.covered slot other place here taken ((lower other taken).resolve_left isSlot)
        · have apart : state.holds place slot = false := by
            simp [State.holds, holds_address here, Ne.symm same]
          have unchanged : ∀ other, (if other = slot then false else state.holds place other) =
              state.holds place other := by
            intro other
            split
            · rename_i isSlot
              rw [isSlot, apart]
            · rfl
          simp only [holds_update, Bool.false_and, Function.update_of_ne same, unchanged]
          exact held.patched place
      · simp only [holds_update, Function.update_apply, Bool.false_and]
        intro lowerHeld higherHeld below
        by_cases isSlot : first = slot
        · simp [isSlot] at lowerHeld
        by_cases top : above = slot
        · simp [top] at higherHeld
        rw [if_neg isSlot] at lowerHeld ⊢
        rw [if_neg top] at higherHeld
        exact held.covered first above place lowerHeld higherHeld below
      · simp only [holds_update, Function.update_apply, Bool.false_and]
        intro taken none
        by_cases isSlot : first = slot
        · simp [isSlot] at taken
        rw [if_neg isSlot] at taken ⊢
        refine held.saved first place taken fun above below => ?_
        by_cases top : above = slot
        · by_contra present
          have same : place = address := by
            rw [← holds_address (Bool.eq_true_of_not_eq_false present), top, holds_address here]
          have order := lower first (same ▸ taken)
          omega
        · have absent := none above below
          rwa [if_neg top] at absent

end Steps

/-- In every run in which a repeated breakpoint takes a slot below an older one, the code is restored. -/
theorem breakpoints_restore (original : BitVec 64 → BitVec 8) (ops : List Op)
    (layered : Guarded State.step Layered (State.boot original) ops) :
    Patched original (run State.step (State.boot original) ops) := by
  refine (run_guarded_invariant State.step Layered (Invariant original) ?_ _ ops
    (Invariant.boot original) layered).patched
  intro state op held allowed
  cases op with
  | set address => exact held.set address allowed
  | clear address => exact held.clear address

/-- A repeated breakpoint may take the slot of one that was cleared below the older one. -/
theorem breakpoints_restore_reused :
    Guarded State.step Layered (State.boot fun _ => 0x90) [.set 9, .set 8, .clear 9, .set 8, .clear 8] ∧
      Patched (fun _ => 0x90)
        (run State.step (State.boot fun _ => 0x90) [.set 9, .set 8, .clear 9, .set 8, .clear 8]) :=
  ⟨by decide, breakpoints_restore _ _ (by decide)⟩

/-- After two breakpoints at one address and one clear, an enabled breakpoint is no `INT3`. -/
theorem breakpoint_set_twice :
    let address : BitVec 64 := 0xFFFFFFFF80001000
    let state := run State.step (State.boot fun _ => 0x90) [.set address, .set address, .clear address]
    state.holds address 1 = true ∧ state.memory address = 0x90 := by
  decide +kernel

end Uesi.Kdebug
