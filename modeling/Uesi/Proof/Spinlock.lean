import Uesi.Construction.Spinlock

namespace Uesi.Spinlock

variable {L : Type}

/-- Interrupts are disabled at a moment at which a lock is held. -/
def Safe (moment : BitVec 64 × (L → Lock)) : Prop :=
  (∃ lock, (moment.2 lock).locked ≠ 0) → interruptsEnabled moment.1 = false

/-- Every moment up to now was safe. -/
def Machine.Quiet (machine : Machine L) : Prop :=
  Safe (machine.rflags, machine.locks) ∧ ∀ moment ∈ machine.past, Safe moment

/-- The locks that are held are those of a list. -/
def Machine.Holds (machine : Machine L) (held : List L) : Prop :=
  ∀ lock, (machine.locks lock).locked ≠ 0 ↔ lock ∈ held

/-- A sequence of calls gives back the flags and the locks, and touches no lock that was held. -/
structure Returns (held : List L) (before after : Machine L) : Prop where
  quiet : after.Quiet
  rflags : after.rflags = before.rflags
  holds : after.Holds held
  kept : ∀ lock ∈ held, after.locks lock = before.locks lock

variable {machine : Machine L} {held : List L}

theorem Returns.trans {middle after : Machine L} (first : Returns held machine middle)
    (second : Returns held middle after) : Returns held machine after :=
  ⟨second.quiet, second.rflags.trans first.rflags, second.holds,
    fun lock member => (second.kept lock member).trans (first.kept lock member)⟩

theorem cli_disables (flags : BitVec 64) : interruptsEnabled (flags &&& ~~~0x200) = false := by
  have zero : flags &&& ~~~0x200 &&& 0x200 = 0 := by
    rw [BitVec.and_assoc, show (~~~0x200 &&& 0x200 : BitVec 64) = 0 by decide]
    exact BitVec.and_zero
  rw [interruptsEnabled, zero]
  rfl

theorem Machine.Quiet.writeRflags (quiet : machine.Quiet) {flags : BitVec 64} (safe : Safe (flags, machine.locks)) :
    (writeRflags flags machine).Quiet :=
  ⟨safe, List.forall_mem_cons.mpr ⟨safe, quiet.2⟩⟩

theorem Machine.Quiet.cli (quiet : machine.Quiet) : (cli machine).Quiet :=
  quiet.writeRflags fun _ => cli_disables machine.rflags

/-- A test of a lock leaves the flags and the locks as they were. -/
theorem Machine.Quiet.spinlockHolding (quiet : machine.Quiet) (lock : L) :
    ∃ past, spinlockHolding lock machine =
        (decide ((machine.locks lock).locked ≠ 0 ∧ (machine.locks lock).cpu = getCpuId),
          ⟨machine.rflags, machine.locks, past⟩) ∧
      Machine.Quiet ⟨machine.rflags, machine.locks, past⟩ :=
  ⟨_, rfl, quiet.cli.writeRflags quiet.1⟩

variable [DecidableEq L] {lock : L}

theorem Machine.Quiet.writeLock (quiet : machine.Quiet) (off : interruptsEnabled machine.rflags = false)
    (lock : L) (value : Lock) : (writeLock lock value machine).Quiet :=
  ⟨fun _ => off, List.forall_mem_cons.mpr ⟨fun _ => off, quiet.2⟩⟩

/-- A free lock is taken with interrupts disabled, and it saves the flags. -/
theorem Machine.Quiet.spinlockAcquire (quiet : machine.Quiet) (free : (machine.locks lock).locked = 0) :
    ∃ next, spinlockAcquire lock machine = .ok next ∧ next.Quiet ∧ interruptsEnabled next.rflags = false ∧
      next.locks = Function.update machine.locks lock ⟨1, getCpuId, machine.rflags⟩ := by
  have off := cli_disables machine.rflags
  obtain ⟨past, test, quiet⟩ := quiet.cli.spinlockHolding lock
  have locked : ((Spinlock.cli machine).locks lock).locked = 0 := free
  refine ⟨_, ?_, ((quiet.writeLock off lock ⟨1, (machine.locks lock).cpu, (machine.locks lock).intrSave⟩).writeLock
    off lock ⟨1, getCpuId, (machine.locks lock).intrSave⟩).writeLock off lock ⟨1, getCpuId, machine.rflags⟩, off, ?_⟩
  · unfold Spinlock.spinlockAcquire
    simp only [intrDisable, test, locked, Spinlock.writeLock, Function.update_self]
    rfl
  · simp only [Spinlock.writeLock, Function.update_idem]
    rfl

/-- A held lock is released with interrupts disabled, and the flags it saved are restored. -/
theorem Machine.Quiet.spinlockRelease (quiet : machine.Quiet) (off : interruptsEnabled machine.rflags = false)
    {flags : BitVec 64} (mine : machine.locks lock = ⟨1, getCpuId, flags⟩)
    (safe : Safe (flags, Function.update machine.locks lock ⟨0, -1, flags⟩)) :
    ∃ next, spinlockRelease lock machine = .ok next ∧ next.Quiet ∧ next.rflags = flags ∧
      next.locks = Function.update machine.locks lock ⟨0, -1, flags⟩ := by
  obtain ⟨past, test, quiet⟩ := quiet.spinlockHolding lock
  have locks : (Spinlock.writeLock lock ⟨0, -1, flags⟩ (Spinlock.writeLock lock ⟨1, -1, flags⟩
      ⟨machine.rflags, machine.locks, past⟩)).locks = Function.update machine.locks lock ⟨0, -1, flags⟩ := by
    simp only [Spinlock.writeLock, Function.update_idem]
  refine ⟨_, ?_, ((quiet.writeLock off lock ⟨1, -1, flags⟩).writeLock off lock ⟨0, -1, flags⟩).writeRflags ?_, rfl, locks⟩
  · unfold Spinlock.spinlockRelease
    simp only [test, mine, Spinlock.writeLock, Function.update_self]
    rfl
  · rw [locks]
    exact safe

/-- A pair around calls that return is itself a sequence that returns. -/
theorem Returns.pair (quiet : machine.Quiet) (holds : machine.Holds held) (fresh : lock ∉ held) {body : Calls L}
    (inner : ∀ {machine : Machine L}, machine.Quiet → machine.Holds (lock :: held) →
      ∃ next, body.run machine = .ok next ∧ Returns (lock :: held) machine next) :
    ∃ taken inside after, spinlockAcquire lock machine = .ok taken ∧ body.run taken = .ok inside ∧
      spinlockRelease lock inside = .ok after ∧ Returns held machine after := by
  have free : (machine.locks lock).locked = 0 := by
    by_contra locked
    exact fresh ((holds lock).mp locked)
  obtain ⟨taken, acquired, quietly, off, locks⟩ := quiet.spinlockAcquire free
  have holding : taken.Holds (lock :: held) := by
    intro other
    rw [locks, List.mem_cons]
    by_cases same : other = lock
    · subst same
      simp
    · rw [Function.update_of_ne same, holds other]
      simp [same]
  obtain ⟨inside, ran, returned⟩ := inner quietly holding
  have mine : inside.locks lock = ⟨1, getCpuId, machine.rflags⟩ := by
    rw [returned.kept lock List.mem_cons_self, locks, Function.update_self]
  have still : ∀ other, (Function.update inside.locks lock ⟨0, -1, machine.rflags⟩ other).locked ≠ 0 ↔
      other ∈ held := by
    intro other
    by_cases same : other = lock
    · subst same
      simp [fresh]
    · rw [Function.update_of_ne same, returned.holds other, List.mem_cons]
      simp [same]
  have safe : Safe (machine.rflags, Function.update inside.locks lock ⟨0, -1, machine.rflags⟩) := by
    rintro ⟨other, locked⟩
    exact quiet.1 ⟨other, (holds other).mpr ((still other).mp locked)⟩
  obtain ⟨after, released, calm, flags, last⟩ :=
    returned.quiet.spinlockRelease (returned.rflags ▸ off) mine safe
  refine ⟨taken, inside, after, acquired, ran, released, calm, flags, ?_, ?_⟩
  · intro other
    rw [last]
    exact still other
  · intro other member
    have differs : other ≠ lock := fun same => fresh (same ▸ member)
    rw [last, Function.update_of_ne differs, returned.kept other (List.mem_cons_of_mem _ member), locks,
      Function.update_of_ne differs]

theorem Calls.run_returns (calls : Calls L) (distinct : calls.Distinct held) (quiet : machine.Quiet)
    (holds : machine.Holds held) : ∃ next, calls.run machine = .ok next ∧ Returns held machine next := by
  induction calls generalizing machine held with
  | done => exact ⟨machine, rfl, quiet, rfl, holds, fun _ _ => rfl⟩
  | plain lock body rest inner outer =>
      obtain ⟨fresh, inside, later⟩ := distinct
      obtain ⟨taken, middle, after, acquired, ran, released, returns⟩ := Returns.pair quiet holds fresh (inner inside)
      obtain ⟨last, finished, others⟩ := outer later returns.quiet returns.holds
      refine ⟨last, ?_, returns.trans others⟩
      simp only [Calls.run, acquired, ran, released, bind, Except.bind]
      exact finished
  | irqsave lock body rest inner outer =>
      obtain ⟨fresh, inside, later⟩ := distinct
      -- The pair runs with interrupts disabled already, and the caller's flags are restored behind it.
      obtain ⟨taken, middle, after, acquired, ran, released, returns⟩ :=
        @Returns.pair _ (cli machine) _ _ _ quiet.cli holds fresh _ (inner inside)
      have restored : Returns held machine (intrRestore machine.rflags after) := by
        refine ⟨returns.quiet.writeRflags ?_, rfl, returns.holds, returns.kept⟩
        rintro ⟨other, locked⟩
        exact quiet.1 ⟨other, (holds other).mpr ((returns.holds other).mp locked)⟩
      obtain ⟨last, finished, others⟩ := outer later restored.quiet restored.holds
      refine ⟨last, ?_, restored.trans others⟩
      simp only [Calls.run, spinlockAcquireIrqsave, spinlockReleaseIrqrestore, intrDisable, acquired, ran, released,
        bind, Except.bind, pure, Except.pure]
      exact finished

/-- Properly nested pairs on free locks return with the flags they found, and interrupts were disabled whenever a lock
was held. -/
theorem spinlocks_keep_interrupts_off (calls : Calls L) (distinct : calls.Distinct []) (rflags : BitVec 64)
    (locks : L → Lock) (free : ∀ lock, (locks lock).locked = 0) :
    ∃ last, calls.run ⟨rflags, locks, []⟩ = .ok last ∧
      interruptsEnabled last.rflags = interruptsEnabled rflags ∧ (∀ lock, (last.locks lock).locked = 0) ∧
        ∀ moment ∈ last.past, (∃ lock, (moment.2 lock).locked ≠ 0) → interruptsEnabled moment.1 = false := by
  obtain ⟨last, ran, returns⟩ := @Calls.run_returns _ ⟨rflags, locks, []⟩ _ _ calls distinct
    ⟨fun ⟨lock, locked⟩ => absurd (free lock) locked, fun _ none => absurd none List.not_mem_nil⟩
    fun lock => by simp [free lock]
  refine ⟨last, ran, by rw [returns.rflags], fun lock => ?_, returns.quiet.2⟩
  simpa using returns.holds lock

theorem spinlocks_keep_interrupts_off_two :
    ∃ last, (Calls.irqsave true (.plain false .done .done) .done).run
        ⟨0x202, fun _ => ⟨0, -1, 0⟩, []⟩ = .ok last ∧
      interruptsEnabled last.rflags = true ∧ (∀ lock, (last.locks lock).locked = 0) ∧
        ∀ moment ∈ last.past, (∃ lock, (moment.2 lock).locked ≠ 0) → interruptsEnabled moment.1 = false :=
  spinlocks_keep_interrupts_off _ (by simp [Calls.Distinct]) 0x202 _ fun _ => rfl

end Uesi.Spinlock
