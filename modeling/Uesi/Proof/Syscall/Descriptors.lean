import Uesi.Construction.Syscall.Files
import Uesi.Proof.Vfs.Names

namespace Uesi.Files

open Library Vfs

variable {after : Unit → Kernel → Prop} {process : Process} {pid : Nat}

section Rules

variable {stop : Fault → Prop} {kernel : Kernel}

@[simp] theorem post_onVfs {α : Type} {after : α → Kernel → Prop} {action : Vfs.Exec α} :
    Post stop (onVfs action) after kernel ↔
      Post stop action (fun value vfs => after value { kernel with vfs }) kernel.vfs := by
  unfold Post onVfs
  cases action kernel.vfs with
  | ok value vfs => exact Iff.rfl
  | error fault vfs => exact Iff.rfl

theorem post_readFile {after : OpenFile → Kernel → Prop} {id : FileId} {file : OpenFile}
    (found : kernel.files id = some file) : Post stop (readFile id) after kernel ↔ after file kernel := by
  simp [readFile, found]

@[simp] theorem post_writeFile {id : FileId} {file : Option OpenFile} :
    Post stop (writeFile id file) after kernel ↔ after () (kernel.setFile id file) := Iff.rfl

theorem post_readProcess {after : Process → Kernel → Prop} (found : kernel.processes pid = some process) :
    Post stop (readProcess pid) after kernel ↔ after process kernel := by
  simp [readProcess, found]

@[simp] theorem post_writeProcess :
    Post stop (writeProcess pid process) after kernel ↔ after () (kernel.setProcess pid process) := Iff.rfl

theorem post_writeSlot {slot : Nat} {entry : FdEntry} (found : kernel.processes pid = some process) :
    Post stop (writeSlot pid slot entry) after kernel ↔ after () (kernel.setProcess pid
      { process with fdTable := Function.update process.fdTable slot entry }) := by
  simp only [writeSlot, post_bind, post_readProcess found, post_writeProcess]

theorem findSlot_some {table : Nat → FdEntry} {slots : List Nat} {slot : Nat}
    (found : findSlot table slots = some slot) : slot ∈ slots ∧ (table slot).file = none := by
  induction slots with
  | nil => exact absurd found (by simp [findSlot])
  | cons first rest ih =>
      by_cases free : (table first).file = none
      · rw [findSlot, if_pos free] at found
        cases found
        exact ⟨List.mem_cons_self, free⟩
      · rw [findSlot, if_neg free] at found
        obtain ⟨member, empty⟩ := ih found
        exact ⟨List.mem_cons_of_mem _ member, empty⟩

/-- A descriptor in the range of the table is its slot. -/
theorem slotOf_nat {fd : Nat} (inside : fd < maxOpenFiles) : slotOf (fd : Int) = some fd := by
  have range : ¬ ((fd : Int) < 0 ∨ (maxOpenFiles : Int) ≤ fd) := by omega
  rw [slotOf, if_neg range, Int.toNat_natCast]

end Rules

end Uesi.Files
