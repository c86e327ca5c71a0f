import Uesi.Construction.Pci
import Uesi.Library.Exec

namespace Uesi.Pci

open Library

/-- The register of a byte of the configuration space. -/
def registerOf (offset : BitVec 8) : BitVec 6 := offset.extractLsb' 2 6

theorem address_enabled (loc : Location) (offset : BitVec 8) : (pciConfigAddress loc offset).getLsbD 31 = true := by
  simp [pciConfigAddress]

/-- The fields of the address word do not overlap, so that it selects the function of its arguments. -/
theorem selectedSlot_address (loc : Location) (offset : BitVec 8) :
    selectedSlot (pciConfigAddress loc offset) = loc.slot := by
  simp only [selectedSlot, Location.slot, Slot.mk.injEq]
  refine ⟨?_, ?_, ?_⟩
  · ext index inside
    interval_cases index <;> simp [pciConfigAddress]
  · ext index inside
    interval_cases index <;> simp [pciConfigAddress]
  · ext index inside
    interval_cases index <;> simp [pciConfigAddress]

theorem selectedRegister_address (loc : Location) (offset : BitVec 8) :
    selectedRegister (pciConfigAddress loc offset) = registerOf offset := by
  unfold selectedRegister registerOf
  ext index inside
  interval_cases index <;> simp [pciConfigAddress]

/-- A machine after the address port was set for an access. -/
def Machine.select (machine : Machine) (loc : Location) (offset : BitVec 8) : Machine :=
  { machine with configAddress := pciConfigAddress loc offset }

@[simp] theorem select_registers (machine : Machine) (loc : Location) (offset : BitVec 8) :
    (machine.select loc offset).registers = machine.registers := rfl

@[simp] theorem select_writable (machine : Machine) (loc : Location) (offset : BitVec 8) :
    (machine.select loc offset).writable = machine.writable := rfl

/-- The word of the configuration space that an access at an offset reads or writes. -/
def Machine.word (machine : Machine) (loc : Location) (offset : BitVec 8) : BitVec 32 :=
  machine.registers loc.slot (registerOf offset)

section Access

variable (loc : Location) (offset : BitVec 8) (machine : Machine)

theorem outlAddress_run : (outlAddress (pciConfigAddress loc offset)).run machine =
    ((), machine.select loc offset) := rfl

theorem inlData_run : inlData.run (machine.select loc offset) =
    (machine.word loc offset, machine.select loc offset) := by
  have enabled := address_enabled loc offset
  change (if (pciConfigAddress loc offset).getLsbD 31 then _ else _, _) = _
  rw [if_pos enabled]
  simp only [Machine.select, selectedSlot_address, selectedRegister_address]
  rfl

theorem outlData_run (value : BitVec 32) : (outlData value).run (machine.select loc offset) =
    ((), (machine.select loc offset).store loc.slot (registerOf offset) value) := by
  have enabled := address_enabled loc offset
  change ((), if (pciConfigAddress loc offset).getLsbD 31 then _ else _) = _
  rw [if_pos enabled]
  simp only [Machine.select, selectedSlot_address, selectedRegister_address]

theorem pciConfigRead32_run : (pciConfigRead32 loc offset).run machine =
    (machine.word loc offset, machine.select loc offset) := by
  rw [pciConfigRead32, run_bind_eq (outlAddress_run loc offset machine)]
  exact inlData_run loc offset machine

theorem pciConfigRead16_run : (pciConfigRead16 loc offset).run machine =
    ((machine.word loc offset >>> ((offset &&& 2).toNat * 8) &&& 0xFFFF).setWidth 16,
      machine.select loc offset) := by
  rw [pciConfigRead16, run_bind_eq (outlAddress_run loc offset machine),
    run_bind_eq (inlData_run loc offset machine)]
  rfl

theorem pciConfigRead8_run : (pciConfigRead8 loc offset).run machine =
    ((machine.word loc offset >>> ((offset &&& 3).toNat * 8) &&& 0xFF).setWidth 8,
      machine.select loc offset) := by
  rw [pciConfigRead8, run_bind_eq (outlAddress_run loc offset machine),
    run_bind_eq (inlData_run loc offset machine)]
  rfl

theorem pciConfigWrite32_run (value : BitVec 32) : (pciConfigWrite32 loc offset value).run machine =
    ((), (machine.select loc offset).store loc.slot (registerOf offset) value) := by
  rw [pciConfigWrite32, run_bind_eq (outlAddress_run loc offset machine)]
  exact outlData_run loc offset machine value

theorem pciConfigWrite16_run (value : BitVec 16) : (pciConfigWrite16 loc offset value).run machine =
    ((), (machine.select loc offset).store loc.slot (registerOf offset)
      (replaceHalf (machine.word loc offset) offset value)) := by
  rw [pciConfigWrite16, run_bind_eq (outlAddress_run loc offset machine),
    run_bind_eq (inlData_run loc offset machine), run_bind_eq (outlAddress_run loc offset _)]
  exact outlData_run loc offset machine _

theorem pciConfigWrite8_run (value : BitVec 8) : (pciConfigWrite8 loc offset value).run machine =
    ((), (machine.select loc offset).store loc.slot (registerOf offset)
      (replaceByte (machine.word loc offset) offset value)) := by
  rw [pciConfigWrite8, run_bind_eq (outlAddress_run loc offset machine),
    run_bind_eq (inlData_run loc offset machine), run_bind_eq (outlAddress_run loc offset _)]
  exact outlData_run loc offset machine _

end Access

/-- The place of a byte in its register. -/
def laneOf (offset : BitVec 8) : BitVec 2 := offset.extractLsb' 0 2

/-- A byte of a word. -/
def byteOf (word : BitVec 32) (lane : BitVec 2) : BitVec 8 := word.extractLsb' (8 * lane.toNat) 8

/-- The configuration space of a function as bytes. -/
def Machine.bytes (machine : Machine) (slot : Slot) (offset : BitVec 8) : BitVec 8 :=
  byteOf (machine.registers slot (registerOf offset)) (laneOf offset)

theorem and_three_toNat (offset : BitVec 8) : (offset &&& 3).toNat = (laneOf offset).toNat := by
  revert offset
  decide

theorem lane_cases (lane : BitVec 2) : lane = 0 ∨ lane = 1 ∨ lane = 2 ∨ lane = 3 := by
  revert lane
  decide

theorem offset_eq_iff (first second : BitVec 8) :
    first = second ↔ registerOf first = registerOf second ∧ laneOf first = laneOf second := by
  constructor
  · rintro rfl
    exact ⟨rfl, rfl⟩
  · rintro ⟨register, lane⟩
    have split : ∀ offset : BitVec 8, offset = registerOf offset ++ laneOf offset := by decide
    rw [split first, split second, register, lane]

/-- The second byte of a half-word follows in the same register. -/
theorem even_offset {offset : BitVec 8} (aligned : offset &&& 1 = 0) :
    registerOf (offset + 1) = registerOf offset ∧ laneOf (offset + 1) = laneOf offset + 1 ∧
      (laneOf offset = 0 ∧ (offset &&& 2).toNat = 0 ∨ laneOf offset = 2 ∧ (offset &&& 2).toNat = 2) := by
  revert offset
  decide

/-- The four bytes of a word are those of one register. -/
theorem word_offset {offset : BitVec 8} (aligned : offset &&& 3 = 0) :
    (registerOf (offset + 1) = registerOf offset ∧ registerOf (offset + 2) = registerOf offset ∧
        registerOf (offset + 3) = registerOf offset) ∧
      laneOf offset = 0 ∧ laneOf (offset + 1) = 1 ∧ laneOf (offset + 2) = 2 ∧ laneOf (offset + 3) = 3 := by
  revert offset
  decide

theorem byteOf_shift (word : BitVec 32) (offset : BitVec 8) :
    (word >>> ((offset &&& 3).toNat * 8) &&& 0xFF).setWidth 8 = byteOf word (laneOf offset) := by
  rw [and_three_toNat, byteOf, Nat.mul_comm]
  ext index inside
  interval_cases index <;> simp

theorem getLsbD_byte_mask (index : Nat) : (0xFF : BitVec 32).getLsbD index = decide (index < 8) := by
  change (BitVec.ofNat 32 (2 ^ 8 - 1)).getLsbD index = _
  rw [BitVec.getLsbD_ofNat, Nat.testBit_two_pow_sub_one, ← Bool.decide_and, decide_eq_decide]
  omega

/-- A byte store keeps the other bytes of its word. -/
theorem byteOf_replaceByte (word : BitVec 32) (offset value : BitVec 8) (lane : BitVec 2) :
    byteOf (replaceByte word offset value) lane =
      if lane = laneOf offset then value else byteOf word lane := by
  rw [replaceByte, and_three_toNat]
  generalize laneOf offset = target
  have bound := lane.isLt
  by_cases same : lane = target
  · subst same
    rw [if_pos rfl]
    ext index inside
    have place : 8 * lane.toNat + index - lane.toNat * 8 = index := by omega
    have above : ¬ 8 * lane.toNat + index < lane.toNat * 8 := by omega
    have below : 8 * lane.toNat + index < 32 := by omega
    have small : index < 32 := by omega
    simp only [byteOf, BitVec.getElem_extractLsb', BitVec.getLsbD_or, BitVec.getLsbD_and, BitVec.getLsbD_not,
      BitVec.getLsbD_shiftLeft, BitVec.getLsbD_setWidth, getLsbD_byte_mask]
    simp [place, above, below, inside, small]
  · rw [if_neg same]
    ext index inside
    have apart : lane.toNat ≠ target.toNat := same ∘ BitVec.eq_of_toNat_eq
    have below : 8 * lane.toNat + index < 32 := by omega
    simp only [byteOf, BitVec.getElem_extractLsb', BitVec.getLsbD_or, BitVec.getLsbD_and, BitVec.getLsbD_not,
      BitVec.getLsbD_shiftLeft, BitVec.getLsbD_setWidth, getLsbD_byte_mask]
    by_cases under : 8 * lane.toNat + index < target.toNat * 8
    · simp [under, below]
    · have beyond : ¬ 8 * lane.toNat + index - target.toNat * 8 < 8 := by omega
      simp [under, below, beyond, BitVec.getLsbD_of_ge value _ (not_lt.mp beyond)]

/-- The two bytes of a half-word. -/
def halfByte (value : BitVec 16) (lane : BitVec 2) : BitVec 8 := value.extractLsb' (8 * (lane &&& 1).toNat) 8

/-- A half-word store keeps the other half of its word. -/
theorem byteOf_replaceHalf (word : BitVec 32) (offset : BitVec 8) (value : BitVec 16) (lane : BitVec 2) :
    byteOf (replaceHalf word offset value) lane =
      if lane &&& 2 = laneOf offset &&& 2 then halfByte value lane else byteOf word lane := by
  have half : offset &&& 2 ≠ 0 ↔ laneOf offset &&& 2 = 2 := by
    revert offset
    decide
  have either : laneOf offset &&& 2 = 2 ∨ laneOf offset &&& 2 = 0 := by
    generalize laneOf offset = target
    revert target
    decide
  rw [replaceHalf, if_congr half rfl rfl]
  rcases either with same | same <;> rw [same]
  · rw [if_pos rfl]
    rcases lane_cases lane with rfl | rfl | rfl | rfl <;>
      (ext index inside; interval_cases index <;> simp [byteOf, halfByte])
  · rw [if_neg (by decide)]
    rcases lane_cases lane with rfl | rfl | rfl | rfl <;>
      (ext index inside; interval_cases index <;> simp [byteOf, halfByte])

/-- A call of one of the three functions that write. -/
inductive Write where
  | write8 (loc : Location) (offset : BitVec 8) (value : BitVec 8)
  | write16 (loc : Location) (offset : BitVec 8) (value : BitVec 16)
  | write32 (loc : Location) (offset : BitVec 8) (value : BitVec 32)

def Write.loc : Write → Location
  | .write8 loc _ _ | .write16 loc _ _ | .write32 loc _ _ => loc

/-- The offset is a multiple of the size. -/
def Write.Aligned : Write → Prop
  | .write8 _ _ _ => True
  | .write16 _ offset _ => offset &&& 1 = 0
  | .write32 _ offset _ => offset &&& 3 = 0

def Write.step (machine : Machine) : Write → Machine
  | .write8 loc offset value => ((pciConfigWrite8 loc offset value).run machine).2
  | .write16 loc offset value => ((pciConfigWrite16 loc offset value).run machine).2
  | .write32 loc offset value => ((pciConfigWrite32 loc offset value).run machine).2

/-- A little-endian store to a memory of bytes. -/
def Write.apply (bytes : BitVec 8 → BitVec 8) : Write → BitVec 8 → BitVec 8
  | .write8 _ offset value => Function.update bytes offset value
  | .write16 _ offset value =>
      Function.update (Function.update bytes offset (value.extractLsb' 0 8)) (offset + 1)
        (value.extractLsb' 8 8)
  | .write32 _ offset value =>
      Function.update (Function.update (Function.update (Function.update bytes
        offset (value.extractLsb' 0 8)) (offset + 1) (value.extractLsb' 8 8))
        (offset + 2) (value.extractLsb' 16 8)) (offset + 3) (value.extractLsb' 24 8)

/-- The offset of a write and the word that it leaves in the register. -/
def Write.word (machine : Machine) : Write → BitVec 8 × BitVec 32
  | .write8 loc offset value => (offset, replaceByte (machine.word loc offset) offset value)
  | .write16 loc offset value => (offset, replaceHalf (machine.word loc offset) offset value)
  | .write32 _ offset value => (offset, value)

/-- Every write is one store to a register of its function. -/
theorem Write.step_eq (machine : Machine) (op : Write) :
    op.step machine = (machine.select op.loc (op.word machine).1).store op.loc.slot
      (registerOf (op.word machine).1) (op.word machine).2 := by
  cases op with
  | write8 loc offset value => exact congrArg Prod.snd (pciConfigWrite8_run loc offset machine value)
  | write16 loc offset value => exact congrArg Prod.snd (pciConfigWrite16_run loc offset machine value)
  | write32 loc offset value => exact congrArg Prod.snd (pciConfigWrite32_run loc offset machine value)

/-- A write to a function of plain registers replaces the four bytes of one of them. -/
theorem Write.bytes_step {machine : Machine} (op : Write)
    (plain : ∀ register, machine.writable op.loc.slot register = BitVec.allOnes 32) (place : BitVec 8) :
    (op.step machine).bytes op.loc.slot place =
      if registerOf place = registerOf (op.word machine).1 then byteOf (op.word machine).2 (laneOf place)
      else machine.bytes op.loc.slot place := by
  have whole : ∀ old value : BitVec 32, maskedWrite (BitVec.allOnes 32) old value = value := by
    intro old value
    rw [maskedWrite, BitVec.and_allOnes, BitVec.not_allOnes, BitVec.and_zero, BitVec.or_zero]
  rw [op.step_eq]
  simp only [Machine.bytes, Machine.store, select_writable, select_registers, plain, whole,
    Function.update_self, Function.update_apply]
  split <;> rfl

/-- An aligned write to a function of plain registers is a store to its bytes. -/
theorem Write.bytes_apply {machine : Machine} (op : Write) (aligned : op.Aligned)
    (plain : ∀ register, machine.writable op.loc.slot register = BitVec.allOnes 32) :
    (op.step machine).bytes op.loc.slot = op.apply (machine.bytes op.loc.slot) := by
  funext place
  rw [op.bytes_step plain]
  cases op with
  | write8 loc offset value =>
      simp only [Write.word, Write.loc, Write.apply, byteOf_replaceByte, Function.update_apply,
        offset_eq_iff place]
      by_cases same : registerOf place = registerOf offset
      · simp only [same, if_true, true_and, Machine.word, Machine.bytes]
      · simp only [same, if_false, false_and]
  | write16 loc offset value =>
      obtain ⟨register, lane, even⟩ := even_offset aligned
      simp only [Write.word, Write.loc, Write.apply, byteOf_replaceHalf, Function.update_apply,
        offset_eq_iff place, register, lane]
      by_cases same : registerOf place = registerOf offset
      · simp only [same, if_true, true_and, Machine.word, Machine.bytes]
        rcases even with ⟨even, _⟩ | ⟨even, _⟩ <;>
          rcases lane_cases (laneOf place) with here | here | here | here <;> simp [even, here, halfByte]
      · simp only [same, if_false, false_and]
  | write32 loc offset value =>
      obtain ⟨⟨first, second, third⟩, lane, one, two, three⟩ := word_offset aligned
      simp only [Write.word, Write.loc, Write.apply, Function.update_apply, offset_eq_iff place, first, second,
        third, lane, one, two, three]
      by_cases same : registerOf place = registerOf offset
      · simp only [same, if_true, true_and]
        rcases lane_cases (laneOf place) with here | here | here | here <;> simp [here, byteOf]
      · simp only [same, if_false, false_and]

/-- A write changes neither another function nor the masks of the registers. -/
theorem Write.frame (machine : Machine) (op : Write) :
    (∀ slot, slot ≠ op.loc.slot → (op.step machine).registers slot = machine.registers slot) ∧
      (op.step machine).writable = machine.writable := by
  rw [op.step_eq]
  exact ⟨fun slot apart => Function.update_of_ne apart _ _, rfl⟩

/-- The bytes of a function after the writes to it, with the writes to other functions left out. -/
def lastWritten (slot : Slot) (bytes : BitVec 8 → BitVec 8) (ops : List Write) : BitVec 8 → BitVec 8 :=
  (ops.filter (·.loc.slot = slot)).foldl Write.apply bytes

/-- A run of aligned writes leaves the bytes that were last written. -/
theorem bytes_run {slot : Slot} {machine : Machine}
    (plain : ∀ register, machine.writable slot register = BitVec.allOnes 32) {ops : List Write}
    (aligned : ∀ op ∈ ops, op.Aligned) :
    (run Write.step machine ops).bytes slot = lastWritten slot (machine.bytes slot) ops := by
  induction ops generalizing machine with
  | nil => rfl
  | cons op rest ih =>
      obtain ⟨frame, masks⟩ := op.frame machine
      rw [run_cons, ih (by rwa [masks]) fun other member => aligned other (List.mem_cons_of_mem _ member)]
      unfold lastWritten
      by_cases same : op.loc.slot = slot
      · subst same
        rw [op.bytes_apply (aligned op List.mem_cons_self) plain]
        simp
      · have kept : (op.step machine).bytes slot = machine.bytes slot := by
          funext offset
          rw [Machine.bytes, frame slot (Ne.symm same)]
          rfl
        simp [kept, same]

/-- A run of writes changes no register of a function that none of them selects. -/
theorem registers_run {slot : Slot} {machine : Machine} {ops : List Write}
    (apart : ∀ op ∈ ops, op.loc.slot ≠ slot) :
    (run Write.step machine ops).registers slot = machine.registers slot := by
  induction ops generalizing machine with
  | nil => rfl
  | cons op rest ih =>
      rw [run_cons, ih fun other member => apart other (List.mem_cons_of_mem _ member)]
      exact (op.frame machine).1 slot (apart op List.mem_cons_self).symm

/-- The value of a read is made of the bytes at its offsets. -/
theorem read_bytes (loc : Location) (machine : Machine) (offset : BitVec 8) :
    let bytes := machine.bytes loc.slot
    ((pciConfigRead8 loc offset).run machine).1 = bytes offset ∧
      (offset &&& 1 = 0 → ((pciConfigRead16 loc offset).run machine).1 = bytes (offset + 1) ++ bytes offset) ∧
      (offset &&& 3 = 0 → ((pciConfigRead32 loc offset).run machine).1 =
        bytes (offset + 3) ++ bytes (offset + 2) ++ bytes (offset + 1) ++ bytes offset) := by
  refine ⟨?_, fun aligned => ?_, fun aligned => ?_⟩
  · rw [pciConfigRead8_run]
    exact byteOf_shift _ offset
  · obtain ⟨register, lane, even⟩ := even_offset aligned
    rw [pciConfigRead16_run]
    apply BitVec.eq_of_getLsbD_eq
    intro index inside
    simp only [Machine.bytes, Machine.word, register, lane, byteOf, BitVec.getLsbD_append]
    rcases even with ⟨even, shift⟩ | ⟨even, shift⟩ <;> rw [shift, even] <;> interval_cases index <;> simp
  · obtain ⟨⟨first, second, third⟩, lane, one, two, three⟩ := word_offset aligned
    rw [pciConfigRead32_run]
    apply BitVec.eq_of_getLsbD_eq
    intro index inside
    simp only [Machine.bytes, Machine.word, first, second, third, lane, one, two, three, byteOf,
      BitVec.getLsbD_append]
    interval_cases index <;> simp

/-- A read changes no register. -/
theorem read_registers (loc : Location) (machine : Machine) (offset : BitVec 8) :
    ((pciConfigRead8 loc offset).run machine).2.registers = machine.registers ∧
      ((pciConfigRead16 loc offset).run machine).2.registers = machine.registers ∧
      ((pciConfigRead32 loc offset).run machine).2.registers = machine.registers := by
  rw [pciConfigRead8_run, pciConfigRead16_run, pciConfigRead32_run]
  exact ⟨rfl, rfl, rfl⟩

/-- The accessors of a function with plain registers are a little-endian memory of bytes. Writes to other
functions do not show in it, and no access changes a register of another function. -/
theorem accessors_refine_bytes (loc : Location) (machine : Machine) (ops : List Write)
    (plain : ∀ register, machine.writable loc.slot register = BitVec.allOnes 32)
    (aligned : ∀ op ∈ ops, op.Aligned) :
    let final := run Write.step machine ops
    let bytes := lastWritten loc.slot (machine.bytes loc.slot) ops
    (∀ offset, ((pciConfigRead8 loc offset).run final).1 = bytes offset ∧
      (offset &&& 1 = 0 → ((pciConfigRead16 loc offset).run final).1 = bytes (offset + 1) ++ bytes offset) ∧
      (offset &&& 3 = 0 → ((pciConfigRead32 loc offset).run final).1 =
        bytes (offset + 3) ++ bytes (offset + 2) ++ bytes (offset + 1) ++ bytes offset) ∧
      ((pciConfigRead8 loc offset).run final).2.registers = final.registers ∧
      ((pciConfigRead16 loc offset).run final).2.registers = final.registers ∧
      ((pciConfigRead32 loc offset).run final).2.registers = final.registers) ∧
    ∀ slot, (∀ op ∈ ops, op.loc.slot ≠ slot) → final.registers slot = machine.registers slot := by
  intro final bytes
  have reached : final.bytes loc.slot = bytes := bytes_run plain aligned
  refine ⟨fun offset => ?_, fun slot apart => ?_⟩
  · obtain ⟨first, second, third⟩ := read_bytes loc final offset
    rw [reached] at first second third
    exact ⟨first, second, third, read_registers loc final offset⟩
  · exact registers_run apart

theorem accessors_refine_bytes_one :
    let loc : Location := ⟨0, 3, 0⟩
    let machine : Machine := ⟨0, fun _ _ => 0, fun _ _ => BitVec.allOnes 32⟩
    let ops := [Write.write32 loc 0x10 0x11223344, Write.write8 ⟨0, 2, 0⟩ 0x11 0, Write.write16 loc 0x12 0xABCD]
    ((pciConfigRead32 loc 0x10).run (run Write.step machine ops)).1 = 0xABCD3344 := by
  have final := ((accessors_refine_bytes ⟨0, 3, 0⟩ ⟨0, fun _ _ => 0, fun _ _ => BitVec.allOnes 32⟩
    [.write32 ⟨0, 3, 0⟩ 0x10 0x11223344, .write8 ⟨0, 2, 0⟩ 0x11 0, .write16 ⟨0, 3, 0⟩ 0x12 0xABCD]
    (fun _ => rfl) (by simp [Write.Aligned])).1 0x10).2.2.1 (by decide)
  exact final.trans (by decide)

end Uesi.Pci
