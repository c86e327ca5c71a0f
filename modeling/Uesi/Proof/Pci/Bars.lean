import Uesi.Proof.Pci.Config

namespace Uesi.Pci

open Library

/-- The kinds of base address registers. -/
inductive BarKind where
  | io
  | mem32 (prefetch : Bool)
  | mem64 (prefetch : Bool)
  deriving DecidableEq

/-- The bits of the address of a window that its register decodes, at least and at most. -/
def BarKind.range : BarKind → Nat × Nat
  | .io => (2, 15)
  | .mem32 _ => (4, 31)
  | .mem64 _ => (4, 63)

/-- The read-only bits at the low end of a base address register. -/
def BarKind.flags : BarKind → BitVec 32
  | .io => 1
  | .mem32 prefetch => if prefetch then 8 else 0
  | .mem64 prefetch => if prefetch then 12 else 4

/-- A window of 2 ^ `bits` bytes at a multiple of its size. -/
structure Window where
  kind : BarKind
  bits : Nat
  base : BitVec 64
  range : kind.range.1 ≤ bits ∧ bits ≤ kind.range.2
  aligned : 2 ^ bits ∣ base.toNat
  reach : (∀ prefetch, kind ≠ .mem64 prefetch) → base.toNat < 2 ^ 32

namespace Window

/-- The address bits that a device keeps. -/
def mask (window : Window) : BitVec 64 := BitVec.allOnes 64 <<< window.bits

/-- The entry of the window in `pci_bar_t`. -/
def bar (window : Window) : Bar where
  physAddr := window.base
  virtAddr := 0
  size := BitVec.twoPow 64 window.bits
  type := if window.kind = .io then 1 else 0
  prefetchable := decide (window.kind = .mem32 true ∨ window.kind = .mem64 true)
  is64bit := decide (∃ prefetch, window.kind = .mem64 prefetch)
  mapped := false

theorem base_low (window : Window) {index : Nat} (below : index < window.bits) :
    window.base.getLsbD index = false := by
  obtain ⟨quotient, product⟩ := window.aligned
  rw [BitVec.getLsbD, product, Nat.testBit_two_pow_mul]
  simp [below]

theorem mask_bit (window : Window) (index : Nat) :
    window.mask.getLsbD index = (decide (index < 64) && decide (window.bits ≤ index)) := by
  rw [mask, BitVec.getLsbD_shiftLeft, BitVec.getLsbD_allOnes, ← decide_not, ← Bool.decide_and,
    ← Bool.decide_and, ← Bool.decide_and, decide_eq_decide]
  omega

/-- The low register of the window. -/
def low (window : Window) : BitVec 32 := window.base.setWidth 32 ||| window.kind.flags

/-- The register behind the low one of a 64-bit window. -/
def high (window : Window) : BitVec 32 := (window.base >>> 32).setWidth 32

theorem flags_high (window : Window) {index : Nat} (above : window.kind.range.1 ≤ index) :
    window.kind.flags.getLsbD index = false := by
  have small : window.kind.flags.toNat < 2 ^ window.kind.range.1 := by
    rcases window.kind with _ | prefetch | prefetch
    · decide
    · cases prefetch <;> decide
    · cases prefetch <;> decide
  exact Nat.testBit_lt_two_pow (small.trans_le (Nat.pow_le_pow_right (by decide) above))

/-- The address of a window is its low register without the read-only bits. -/
theorem low_and (window : Window) :
    window.low &&& BitVec.allOnes 32 <<< window.kind.range.1 = window.base.setWidth 32 := by
  apply BitVec.eq_of_getLsbD_eq
  intro index inside
  simp only [low, BitVec.getLsbD_and, BitVec.getLsbD_or, BitVec.getLsbD_setWidth, BitVec.getLsbD_shiftLeft,
    BitVec.getLsbD_allOnes]
  by_cases flag : index < window.kind.range.1
  · simp [flag, window.base_low (flag.trans_le window.range.1)]
  · have within : index - window.kind.range.1 < 32 := by omega
    rw [window.flags_high (not_lt.mp flag)]
    simp [flag, inside, within]

theorem ones_bit {index : Nat} (inside : index < 32) : (0xFFFFFFFF : BitVec 32).getLsbD index = true := by
  rw [show (0xFFFFFFFF : BitVec 32) = BitVec.allOnes 32 from rfl, BitVec.getLsbD_allOnes]
  simpa using inside

/-- A probe of the low register shows the bits that the device keeps. -/
theorem probe_low (window : Window) :
    maskedWrite (window.mask.setWidth 32) window.low 0xFFFFFFFF &&& BitVec.allOnes 32 <<< window.kind.range.1 =
      window.mask.setWidth 32 := by
  apply BitVec.eq_of_getLsbD_eq
  intro index inside
  simp only [maskedWrite, low, BitVec.getLsbD_and, BitVec.getLsbD_or, BitVec.getLsbD_not, BitVec.getLsbD_setWidth,
    BitVec.getLsbD_shiftLeft, BitVec.getLsbD_allOnes, mask_bit, ones_bit inside]
  by_cases flag : index < window.kind.range.1
  · have kept : ¬ window.bits ≤ index := by have := window.range.1; omega
    simp [flag, kept]
  · have within : index - window.kind.range.1 < 32 := by omega
    have wide : index < 64 := by omega
    by_cases kept : window.bits ≤ index
    · simp [flag, inside, within, kept, wide]
    · simp [flag, kept, window.base_low (not_le.mp kept), window.flags_high (not_lt.mp flag)]

/-- A probe of the high register shows the bits that the device keeps. -/
theorem probe_high (window : Window) :
    maskedWrite ((window.mask >>> 32).setWidth 32) window.high 0xFFFFFFFF = (window.mask >>> 32).setWidth 32 := by
  apply BitVec.eq_of_getLsbD_eq
  intro index inside
  simp only [maskedWrite, high, BitVec.getLsbD_and, BitVec.getLsbD_or, BitVec.getLsbD_not, BitVec.getLsbD_setWidth,
    BitVec.getLsbD_ushiftRight, mask_bit, ones_bit inside]
  by_cases kept : window.bits ≤ 32 + index
  · have wide : 32 + index < 64 := by omega
    simp [kept, wide, inside]
  · simp [kept, window.base_low (not_le.mp kept)]

end Window

/-- A 64-bit value is put together from its two halves. -/
theorem halves_or (value : BitVec 64) :
    ((value >>> 32).setWidth 32).setWidth 64 <<< 32 ||| (value.setWidth 32).setWidth 64 = value := by
  apply BitVec.eq_of_getLsbD_eq
  intro index inside
  simp only [BitVec.getLsbD_or, BitVec.getLsbD_shiftLeft, BitVec.getLsbD_setWidth, BitVec.getLsbD_ushiftRight]
  by_cases lower : index < 32
  · simp [lower, inside]
  · have place : 32 + (index - 32) = index := by omega
    have below : index - 32 < 32 := by omega
    have wide : index - 32 < 64 := by omega
    simp [lower, inside, place, below, wide]

/-- The size of a window in 32 bits, cut to a number of bits above it. -/
theorem twoPow_and {bits count : Nat} (below : bits < count) (small : bits < 32) :
    (BitVec.twoPow 32 bits).setWidth 64 &&& BitVec.ofNat 64 (2 ^ count - 1) = BitVec.twoPow 64 bits := by
  apply BitVec.eq_of_getLsbD_eq
  intro index inside
  simp only [BitVec.getLsbD_and, BitVec.getLsbD_setWidth, BitVec.getLsbD_twoPow, BitVec.getLsbD_ofNat,
    Nat.testBit_two_pow_sub_one]
  by_cases here : bits = index
  · subst here
    have wide : bits < 64 := by omega
    simp [below, small, wide]
  · simp [here]

theorem not_mask_succ {width bits : Nat} : ~~~(BitVec.allOnes width <<< bits) + 1 = BitVec.twoPow width bits := by
  change _ + BitVec.ofNat width 1 = _
  rw [← BitVec.neg_eq_not_add, ← BitVec.neg_one_eq_allOnes, BitVec.shiftLeft_eq_mul_twoPow,
    BitVec.neg_mul, BitVec.one_mul, BitVec.neg_neg]

/-- A register keeps the value that was read before a probe. -/
theorem maskedWrite_back (writable old value : BitVec 32) :
    maskedWrite writable (maskedWrite writable old value) old = old := by
  ext index inside
  simp only [maskedWrite, BitVec.getElem_or, BitVec.getElem_and, BitVec.getElem_not]
  cases writable[index] <;> simp

/-- A probe returns the writable bits over the read-only ones, and the registers keep their values. -/
theorem probeRegister_run (loc : Location) (offset : BitVec 8) (machine : Machine) :
    (probeRegister loc offset (machine.word loc offset)).run machine =
      (maskedWrite (machine.writable loc.slot (registerOf offset)) (machine.word loc offset) 0xFFFFFFFF,
        machine.select loc offset) := by
  rw [probeRegister, run_bind_eq (pciConfigWrite32_run loc offset machine _),
    run_bind_eq (pciConfigRead32_run loc offset _), run_bind_eq (pciConfigWrite32_run loc offset _ _)]
  change (_, _) = (_, _)
  congr 1
  · simp [Machine.word, Machine.store]
  · simp [Machine.select, Machine.word, Machine.store, maskedWrite_back]

theorem pciBarSizing_run (loc : Location) (barNum : BitVec 8) (machine : Machine) :
    let offset := barOffset barNum
    (pciBarSizing loc barNum).run machine =
      (maskedWrite (machine.writable loc.slot (registerOf offset)) (machine.word loc offset) 0xFFFFFFFF,
        machine.select loc offset) := by
  rw [pciBarSizing, run_bind_eq (pciConfigRead32_run loc _ machine)]
  exact probeRegister_run loc (barOffset barNum) (machine.select loc (barOffset barNum))

/-- A base address register, with the next one for 64 bits, belongs to a device that decodes the window. -/
structure Decodes (machine : Machine) (loc : Location) (barNum : BitVec 8) (window : Window) : Prop where
  number : barNum < 6
  low : machine.word loc (barOffset barNum) = window.low
  lowMask : machine.writable loc.slot (registerOf (barOffset barNum)) = window.mask.setWidth 32
  high : ∀ prefetch, window.kind = .mem64 prefetch → barNum < 5 ∧
    machine.word loc (barOffset barNum + 4) = window.high ∧
    machine.writable loc.slot (registerOf (barOffset barNum + 4)) = (window.mask >>> 32).setWidth 32

namespace Window

variable {window : Window}

/-- The size in 32 bits of a window below 4 GB. -/
theorem size_low (small : window.bits < 32) : ~~~(window.mask.setWidth 32) + 1 = BitVec.twoPow 32 window.bits := by
  have narrow : window.mask.setWidth 32 = BitVec.allOnes 32 <<< window.bits := by
    apply BitVec.eq_of_getLsbD_eq
    intro index inside
    rw [BitVec.getLsbD_setWidth, mask_bit, BitVec.getLsbD_shiftLeft, BitVec.getLsbD_allOnes]
    have wide : index < 64 := by omega
    by_cases kept : window.bits ≤ index
    · have within : index - window.bits < 32 := by omega
      simp [inside, wide, kept, within]
    · simp [kept]
  rw [narrow, not_mask_succ]

theorem base_low_word (reach : window.base.toNat < 2 ^ 32) : (window.base.setWidth 32).setWidth 64 = window.base := by
  apply BitVec.eq_of_toNat_eq
  simp only [BitVec.toNat_setWidth]
  omega

/-- A bit of the low register below the address is a read-only one. -/
theorem low_and_flags (window : Window) {bits : BitVec 32} (few : bits.toNat < 2 ^ window.kind.range.1) :
    window.low &&& bits = window.kind.flags &&& bits := by
  apply BitVec.eq_of_getLsbD_eq
  intro index inside
  simp only [low, BitVec.getLsbD_and, BitVec.getLsbD_or, BitVec.getLsbD_setWidth]
  by_cases flag : index < window.kind.range.1
  · simp [window.base_low (flag.trans_le window.range.1)]
  · have clear : bits.getLsbD index = false :=
      Nat.testBit_lt_two_pow (few.trans_le (Nat.pow_le_pow_right (by decide) (not_lt.mp flag)))
    simp [clear]

end Window

section Read

variable {machine : Machine} {loc : Location} {barNum : BitVec 8} {window : Window}

theorem Decodes.sizing (held : Decodes machine loc barNum window) :
    (pciBarSizing loc barNum).run (machine.select loc (barOffset barNum)) =
      (maskedWrite (window.mask.setWidth 32) window.low 0xFFFFFFFF, machine.select loc (barOffset barNum)) := by
  have ran := pciBarSizing_run loc barNum (machine.select loc (barOffset barNum))
  rw [← held.low, ← held.lowMask]
  exact ran

theorem Decodes.io (held : Decodes machine loc barNum window) (nonzero : window.low ≠ 0)
    (kind : window.kind = .io) (bar : Bar) :
    (pciReadBar loc barNum bar).run machine = ((0, window.bar), machine.select loc (barOffset barNum)) := by
  have range := window.range.2
  have cut := window.low_and
  have probe := window.probe_low
  have type := @Window.low_and_flags window 1 (by rw [kind]; decide)
  rw [kind] at range cut probe type
  have small : window.bits < 16 := Nat.lt_succ_of_le range
  have size := twoPow_and small (by omega)
  have address := Window.base_low_word (window.reach (by simp [kind]))
  rw [pciReadBar, if_neg (BitVec.not_le.mpr held.number), run_bind_eq (pciConfigRead32_run loc _ machine),
    held.low, if_neg nonzero, if_pos (by rw [type]; decide), run_bind_eq held.sizing,
    show pciBarIoMask = BitVec.allOnes 32 <<< BarKind.io.range.1 by decide, cut, probe,
    Window.size_low (by omega), address]
  dsimp only
  rw [show (0xFFFF : BitVec 64) = BitVec.ofNat 64 (2 ^ 16 - 1) from rfl, size]
  simp [Window.bar, kind]
  rfl

/-- The parts of a memory register that `pci_read_bar` looks at. -/
theorem Window.memory_parts {prefetch : Bool} (window : Window)
    (kind : window.kind = .mem32 prefetch ∨ window.kind = .mem64 prefetch) :
    (¬ window.low &&& 1 ≠ 0 ∧ decide (window.low &&& 8 ≠ 0) = prefetch ∧
        (window.low &&& 6 = 4 ↔ window.kind = .mem64 prefetch)) ∧
      window.low &&& pciBarMemMask = window.base.setWidth 32 ∧
      maskedWrite (window.mask.setWidth 32) window.low 0xFFFFFFFF &&& pciBarMemMask = window.mask.setWidth 32 := by
  have four : window.kind.range.1 = 4 := by rcases kind with kind | kind <;> rw [kind] <;> rfl
  have flags : ∀ bits : BitVec 32, bits.toNat < 16 → window.low &&& bits = window.kind.flags &&& bits :=
    fun bits few => window.low_and_flags (by rw [four]; exact few)
  have mask : pciBarMemMask = BitVec.allOnes 32 <<< window.kind.range.1 := by rw [four]; decide
  refine ⟨?_, mask ▸ window.low_and, mask ▸ window.probe_low⟩
  rw [flags 1 (by decide), flags 8 (by decide), flags 6 (by decide)]
  rcases kind with kind | kind <;> rw [kind] <;> cases prefetch <;> decide

theorem Decodes.mem32 (held : Decodes machine loc barNum window) (nonzero : window.low ≠ 0) {prefetch : Bool}
    (kind : window.kind = .mem32 prefetch) (bar : Bar) :
    (pciReadBar loc barNum bar).run machine = ((0, window.bar), machine.select loc (barOffset barNum)) := by
  obtain ⟨⟨memory, fetched, type⟩, cut, probe⟩ := window.memory_parts (Or.inl kind)
  have range := window.range.2
  rw [kind] at range type
  have narrow : ¬ window.low &&& 6 = 4 := fun wide => nomatch type.mp wide
  have small : window.bits < 32 := Nat.lt_succ_of_le range
  have size := twoPow_and small small
  have address := Window.base_low_word (window.reach (by simp [kind]))
  rw [pciReadBar, if_neg (BitVec.not_le.mpr held.number), run_bind_eq (pciConfigRead32_run loc _ machine),
    held.low, if_neg nonzero, if_neg memory]
  simp only [fetched, narrow, decide_false, Bool.false_eq_true, if_false]
  rw [run_bind_eq held.sizing, cut, probe, Window.size_low small, address,
    show (0xFFFFFFFF : BitVec 64) = BitVec.ofNat 64 (2 ^ 32 - 1) from rfl, size]
  cases prefetch <;> simp [Window.bar, kind] <;> rfl

theorem Decodes.mem64 (held : Decodes machine loc barNum window) (nonzero : window.low ≠ 0) {prefetch : Bool}
    (kind : window.kind = .mem64 prefetch) (bar : Bar) :
    (pciReadBar loc barNum bar).run machine = ((0, window.bar), machine.select loc (barOffset barNum + 4)) := by
  obtain ⟨number, high, highMask⟩ := held.high prefetch kind
  obtain ⟨⟨memory, fetched, type⟩, cut, probe⟩ := window.memory_parts (Or.inr kind)
  have lower : (pciBarSizing loc barNum).run ((machine.select loc (barOffset barNum)).select loc
      (barOffset barNum + 4)) = _ := held.sizing
  have upper : (probeRegister loc (barOffset barNum + 4) window.high).run (machine.select loc (barOffset barNum)) =
      ((window.mask >>> 32).setWidth 32, machine.select loc (barOffset barNum + 4)) := by
    have ran := probeRegister_run loc (barOffset barNum + 4) (machine.select loc (barOffset barNum))
    rw [← window.probe_high, ← high, ← highMask]
    exact ran
  rw [pciReadBar, if_neg (BitVec.not_le.mpr held.number), run_bind_eq (pciConfigRead32_run loc _ machine),
    held.low, if_neg nonzero, if_neg memory]
  simp only [fetched, type.mpr kind, decide_true, if_true]
  rw [if_neg (BitVec.not_le.mpr number), run_bind_eq (pciConfigRead32_run loc _ _)]
  simp only [Machine.word, select_registers] at high ⊢
  rw [high, run_bind_eq lower, run_bind_eq upper, cut, probe, Window.high, halves_or, halves_or, Window.mask,
    not_mask_succ]
  cases prefetch <;> simp [Window.bar, kind] <;> rfl

end Read

/-- The probe of a window reports its address, its size and its kind, and the registers keep their values. -/
theorem pciReadBar_finds_window (loc : Location) (machine : Machine) (barNum : BitVec 8) (window : Window) (bar : Bar)
    (decodes : Decodes machine loc barNum window) (nonzero : window.low ≠ 0) :
    ((pciReadBar loc barNum bar).run machine).1 = (0, window.bar) ∧
      ((pciReadBar loc barNum bar).run machine).2.registers = machine.registers := by
  cases kind : window.kind with
  | io => rw [decodes.io nonzero kind bar]; exact ⟨rfl, rfl⟩
  | mem32 prefetch => rw [decodes.mem32 nonzero kind bar]; exact ⟨rfl, rfl⟩
  | mem64 prefetch => rw [decodes.mem64 nonzero kind bar]; exact ⟨rfl, rfl⟩

/-- A prefetchable window of 64 GB. -/
def largeWindow : Window := ⟨.mem64 true, 36, 0x3000000000, by decide, ⟨3, by decide⟩, fun small => by simp at small⟩

theorem pciReadBar_finds_window_large :
    let machine : Machine := ⟨0,
      fun _ register => if register = 5 then largeWindow.low else if register = 6 then largeWindow.high else 0,
      fun _ register => if register = 5 then largeWindow.mask.setWidth 32
        else if register = 6 then (largeWindow.mask >>> 32).setWidth 32 else 0⟩
    Decodes machine ⟨0, 3, 0⟩ 1 largeWindow ∧
      ((pciReadBar ⟨0, 3, 0⟩ 1 ⟨1, 2, 3, 4, false, false, true⟩).run machine).1 = (0, largeWindow.bar) := by
  intro machine
  have decodes : Decodes machine ⟨0, 3, 0⟩ 1 largeWindow :=
    ⟨by decide, by decide, by decide, fun _ _ => ⟨by decide, by decide, by decide⟩⟩
  exact ⟨decodes, (pciReadBar_finds_window _ machine 1 largeWindow _ decodes (by decide)).1⟩

end Uesi.Pci
