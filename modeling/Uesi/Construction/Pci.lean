import Uesi.Library.Loop

namespace Uesi.Pci

/-- The bus, device and function arguments of the accessors. -/
structure Location where
  bus : BitVec 8
  device : BitVec 8
  function : BitVec 8
  deriving DecidableEq

/-- A function of the PCI bus, as the configuration mechanism selects it. -/
structure Slot where
  bus : BitVec 8
  device : BitVec 5
  function : BitVec 3
  deriving DecidableEq

/-- The function that the accessors select for their arguments. -/
def Location.slot (loc : Location) : Slot := ⟨loc.bus, loc.device.setWidth 5, loc.function.setWidth 3⟩

/-- The two ports and the configuration space behind them. A write to a register changes its writable
bits only. -/
structure Machine where
  configAddress : BitVec 32
  registers : Slot → BitVec 6 → BitVec 32
  writable : Slot → BitVec 6 → BitVec 32

/-- The function that a value of the address port selects. -/
def selectedSlot (address : BitVec 32) : Slot :=
  ⟨address.extractLsb' 16 8, address.extractLsb' 11 5, address.extractLsb' 8 3⟩

/-- The register that a value of the address port selects. -/
def selectedRegister (address : BitVec 32) : BitVec 6 := address.extractLsb' 2 6

/-- A store to `PCI_CONFIG_ADDRESS`. -/
def outlAddress (address : BitVec 32) : StateM Machine Unit :=
  modify fun machine => { machine with configAddress := address }

/-- A load from `PCI_CONFIG_DATA`, which floats high while the enable bit is clear. -/
def inlData : StateM Machine (BitVec 32) := do
  let machine ← get
  let address := machine.configAddress
  return if address.getLsbD 31 then machine.registers (selectedSlot address) (selectedRegister address)
    else 0xFFFFFFFF

/-- The contents of a register after a write through its mask. -/
def maskedWrite (writable old value : BitVec 32) : BitVec 32 := value &&& writable ||| old &&& ~~~writable

/-- A machine with another value written to a register. -/
def Machine.store (machine : Machine) (slot : Slot) (register : BitVec 6) (value : BitVec 32) : Machine :=
  let next := maskedWrite (machine.writable slot register) (machine.registers slot register) value
  { machine with
    registers := Function.update machine.registers slot
      (Function.update (machine.registers slot) register next) }

/-- A store to `PCI_CONFIG_DATA`. -/
def outlData (value : BitVec 32) : StateM Machine Unit :=
  modify fun machine =>
    let address := machine.configAddress
    if address.getLsbD 31 then machine.store (selectedSlot address) (selectedRegister address) value
    else machine

def pciConfigAddress (loc : Location) (offset : BitVec 8) : BitVec 32 :=
  1 <<< 31 ||| loc.bus.setWidth 32 <<< 16 ||| (loc.device &&& 0x1F).setWidth 32 <<< 11 |||
    (loc.function &&& 0x07).setWidth 32 <<< 8 ||| (offset &&& 0xFC).setWidth 32

def pciConfigRead32 (loc : Location) (offset : BitVec 8) : StateM Machine (BitVec 32) := do
  outlAddress (pciConfigAddress loc offset)
  inlData

def pciConfigRead16 (loc : Location) (offset : BitVec 8) : StateM Machine (BitVec 16) := do
  outlAddress (pciConfigAddress loc offset)
  let data ← inlData
  return (data >>> ((offset &&& 2).toNat * 8) &&& 0xFFFF).setWidth 16

def pciConfigRead8 (loc : Location) (offset : BitVec 8) : StateM Machine (BitVec 8) := do
  outlAddress (pciConfigAddress loc offset)
  let data ← inlData
  return (data >>> ((offset &&& 3).toNat * 8) &&& 0xFF).setWidth 8

def pciConfigWrite32 (loc : Location) (offset : BitVec 8) (value : BitVec 32) : StateM Machine Unit := do
  outlAddress (pciConfigAddress loc offset)
  outlData value

/-- The word that `pci_config_write16` writes back. -/
def replaceHalf (data : BitVec 32) (offset : BitVec 8) (value : BitVec 16) : BitVec 32 :=
  if offset &&& 2 ≠ 0 then data &&& 0x0000FFFF ||| value.setWidth 32 <<< 16
  else data &&& 0xFFFF0000 ||| value.setWidth 32

def pciConfigWrite16 (loc : Location) (offset : BitVec 8) (value : BitVec 16) : StateM Machine Unit := do
  outlAddress (pciConfigAddress loc offset)
  let data ← inlData
  outlAddress (pciConfigAddress loc offset)
  outlData (replaceHalf data offset value)

/-- The word that `pci_config_write8` writes back. -/
def replaceByte (data : BitVec 32) (offset value : BitVec 8) : BitVec 32 :=
  let shift := (offset &&& 3).toNat * 8
  data &&& ~~~((0xFF : BitVec 32) <<< shift) ||| value.setWidth 32 <<< shift

def pciConfigWrite8 (loc : Location) (offset value : BitVec 8) : StateM Machine Unit := do
  outlAddress (pciConfigAddress loc offset)
  let data ← inlData
  outlAddress (pciConfigAddress loc offset)
  outlData (replaceByte data offset value)

/-- The `pci_bar_t` that `pci_read_bar` fills. -/
structure Bar where
  physAddr : BitVec 64
  virtAddr : BitVec 64
  size : BitVec 64
  type : BitVec 8
  prefetchable : Bool
  is64bit : Bool
  mapped : Bool
  deriving DecidableEq

/-- The offset of a base address register. -/
def barOffset (barNum : BitVec 8) : BitVec 8 := 0x10 + barNum * 4

/-- A probe of a register by writing ones, which puts the old value back. -/
def probeRegister (loc : Location) (offset : BitVec 8) (original : BitVec 32) :
    StateM Machine (BitVec 32) := do
  pciConfigWrite32 loc offset 0xFFFFFFFF
  let sizeMask ← pciConfigRead32 loc offset
  pciConfigWrite32 loc offset original
  return sizeMask

def pciBarSizing (loc : Location) (barNum : BitVec 8) : StateM Machine (BitVec 32) := do
  let original ← pciConfigRead32 loc (barOffset barNum)
  probeRegister loc (barOffset barNum) original

def pciBarIoMask : BitVec 32 := 0xFFFFFFFC

def pciBarMemMask : BitVec 32 := 0xFFFFFFF0

/-- The `pci_read_bar` function with the entry that it fills. -/
def pciReadBar (loc : Location) (barNum : BitVec 8) (bar : Bar) : StateM Machine (Int × Bar) := do
  if 6 ≤ barNum then
    return (-1, bar)
  let barValue ← pciConfigRead32 loc (barOffset barNum)
  if barValue = 0 then
    return (0, { bar with physAddr := 0, virtAddr := 0, size := 0, type := 0, mapped := false })
  if barValue &&& 1 ≠ 0 then
    let sizeMask ← pciBarSizing loc barNum
    let size := (~~~(sizeMask &&& pciBarIoMask) + 1).setWidth 64
    return (0, ⟨(barValue &&& pciBarIoMask).setWidth 64, 0, size &&& 0xFFFF, 1, false, false, false⟩)
  let prefetchable := decide (barValue &&& 0x08 ≠ 0)
  let is64bit := decide (barValue &&& 0x06 = 0x04)
  if is64bit then
    -- The failing return leaves the address and the size of the entry as they were.
    if 5 ≤ barNum then
      return (-1, ⟨bar.physAddr, 0, bar.size, 0, prefetchable, true, false⟩)
    let barHigh ← pciConfigRead32 loc (barOffset barNum + 4)
    let sizeMask ← pciBarSizing loc barNum
    let sizeHigh ← probeRegister loc (barOffset barNum + 4) barHigh
    let sizeMask64 := sizeHigh.setWidth 64 <<< 32 ||| (sizeMask &&& pciBarMemMask).setWidth 64
    return (0, ⟨barHigh.setWidth 64 <<< 32 ||| (barValue &&& pciBarMemMask).setWidth 64, 0,
      ~~~sizeMask64 + 1, 0, prefetchable, true, false⟩)
  let sizeMask ← pciBarSizing loc barNum
  let size := (~~~(sizeMask &&& pciBarMemMask) + 1).setWidth 64
  return (0, ⟨(barValue &&& pciBarMemMask).setWidth 64, 0, size &&& 0xFFFFFFFF, 0, prefetchable, false, false⟩)

def pciHasCapabilityList (loc : Location) : StateM Machine Bool := do
  let status ← pciConfigRead16 loc 0x06
  return decide (status &&& 0x0010 ≠ 0)

/-- The loop of `pci_find_capability` with the iterations that are left. -/
def findLoop (loc : Location) (capId : BitVec 8) : Nat → BitVec 8 → StateM Machine (BitVec 8)
  | 0, _ => return 0
  | iterations + 1, capPtr => do
      if capPtr = 0 then
        return 0
      let capIdRead ← pciConfigRead8 loc capPtr
      if capIdRead = capId then
        return capPtr
      let next ← pciConfigRead8 loc (capPtr + 1)
      findLoop loc capId iterations (next &&& 0xFC)

def pciFindCapability (loc : Location) (capId : BitVec 8) : StateM Machine (BitVec 8) := do
  if ← pciHasCapabilityList loc then
    let capPtr ← pciConfigRead8 loc 0x34
    findLoop loc capId 48 (capPtr &&& 0xFC)
  else
    return 0

/-- A `pci_capability_t`, whose `next` is a pointer into the heap or `NULL`. -/
structure Capability where
  id : BitVec 8
  offset : BitVec 8
  next : Option Nat

/-- The machine with the capabilities that `kmalloc` handed out. A pointer is the number of a node. -/
structure Scanned where
  machine : Machine
  heap : List Capability
  capabilities : Option Nat

/-- A step of the loop on the configuration space. -/
def Scanned.access {α : Type} (action : StateM Machine α) : StateM Scanned α := fun scanned =>
  let (value, machine) := action scanned.machine
  (value, { scanned with machine })

/-- The node of a new capability, linked behind `prev` or at the head of the list. -/
def Scanned.append (scanned : Scanned) (prev : Option Nat) (id offset : BitVec 8) : Scanned :=
  let cap := scanned.heap.length
  let heap := scanned.heap ++ [⟨id, offset, none⟩]
  match prev with
  | none => { scanned with heap, capabilities := some cap }
  | some prev => { scanned with heap := heap.modify prev fun node => { node with next := some cap } }

/-- The loop of `pci_scan_capabilities`, where `kmalloc` tells whether an allocation succeeds. -/
def scanLoop (kmalloc : Nat → Bool) (loc : Location) :
    Nat → BitVec 8 → Option Nat → StateM Scanned Unit
  | 0, _, _ => return ()
  | iterations + 1, capPtr, prev => do
      if capPtr = 0 then
        return ()
      let capId ← Scanned.access (pciConfigRead8 loc capPtr)
      let cap := (← get).heap.length
      if kmalloc cap then
        modify fun scanned => scanned.append prev capId capPtr
        let next ← Scanned.access (pciConfigRead8 loc (capPtr + 1))
        scanLoop kmalloc loc iterations (next &&& 0xFC) (some cap)
      else
        return ()

def pciScanCapabilities (kmalloc : Nat → Bool) (loc : Location) : StateM Scanned Unit := do
  if ← Scanned.access (pciHasCapabilityList loc) then
    let capPtr ← Scanned.access (pciConfigRead8 loc 0x34)
    scanLoop kmalloc loc 48 (capPtr &&& 0xFC) none

/-- The walk of `pci_get_capability`, which has no result when the fuel does not last. -/
def getLoop (heap : List Capability) (capId : BitVec 8) : Nat → Option Nat → Option (Option Nat)
  | _, none => some none
  | 0, some _ => none
  | fuel + 1, some cap =>
      match heap[cap]? with
      | none => none
      | some node => if node.id = capId then some (some cap) else getLoop heap capId fuel node.next

def pciGetCapability (fuel : Nat) (scanned : Scanned) (capId : BitVec 8) : Option (Option Nat) :=
  getLoop scanned.heap capId fuel scanned.capabilities

end Uesi.Pci
