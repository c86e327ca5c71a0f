import Uesi.Proof.Pci.Config

namespace Uesi.Pci

open Library

section Chain

variable (bytes : BitVec 8 → BitVec 8)

/-- The masked pointer behind a number of entries of the capability list. -/
def pointer : Nat → BitVec 8
  | 0 => bytes 0x34 &&& 0xFC
  | index + 1 => bytes (pointer index + 1) &&& 0xFC

/-- The capability list has an entry with a number. -/
def OnChain (index : Nat) : Prop := ∀ earlier ≤ index, pointer bytes earlier ≠ 0

/-- The first entry of the capability list with an id. -/
structure FirstAt (capId : BitVec 8) (index : Nat) : Prop where
  onChain : OnChain bytes index
  found : bytes (pointer bytes index) = capId
  first : ∀ earlier < index, bytes (pointer bytes earlier) ≠ capId

/-- Each masked pointer of the capability list is zero or behind the header. -/
def ProperPointers : Prop :=
  ∀ index, (∀ earlier < index, pointer bytes earlier ≠ 0) → pointer bytes index = 0 ∨ 0x40 ≤ pointer bytes index

/-- At most so many offsets of the capability list from a pointer on. -/
def chain : Nat → BitVec 8 → List (BitVec 8)
  | 0, _ => []
  | count + 1, capPtr => if capPtr = 0 then [] else capPtr :: chain count (bytes (capPtr + 1) &&& 0xFC)

variable {bytes}

theorem length_chain (count : Nat) (capPtr : BitVec 8) : (chain bytes count capPtr).length ≤ count := by
  induction count generalizing capPtr with
  | zero => exact Nat.le_refl 0
  | succ count ih =>
      rw [chain]
      split
      · exact Nat.zero_le _
      · exact Nat.succ_le_succ (ih _)

theorem pointer_aligned (index : Nat) : (pointer bytes index).toNat % 4 = 0 := by
  have masked : ∀ byte : BitVec 8, (byte &&& 0xFC).toNat % 4 = 0 := by decide
  cases index with
  | zero => exact masked _
  | succ index => exact masked _

/-- Equal pointers have equal successors. -/
theorem pointer_periodic {first second : Nat} (same : pointer bytes first = pointer bytes second) (count : Nat) :
    pointer bytes (first + count) = pointer bytes (second + count) := by
  induction count with
  | zero => exact same
  | succ count ih => rw [← Nat.add_assoc, ← Nat.add_assoc, pointer, pointer, ih]

/-- The pointers up to the first entry with an id are different, so that one of 48 is the wanted one. -/
theorem FirstAt.lt {capId : BitVec 8} {index : Nat} (held : FirstAt bytes capId index)
    (proper : ProperPointers bytes) : index < 48 := by
  have injective : ∀ first ≤ index, ∀ second ≤ index, first < second →
      pointer bytes first ≠ pointer bytes second := by
    intro first _ second inside less same
    have earlier := pointer_periodic same (index - second)
    rw [Nat.add_sub_cancel' inside] at earlier
    exact held.first (first + (index - second)) (by omega) (earlier ▸ held.found)
  have maps : ∀ place ∈ Finset.range (index + 1), (pointer bytes place).toNat / 4 ∈ Finset.Ico 16 64 := by
    intro place member
    have inside : place ≤ index := Nat.lt_succ_iff.mp (Finset.mem_range.mp member)
    have nonzero := held.onChain place inside
    have behind := (proper place fun earlier less => held.onChain earlier (by omega)).resolve_left nonzero
    have value := BitVec.le_def.mp behind
    simp only [Finset.mem_Ico]
    have least : (0x40 : BitVec 8).toNat = 64 := rfl
    omega
  have distinct : Set.InjOn (fun place => (pointer bytes place).toNat / 4) (Finset.range (index + 1)) := by
    intro first firstInside second secondInside same
    have firstBound := Finset.mem_range.mp firstInside
    have secondBound := Finset.mem_range.mp secondInside
    have aligned := @pointer_aligned bytes first
    have other := @pointer_aligned bytes second
    have equal : pointer bytes first = pointer bytes second := by
      apply BitVec.eq_of_toNat_eq
      simp only at same
      omega
    rcases lt_trichotomy first second with less | rfl | more
    · exact absurd equal (injective first (by omega) second (by omega) less)
    · rfl
    · exact absurd equal.symm (injective second (by omega) first (by omega) more)
  have small := Finset.card_le_card_of_injOn _ maps distinct
  simp only [Finset.card_range, Nat.card_Ico] at small
  omega

/-- A list of enough entries shows the first one with an id. -/
theorem FirstAt.find {capId : BitVec 8} {index : Nat} (held : FirstAt bytes capId index) {count start : Nat}
    (before : start ≤ index) (enough : index < start + count) :
    (chain bytes count (pointer bytes start)).find? (bytes · = capId) = some (pointer bytes index) := by
  induction count generalizing start with
  | zero => omega
  | succ count ih =>
      rw [chain, if_neg (held.onChain start before), List.find?_cons]
      by_cases here : start = index
      · simp [here, held.found]
      · rw [decide_eq_false (held.first start (by omega))]
        exact @ih (start + 1) (by omega) (by omega)

/-- Without an entry with an id no list of entries shows one. -/
theorem find_chain_none {capId : BitVec 8} (absent : ∀ index, OnChain bytes index → bytes (pointer bytes index) ≠ capId)
    (count : Nat) {start : Nat} (before : ∀ earlier < start, pointer bytes earlier ≠ 0) :
    (chain bytes count (pointer bytes start)).find? (bytes · = capId) = none := by
  induction count generalizing start with
  | zero => rfl
  | succ count ih =>
      rw [chain]
      by_cases ended : pointer bytes start = 0
      · rw [if_pos ended]
        rfl
      · have reached : OnChain bytes start := fun earlier inside => by
          rcases Nat.lt_or_eq_of_le inside with less | rfl
          · exact before earlier less
          · exact ended
        rw [if_neg ended, List.find?_cons, decide_eq_false (absent start reached)]
        exact @ih (start + 1) fun earlier less => reached earlier (by omega)

/-- Some entry has an id when a first one has it. -/
theorem exists_firstAt {capId : BitVec 8} {index : Nat} (reached : OnChain bytes index)
    (found : bytes (pointer bytes index) = capId) : ∃ first, FirstAt bytes capId first := by
  classical
  have some : ∃ place, OnChain bytes place ∧ bytes (pointer bytes place) = capId := ⟨index, reached, found⟩
  obtain ⟨onChain, same⟩ := Nat.find_spec some
  refine ⟨Nat.find some, onChain, same, fun earlier less same => ?_⟩
  exact Nat.find_min some less ⟨fun other inside => onChain other (by omega), same⟩

end Chain

section Find

variable {loc : Location} {machine : Machine}

theorem read8_bytes (loc : Location) (machine : Machine) (offset : BitVec 8) :
    (pciConfigRead8 loc offset).run machine =
      (machine.bytes loc.slot offset, machine.select loc offset) := by
  rw [pciConfigRead8_run]
  exact congrArg (·, _) (byteOf_shift _ offset)

/-- The status bit of the header. -/
def HasList (machine : Machine) (loc : Location) : Prop :=
  (machine.bytes loc.slot 0x07 ++ machine.bytes loc.slot 0x06 : BitVec 16) &&& 0x0010 ≠ 0

theorem hasList_run (listed : HasList machine loc) :
    (pciHasCapabilityList loc).run machine = (true, machine.select loc 0x06) := by
  have status := (read_bytes loc machine 0x06).2.1 (by decide)
  rw [pciConfigRead16_run] at status
  simp only at status
  rw [pciHasCapabilityList, run_bind_eq (pciConfigRead16_run loc 0x06 machine), status]
  exact congrArg (·, _) (decide_eq_true listed)

/-- The loop finds the first of its entries with the id. -/
theorem findLoop_run (capId : BitVec 8) (iterations : Nat) (capPtr : BitVec 8) :
    ((findLoop loc capId iterations capPtr).run machine).1 =
      ((chain (machine.bytes loc.slot) iterations capPtr).find? (machine.bytes loc.slot · = capId)).getD 0 := by
  induction iterations generalizing capPtr machine with
  | zero => rfl
  | succ iterations ih =>
      rw [findLoop, chain]
      by_cases ended : capPtr = 0
      · rw [if_pos ended, if_pos ended]
        rfl
      · rw [if_neg ended, if_neg ended, run_bind_eq (read8_bytes loc machine capPtr), List.find?_cons]
        by_cases here : machine.bytes loc.slot capPtr = capId
        · rw [if_pos here, decide_eq_true here]
          rfl
        · rw [if_neg here, run_bind_eq (read8_bytes loc _ (capPtr + 1)), decide_eq_false here]
          exact ih _

theorem pciFindCapability_run (listed : HasList machine loc) (capId : BitVec 8) :
    ((pciFindCapability loc capId).run machine).1 =
      ((chain (machine.bytes loc.slot) 48 (pointer (machine.bytes loc.slot) 0)).find?
        (machine.bytes loc.slot · = capId)).getD 0 := by
  rw [pciFindCapability, run_bind_eq (hasList_run listed), if_pos rfl, run_bind_eq (read8_bytes loc _ 0x34)]
  exact findLoop_run capId 48 _

end Find

section Scan

/-- The nodes of a list of ids and offsets that follow each other in the heap. -/
def link : Nat → List (BitVec 8 × BitVec 8) → List Capability
  | _, [] => []
  | base, (id, offset) :: rest =>
      ⟨id, offset, if rest = [] then none else some (base + 1)⟩ :: link (base + 1) rest

/-- The ids and the offsets of the entries of a capability list. -/
def entries (bytes : BitVec 8 → BitVec 8) (offsets : List (BitVec 8)) : List (BitVec 8 × BitVec 8) :=
  offsets.map fun offset => (bytes offset, offset)

theorem access_run {α : Type} {action : StateM Machine α} {scanned : Scanned} {value : α} {machine : Machine}
    (ran : action.run scanned.machine = (value, machine)) :
    (Scanned.access action).run scanned = (value, { scanned with machine }) := by
  change (let result := action.run scanned.machine; (result.1, { scanned with machine := result.2 })) = _
  rw [ran]

variable {kmalloc : Nat → Bool} {loc : Location}

/-- One allocated entry of the loop. -/
theorem scanLoop_succ (succeeds : ∀ size, kmalloc size = true) (scanned : Scanned) (iterations : Nat)
    {capPtr : BitVec 8} (more : capPtr ≠ 0) (prev : Option Nat) :
    (scanLoop kmalloc loc (iterations + 1) capPtr prev).run scanned =
      (scanLoop kmalloc loc iterations (scanned.machine.bytes loc.slot (capPtr + 1) &&& 0xFC)
        (some scanned.heap.length)).run
        { scanned.append prev (scanned.machine.bytes loc.slot capPtr) capPtr with
          machine := (scanned.machine.select loc capPtr).select loc (capPtr + 1) } := by
  rw [scanLoop, if_neg more, run_bind_eq (access_run (read8_bytes loc _ capPtr))]
  simp only [StateT.run_bind, StateT.run_get, pure_bind, succeeds, if_true, StateT.run_modify]
  rw [access_run (read8_bytes loc _ (capPtr + 1))]
  cases prev <;> rfl

theorem scanLoop_done (scanned : Scanned) (iterations : Nat) (prev : Option Nat) :
    (scanLoop kmalloc loc iterations 0 prev).run scanned = ((), scanned) := by
  cases iterations <;> rfl

/-- The loop links the entries of the chain behind the last node. -/
theorem scanLoop_heap (succeeds : ∀ size, kmalloc size = true) {bytes : BitVec 8 → BitVec 8}
    (iterations : Nat) {scanned : Scanned} (same : scanned.machine.bytes loc.slot = bytes) (capPtr : BitVec 8)
    {front : List Capability} {id offset : BitVec 8} (last : scanned.heap = front ++ [⟨id, offset, none⟩]) :
    let final := ((scanLoop kmalloc loc iterations capPtr (some front.length)).run scanned).2
    final.heap = front ++ link front.length ((id, offset) :: entries bytes (chain bytes iterations capPtr)) ∧
      final.capabilities = scanned.capabilities := by
  induction iterations generalizing scanned capPtr front id offset with
  | zero => exact ⟨last, rfl⟩
  | succ iterations ih =>
      rw [chain]
      by_cases ended : capPtr = 0
      · subst ended
        rw [scanLoop_done, if_pos rfl]
        exact ⟨last, rfl⟩
      · rw [scanLoop_succ succeeds _ _ ended, if_neg ended, same]
        have place : scanned.heap.length =
            (front ++ [Capability.mk id offset (some (front.length + 1))]).length := by
          simp [last]
        have grown : (scanned.append (some front.length) (bytes capPtr) capPtr).heap =
            (front ++ [⟨id, offset, some (front.length + 1)⟩]) ++ [⟨bytes capPtr, capPtr, none⟩] := by
          simp [Scanned.append, last, List.modify_eq_take_drop]
        rw [place]
        obtain ⟨heap, head⟩ := @ih
          { scanned.append (some front.length) (bytes capPtr) capPtr with
            machine := (scanned.machine.select loc capPtr).select loc (capPtr + 1) } same
          (bytes (capPtr + 1) &&& 0xFC) _ _ _ grown
        refine ⟨heap.trans ?_, head⟩
        simp [link, entries]

/-- The walk over linked nodes finds the first one with the id. -/
theorem getLoop_link (capId : BitVec 8) {heap front : List Capability} {first : BitVec 8 × BitVec 8}
    {rest : List (BitVec 8 × BitVec 8)} (whole : heap = front ++ link front.length (first :: rest)) {fuel : Nat}
    (enough : rest.length < fuel) :
    ((first :: rest).find? (·.1 = capId) = none → getLoop heap capId fuel (some front.length) = some none) ∧
      ∀ entry, (first :: rest).find? (·.1 = capId) = some entry →
        ∃ cap node, getLoop heap capId fuel (some front.length) = some (some cap) ∧
          heap[cap]? = some node ∧ node.id = capId ∧ node.offset = entry.2 := by
  induction rest generalizing front first fuel with
  | nil =>
      obtain ⟨fuel, rfl⟩ : ∃ less, fuel = less + 1 := ⟨fuel - 1, by omega⟩
      have node : heap[front.length]? = some ⟨first.1, first.2, none⟩ := by simp [whole, link]
      rw [getLoop, node]
      by_cases here : first.1 = capId
      · simp [here, node]
      · simp [here, getLoop]
  | cons second rest ih =>
      obtain ⟨fuel, rfl⟩ : ∃ less, fuel = less + 1 := ⟨fuel - 1, by omega⟩
      have node : heap[front.length]? = some ⟨first.1, first.2, some (front.length + 1)⟩ := by
        simp [whole, link]
      have tail : heap = (front ++ [⟨first.1, first.2, some (front.length + 1)⟩]) ++
          link (front ++ [Capability.mk first.1 first.2 (some (front.length + 1))]).length (second :: rest) := by
        simp [whole, link]
      rw [getLoop, node, List.find?_cons]
      by_cases here : first.1 = capId
      · simp [here, node]
      · simp only [here, if_false, decide_false]
        have later := @ih _ _ tail fuel (by simpa using enough)
        rwa [List.length_append] at later

/-- The loop starts a list for the entries of a chain that is not empty. -/
theorem scanLoop_list (succeeds : ∀ size, kmalloc size = true) {bytes : BitVec 8 → BitVec 8}
    (iterations : Nat) {scanned : Scanned} (same : scanned.machine.bytes loc.slot = bytes) {capPtr : BitVec 8}
    (more : capPtr ≠ 0) :
    let final := ((scanLoop kmalloc loc (iterations + 1) capPtr none).run scanned).2
    final.heap = scanned.heap ++ link scanned.heap.length (entries bytes (chain bytes (iterations + 1) capPtr)) ∧
      final.capabilities = some scanned.heap.length := by
  rw [scanLoop_succ succeeds _ _ more, same, chain, if_neg more]
  exact @scanLoop_heap kmalloc loc succeeds bytes iterations
    { scanned.append none (bytes capPtr) capPtr with
      machine := (scanned.machine.select loc capPtr).select loc (capPtr + 1) } same
    (bytes (capPtr + 1) &&& 0xFC) scanned.heap (bytes capPtr) capPtr rfl

theorem find_entries (bytes : BitVec 8 → BitVec 8) (offsets : List (BitVec 8)) (capId : BitVec 8) :
    (entries bytes offsets).find? (·.1 = capId) =
      (offsets.find? (bytes · = capId)).map fun offset => (bytes offset, offset) := by
  rw [entries, List.find?_map]
  rfl

theorem pciScanCapabilities_run {machine : Machine} (listed : HasList machine loc) (heap : List Capability) :
    (pciScanCapabilities kmalloc loc).run ⟨machine, heap, none⟩ =
      (scanLoop kmalloc loc 48 (pointer (machine.bytes loc.slot) 0) none).run
        ⟨(machine.select loc 0x06).select loc 0x34, heap, none⟩ := by
  have status := @access_run _ _ ⟨machine, heap, none⟩ _ _ (hasList_run listed)
  rw [pciScanCapabilities, run_bind_eq status, if_pos rfl, run_bind_eq (access_run (read8_bytes loc _ 0x34))]
  rfl

/-- The list that the scan builds has the entries of the chain. -/
theorem pciGetCapability_scan (succeeds : ∀ size, kmalloc size = true) {machine : Machine}
    {bytes : BitVec 8 → BitVec 8} (same : machine.bytes loc.slot = bytes) (iterations : Nat) (capPtr : BitVec 8)
    (heap : List Capability) (capId : BitVec 8) {fuel : Nat} (enough : iterations < fuel) :
    let scanned := ((scanLoop kmalloc loc (iterations + 1) capPtr none).run ⟨machine, heap, none⟩).2
    let found := (chain bytes (iterations + 1) capPtr).find? (bytes · = capId)
    (found = none → pciGetCapability fuel scanned capId = some none) ∧
      ∀ offset, found = some offset → ∃ cap node, pciGetCapability fuel scanned capId = some (some cap) ∧
        scanned.heap[cap]? = some node ∧ node.id = capId ∧ node.offset = offset := by
  by_cases empty : capPtr = 0
  · rw [empty, scanLoop_done, chain, if_pos rfl]
    simp [pciGetCapability, getLoop]
  · obtain ⟨nodes, head⟩ := @scanLoop_list kmalloc loc succeeds bytes iterations ⟨machine, heap, none⟩ same _ empty
    generalize ((scanLoop kmalloc loc (iterations + 1) capPtr none).run ⟨machine, heap, none⟩).2 = scanned
      at nodes head
    have short := @length_chain bytes iterations (bytes (capPtr + 1) &&& 0xFC)
    rw [chain, if_neg empty] at nodes ⊢
    obtain ⟨missing, present⟩ := @getLoop_link capId _ _ _ _ nodes fuel (by rw [List.length_map]; omega)
    have search := find_entries bytes (capPtr :: chain bytes iterations (bytes (capPtr + 1) &&& 0xFC)) capId
    simp only [pciGetCapability, head]
    refine ⟨fun none => missing ?_, fun offset found => present (bytes offset, offset) ?_⟩
    · exact search.trans (by rw [none]; rfl)
    · exact search.trans (by rw [found]; rfl)

end Scan

/-- The search stops at the first entry of the chain with the id and returns zero when there is none. The
walk over the scanned list stops at an entry with the same offset, or with `NULL`. -/
theorem capability_search_complete (loc : Location) (machine : Machine) (capId : BitVec 8)
    (listed : HasList machine loc) (proper : ProperPointers (machine.bytes loc.slot)) :
    let bytes := machine.bytes loc.slot
    let found := ((pciFindCapability loc capId).run machine).1
    (∀ index, FirstAt bytes capId index → found = pointer bytes index) ∧
      (found = 0 ↔ ∀ index, OnChain bytes index → bytes (pointer bytes index) ≠ capId) ∧
      ∀ kmalloc heap fuel, (∀ size, kmalloc size = true) → 48 ≤ fuel →
        let scanned := ((pciScanCapabilities kmalloc loc).run ⟨machine, heap, none⟩).2
        (found = 0 → pciGetCapability fuel scanned capId = some none) ∧
          (found ≠ 0 → ∃ cap node, pciGetCapability fuel scanned capId = some (some cap) ∧
            scanned.heap[cap]? = some node ∧ node.id = capId ∧ node.offset = found) := by
  intro bytes found
  have search : found = ((chain bytes 48 (pointer bytes 0)).find? (bytes · = capId)).getD 0 :=
    pciFindCapability_run listed capId
  have first : ∀ index, FirstAt bytes capId index → found = pointer bytes index := by
    intro index held
    rw [search, held.find (Nat.zero_le index) ((held.lt proper).trans_le (Nat.le_add_left 48 0))]
    rfl
  have absent : found = 0 → ∀ index, OnChain bytes index → bytes (pointer bytes index) ≠ capId := by
    intro zero index reached same
    obtain ⟨start, held⟩ := exists_firstAt reached same
    exact held.onChain start le_rfl ((first start held).symm.trans zero)
  have missing : (∀ index, OnChain bytes index → bytes (pointer bytes index) ≠ capId) →
      (chain bytes 48 (pointer bytes 0)).find? (bytes · = capId) = none := fun none =>
    find_chain_none none 48 fun earlier impossible => absurd impossible (Nat.not_lt_zero earlier)
  refine ⟨first, ⟨absent, fun none => ?_⟩, fun kmalloc heap fuel succeeds enough => ?_⟩
  · rw [search, missing none]
    rfl
  · rw [pciScanCapabilities_run listed heap]
    obtain ⟨ends, stops⟩ := @pciGetCapability_scan kmalloc loc succeeds
      ((machine.select loc 0x06).select loc 0x34) bytes rfl 47 (pointer bytes 0) heap capId fuel enough
    refine ⟨fun zero => ends (missing (absent zero)), fun nonzero => stops found ?_⟩
    cases shown : (chain bytes 48 (pointer bytes 0)).find? (bytes · = capId) with
    | none => exact absurd (search.trans (by rw [shown]; rfl)) nonzero
    | some offset => rw [search, shown, Option.getD_some]

/-- A machine whose capabilities, with id 1 at 0x40 and id 5 at 0x50, follow each other. -/
def circle : Machine where
  configAddress := 0
  registers _ register :=
    if register = 0x01 then 0x00100000 else if register = 0x0D then 0x40 else if register = 0x10 then 0x5001
    else if register = 0x14 then 0x4005 else 0
  writable _ _ := 0

theorem circle_pointer (index : Nat) :
    pointer (circle.bytes (Location.slot ⟨0, 3, 0⟩)) index = 0x40 ∨
      pointer (circle.bytes (Location.slot ⟨0, 3, 0⟩)) index = 0x50 := by
  induction index with
  | zero => decide
  | succ index ih =>
      rw [pointer]
      obtain first | second := ih
      · rw [first]
        decide
      · rw [second]
        decide

theorem capability_search_complete_circle :
    HasList circle ⟨0, 3, 0⟩ ∧ ((pciFindCapability ⟨0, 3, 0⟩ 5).run circle).1 = 0x50 := by
  have listed : HasList circle ⟨0, 3, 0⟩ := by
    unfold HasList
    decide
  have behind (index : Nat) : 0x40 ≤ pointer (circle.bytes (Location.slot ⟨0, 3, 0⟩)) index := by
    obtain first | second := circle_pointer index
    · rw [first]
      decide
    · rw [second]
      decide
  refine ⟨listed, (capability_search_complete ⟨0, 3, 0⟩ circle 5 listed fun index _ => Or.inr (behind index)).1 1
    ⟨fun earlier _ zero => ?_, by decide, fun earlier before => ?_⟩⟩
  · exact absurd (zero ▸ behind earlier) (by decide)
  · obtain rfl := Nat.lt_one_iff.mp before
    decide

end Uesi.Pci
