import Uesi.Construction.Inode

namespace Uesi.Inode

open Library

variable {ledger : Ledger} {alloc : InodeAlloc}

/-- The ledger and the bitmap hold the same numbers, the counter is their number, and the hint is in range. -/
structure Balanced (ledger : Ledger) : Prop where
  taken : ∀ ino, ino ∈ ledger.taken ↔ 1 ≤ ino ∧ ino ≤ ledger.alloc.total ∧ testBit ledger.alloc.bitmap (ino - 1) = true
  used : ledger.alloc.used = countBits ledger.alloc.bitmap ledger.alloc.total
  hint : ledger.alloc.firstFree ≤ ledger.alloc.total

theorem findFree_some {bitmap : Nat → BitVec 8} {start stop ino : Nat} (found : findFree bitmap start stop = some ino) :
    start ≤ ino ∧ ino < stop ∧ testBit bitmap ino = false := by
  unfold findFree at found
  rw [List.find?_range'_eq_some, List.mem_range'_1] at found
  exact ⟨found.2.1.1, by omega, by simpa using found.1⟩

theorem findFree_none {bitmap : Nat → BitVec 8} {start stop ino : Nat} (none : findFree bitmap start stop = none)
    (above : start ≤ ino) (below : ino < stop) : testBit bitmap ino = true := by
  unfold findFree at none
  rw [List.find?_range'_eq_none] at none
  have taken := none ino above (by omega)
  simpa using taken

/-- The call hands out a free number, or there is none and it changes nothing. -/
theorem inodeAlloc_cases (used : alloc.used = countBits alloc.bitmap alloc.total)
    (hint : alloc.firstFree ≤ alloc.total) :
    (∃ ino, ino < alloc.total ∧ testBit alloc.bitmap ino = false ∧
      inodeAlloc alloc = (ino + 1, { alloc with
        bitmap := setBit alloc.bitmap ino, used := alloc.used + 1, firstFree := ino + 1 })) ∨
    ((∀ ino, ino < alloc.total → testBit alloc.bitmap ino = true) ∧ inodeAlloc alloc = (0, alloc)) := by
  have bounded := alloc.total_lt
  have most : alloc.used ≤ alloc.total := used ▸ Nat.count_le _
  unfold inodeAlloc
  by_cases full : alloc.total ≤ alloc.used
  · rw [if_pos full]
    refine Or.inr ⟨fun ino below => ?_, rfl⟩
    have all : countBits alloc.bitmap alloc.total = alloc.total := by omega
    exact Nat.count_iff_forall.mp all ino below
  · rw [if_neg full]
    have takes : ∀ ino, ino < alloc.total → ((ino + 1) % 2 ^ 32, takeInode alloc ino) = (ino + 1, { alloc with
        bitmap := setBit alloc.bitmap ino, used := alloc.used + 1, firstFree := ino + 1 }) := by
      intro ino below
      unfold takeInode
      rw [Nat.mod_eq_of_lt (by omega), Nat.mod_eq_of_lt (by omega)]
    cases first : findFree alloc.bitmap alloc.firstFree alloc.total with
    | some ino =>
        obtain ⟨_, below, free⟩ := findFree_some first
        exact Or.inl ⟨ino, below, free, takes ino below⟩
    | none =>
        cases second : findFree alloc.bitmap 0 alloc.firstFree with
        | some ino =>
            obtain ⟨_, below, free⟩ := findFree_some second
            exact Or.inl ⟨ino, by omega, free, takes ino (by omega)⟩
        | none =>
            refine Or.inr ⟨fun ino below => ?_, rfl⟩
            by_cases before : ino < alloc.firstFree
            · exact findFree_none second (Nat.zero_le ino) before
            · exact findFree_none first (by omega) below

theorem Balanced.mem_iff (balanced : Balanced ledger) (ino : Nat) :
    ino ∈ ledger.taken ↔ inodeIsAllocated ledger.alloc ino = true := by
  have bounded := ledger.alloc.total_lt
  rw [balanced.taken]
  unfold inodeIsAllocated
  by_cases outside : ino = 0 ∨ ledger.alloc.total < ino
  · rw [if_pos outside]
    exact ⟨fun held => by omega, fun wrong => absurd wrong Bool.false_ne_true⟩
  · rw [if_neg outside, Nat.mod_eq_of_lt (by omega)]
    exact ⟨fun held => held.2.2, fun held => ⟨by omega, by omega, held⟩⟩

/-- The call takes back a number that is handed out, and refuses every other one. -/
theorem inodeFree_cases (alloc : InodeAlloc) (ino : Nat) :
    (inodeIsAllocated alloc ino = true ∧ 1 ≤ ino ∧ ino ≤ alloc.total ∧ testBit alloc.bitmap (ino - 1) = true ∧
      inodeFree alloc ino = (.ok (), { alloc with
        bitmap := clearBit alloc.bitmap (ino - 1)
        used := if alloc.used = 0 then 2 ^ 32 - 1 else alloc.used - 1
        firstFree := if ino - 1 < alloc.firstFree then ino - 1 else alloc.firstFree })) ∨
    (inodeIsAllocated alloc ino = false ∧ inodeFree alloc ino = (.error .einval, alloc)) := by
  have bounded := alloc.total_lt
  unfold inodeFree inodeIsAllocated
  by_cases outside : ino = 0 ∨ alloc.total < ino
  · rw [if_pos outside, if_pos outside]
    exact Or.inr ⟨rfl, rfl⟩
  · rw [if_neg outside, if_neg outside, Nat.mod_eq_of_lt (by omega)]
    dsimp only
    cases taken : testBit alloc.bitmap (ino - 1) with
    | false =>
        rw [if_pos rfl]
        exact Or.inr ⟨rfl, rfl⟩
    | true =>
        rw [if_neg (by decide : ¬true = false)]
        exact Or.inl ⟨rfl, by omega, by omega, rfl, rfl⟩

theorem Balanced.step (balanced : Balanced ledger) (call : InodeCall) :
    Balanced (ledger.step call) ∧ (ledger.step call).alloc.total = ledger.alloc.total := by
  cases call with
  | alloc =>
      unfold Ledger.step
      rcases inodeAlloc_cases balanced.used balanced.hint with ⟨ino, below, free, same⟩ | ⟨_, same⟩
      · rw [same]
        dsimp only
        rw [if_neg (Nat.succ_ne_zero ino)]
        refine ⟨⟨fun other => ?_, ?_, below⟩, rfl⟩
        · dsimp only
          rw [Finset.mem_insert, balanced.taken, testBit_setBit, Bool.or_eq_true, decide_eq_true_iff]
          constructor
          · rintro (rfl | held)
            · exact ⟨by omega, by omega, Or.inl (by omega)⟩
            · exact ⟨held.1, held.2.1, Or.inr held.2.2⟩
          · rintro ⟨low, high, here | held⟩
            · exact Or.inl (by omega)
            · exact Or.inr ⟨low, high, held⟩
        · dsimp only
          rw [countBits_setBit below free, balanced.used]
      · rw [same]
        exact ⟨balanced, rfl⟩
  | free ino =>
      unfold Ledger.step
      dsimp only
      rcases inodeFree_cases ledger.alloc ino with ⟨_, low, high, set, same⟩ | ⟨_, same⟩
      · rw [same]
        dsimp only
        have lowered := countBits_clearBit (show ino - 1 < ledger.alloc.total by omega) set
        have positive := balanced.used
        refine ⟨⟨fun other => ?_, ?_, ?_⟩, rfl⟩
        · dsimp only
          rw [Finset.mem_erase, balanced.taken, testBit_clearBit, Bool.and_eq_true, Bool.not_eq_true',
            decide_eq_false_iff_not]
          constructor
          · rintro ⟨different, held⟩
            exact ⟨held.1, held.2.1, by omega, held.2.2⟩
          · rintro ⟨below, above, different, held⟩
            exact ⟨fun wrong => different (by rw [wrong]), below, above, held⟩
        · dsimp only
          rw [if_neg (by omega)]
          omega
        · have hint := balanced.hint
          dsimp only
          split_ifs
          all_goals omega
      · rw [same]
        exact ⟨balanced, rfl⟩

theorem Balanced.init {given : Bool} {total : Nat} {bounded : total < 2 ^ 32} {fresh : InodeAlloc}
    (initial : inodeAllocInit given total bounded = .ok fresh) : Balanced { alloc := fresh } ∧ fresh.total = total := by
  unfold inodeAllocInit at initial
  dsimp only at initial
  split_ifs at initial
  cases initial
  have clear : ∀ ino, testBit (fun _ => (0 : BitVec 8)) ino = false := fun ino => by simp [testBit]
  refine ⟨⟨fun ino => ?_, ?_, Nat.zero_le _⟩, rfl⟩
  · dsimp only
    rw [clear]
    simp
  · refine (Nat.count_of_forall_not fun ino _ set => ?_).symm
    rw [clear] at set
    exact absurd set Bool.false_ne_true

/-- The ledger behind a sequence of calls. -/
def Ledger.after (fresh : InodeAlloc) (calls : List InodeCall) : Ledger := calls.foldl Ledger.step { alloc := fresh }

theorem Balanced.foldl (balanced : Balanced ledger) (calls : List InodeCall) :
    Balanced (calls.foldl Ledger.step ledger) ∧
      (calls.foldl Ledger.step ledger).alloc.total = ledger.alloc.total := by
  induction calls generalizing ledger with
  | nil => exact ⟨balanced, rfl⟩
  | cons call calls ih =>
      obtain ⟨next, total⟩ := balanced.step call
      obtain ⟨final, same⟩ := ih next
      exact ⟨final, same.trans total⟩

/-- The counter is the number of entries in the ledger. -/
theorem Balanced.card (balanced : Balanced ledger) : ledger.alloc.used = ledger.taken.card := by
  have entries : ledger.taken = ((Finset.range ledger.alloc.total).filter
      fun ino => testBit ledger.alloc.bitmap ino = true).image (· + 1) := by
    ext ino
    rw [balanced.taken, Finset.mem_image]
    constructor
    · rintro ⟨low, high, set⟩
      exact ⟨ino - 1, Finset.mem_filter.mpr ⟨Finset.mem_range.mpr (by omega), set⟩, by omega⟩
    · rintro ⟨index, inside, rfl⟩
      obtain ⟨below, set⟩ := Finset.mem_filter.mp inside
      have small := Finset.mem_range.mp below
      exact ⟨by omega, by omega, set⟩
  rw [entries, Finset.card_image_of_injective _ (add_left_injective 1), balanced.used, countBits,
    Nat.count_eq_card_filter_range]

/-- Behind every sequence of calls a number that is handed out is in range and was not handed out, none is handed out
exactly if all are, a number is taken back exactly if it is handed out, and the test and the counter agree with the
ledger. -/
theorem inodeAlloc_ledger (given : Bool) (total : Nat) (bounded : total < 2 ^ 32) (fresh : InodeAlloc)
    (initial : inodeAllocInit given total bounded = .ok fresh) (calls : List InodeCall) :
    let ledger := Ledger.after fresh calls
    let ino := (inodeAlloc ledger.alloc).1
    (ino ≠ 0 → 1 ≤ ino ∧ ino ≤ total ∧ ino ∉ ledger.taken) ∧
    (ino = 0 ↔ ledger.taken = Finset.Icc 1 total) ∧
    (∀ number, (inodeFree ledger.alloc number).1 = .ok () ↔ number ∈ ledger.taken) ∧
    (∀ number, inodeIsAllocated ledger.alloc number = true ↔ number ∈ ledger.taken) ∧
    ledger.alloc.used = ledger.taken.card := by
  obtain ⟨start, size⟩ := Balanced.init initial
  obtain ⟨balanced, same⟩ := start.foldl calls
  intro ledger ino
  change Balanced ledger at balanced
  have range : ledger.alloc.total = total := same.trans size
  refine ⟨?_, ?_, fun number => ?_, fun number => (balanced.mem_iff number).symm, balanced.card⟩
  · intro handed
    rcases inodeAlloc_cases balanced.used balanced.hint with ⟨index, below, free, result⟩ | ⟨_, result⟩
    · have number : ino = index + 1 := congrArg Prod.fst result
      refine ⟨by omega, by omega, fun held => ?_⟩
      have set := ((balanced.taken ino).mp held).2.2
      rw [number, Nat.add_sub_cancel, free] at set
      exact absurd set Bool.false_ne_true
    · exact absurd (congrArg Prod.fst result) handed
  · rcases inodeAlloc_cases balanced.used balanced.hint with ⟨index, below, free, result⟩ | ⟨all, result⟩
    · have number : ino = index + 1 := congrArg Prod.fst result
      refine ⟨fun zero => by omega, fun full => ?_⟩
      have held : index + 1 ∈ ledger.taken := by
        rw [full, Finset.mem_Icc]
        omega
      have set := ((balanced.taken _).mp held).2.2
      rw [Nat.add_sub_cancel, free] at set
      exact absurd set Bool.false_ne_true
    · refine ⟨fun _ => ?_, fun _ => congrArg Prod.fst result⟩
      ext number
      rw [balanced.taken, Finset.mem_Icc, range]
      exact ⟨fun held => ⟨held.1, held.2.1⟩, fun held => ⟨held.1, held.2, all _ (by omega)⟩⟩
  · rw [balanced.mem_iff]
    rcases inodeFree_cases ledger.alloc number with ⟨held, _, _, _, result⟩ | ⟨held, result⟩
    · rw [result, held]
      exact ⟨fun _ => rfl, fun _ => rfl⟩
    · rw [result, held]
      exact ⟨fun wrong => (nomatch wrong), fun wrong => absurd wrong Bool.false_ne_true⟩

theorem inodeAlloc_ledger_of_two :
    ∃ fresh, inodeAllocInit true 2 (by decide) = .ok fresh ∧
      (inodeAlloc (Ledger.after fresh [.alloc, .alloc, .free 1]).alloc).1 = 1 ∧
      ((inodeFree (Ledger.after fresh [.alloc, .alloc, .free 1]).alloc 2).1 = .ok () ↔
        2 ∈ (Ledger.after fresh [.alloc, .alloc, .free 1]).taken) :=
  ⟨_, rfl, by decide, (inodeAlloc_ledger true 2 (by decide) _ rfl [.alloc, .alloc, .free 1]).2.2.1 2⟩

end Uesi.Inode
