import Uesi.Construction.Syscall.UserCopy
import Uesi.Proof.Syscall.KernelHalf

namespace Uesi.Syscall

open Library Pmm Mmu

/-- A byte lies in a mapped page of the user half. -/
def Readable (state : CallState) (addr : Nat) : Prop := ∃ entry, userEntry state addr = some entry

/-- A byte lies in a mapped page of the user half whose entry has `PAGE_WRITE`. -/
def Writable (state : CallState) (addr : Nat) : Prop :=
  ∃ entry, userEntry state addr = some entry ∧ entry &&& pageWrite ≠ 0

/-- The calls that access user memory. -/
inductive UserCopy where
  | copyin (uaddr : Nat) (len : BitVec 64)
  | copyout (wp : Bool) (source : Nat → BitVec 8) (uaddr : Nat) (len : BitVec 64)
  | copyinstr (uaddr maxlen : Nat)
  | validateUserString (str maxlen : Nat)

/-- A call touches only bytes that it may read, or write in the case of `copyout`. -/
def UserCopy.Confined (state : CallState) : UserCopy → Prop
  | .copyin uaddr len => ∀ addr ∈ (Syscall.copyin state uaddr len).touched, Readable state addr
  | .copyout wp source uaddr len =>
      ∀ addr ∈ (Syscall.copyout state wp source uaddr len).touched, Writable state addr
  | .copyinstr uaddr maxlen => ∀ addr ∈ (Syscall.copyinstr state uaddr maxlen).touched, Readable state addr
  | .validateUserString str maxlen =>
      ∀ addr ∈ (Syscall.validateUserString state str maxlen).touched, Readable state addr

/-- A range passes the checks of `copyin` and `copyout`. -/
structure Accepted (state : CallState) (uaddr length : Nat) : Prop where
  some_ : length ≠ 0
  range : Files.isUserRange uaddr length = true
  mapped : pagesMapped state uaddr length = true

/-- The loop comes to an index of a string: the bytes before it are not zero and passed the checks. -/
def Reaches (state : CallState) (uaddr index : Nat) : Prop :=
  ∀ earlier < index, (earlier % pageSize = 0 → isUserMapped state (uaddr + earlier) = true) ∧
    ∃ byte, loadUser state (uaddr + earlier) = some byte ∧ byte ≠ 0

/-- Where the loop comes to the start of a page that it does not check, the page is mapped. -/
def StringCovered (state : CallState) (uaddr maxlen : Nat) : Prop :=
  ∀ index < maxlen, Reaches state uaddr index → index % pageSize ≠ 0 → (uaddr + index) % pageSize = 0 →
    Readable state (uaddr + index)

/-- What the tables must hold for a call to be confined. -/
def UserCopy.Covered (state : CallState) : UserCopy → Prop
  | .copyin uaddr len => Accepted state uaddr len.toNat → len.toNat % pageSize = 0 → uaddr % pageSize ≠ 0 →
      Readable state (uaddr + len.toNat - 1)
  | .copyout _ _ uaddr len => Accepted state uaddr len.toNat →
      ∀ page, uaddr / pageSize ≤ page → page ≤ (uaddr + len.toNat - 1) / pageSize → Writable state (page * pageSize)
  | .copyinstr uaddr maxlen => isUserAddress uaddr → StringCovered state uaddr maxlen
  | .validateUserString str maxlen => isUserAddress str → StringCovered state str maxlen

section Pages

variable {state : CallState} {addr other : Nat}

/-- The entry of a byte is that of its page. -/
theorem userEntry_congr (low : addr < 2 ^ 47) (otherLow : other < 2 ^ 47) (same : addr / pageSize = other / pageSize) :
    userEntry state addr = userEntry state other := by
  obtain ⟨tables, index⟩ := (samePage_iff low otherLow).mpr same
  simp only [tablePath, List.cons.injEq, and_true] at tables
  obtain ⟨first, second, third⟩ := tables
  simp only [userEntry, if_neg (Nat.not_le.mpr low), if_neg (Nat.not_le.mpr otherLow), findTable, first, second, third,
    index]

theorem userEntry_lt {entry : BitVec 64} (found : userEntry state addr = some entry) : addr < 2 ^ 47 := by
  unfold userEntry at found
  by_contra high
  cases space : state.space with
  | none => simp [space] at found
  | some pd =>
      simp only [space, if_pos (Nat.not_lt.mp high)] at found
      exact absurd found (by simp)

theorem Readable.congr (readable : Readable state addr) (low : other < 2 ^ 47)
    (same : addr / pageSize = other / pageSize) : Readable state other := by
  obtain ⟨entry, found⟩ := readable
  exact ⟨entry, by rw [← found, userEntry_congr low (userEntry_lt found) same.symm]⟩

theorem Writable.congr (writable : Writable state addr) (low : other < 2 ^ 47)
    (same : addr / pageSize = other / pageSize) : Writable state other := by
  obtain ⟨entry, found, set⟩ := writable
  exact ⟨entry, by rw [← found, userEntry_congr low (userEntry_lt found) same.symm], set⟩

theorem readable_iff_load : Readable state addr ↔ (loadUser state addr).isSome = true := by
  rw [loadUser, Option.isSome_map, Option.isSome_iff_exists, Readable]

/-- A byte that `is_user_mapped` accepts is readable. -/
theorem readable_of_isUserMapped (mapped : isUserMapped state addr = true) : Readable state addr := by
  unfold isUserMapped at mapped
  cases space : state.space with
  | none => simp [space] at mapped
  | some pd =>
      simp only [space, Bool.and_eq_true, decide_eq_true_eq] at mapped
      obtain ⟨⟨_, high⟩, nonzero⟩ := mapped
      have low : addr < 2 ^ 47 := lt_trans high (by decide)
      have aligned : alignDown pageSize addr < 2 ^ 47 := lt_of_le_of_lt (Nat.div_mul_le_self ..) low
      have page : alignDown pageSize addr / pageSize = addr / pageSize :=
        Nat.mul_div_cancel _ (by decide)
      refine Readable.congr ?_ low page
      unfold mmuGetPhysicalAddress at nonzero
      simp only [Readable, userEntry, space, if_neg (Nat.not_le.mpr aligned)]
      dsimp only at nonzero
      cases table : findTable state.mmu pd (alignDown pageSize addr) with
      | none => simp [table] at nonzero
      | some pt =>
          simp only [table] at nonzero ⊢
          split at nonzero
          · exact ⟨_, by rw [if_pos ‹_›]⟩
          · exact absurd rfl nonzero

end Pages

section Ranges

variable {state : CallState} {uaddr length : Nat}

/-- The bytes of a copy are confined exactly when all of them may be accessed. -/
theorem touchBytes_all {allowed : Nat → Bool} {good : Nat → Prop} (fine : ∀ addr, good addr → allowed addr = true)
    (addrs : List Nat) : (∀ addr ∈ (touchBytes allowed addrs).touched, good addr) ↔ ∀ addr ∈ addrs, good addr := by
  induction addrs with
  | nil => exact Iff.rfl
  | cons addr rest ih =>
      rw [touchBytes]
      by_cases may : allowed addr = true
      · rw [if_pos may]
        simp only [List.forall_mem_cons, ih]
      · rw [if_neg may]
        simp only [List.forall_mem_cons, List.not_mem_nil, false_imp_iff, implies_true, and_true]
        constructor
        · exact fun here => absurd (fine addr here) may
        · exact fun all => all.1

theorem forall_bytesFrom {good : Nat → Prop} :
    (∀ addr ∈ bytesFrom uaddr length, good addr) ↔ ∀ index < length, good (uaddr + index) := by
  simp [bytesFrom]

/-- A range that `is_user_range` accepts ends in the user half. -/
theorem isUserRange_le {len : BitVec 64} (some_ : len.toNat ≠ 0) (valid : Files.isUserRange uaddr len.toNat = true) :
    uaddr + len.toNat ≤ userSpaceEnd := by
  have small := len.isLt
  simp only [Files.isUserRange, if_neg some_] at valid
  split at valid
  case isTrue => exact absurd valid (by simp)
  case isFalse inside =>
    have user := of_decide_eq_true valid
    unfold isUserAddress userSpaceEnd at user
    unfold add64 userSpaceEnd at inside
    unfold userSpaceEnd
    omega

theorem pagesMapped_sample (mapped : pagesMapped state uaddr length = true) {index : Nat}
    (inside : index * pageSize < length) : Readable state (uaddr + index * pageSize) := by
  rw [pagesMapped, Bool.and_eq_true] at mapped
  apply readable_of_isUserMapped
  apply List.all_eq_true.mp mapped.1
  rw [List.mem_range]
  unfold pageSize at inside ⊢
  omega

theorem pagesMapped_last (mapped : pagesMapped state uaddr length = true) (partial_ : length % pageSize ≠ 0) :
    Readable state (uaddr + length - 1) := by
  rw [pagesMapped, Bool.and_eq_true, Bool.or_eq_true] at mapped
  apply readable_of_isUserMapped
  rcases mapped.2 with whole | last
  · exact absurd (beq_iff_eq.mp whole) partial_
  · exact last

/-- With its last byte readable, an accepted range is readable. -/
theorem Accepted.readable {len : BitVec 64} (accepted : Accepted state uaddr len.toNat)
    (last : len.toNat % pageSize = 0 → uaddr % pageSize ≠ 0 → Readable state (uaddr + len.toNat - 1)) (index : Nat)
    (inside : index < len.toNat) : Readable state (uaddr + index) := by
  have below := isUserRange_le accepted.some_ accepted.range
  have low : uaddr + index < 2 ^ 47 := by
    unfold userSpaceEnd at below
    omega
  by_cases sampled : ((uaddr + index) / pageSize - uaddr / pageSize) * pageSize < len.toNat
  · apply (pagesMapped_sample accepted.mapped sampled).congr low
    unfold pageSize
    omega
  · -- The page of the byte has no sample, so it is the page of the last byte.
    have end_ : (uaddr + len.toNat - 1) / pageSize = (uaddr + index) / pageSize := by
      unfold pageSize at sampled ⊢
      omega
    refine Readable.congr ?_ low end_
    by_cases whole : len.toNat % pageSize = 0
    · apply last whole
      unfold pageSize at sampled whole ⊢
      omega
    · exact pagesMapped_last accepted.mapped whole

/-- A process without an address space has no mapped page. -/
theorem Accepted.space (accepted : Accepted state uaddr length) : state.space ≠ none := by
  intro none
  have first : 0 * pageSize < length := by
    have := accepted.some_
    omega
  obtain ⟨entry, found⟩ := pagesMapped_sample accepted.mapped first
  rw [userEntry, none] at found
  exact absurd found (by simp)

/-- `copyin` and `copyout` touch the range that they accept, and nothing otherwise. -/
theorem forall_touched_checked {α : Type} {good : Nat → Prop} (done refused : α) (body : Access α) :
    (∀ addr ∈ (if length = 0 then Access.answer done
      else if Files.isUserRange uaddr length = false then Access.answer refused
      else if state.space = none then Access.answer refused
      else if pagesMapped state uaddr length = false then Access.answer refused
      else body).touched, good addr) ↔ (Accepted state uaddr length → ∀ addr ∈ body.touched, good addr) := by
  by_cases accepted : Accepted state uaddr length
  · have range : ¬ Files.isUserRange uaddr length = false := by simp [accepted.range]
    have mapped : ¬ pagesMapped state uaddr length = false := by simp [accepted.mapped]
    simp only [if_neg accepted.some_, if_neg range, if_neg accepted.space, if_neg mapped, accepted, true_imp_iff]
  · simp only [accepted, false_imp_iff, iff_true]
    intro addr member
    split at member
    · exact absurd member List.not_mem_nil
    · split at member
      · exact absurd member List.not_mem_nil
      · split at member
        · exact absurd member List.not_mem_nil
        · split at member
          · exact absurd member List.not_mem_nil
          · exact absurd ⟨‹_›, by simpa using ‹¬ Files.isUserRange uaddr length = false›,
              by simpa using ‹¬ pagesMapped state uaddr length = false›⟩ accepted

theorem copyin_confined_iff (len : BitVec 64) :
    (UserCopy.copyin uaddr len).Confined state ↔ (UserCopy.copyin uaddr len).Covered state := by
  simp only [UserCopy.Confined, Syscall.copyin]
  rw [forall_touched_checked, touchBytes_all fun _ => readable_iff_load.mp, forall_bytesFrom]
  constructor
  · intro all accepted _ _
    have last := all accepted (len.toNat - 1) (by have := accepted.some_; omega)
    rwa [← Nat.add_sub_assoc (Nat.one_le_iff_ne_zero.mpr accepted.some_)] at last
  · exact fun covered accepted => accepted.readable (covered accepted)

theorem storeAllowed_of_writable {wp : Bool} {addr : Nat} (writable : Writable state addr) :
    storeAllowed state wp addr = true := by
  obtain ⟨entry, found, set⟩ := writable
  have may : (!wp || decide (entry &&& pageWrite ≠ 0)) = true := by rw [decide_eq_true set, Bool.or_true]
  rw [storeAllowed, found]
  exact may

/-- A range is writable byte by byte exactly when its pages are. -/
theorem writable_pages_iff (some_ : length ≠ 0) (below : uaddr + length ≤ userSpaceEnd) :
    (∀ index < length, Writable state (uaddr + index)) ↔ ∀ page, uaddr / pageSize ≤ page →
      page ≤ (uaddr + length - 1) / pageSize → Writable state (page * pageSize) := by
  have half : uaddr + length < 2 ^ 47 := lt_of_le_of_lt below (by decide)
  constructor
  · intro all page first last
    -- A byte of the range on the page: its start, or the start of the range.
    have inside : max uaddr (page * pageSize) - uaddr < length := by
      unfold pageSize at first last ⊢
      omega
    apply (all _ inside).congr
    · unfold pageSize at last ⊢
      omega
    · unfold pageSize at first last ⊢
      omega
  · intro pages index inside
    have page := pages ((uaddr + index) / pageSize) (Nat.div_le_div_right (by omega))
      (Nat.div_le_div_right (by omega))
    apply page.congr (by omega)
    exact Nat.mul_div_cancel _ (by decide)

theorem copyout_confined_iff (wp : Bool) (source : Nat → BitVec 8) (len : BitVec 64) :
    (UserCopy.copyout wp source uaddr len).Confined state ↔ (UserCopy.copyout wp source uaddr len).Covered state := by
  simp only [UserCopy.Confined, Syscall.copyout]
  rw [forall_touched_checked, touchBytes_all fun _ => storeAllowed_of_writable, forall_bytesFrom]
  exact forall_congr' fun accepted =>
    writable_pages_iff accepted.some_ (isUserRange_le accepted.some_ accepted.range)

end Ranges

section Strings

variable {state : CallState} {uaddr : Nat}

theorem Reaches.succ {copied : Nat} (reaches : Reaches state uaddr copied)
    (checked : copied % pageSize = 0 → isUserMapped state (uaddr + copied) = true) {byte : BitVec 8}
    (loaded : loadUser state (uaddr + copied) = some byte) (nonzero : byte ≠ 0) :
    Reaches state uaddr (copied + 1) := by
  intro earlier before
  rcases Nat.lt_succ_iff_lt_or_eq.mp before with below | rfl
  · exact reaches earlier below
  · exact ⟨checked, byte, loaded, nonzero⟩

/-- Behind a readable byte the next one is readable unless it starts a page. -/
theorem Reaches.readable {copied : Nat} (reaches : Reaches state uaddr copied) (some_ : copied ≠ 0)
    (inner : (uaddr + copied) % pageSize ≠ 0) : Readable state (uaddr + copied) := by
  obtain ⟨_, byte, loaded, _⟩ := reaches (copied - 1) (by omega)
  have before : Readable state (uaddr + (copied - 1)) := readable_iff_load.mpr (by rw [loaded]; rfl)
  obtain ⟨entry, found⟩ := before
  have low := userEntry_lt found
  apply Readable.congr ⟨entry, found⟩
  · unfold pageSize at inner
    omega
  · unfold pageSize at inner ⊢
    omega

/-- From an index on, the loop touches only readable bytes exactly when the pages that it comes to are mapped. -/
theorem scanString_confined_iff (remaining copied : Nat) (reaches : Reaches state uaddr copied) :
    (∀ addr ∈ (scanString state uaddr remaining copied).touched, Readable state addr) ↔
      ∀ index, copied ≤ index → index < copied + remaining → Reaches state uaddr index → index % pageSize ≠ 0 →
        (uaddr + index) % pageSize = 0 → Readable state (uaddr + index) := by
  induction remaining generalizing copied with
  | zero =>
      constructor
      · intro _ index low high
        omega
      · intro _ addr member
        exact absurd member List.not_mem_nil
  | succ remaining ih =>
      rw [scanString]
      by_cases refused : copied % pageSize = 0 ∧ isUserMapped state (uaddr + copied) = false
      · rw [if_pos refused]
        constructor
        · intro _ index low high here unchecked
          rcases Nat.eq_or_lt_of_le low with rfl | later
          · exact absurd refused.1 unchecked
          · have passed := (here copied later).1 refused.1
            rw [refused.2] at passed
            exact absurd passed (by simp)
        · intro _ addr member
          exact absurd member List.not_mem_nil
      · rw [if_neg refused]
        have checked (first : copied % pageSize = 0) : isUserMapped state (uaddr + copied) = true := by
          by_contra fails
          exact refused ⟨first, by simpa using fails⟩
        cases loaded : loadUser state (uaddr + copied) with
        | none =>
            have unmapped : ¬ Readable state (uaddr + copied) := by
              rw [readable_iff_load, loaded]
              simp
            -- The byte that faults starts a page, and the check does not stand there.
            have unchecked : copied % pageSize ≠ 0 := fun first =>
              unmapped (readable_of_isUserMapped (checked first))
            have starts : (uaddr + copied) % pageSize = 0 := by
              by_contra inner
              exact unmapped (reaches.readable (by rintro rfl; exact unchecked rfl) inner)
            constructor
            · intro all
              exact absurd (all _ List.mem_cons_self) unmapped
            · intro covered
              exact absurd (covered copied le_rfl (by omega) reaches unchecked starts) unmapped
        | some byte =>
            have here : Readable state (uaddr + copied) := readable_iff_load.mpr (by rw [loaded]; rfl)
            by_cases zero : byte = 0
            · simp only [if_pos zero, List.forall_mem_cons, List.not_mem_nil, false_imp_iff, implies_true, and_true]
              constructor
              · intro _ index low _ beyond _ _
                rcases Nat.eq_or_lt_of_le low with rfl | later
                · exact here
                · obtain ⟨_, other, again, nonzero⟩ := beyond copied later
                  rw [loaded] at again
                  cases again
                  exact absurd zero nonzero
              · exact fun _ => here
            · simp only [if_neg zero, List.forall_mem_cons, here, true_and]
              rw [ih (copied + 1) (reaches.succ checked loaded zero)]
              constructor
              · intro covered index low high
                rcases Nat.eq_or_lt_of_le low with rfl | later
                · exact fun _ _ _ => here
                · exact covered index later (by omega)
              · exact fun covered index low high => covered index (by omega) (by omega)

theorem scanString_covered_iff (maxlen : Nat) :
    (∀ addr ∈ (scanString state uaddr maxlen 0).touched, Readable state addr) ↔ StringCovered state uaddr maxlen := by
  rw [scanString_confined_iff maxlen 0 fun _ never => absurd never (Nat.not_lt_zero _)]
  simp only [Nat.zero_le, true_imp_iff, Nat.zero_add, StringCovered]

/-- Without an address space the first check refuses the string. -/
theorem stringCovered_of_no_space (none : state.space = none) (maxlen : Nat) : StringCovered state uaddr maxlen := by
  intro index _ reaches unchecked
  have positive : 0 < index := by
    by_contra first
    exact unchecked (by rw [Nat.eq_zero_of_not_pos first]; rfl)
  have checked := (reaches 0 positive).1 rfl
  rw [isUserMapped, none] at checked
  exact absurd checked (by simp)

theorem validateUserString_confined_iff (maxlen : Nat) :
    (UserCopy.validateUserString uaddr maxlen).Confined state ↔
      (UserCopy.validateUserString uaddr maxlen).Covered state := by
  simp only [UserCopy.Confined, UserCopy.Covered, Syscall.validateUserString]
  by_cases user : isUserAddress uaddr
  · rw [if_neg (not_not.mpr user)]
    by_cases none : state.space = none
    · rw [if_pos none]
      exact ⟨fun _ _ => stringCovered_of_no_space none maxlen, fun _ _ never => absurd never List.not_mem_nil⟩
    · simp only [if_neg none, user, true_imp_iff]
      exact scanString_covered_iff maxlen
  · rw [if_pos user]
    exact ⟨fun _ never => absurd never user, fun _ _ never => absurd never List.not_mem_nil⟩

/-- `copyinstr` touches the same bytes as `validate_user_string`. -/
theorem copyinstr_touched (maxlen : Nat) :
    (copyinstr state uaddr maxlen).touched = (validateUserString state uaddr maxlen).touched := by
  unfold copyinstr validateUserString
  by_cases empty : maxlen = 0
  · subst empty
    rw [if_pos rfl]
    split
    · rfl
    · split <;> rfl
  · rw [if_neg empty]
    split
    · rfl
    · split <;> rfl

end Strings

/-- A copy touches only user memory that it may access exactly when the tables cover what it does not check. -/
theorem userCopy_confined_iff (state : CallState) (call : UserCopy) :
    call.Confined state ↔ call.Covered state := by
  cases call with
  | copyin uaddr len => exact copyin_confined_iff len
  | copyout wp source uaddr len => exact copyout_confined_iff wp source len
  | copyinstr uaddr maxlen =>
      simp only [UserCopy.Confined, copyinstr_touched]
      exact validateUserString_confined_iff maxlen
  | validateUserString str maxlen => exact validateUserString_confined_iff maxlen

/-- The process after it mapped the page 0x400000 with a protection. -/
def onePage (prot : BitVec 32) : CallState :=
  (sysMmap smallState 0x400000 pageSize prot (mapAnonymous ||| mapPrivate)).2

/-- The process after it stored a byte at the end of the page. -/
def markedPage : CallState :=
  (onePage protWrite).setMmu { (onePage protWrite).mmu with
    memory := storeBytes (onePage protWrite) 0x400FFF (fun _ => 120) 1 }

/-- From the last byte of the only page, `copyin` of 4096 bytes and `copyinstr` of a string that does not end
there go on to the next page, and `copyout` of one byte stores to a page that is read-only. -/
theorem userCopy_leaves_page :
    (copyin (onePage protWrite) 0x400FFF 0x1000#64).touched = [0x400FFF, 0x401000] ∧
      (copyinstr markedPage 0x400FFF 0x1000).touched = [0x400FFF, 0x401000] ∧
      userEntry (onePage protWrite) 0x401000 = none ∧ userEntry markedPage 0x401000 = none ∧
      (copyout (onePage 0) true (fun _ => 0) 0x400000 1#64).touched = [0x400000] ∧
      (userEntry (onePage 0) 0x400000).map (· &&& pageWrite) = some 0 := by decide +kernel

end Uesi.Syscall
