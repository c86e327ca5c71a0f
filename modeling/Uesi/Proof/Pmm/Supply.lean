import Uesi.Proof.Pmm.Address

namespace Uesi.Pmm

open Library

variable {state next : PmmState}

/-- A word scan that fails has met no free page. -/
theorem scanQwords_none (count index : Nat) (missing : scanQwords state count index = none) (page : Nat)
    (low : index * 64 ≤ page) (high : page < (index + count) * 64) (tracked : page < state.totalPages) :
    bitmapTest state page = true := by
  induction count generalizing index with
  | zero => omega
  | succ count ih =>
      rw [scanQwords] at missing
      have later : scanQwords state count (index + 1) = none → (index + 1) * 64 ≤ page →
          bitmapTest state page = true := fun rest above => ih (index + 1) rest above (by omega)
      split at missing
      · rename_i available
        dsimp only at missing
        split at missing
        · exact absurd missing (by simp)
        · rename_i outside
          by_cases here : page < (index + 1) * 64
          · exact (firstClear_spec state index available).2 page low (by omega)
          · exact later missing (by omega)
      · rename_i full
        by_cases here : page < (index + 1) * 64
        · have bit := qword_getLsbD state index (page - index * 64) (by omega)
          rw [not_not.mp full, show index * 64 + (page - index * 64) = page by omega] at bit
          rw [← bit, BitVec.getLsbD_allOnes]
          simp
          omega
        · exact later missing (by omega)

/-- The search for a free page fails only when there is none. -/
theorem findFreePageFast_none (fits : state.totalPages + 63 < 2 ^ 64)
    (missing : (findFreePageFast state).1 = none) (page : Nat) (tracked : page < state.totalPages) :
    bitmapTest state page = true := by
  unfold findFreePageFast at missing
  dsimp only at missing
  rw [add64_of_lt fits] at missing
  cases first : scanQwords state ((state.totalPages + 63) / 64 - state.lastAllocHint / 64)
      (state.lastAllocHint / 64) with
  | some found =>
      rw [first] at missing
      exact absurd missing (by simp)
  | none =>
      rw [first] at missing
      cases second : scanQwords state (state.lastAllocHint / 64) 0 with
      | some found =>
          rw [second] at missing
          exact absurd missing (by simp)
      | none =>
          by_cases early : page < state.lastAllocHint / 64 * 64
          · exact scanQwords_none _ 0 second page (by omega) (by omega) tracked
          · exact scanQwords_none _ _ first page (by omega) (by omega) tracked

end Uesi.Pmm
