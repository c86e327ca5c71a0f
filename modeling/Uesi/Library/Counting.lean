import Mathlib.Tactic
import Mathlib.Order.Interval.Finset.Nat
import Mathlib.Data.Nat.Count
import Mathlib.Data.Nat.Periodic

namespace Uesi.Library

variable {first second : Nat → Prop} [DecidablePred first] [DecidablePred second]

/-- One new member below the bound raises the count by one. -/
theorem count_insert {bound : Nat} (member : Nat) (inside : member < bound) (fresh : ¬ first member)
    (added : ∀ index, second index ↔ index = member ∨ first index) :
    Nat.count second bound = Nat.count first bound + 1 := by
  have grown : (Finset.range bound).filter second =
      insert member ((Finset.range bound).filter first) := by
    ext index
    simp only [Finset.mem_filter, Finset.mem_range, Finset.mem_insert, added]
    constructor
    · rintro ⟨below, same | held⟩
      · exact Or.inl same
      · exact Or.inr ⟨below, held⟩
    · rintro (rfl | ⟨below, held⟩)
      · exact ⟨inside, Or.inl rfl⟩
      · exact ⟨below, Or.inr held⟩
  rw [Nat.count_eq_card_filter_range, Nat.count_eq_card_filter_range, grown,
    Finset.card_insert_of_notMem (by simp [fresh])]

/-- Two predicates that agree below the bound have the same count. -/
theorem count_congr {bound : Nat} (agree : ∀ index, index < bound → (first index ↔ second index)) :
    Nat.count first bound = Nat.count second bound := by
  rw [Nat.count_eq_card_filter_range, Nat.count_eq_card_filter_range]
  congr 1
  apply Finset.filter_congr
  intro index member
  exact agree index (Finset.mem_range.mp member)

open Classical in
/-- The number of members of a set below a bound. -/
noncomputable def tally (members : Nat → Prop) (bound : Nat) : Nat := Nat.count members bound

/-- The tally of a decidable set is its count. -/
theorem tally_eq_count (members : Nat → Prop) [DecidablePred members] (bound : Nat) :
    tally members bound = Nat.count members bound := by
  unfold tally
  congr

theorem tally_none {members : Nat → Prop} {bound : Nat}
    (absent : ∀ index, index < bound → ¬ members index) : tally members bound = 0 := by
  classical
  rw [tally_eq_count]
  exact Nat.count_of_forall_not fun index below => absent index below

/-- One member below the bound counts once. -/
theorem tally_singleton {bound : Nat} (member : Nat) (inside : member < bound) :
    tally (fun index => index = member) bound = 1 := by
  have inserted : Nat.count (fun index => index = member) bound =
      Nat.count (fun _ => False) bound + 1 := count_insert member inside id (by simp)
  rw [tally_eq_count, inserted]
  simp

/-- The tally of a disjoint union is the sum of the tallies. -/
theorem tally_or {left right : Nat → Prop} (bound : Nat)
    (disjoint : ∀ index, left index → ¬ right index) :
    tally (fun index => left index ∨ right index) bound = tally left bound + tally right bound := by
  classical
  simp only [tally_eq_count]
  induction bound with
  | zero => simp
  | succ bound ih =>
      rw [Nat.count_succ, Nat.count_succ, Nat.count_succ, ih]
      by_cases held : left bound
      · simp only [held, disjoint bound held, true_or, if_true, if_false]
        omega
      · simp only [held, false_or, if_false]
        omega

/-- Another value at one index changes a sum by the difference of the weights. -/
theorem sum_range_update {β : Type} (weight : β → Nat) (values : Nat → β) {bound index : Nat}
    (inside : index < bound) (value : β) :
    (∑ place ∈ Finset.range bound, weight (Function.update values index value place)) +
        weight (values index) =
      (∑ place ∈ Finset.range bound, weight (values place)) + weight value := by
  have member : index ∈ Finset.range bound := Finset.mem_range.mpr inside
  have others : ∀ place ∈ (Finset.range bound).erase index,
      weight (Function.update values index value place) = weight (values place) := by
    intro place apart
    rw [Function.update_of_ne (Finset.ne_of_mem_erase apart)]
  rw [← Finset.add_sum_erase _ _ member, Finset.sum_congr rfl others, Function.update_self,
    ← Finset.add_sum_erase (Finset.range bound) (fun place => weight (values place)) member]
  omega

/-- Each residue occurs once in each of a number of periods in a row. -/
theorem card_residue {period residue : Nat} (below : residue < period) (start count : Nat) :
    ((Finset.Ico start (start + count * period)).filter (· % period = residue)).card = count := by
  have once : Nat.count (· % period = residue) period = 1 := by
    rw [Nat.count_eq_card_filter_range, Finset.card_eq_one]
    refine ⟨residue, Finset.ext fun value => ?_⟩
    simp only [Finset.mem_filter, Finset.mem_range, Finset.mem_singleton]
    constructor
    · rintro ⟨inside, same⟩
      rwa [Nat.mod_eq_of_lt inside] at same
    · rintro rfl
      exact ⟨below, Nat.mod_eq_of_lt below⟩
  have periodic : Function.Periodic (· % period = residue) period := by
    intro value
    simp
  induction count with
  | zero => simp
  | succ count ih =>
      have split : Finset.Ico start (start + (count + 1) * period) =
          Finset.Ico start (start + count * period) ∪
            Finset.Ico (start + count * period) (start + count * period + period) := by
        rw [Finset.Ico_union_Ico_eq_Ico (by omega) (by omega), Nat.succ_mul, Nat.add_assoc]
      rw [split, Finset.filter_union, Finset.card_union_of_disjoint, ih,
        Nat.filter_Ico_card_eq_of_periodic _ _ _ periodic, once]
      exact Finset.disjoint_filter_filter (Finset.Ico_disjoint_Ico_consecutive _ _ _)

/-- The words with a property of their value are as many as the numbers with it. -/
theorem ncard_words (width : Nat) (property : Nat → Prop) [DecidablePred property] :
    {word : BitVec width | property word.toNat}.ncard =
      ((Finset.Ico 0 (2 ^ width)).filter property).card := by
  rw [← Set.ncard_coe_finset, ← Set.ncard_image_of_injective _ fun _ _ => BitVec.eq_of_toNat_eq]
  congr 1
  ext value
  simp only [Set.mem_image, Set.mem_ofPred_eq, Finset.coe_filter, Finset.mem_Ico, Nat.zero_le, true_and]
  constructor
  · rintro ⟨word, held, rfl⟩
    exact ⟨word.isLt, held⟩
  · rintro ⟨below, held⟩
    refine ⟨BitVec.ofNat width value, ?_, ?_⟩
    · rwa [BitVec.toNat_ofNat, Nat.mod_eq_of_lt below]
    · rw [BitVec.toNat_ofNat, Nat.mod_eq_of_lt below]

end Uesi.Library
