import Mathlib.Tactic

namespace Uesi.Library

variable {free : Nat → Bool} {low index start length : Nat}

/-- All places of a stretch are free. -/
def Stretch (free : Nat → Bool) (start length : Nat) : Prop :=
  ∀ place, start ≤ place → place < start + length → free place = true

theorem Stretch.zero (free : Nat → Bool) (start : Nat) : Stretch free start 0 := by
  intro place above below
  omega

theorem Stretch.sub {first count : Nat} (stretch : Stretch free start length) (above : start ≤ first)
    (below : first + count ≤ start + length) : Stretch free first count :=
  fun place left right => stretch place (by omega) (by omega)

theorem Stretch.extend (stretch : Stretch free start length) (next : free (start + length) = true) :
    Stretch free start (length + 1) := by
  intro place above below
  by_cases last : place = start + length
  · exact last ▸ next
  · exact stretch place above (by omega)

/-- A stretch does not reach a place that is not free. -/
theorem Stretch.avoids {place : Nat} (stretch : Stretch free start length) (used : free place = false) :
    place < start ∨ start + length ≤ place := by
  by_contra inside
  have wrong := stretch place (by omega) (by omega)
  rw [used] at wrong
  exact absurd wrong (by decide)

/-- One step of a scan for stretches, which keeps the start and the length of the stretch that ends here. -/
def scanStep (free : Nat → Bool) (index : Nat) (run : Nat × Nat) : Nat × Nat :=
  if free index then (if run.2 = 0 then index else run.1, run.2 + 1) else (run.1, 0)

/-- The stretch that ends before an index, of the greatest length above a lower bound. -/
structure EndsAt (free : Nat → Bool) (low index : Nat) (run : Nat × Nat) : Prop where
  inside : low + run.2 ≤ index
  start : run.2 ≠ 0 → run.1 + run.2 = index
  stretch : Stretch free (index - run.2) run.2
  edge : low < index - run.2 → free (index - run.2 - 1) = false

theorem EndsAt.initial (free : Nat → Bool) (low start : Nat) : EndsAt free low low (start, 0) where
  inside := le_rfl
  start := fun nonzero => absurd rfl nonzero
  stretch := Stretch.zero free low
  edge := fun less => absurd less (lt_irrefl low)

theorem EndsAt.step {run : Nat × Nat} (ends : EndsAt free low index run) :
    EndsAt free low (index + 1) (scanStep free index run) := by
  have inside := ends.inside
  have stretch := ends.stretch
  have edge := ends.edge
  unfold scanStep
  cases here : free index with
  | true =>
      rw [if_pos rfl]
      have shift : index + 1 - (run.2 + 1) = index - run.2 := by omega
      refine ⟨?_, fun _ => ?_, ?_, ?_⟩
      · dsimp only
        omega
      · dsimp only
        by_cases empty : run.2 = 0
        · rw [if_pos empty]
          omega
        · rw [if_neg empty]
          have start := ends.start empty
          omega
      · dsimp only
        rw [shift]
        refine stretch.extend ?_
        rwa [Nat.sub_add_cancel (by omega)]
      · dsimp only
        rw [shift]
        exact edge
  | false =>
      rw [if_neg Bool.false_ne_true]
      exact ⟨by dsimp only; omega, fun nonzero => absurd rfl nonzero, Stretch.zero free _, fun _ => here⟩

/-- Every stretch lies before the one that ends at the index or starts inside of it. -/
theorem EndsAt.cases {run : Nat × Nat} (ends : EndsAt free low index run) {first count : Nat}
    (above : low ≤ first) (stretch : Stretch free first count) :
    index - run.2 ≤ first ∨ first + count < index - run.2 ∨ count = 0 := by
  by_cases tight : low < index - run.2
  · rcases stretch.avoids (ends.edge tight) with before | behind
    · exact Or.inl (by omega)
    · by_cases empty : count = 0
      · exact Or.inr (Or.inr empty)
      · exact Or.inr (Or.inl (by omega))
  · exact Or.inl (by omega)

/-- Where the search for a number of consecutive places ends: no stretch of that length ends earlier. -/
structure Stopped (free : Nat → Bool) (low count stop : Nat) (run : Nat × Nat) : Prop where
  ends : EndsAt free low stop run
  bounded : run.2 ≤ count
  first : ∀ start, low ≤ start → start + count ≤ stop → Stretch free start count → start + count = stop

theorem Stopped.step {count index : Nat} {run : Nat × Nat} (stopped : Stopped free low count index run)
    (short : run.2 < count) : Stopped free low count (index + 1) (scanStep free index run) where
  ends := stopped.ends.step
  bounded := by
    unfold scanStep
    split_ifs
    · exact short
    · exact short
    · exact Nat.zero_le count
  first := by
    intro start above below stretch
    by_contra early
    have ended := stopped.first start above (by omega) stretch
    rcases stopped.ends.cases above stretch with within | before | empty
    all_goals omega

theorem Stopped.initial {count : Nat} (positive : 1 ≤ count) (start : Nat) :
    Stopped free low count low (start, 0) where
  ends := EndsAt.initial free low start
  bounded := Nat.zero_le count
  first := fun first above below _ => by omega

/-- No stretch below a bound is longer than the best one, and the best one is the first of its length. -/
structure Best (free : Nat → Bool) (low bound : Nat) (run : Nat × Nat) : Prop where
  above : run.2 ≠ 0 → low ≤ run.1
  below : run.2 ≠ 0 → run.1 + run.2 ≤ bound
  stretch : Stretch free run.1 run.2
  longest : ∀ first count, low ≤ first → first + count ≤ bound → Stretch free first count → count ≤ run.2
  earliest : ∀ first, low ≤ first → first + run.2 ≤ bound → Stretch free first run.2 → run.2 ≠ 0 → run.1 ≤ first

theorem Best.initial (free : Nat → Bool) (low start : Nat) : Best free low low (start, 0) where
  above := fun nonzero => absurd rfl nonzero
  below := fun nonzero => absurd rfl nonzero
  stretch := Stretch.zero free start
  longest := fun first count above below _ => by omega
  earliest := fun _ _ _ _ nonzero => absurd rfl nonzero

/-- The better of two stretches, where the first one stays if both are as long. -/
def better (best current : Nat × Nat) : Nat × Nat := if best.2 < current.2 then current else best

/-- The best stretch up to the start of the current one, compared with the current one. -/
theorem Best.better {best current : Nat × Nat} (held : Best free low (index - current.2) best)
    (ends : EndsAt free low index current) : Best free low index (better best current) := by
  have inside := ends.inside
  have split : ∀ first count, low ≤ first → first + count ≤ index → Stretch free first count →
      (index - current.2 ≤ first ∧ count ≤ current.2) ∨ (first + count ≤ index - current.2 ∧ count ≤ best.2) ∨
        count = 0 := by
    intro first count above below stretch
    rcases ends.cases above stretch with within | before | empty
    · exact Or.inl ⟨within, by omega⟩
    · exact Or.inr (Or.inl ⟨before.le, held.longest first count above before.le stretch⟩)
    · exact Or.inr (Or.inr empty)
  unfold Library.better
  by_cases longer : best.2 < current.2
  · rw [if_pos longer]
    have start := ends.start (by omega)
    have here : index - current.2 = current.1 := by omega
    refine ⟨fun _ => by omega, fun _ => by omega, here ▸ ends.stretch, ?_, ?_⟩
    · intro first count above below stretch
      rcases split first count above below stretch with within | before | empty
      all_goals omega
    · intro first above below stretch nonzero
      rcases split first current.2 above below stretch with within | before | empty
      all_goals omega
  · rw [if_neg longer]
    refine ⟨held.above, fun nonzero => (held.below nonzero).trans (Nat.sub_le _ _), held.stretch, ?_, ?_⟩
    · intro first count above below stretch
      rcases split first count above below stretch with within | before | empty
      all_goals omega
    · intro first above below stretch nonzero
      have bound := held.below nonzero
      rcases split first best.2 above below stretch with later | before | empty
      · omega
      · exact held.earliest first above before.1 stretch nonzero
      · exact absurd empty nonzero

/-- A place that is not free moves the bound without another stretch. -/
theorem Best.skip {best : Nat × Nat} (held : Best free low index best) (used : free index = false) :
    Best free low (index + 1) best := by
  have shorter : ∀ first count, first + count ≤ index + 1 → Stretch free first count →
      first + count ≤ index ∨ count = 0 := by
    intro first count below stretch
    rcases stretch.avoids used with behind | before
    · exact Or.inr (by omega)
    · exact Or.inl before
  refine ⟨held.above, fun nonzero => (held.below nonzero).trans (Nat.le_succ _), held.stretch, ?_, ?_⟩
  · intro first count above below stretch
    rcases shorter first count below stretch with inside | empty
    · exact held.longest first count above inside stretch
    · omega
  · intro first above below stretch nonzero
    rcases shorter first best.2 below stretch with inside | empty
    · exact held.earliest first above inside stretch nonzero
    · exact absurd empty nonzero

end Uesi.Library
