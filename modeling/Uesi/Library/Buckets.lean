import Mathlib.Tactic

namespace Uesi.Library

variable {Node Key : Type*} {buckets : Nat → List Node} {keyOf : Node → Option Key} {index : Key → Nat}
  {node : Node} {key : Key}

/-- A node that some bucket holds. -/
def Listed (buckets : Nat → List Node) (node : Node) : Prop := ∃ bucket, node ∈ buckets bucket

/-- Every node is filed once, in the bucket of its key, and no two nodes have the same key. -/
structure Filed (buckets : Nat → List Node) (keyOf : Node → Option Key) (index : Key → Nat) : Prop where
  filed : ∀ bucket node, node ∈ buckets bucket → ∃ key, keyOf node = some key ∧ index key = bucket
  nodup : ∀ bucket, (buckets bucket).Nodup
  distinct : ∀ first second, Listed buckets first → Listed buckets second → keyOf first = keyOf second →
    first = second

theorem Filed.empty (keyOf : Node → Option Key) (index : Key → Nat) : Filed (fun _ => []) keyOf index where
  filed := fun _ _ inside => absurd inside List.not_mem_nil
  nodup := fun _ => List.nodup_nil
  distinct := fun _ _ ⟨_, inside⟩ => absurd inside List.not_mem_nil

/-- A node with a key is in the bucket of the key. -/
theorem Filed.mem (filed : Filed buckets keyOf index) (listed : Listed buckets node)
    (known : keyOf node = some key) : node ∈ buckets (index key) := by
  obtain ⟨bucket, inside⟩ := listed
  obtain ⟨own, same, place⟩ := filed.filed bucket node inside
  rw [known] at same
  cases same
  rw [place]
  exact inside

/-- The search in the bucket of a key finds exactly the node with the key. -/
theorem Filed.find_some [DecidableEq Key]
    (found : (buckets (index key)).find? (fun node => decide (keyOf node = some key)) = some node) :
    Listed buckets node ∧ keyOf node = some key :=
  ⟨⟨_, List.mem_of_find?_eq_some found⟩, by simpa using List.find?_some found⟩

theorem Filed.find_none [DecidableEq Key] (filed : Filed buckets keyOf index)
    (none : (buckets (index key)).find? (fun node => decide (keyOf node = some key)) = none)
    (listed : Listed buckets node) : keyOf node ≠ some key := by
  intro known
  rw [List.find?_eq_none] at none
  exact none node (filed.mem listed known) (by simp [known])

/-- The keys of the nodes that are not filed do not matter. -/
theorem Filed.congr {other : Node → Option Key} (filed : Filed buckets keyOf index)
    (same : ∀ node, Listed buckets node → other node = keyOf node) : Filed buckets other index where
  filed := fun bucket node inside => by
    rw [same node ⟨bucket, inside⟩]
    exact filed.filed bucket node inside
  nodup := filed.nodup
  distinct := fun first second left right equal => by
    rw [same first left, same second right] at equal
    exact filed.distinct first second left right equal

section Insert

theorem listed_insert {bucket : Nat} {other : Node} :
    Listed (Function.update buckets bucket (node :: buckets bucket)) other ↔ other = node ∨ Listed buckets other := by
  constructor
  · rintro ⟨place, inside⟩
    by_cases here : place = bucket
    · rw [here, Function.update_self, List.mem_cons] at inside
      exact inside.imp_right fun old => ⟨bucket, old⟩
    · rw [Function.update_of_ne here] at inside
      exact Or.inr ⟨place, inside⟩
  · rintro (rfl | ⟨place, inside⟩)
    · exact ⟨bucket, by rw [Function.update_self]; exact List.mem_cons_self⟩
    · by_cases here : place = bucket
      · exact ⟨bucket, by rw [Function.update_self, ← here]; exact List.mem_cons_of_mem _ inside⟩
      · exact ⟨place, by rw [Function.update_of_ne here]; exact inside⟩

/-- A node with a key that no filed node has goes in front of its bucket. -/
theorem Filed.insert (filed : Filed buckets keyOf index) (known : keyOf node = some key)
    (unused : ∀ other, Listed buckets other → keyOf other ≠ some key) :
    Filed (Function.update buckets (index key) (node :: buckets (index key))) keyOf index where
  filed := by
    intro bucket other inside
    by_cases here : bucket = index key
    · rw [here, Function.update_self, List.mem_cons] at inside
      rcases inside with rfl | old
      · exact ⟨key, known, here.symm⟩
      · rw [here]
        exact filed.filed _ other old
    · rw [Function.update_of_ne here] at inside
      exact filed.filed bucket other inside
  nodup := by
    intro bucket
    by_cases here : bucket = index key
    · rw [here, Function.update_self, List.nodup_cons]
      exact ⟨fun inside => unused node ⟨_, inside⟩ known, filed.nodup _⟩
    · rw [Function.update_of_ne here]
      exact filed.nodup bucket
  distinct := by
    intro first second left right same
    rw [listed_insert] at left right
    rcases left with rfl | left <;> rcases right with rfl | right
    · rfl
    · exact absurd (same.symm.trans known) (unused second right)
    · exact absurd (same.trans known) (unused first left)
    · exact filed.distinct first second left right same

end Insert

/-- The nodes of all buckets have different keys. -/
theorem Filed.pairwise (filed : Filed buckets keyOf index) (size : Nat) :
    ((List.range size).flatMap buckets).Pairwise fun first second => keyOf first ≠ keyOf second := by
  rw [List.pairwise_flatMap]
  constructor
  · intro bucket _
    refine (filed.nodup bucket).imp_of_mem fun left right different same => ?_
    exact different (filed.distinct _ _ ⟨bucket, left⟩ ⟨bucket, right⟩ same)
  · refine List.nodup_range.imp fun different first left second right same => ?_
    obtain ⟨key, known, place⟩ := filed.filed _ first left
    obtain ⟨other, also, there⟩ := filed.filed _ second right
    rw [known, also] at same
    cases same
    exact different (place.symm.trans there)

end Uesi.Library
