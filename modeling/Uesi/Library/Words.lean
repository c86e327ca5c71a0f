import Mathlib.Tactic

namespace Uesi.Library

variable {α : Type*}

/-- The text of the words, each followed by the separator. -/
def closedWords (sep : α) (words : List (List α)) : List α := words.flatMap (· ++ [sep])

@[simp] theorem closedWords_append (sep : α) (first second : List (List α)) :
    closedWords sep (first ++ second) = closedWords sep first ++ closedWords sep second := by
  simp [closedWords]

@[simp] theorem closedWords_singleton (sep : α) (word : List α) :
    closedWords sep [word] = word ++ [sep] := by simp [closedWords]

/-- Joining words closes all of them except the last. -/
theorem intercalate_concat (sep : α) (words : List (List α)) (last : List α) :
    [sep].intercalate (words ++ [last]) = closedWords sep words ++ last := by
  induction words with
  | nil => simp [closedWords]
  | cons first rest ih =>
      cases rest with
      | nil => simp [closedWords]
      | cons second tail =>
          rw [List.cons_append, List.cons_append, List.intercalate_cons_cons, ← List.cons_append, ih]
          simp [closedWords]

section Decidable

variable [DecidableEq α]

/-- The nonempty words between the separators of a text. -/
def wordsOf (sep : α) (text : List α) : List (List α) := (text.splitOn sep).filter (· ≠ [])

@[simp] theorem wordsOf_nil (sep : α) : wordsOf sep [] = [] := by simp [wordsOf]

/-- A leading separator adds no word. -/
@[simp] theorem wordsOf_cons_sep (sep : α) (text : List α) : wordsOf sep (sep :: text) = wordsOf sep text := by
  simp [wordsOf, List.splitOn, List.splitOnP_cons_eq_if_modifyHead]

/-- Leading separators add no word. -/
theorem wordsOf_dropWhile (sep : α) (text : List α) : wordsOf sep (text.dropWhile (· == sep)) = wordsOf sep text := by
  induction text with
  | nil => rfl
  | cons first rest ih =>
      by_cases same : first = sep
      · subst same
        simpa using ih
      · simp [same]

/-- A word that ends at a separator or at the end of the text comes first. -/
theorem wordsOf_append (sep : α) (word rest : List α) (nonempty : word ≠ []) (free : sep ∉ word)
    (ended : rest = [] ∨ rest.head? = some sep) :
    wordsOf sep (word ++ rest) = word :: wordsOf sep rest := by
  have outside : ∀ x ∈ word, (x == sep) = false := by
    intro x member
    simp only [beq_eq_false_iff_ne]
    rintro rfl
    exact free member
  cases rest with
  | nil => simp [wordsOf, List.splitOn, List.splitOnP_eq_singleton outside, nonempty]
  | cons first tail =>
      obtain rfl : first = sep := by simpa using ended
      rw [wordsOf_cons_sep]
      simp [wordsOf, List.splitOn, List.splitOnP_append_cons_of_forall_mem outside, nonempty]

/-- The number of separators in a text of closed words is the number of words. -/
theorem count_closedWords (sep : α) (words : List (List α)) (free : ∀ word ∈ words, sep ∉ word) :
    (closedWords sep words).count sep = words.length := by
  induction words with
  | nil => rfl
  | cons first rest ih =>
      have tail := ih fun word member => free word (List.mem_cons_of_mem _ member)
      have head := List.count_eq_zero.mpr (free first List.mem_cons_self)
      unfold closedWords at tail ⊢
      rw [List.flatMap_cons, List.count_append, List.count_append, tail, head]
      simp
      omega

/-- A word of a text holds no separator. -/
theorem sep_notMem_of_mem_wordsOf (sep : α) (text word : List α) (member : word ∈ wordsOf sep text) : sep ∉ word := by
  have pieces : ∀ piece ∈ text.splitOn sep, sep ∉ piece := by
    unfold List.splitOn
    clear member
    induction text with
    | nil => simp
    | cons first rest ih =>
        rw [List.splitOnP_cons_eq_if_modifyHead]
        split
        · simpa using ih
        · rename_i different
          cases split : rest.splitOnP (· == sep) with
          | nil => simp
          | cons head tail =>
              rw [split] at ih
              simp only [beq_iff_eq] at different
              simp only [List.modifyHead_cons, List.mem_cons, forall_eq_or_imp] at ih ⊢
              refine ⟨?_, ih.2⟩
              rintro (same | inside)
              · exact different same.symm
              · exact ih.1 inside
  exact pieces word (List.mem_of_mem_filter member)

/-- A separator between two texts joins no words. -/
theorem wordsOf_append_sep (sep : α) (first second : List α) :
    wordsOf sep (first ++ sep :: second) = wordsOf sep first ++ wordsOf sep second := by
  rw [wordsOf, List.splitOn, List.splitOnP_append_cons (p := fun x => x == sep) first second
    (beq_self_eq_true sep), List.filter_append]
  rfl

/-- A text without separators is its only word. -/
theorem wordsOf_free {sep : α} {word : List α} (free : sep ∉ word) :
    wordsOf sep word = if word = [] then [] else [word] := by
  by_cases empty : word = []
  · rw [if_pos empty, empty, wordsOf_nil]
  · rw [if_neg empty]
    simpa using wordsOf_append sep word [] empty free (Or.inl rfl)

/-- Splitting undoes joining up to the empty words. -/
theorem wordsOf_join (sep : α) (words : List (List α)) (free : ∀ word ∈ words, sep ∉ word) :
    wordsOf sep ([sep].intercalate words) = words.filter (· ≠ []) := by
  cases words with
  | nil => simp
  | cons first rest => rw [wordsOf, List.splitOn_intercalate sep free (by simp)]

/-- Splitting undoes joining when the words are not empty and hold no separator. -/
theorem wordsOf_intercalate (sep : α) (words : List (List α))
    (proper : ∀ word ∈ words, word ≠ [] ∧ sep ∉ word) :
    wordsOf sep ([sep].intercalate words) = words := by
  induction words with
  | nil => simp
  | cons first rest ih =>
      obtain ⟨nonempty, free⟩ := proper first List.mem_cons_self
      have tail := ih fun word member => proper word (List.mem_cons_of_mem _ member)
      cases rest with
      | nil =>
          rw [List.intercalate_singleton]
          simpa using wordsOf_append sep first [] nonempty free (Or.inl rfl)
      | cons second others =>
          rw [List.intercalate_cons_cons, List.append_assoc,
            wordsOf_append sep first _ nonempty free (Or.inr rfl)]
          simpa using tail

end Decidable

end Uesi.Library
