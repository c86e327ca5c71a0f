import Uesi.Proof.Vfs.State

namespace Uesi.Vfs

open Library

section Entries

variable {name other : Str} {entries rest : List TmpfsDirent} {entry : TmpfsDirent}

theorem findEntry_eq (name : Str) (entries : List TmpfsDirent) :
    findEntry name entries = entries.find? (·.name = name) := by
  induction entries with
  | nil => rfl
  | cons entry rest ih =>
      by_cases same : entry.name = name
      · simp [findEntry, same]
      · simp [findEntry, same, ih]

theorem findEntry_some (found : findEntry name entries = some entry) : entry ∈ entries ∧ entry.name = name := by
  rw [findEntry_eq] at found
  exact ⟨List.mem_of_find?_eq_some found, by simpa using List.find?_some found⟩

theorem findEntry_none : findEntry name entries = none ↔ name ∉ entries.map (·.name) := by
  simp [findEntry_eq]

/-- With distinct names an entry is found by its name. -/
theorem findEntry_of_mem (distinct : (entries.map (·.name)).Nodup) (member : entry ∈ entries) :
    findEntry entry.name entries = some entry := by
  induction entries with
  | nil => exact absurd member List.not_mem_nil
  | cons first rest ih =>
      rw [List.map_cons, List.nodup_cons] at distinct
      obtain rfl | later := List.mem_cons.mp member
      · simp [findEntry]
      · have differs : first.name ≠ entry.name := fun same =>
          distinct.1 (same ▸ List.mem_map_of_mem later)
        simp only [findEntry, if_neg differs]
        exact ih distinct.2 later

theorem unlinkNamed_none {α : Type} {nameOf : α → Str} {items : List α}
    (missing : unlinkNamed nameOf name items = none) : name ∉ items.map nameOf := by
  induction items with
  | nil => simp
  | cons first rest ih =>
      by_cases same : nameOf first = name
      · simp [unlinkNamed, same] at missing
      · simp only [unlinkNamed, if_neg same, Option.map_eq_none_iff] at missing
        simpa [Ne.symm same] using ih missing

/-- The element that is unlinked has the name, and the others stay in their order. -/
theorem unlinkNamed_some {α : Type} {nameOf : α → Str} {items rest : List α} {item : α}
    (found : unlinkNamed nameOf name items = some (item, rest)) :
    nameOf item = name ∧ ∃ front back, items = front ++ item :: back ∧ rest = front ++ back := by
  induction items generalizing rest with
  | nil => simp [unlinkNamed] at found
  | cons first tail ih =>
      by_cases same : nameOf first = name
      · simp only [unlinkNamed, if_pos same, Option.some.injEq, Prod.mk.injEq] at found
        obtain ⟨rfl, rfl⟩ := found
        exact ⟨same, [], tail, rfl, rfl⟩
      · simp only [unlinkNamed, if_neg same, Option.map_eq_some_iff] at found
        obtain ⟨⟨unlinked, others⟩, inner, equal⟩ := found
        simp only [Prod.mk.injEq] at equal
        obtain ⟨rfl, rfl⟩ := equal
        obtain ⟨named, front, back, split, joined⟩ := ih inner
        exact ⟨named, first :: front, back, by rw [split]; rfl, by rw [joined]; rfl⟩

theorem unlinkEntry_sublist (found : unlinkEntry name entries = some (entry, rest)) : rest.Sublist entries := by
  obtain ⟨_, front, back, rfl, rfl⟩ := unlinkNamed_some found
  simp

end Entries

/-- The map from names to nodes that the entries hold. -/
def bindings (entries : List TmpfsDirent) (name : Str) : Option NodeId :=
  (findEntry name entries).map (·.node)

theorem bindings_cons (name : Str) (node : NodeId) (entries : List TmpfsDirent) :
    bindings (⟨name, node⟩ :: entries) = Function.update (bindings entries) name (some node) := by
  funext other
  by_cases same : other = name
  · subst same
    simp [bindings, findEntry]
  · simp [bindings, findEntry, Function.update_of_ne same, Ne.symm same]

theorem mem_iff_bindings {entries : List TmpfsDirent} (distinct : (entries.map (·.name)).Nodup)
    (name : Str) (node : NodeId) : ⟨name, node⟩ ∈ entries ↔ bindings entries name = some node := by
  constructor
  · intro member
    have found := findEntry_of_mem distinct member
    simp only [bindings] at found ⊢
    rw [found]
    rfl
  · intro bound
    obtain ⟨entry, found, same⟩ := Option.map_eq_some_iff.mp bound
    obtain ⟨member, named⟩ := findEntry_some found
    have equal : entry = ⟨name, node⟩ := by
      cases entry
      simp_all
    exact equal ▸ member

theorem bindings_unlink {name : Str} {entries rest : List TmpfsDirent} {entry : TmpfsDirent}
    (distinct : (entries.map (·.name)).Nodup) (found : unlinkEntry name entries = some (entry, rest)) :
    bindings rest = Function.update (bindings entries) name none := by
  have smaller : (rest.map (·.name)).Nodup := distinct.sublist ((unlinkEntry_sublist found).map _)
  obtain ⟨named, front, back, rfl, rfl⟩ := unlinkNamed_some found
  subst named
  have absent : entry.name ∉ (front ++ back).map (·.name) := by
    rw [List.map_append, List.map_cons, List.nodup_middle, List.nodup_cons] at distinct
    rw [List.map_append]
    exact distinct.1
  funext other
  by_cases same : other = entry.name
  · subst same
    rw [Function.update_self, bindings, findEntry_none.mpr absent]
    rfl
  · rw [Function.update_of_ne same]
    apply Option.ext
    intro node
    rw [← mem_iff_bindings smaller, ← mem_iff_bindings distinct]
    have differs : (⟨other, node⟩ : TmpfsDirent) ≠ entry := fun equal => same (equal ▸ rfl)
    simp [differs]

end Uesi.Vfs
