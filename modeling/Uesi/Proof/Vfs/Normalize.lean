import Uesi.Construction.Vfs.Path
import Uesi.Library.Words

namespace Uesi.Vfs

open Library

variable {kept : List Str} {component : Str} (path : Str) (names : List Str) (out : Writer) (bytes : Nat → UInt8)

/-- The components of a path are its nonempty words. -/
def pathComponents (path : Str) : List Str := wordsOf slash path

/-- The specification drops `.` and lets `..` delete the last kept component. -/
def keepComponent (kept : List Str) (component : Str) : List Str :=
  if component = [dot] then kept
  else if component = [dot, dot] then kept.dropLast
  else kept ++ [component]

/-- The components that the specification keeps. -/
def canonicalComponents (path : Str) : List Str := (pathComponents path).foldl keepComponent []

/-- An absolute path starts with a slash and has one slash between its components. -/
def joinPath (components : List Str) : Str := slash :: [slash].intercalate components

/-- The specified result of the normalization. -/
def canonicalPath (path : Str) : Str := joinPath (canonicalComponents path)

@[simp] theorem Writer.text_length : out.text.length = out.dst := by
  simp [Writer.text]

/-- Moving `dst` back keeps a beginning of the text. -/
theorem Writer.text_take (index : Nat) (inside : index ≤ out.dst) :
    ({ out with dst := index } : Writer).text = out.text.take index := by
  simp [Writer.text, ← List.map_take, List.take_range, inside]

theorem Writer.bytes_eq (front : Str) (byte : UInt8) (back : Str) (split : out.text = front ++ byte :: back) :
    out.bytes front.length = byte := by
  have inside : front.length < out.dst := by
    rw [← out.text_length, split]
    simp
  have value : out.text[front.length]? = some (out.bytes front.length) := by
    simp [Writer.text, inside]
  rw [split] at value
  simpa using value.symm

/-- A store inside the buffer appends its byte to the text. -/
theorem Writer.store_ok (byte : UInt8) (room : out.dst < vfsMaxPath) :
    ∃ next, out.store byte = .ok next ∧ next.text = out.text ++ [byte] := by
  refine ⟨⟨Function.update out.bytes out.dst byte, out.dst + 1⟩, ?_, ?_⟩
  · simp only [Writer.store, Writer.put, if_pos room]
    rfl
  · simp only [Writer.text, List.range_succ, List.map_append, List.map_cons, List.map_nil,
      Function.update_self]
    congr 1
    apply List.map_congr_left
    intro index member
    rw [Function.update_of_ne (List.mem_range.mp member).ne]

/-- A copy inside the buffer appends its bytes to the text. -/
theorem Writer.storeAll_ok (bytes : Str) (room : out.dst + bytes.length ≤ vfsMaxPath) :
    ∃ next, out.storeAll bytes = .ok next ∧ next.text = out.text ++ bytes := by
  induction bytes generalizing out with
  | nil => exact ⟨out, rfl, (List.append_nil _).symm⟩
  | cons byte rest ih =>
      simp only [List.length_cons] at room
      obtain ⟨middle, stored, text⟩ := out.store_ok byte (by omega)
      have advanced : middle.dst = out.dst + 1 := by
        rw [← middle.text_length, text]
        simp
      obtain ⟨next, copied, final⟩ := ih middle (by omega)
      refine ⟨next, ?_, ?_⟩
      · rw [Writer.storeAll, stored]
        exact copied
      · rw [final, text]
        simp

/-- The backward scan stops after the last slash. -/
theorem rewind_eq (front word back : Str) (split : out.text = front ++ slash :: word ++ back) (free : slash ∉ word) :
    rewind out.bytes (front.length + 1 + word.length) = front.length + 1 := by
  induction word using List.reverseRecOn generalizing back with
  | nil =>
      have byte := out.bytes_eq front slash ([] ++ back) (by simpa using split)
      simp [rewind, byte]
  | append_singleton word last ih =>
      have earlier := ih (last :: back) (by simpa using split) (by simp at free; tauto)
      have byte := out.bytes_eq (front ++ slash :: word) last back (by simpa using split)
      have different : last ≠ slash := by
        rintro rfl
        simp at free
      rw [List.length_append, List.length_singleton, ← Nat.add_assoc, rewind]
      have position : (front ++ slash :: word).length = front.length + 1 + word.length := by
        simp
        omega
      rw [position] at byte
      rw [byte, if_neg different, earlier]

/-- The buffer of the code holds closed components and at most one component that is not closed. A
`..` leaves the slash of the component before it, so a later name meets a second slash. -/
structure Trail where
  closed : List Str
  last : Option Str
  deriving DecidableEq

/-- The bytes that a trail stands for. -/
def Trail.text (trail : Trail) : Str := slash :: closedWords slash trail.closed ++ trail.last.getD []

/-- All components of a trail. -/
def Trail.components (trail : Trail) : List Str := trail.closed ++ trail.last.toList

/-- The code removes the last component and keeps the slash before it. -/
def Trail.pop (trail : Trail) : Trail :=
  match trail.last with
  | some _ => ⟨trail.closed, none⟩
  | none => ⟨trail.closed.dropLast, none⟩

/-- The code writes a slash unless the buffer is the root, and then writes the component. -/
def Trail.push (trail : Trail) (component : Str) : Trail :=
  match trail.last with
  | some last => ⟨trail.closed ++ [last], some component⟩
  | none => if trail.closed = [] then ⟨[], some component⟩
      else ⟨trail.closed ++ [[]], some component⟩

/-- The effect of one component on a trail. -/
def Trail.step (trail : Trail) (component : Str) : Trail :=
  if component = [dot] then trail
  else if component = [dot, dot] then trail.pop
  else trail.push component

/-- The components of a trail have no slash, and the first and the last one are not empty. -/
structure Trail.Valid (trail : Trail) : Prop where
  free : ∀ component ∈ trail.components, slash ∉ component
  last : ∀ component, trail.last = some component → component ≠ []
  first : trail.components.head? ≠ some []

theorem Trail.Valid.pop {trail : Trail} (valid : trail.Valid) : trail.pop.Valid := by
  obtain ⟨closed, last⟩ := trail
  cases last with
  | some last =>
      refine ⟨fun component member => valid.free component ?_, by simp [Trail.pop], ?_⟩
      · simp only [Trail.pop, Trail.components, Option.toList_none, List.append_nil] at member
        exact List.mem_append_left _ member
      · have first := valid.first
        cases closed with
        | nil => simp [Trail.pop, Trail.components]
        | cons head rest => simpa [Trail.pop, Trail.components] using first
  | none =>
      refine ⟨fun component member => valid.free component ?_, by simp [Trail.pop], ?_⟩
      · simp only [Trail.pop, Trail.components, Option.toList_none, List.append_nil] at member ⊢
        exact List.mem_of_mem_dropLast member
      · have first := valid.first
        simp only [Trail.pop, Trail.components, Option.toList_none, List.append_nil] at first ⊢
        cases closed with
        | nil => simp
        | cons head rest =>
            cases rest with
            | nil => simp
            | cons second tail => simpa using first

theorem Trail.Valid.push {trail : Trail} (valid : trail.Valid) (nonempty : component ≠ []) (free : slash ∉ component) :
    (trail.push component).Valid := by
  obtain ⟨closed, last⟩ := trail
  have earlier := valid.free
  have first := valid.first
  cases last with
  | some last =>
      refine ⟨?_, ?_, ?_⟩
      · simp only [Trail.push, Trail.components, Option.toList_some, List.mem_append,
          List.mem_singleton] at earlier ⊢
        rintro other (member | rfl)
        · exact earlier other member
        · exact free
      · simpa [Trail.push] using nonempty
      · simp only [Trail.push, Trail.components, Option.toList_some] at first ⊢
        rwa [List.head?_append_of_ne_nil _ (by simp)]
  | none =>
      simp only [Trail.components, Option.toList_none, List.append_nil] at earlier first
      by_cases root : closed = []
      · simp only [Trail.push, if_pos root]
        exact ⟨by simpa [Trail.components] using free, by simpa using nonempty,
          by simpa [Trail.components] using nonempty⟩
      · simp only [Trail.push, if_neg root]
        refine ⟨?_, by simpa using nonempty, ?_⟩
        · simp only [Trail.components, Option.toList_some, List.mem_append, List.mem_singleton]
          rintro other ((member | rfl) | rfl)
          · exact earlier other member
          · exact List.not_mem_nil
          · exact free
        · simp only [Trail.components, Option.toList_some]
          rw [List.append_assoc, List.head?_append_of_ne_nil _ root]
          exact first

theorem Trail.Valid.step {trail : Trail} (valid : trail.Valid) (nonempty : component ≠ []) (free : slash ∉ component) :
    (trail.step component).Valid := by
  unfold Trail.step
  split
  · exact valid
  · split
    · exact valid.pop
    · exact valid.push nonempty free

/-- A buffer longer than the root ends in a component, which may be closed. -/
theorem Trail.text_cases (trail : Trail) :
    trail = ⟨[], none⟩ ∨
      (∃ closed last, trail = ⟨closed, some last⟩) ∨
      ∃ closed last, trail = ⟨closed ++ [last], none⟩ := by
  obtain ⟨closed, last⟩ := trail
  cases last with
  | some last => exact Or.inr (Or.inl ⟨closed, last, rfl⟩)
  | none =>
      obtain rfl | ⟨front, last, rfl⟩ := List.eq_nil_or_concat' closed
      · exact Or.inl rfl
      · exact Or.inr (Or.inr ⟨front, last, rfl⟩)

/-- Closed components end in a slash. -/
theorem closed_ends_in_slash (closed : List Str) : ∃ front, slash :: closedWords slash closed = front ++ [slash] := by
  obtain rfl | ⟨front, last, rfl⟩ := List.eq_nil_or_concat' closed
  · exact ⟨[], rfl⟩
  · exact ⟨slash :: closedWords slash front ++ last, by simp⟩

/-- The `..` branch cuts the text after the slash before the last component. -/
theorem rewind_text (closed : List Str) (word : Str) (byte : UInt8)
    (same : out.text = slash :: closedWords slash closed ++ word ++ [byte]) (free : slash ∉ word) :
    ({ out with dst := rewind out.bytes (out.dst - 1) } : Writer).text =
      slash :: closedWords slash closed := by
  obtain ⟨front, ending⟩ := closed_ends_in_slash closed
  rw [ending] at same ⊢
  have position : out.dst - 1 = front.length + 1 + word.length := by
    rw [← out.text_length, same]
    simp
    omega
  rw [position, rewind_eq out front word [byte] (by simpa using same) free,
    out.text_take _ (by omega), same]
  rw [List.append_assoc, List.take_left' (by simp)]

theorem Trail.text_root : (⟨[], none⟩ : Trail).text = [slash] := rfl

/-- Only the root has a text of one byte. -/
theorem Trail.Valid.root_iff {trail : Trail} (valid : trail.Valid) : trail.text.length ≤ 1 ↔ trail = ⟨[], none⟩ := by
  obtain rfl | ⟨closed, last, rfl⟩ | ⟨closed, last, rfl⟩ := trail.text_cases
  · simp [Trail.text_root]
  · have nonempty := List.length_pos_of_ne_nil (valid.last last rfl)
    simp only [Trail.text, Option.getD_some, List.length_append, List.length_cons, reduceCtorEq,
      Trail.mk.injEq, and_false, iff_false]
    omega
  · simp [Trail.text]

/-- The code removes the last component of a trail. -/
theorem pop_text (trail : Trail) (valid : trail.Valid) (same : out.text = trail.text) (deep : 1 < out.dst) :
    ({ out with dst := rewind out.bytes (out.dst - 1) } : Writer).text = trail.pop.text := by
  obtain rfl | ⟨closed, last, rfl⟩ | ⟨closed, last, rfl⟩ := trail.text_cases
  · rw [← out.text_length, same] at deep
    simp [Trail.text_root] at deep
  · obtain rfl | ⟨word, byte, rfl⟩ := List.eq_nil_or_concat' last
    · exact absurd rfl (valid.last [] rfl)
    · have free := valid.free (word ++ [byte]) (by simp [Trail.components])
      rw [rewind_text out closed word byte (by simpa [Trail.text] using same) (by simp at free; tauto)]
      simp [Trail.pop, Trail.text]
  · have free := valid.free last (by simp [Trail.components])
    rw [rewind_text out closed last slash (by simpa [Trail.text] using same) free]
    simp [Trail.pop, Trail.text]

/-- A push adds a slash and the component, and the root needs no slash. -/
theorem Trail.push_text (trail : Trail) (component : Str) :
    (trail.push component).text =
      (if trail = ⟨[], none⟩ then trail.text else trail.text ++ [slash]) ++ component := by
  obtain rfl | ⟨closed, last, rfl⟩ | ⟨closed, last, rfl⟩ := trail.text_cases
  · simp [Trail.push, Trail.text]
  · simp [Trail.push, Trail.text]
  · simp [Trail.push, Trail.text, closedWords]

/-- The body of the loop follows the trail while it fits into the buffer. -/
theorem normalizeComponent_ok (component : Str) (out : Writer) (trail : Trail) (valid : trail.Valid)
    (same : out.text = trail.text)
    (room : out.dst + (if 1 < out.dst then 1 else 0) + component.length < vfsMaxPath) :
    ∃ next, normalizeComponent component out = .ok next ∧ next.text = (trail.step component).text ∧
      next.dst ≤ out.dst + (if 1 < out.dst then 1 else 0) + component.length := by
  unfold normalizeComponent Trail.step
  have length : out.dst = trail.text.length := by rw [← same, out.text_length]
  by_cases single : component = [dot]
  · exact ⟨out, by rw [if_pos single], by rw [if_pos single, same], by omega⟩
  rw [if_neg single, if_neg single]
  by_cases parent : component = [dot, dot]
  · rw [if_pos parent, if_pos parent]
    by_cases deep : 1 < out.dst
    · rw [if_pos deep]
      have text := pop_text out trail valid same deep
      refine ⟨_, rfl, text, ?_⟩
      have shorter : rewind out.bytes (out.dst - 1) ≤ out.dst - 1 := by
        generalize out.dst - 1 = index
        induction index with
        | zero => rfl
        | succ index ih =>
            unfold rewind
            split <;> omega
      dsimp only
      omega
    · have root := valid.root_iff.mp (by omega)
      rw [if_neg deep]
      exact ⟨out, rfl, by rw [same, root]; rfl, by omega⟩
  · rw [if_neg parent, if_neg parent, trail.push_text]
    by_cases deep : 1 < out.dst
    · have inner : trail ≠ ⟨[], none⟩ := fun root => by
        have short := valid.root_iff.mpr root
        omega
      rw [if_pos deep] at room ⊢
      obtain ⟨middle, stored, text⟩ := out.store_ok slash (by omega)
      have advanced : middle.dst = out.dst + 1 := by
        rw [← middle.text_length, text]
        simp
      obtain ⟨next, copied, final⟩ := middle.storeAll_ok component (by omega)
      refine ⟨next, ?_, ?_, ?_⟩
      · rw [stored]
        change (if vfsMaxPath ≤ middle.dst + component.length then _ else _) = _
        rw [if_neg (by omega), copied]
      · rw [final, text, if_neg inner, same]
      · rw [if_pos deep, ← next.text_length, final, List.length_append, middle.text_length]
        omega
    · have root := valid.root_iff.mp (by omega)
      rw [if_neg deep] at room ⊢
      obtain ⟨next, copied, final⟩ := out.storeAll_ok component (by omega)
      refine ⟨next, ?_, ?_, ?_⟩
      · change (if vfsMaxPath ≤ out.dst + component.length then _ else _) = _
        rw [if_neg (by omega), copied]
      · rw [final, if_pos root, same]
      · rw [if_neg deep, ← next.text_length, final]
        simp

/-- The scanner of the main loop finds nothing, or a component and the text behind it. -/
theorem scan_cases (src : Str) (started : src = [] ∨ src.head? = some slash) :
    (src.dropWhile (· == slash) = [] ∧ pathComponents src = []) ∨
      ∃ byte rest, src.dropWhile (· == slash) = byte :: rest ∧
        ∃ component behind, (byte :: rest).takeWhile (· != slash) = component ∧
          (byte :: rest).dropWhile (· != slash) = behind ∧ component ≠ [] ∧ slash ∉ component ∧
          (behind = [] ∨ behind.head? = some slash) ∧
          component.length + behind.length < src.length ∧
          pathComponents src = component :: pathComponents behind := by
  have same := wordsOf_dropWhile slash src
  cases scanned : src.dropWhile (· == slash) with
  | nil =>
      rw [scanned] at same
      exact Or.inl ⟨rfl, same.symm.trans (wordsOf_nil slash)⟩
  | cons byte rest =>
      right
      refine ⟨byte, rest, rfl, _, _, rfl, rfl, ?_⟩
      have different : byte ≠ slash := by
        have head := List.head_dropWhile_not (· == slash) (l := src) (by rw [scanned]; simp)
        simpa [scanned] using head
      have nonempty : (byte :: rest).takeWhile (· != slash) ≠ [] := by simp [different]
      have free : slash ∉ (byte :: rest).takeWhile (· != slash) := by
        intro member
        have kept := List.all_eq_true.mp (List.all_takeWhile (l := byte :: rest)) slash member
        simp at kept
      have ended : (byte :: rest).dropWhile (· != slash) = [] ∨
          ((byte :: rest).dropWhile (· != slash)).head? = some slash := by
        cases dropped : (byte :: rest).dropWhile (· != slash) with
        | nil => exact Or.inl rfl
        | cons first tail =>
            have head := List.head_dropWhile_not (· != slash) (l := byte :: rest)
              (by rw [dropped]; simp)
            right
            simpa [dropped] using head
      have joined : (byte :: rest).takeWhile (· != slash) ++ (byte :: rest).dropWhile (· != slash) =
          byte :: rest := List.takeWhile_append_dropWhile
      refine ⟨nonempty, free, ended, ?_, ?_⟩
      · rw [← List.length_append, joined]
        cases src with
        | nil => simp at scanned
        | cons first tail =>
            obtain rfl : first = slash := by simpa using started
            have dropped : (byte :: rest).length ≤ tail.length := by
              rw [← scanned]
              simpa using (List.dropWhile_sublist (· == slash)).length_le
            exact Nat.lt_succ_of_le dropped
      · rw [scanned, ← joined] at same
        rw [wordsOf_append slash _ _ nonempty free ended] at same
        exact same.symm

/-- The main loop takes the components of the text one after another. -/
theorem normalizeLoop_eq (src : Str) (out : Writer) (started : src = [] ∨ src.head? = some slash) :
    normalizeLoop src out = (pathComponents src).foldlM (fun out component => normalizeComponent component out) out ∧
      ((pathComponents src).map fun component => component.length + 1).sum ≤ src.length := by
  induction size : src.length using Nat.strong_induction_on generalizing src out with
  | _ size ih =>
      rw [normalizeLoop]
      obtain ⟨scanned, empty⟩ | ⟨byte, rest, scanned, component, behind, taken, dropped, -, -, ended, shorter,
        components⟩ := scan_cases src started
      · rw [empty]
        split
        · exact ⟨rfl, Nat.zero_le _⟩
        · rename_i found
          rw [scanned] at found
          exact absurd found (by simp)
      · have later := fun next => ih behind.length (by omega) behind next ended rfl
        rw [components]
        split
        · rename_i found
          rw [scanned] at found
          exact absurd found (by simp)
        · rename_i otherByte otherRest found
          obtain ⟨rfl, rfl⟩ := List.cons.inj (scanned.symm.trans found)
          rw [taken, dropped, List.foldlM_cons, List.map_cons, List.sum_cons]
          refine ⟨bind_congr fun next => (later next).1, ?_⟩
          have := (later out).2
          omega

/-- A component is a nonempty word without a slash. -/
theorem pathComponents_word (component : Str) (member : component ∈ pathComponents path) :
    component ≠ [] ∧ slash ∉ component := by
  refine ⟨?_, sep_notMem_of_mem_wordsOf slash path component member⟩
  simpa using (List.mem_filter.mp member).2

/-- The loop follows the trail through components that fit into the buffer with a slash each. -/
theorem foldlM_normalizeComponent (components : List Str) (out : Writer) (trail : Trail) (valid : trail.Valid)
    (same : out.text = trail.text) (words : ∀ component ∈ components, component ≠ [] ∧ slash ∉ component)
    (room : out.dst + (if 1 < out.dst then 1 else 0) +
      (components.map fun component => component.length + 1).sum ≤ vfsMaxPath) :
    ∃ next, components.foldlM (fun out component => normalizeComponent component out) out = .ok next ∧
      next.text = (components.foldl Trail.step trail).text ∧ (components.foldl Trail.step trail).Valid ∧
      next.dst < vfsMaxPath := by
  induction components generalizing out trail with
  | nil =>
      refine ⟨out, rfl, same, valid, ?_⟩
      unfold vfsMaxPath at room ⊢
      split at room <;> omega
  | cons component rest ih =>
      rw [List.map_cons, List.sum_cons] at room
      obtain ⟨nonempty, free⟩ := words component List.mem_cons_self
      obtain ⟨middle, written, text, bound⟩ := normalizeComponent_ok component out trail valid same (by omega)
      have fits : middle.dst + (if 1 < middle.dst then 1 else 0) ≤ middle.dst + 1 := by split <;> omega
      obtain ⟨next, looped, final⟩ := ih middle (trail.step component) (valid.step nonempty free) text
        (fun other member => words other (List.mem_cons_of_mem _ member)) (by omega)
      refine ⟨next, ?_, final⟩
      rw [List.foldlM_cons, written]
      exact looped

/-- The buffer holds a terminated text. -/
structure Writer.Spells (out : Writer) (text : Str) : Prop where
  text_eq : out.text = text
  terminated : out.bytes out.dst = 0
  inside : out.dst < vfsMaxPath

/-- The trail of a whole path. -/
def pathTrail (path : Str) : Trail := (pathComponents path).foldl Trail.step ⟨[], none⟩

/-- The loop of an absolute path starts behind the first slash. -/
theorem normalizeLoop_starts (absolute : vfsIsAbsolutePath (some path) = true) :
    ∃ start : Writer, Writer.store ⟨bytes, 0⟩ slash = .ok start ∧
      normalizeLoop path start =
        (pathComponents path).foldlM (fun out component => normalizeComponent component out) start ∧
      ((pathComponents path).map fun component => component.length + 1).sum ≤ path.length ∧
      ∀ components : List Str, (∀ component ∈ components, component ≠ [] ∧ slash ∉ component) →
        (components.map fun component => component.length + 1).sum < vfsMaxPath →
        ∃ out, components.foldlM (fun out component => normalizeComponent component out) start = .ok out ∧
          out.text = (components.foldl Trail.step ⟨[], none⟩).text ∧
          (components.foldl Trail.step ⟨[], none⟩).Valid ∧ out.dst < vfsMaxPath := by
  have started : path = [] ∨ path.head? = some slash := by
    cases path with
    | nil => exact Or.inl rfl
    | cons first rest => simpa [vfsIsAbsolutePath] using absolute
  obtain ⟨start, stored, text⟩ := (⟨bytes, 0⟩ : Writer).store_ok slash (by simp [vfsMaxPath])
  have single : start.dst = 1 := by
    rw [← start.text_length, text]
    simp
  have valid : (⟨[], none⟩ : Trail).Valid := ⟨by simp [Trail.components], by simp, by simp [Trail.components]⟩
  obtain ⟨looped, length⟩ := normalizeLoop_eq path start started
  refine ⟨start, stored, looped, length, fun components words fits => ?_⟩
  refine foldlM_normalizeComponent components start ⟨[], none⟩ valid text words ?_
  rw [single]
  simp only [lt_irrefl, if_false]
  omega

/-- The last two statements drop a trailing slash and terminate the text. -/
theorem finish_ok (trail : Trail) (valid : trail.Valid) (same : out.text = trail.text) (room : out.dst < vfsMaxPath) :
    ∃ final : Writer, (if 1 < out.dst ∧ out.bytes (out.dst - 1) = slash then
        ({ out with dst := out.dst - 1 } : Writer) else out).put 0 = .ok final ∧
      final.Spells (joinPath trail.components) := by
  have terminated : ∀ cut : Writer, cut.dst < vfsMaxPath → ∃ final : Writer, cut.put 0 = .ok final ∧
      final.Spells cut.text := by
    intro cut inside
    refine ⟨{ cut with bytes := Function.update cut.bytes cut.dst 0 }, ?_, ?_, ?_, inside⟩
    · rw [Writer.put, if_pos inside]
    · apply List.map_congr_left
      intro index member
      exact Function.update_of_ne (List.mem_range.mp member).ne _ _
    · exact Function.update_self _ _ _
  have length : out.dst = trail.text.length := by rw [← same, out.text_length]
  obtain rfl | ⟨closed, last, rfl⟩ | ⟨closed, last, rfl⟩ := trail.text_cases
  · have single : out.dst = 1 := length
    rw [if_neg (by omega)]
    obtain ⟨final, put, spelled⟩ := terminated out room
    rw [same] at spelled
    exact ⟨final, put, spelled⟩
  · have nonempty := valid.last last rfl
    have free := valid.free last (by simp [Trail.components])
    obtain rfl | ⟨word, byte, rfl⟩ := List.eq_nil_or_concat' last
    · exact absurd rfl nonempty
    · have byteRead := out.bytes_eq (slash :: closedWords slash closed ++ word) byte []
        (by simpa [Trail.text] using same)
      have position : (slash :: closedWords slash closed ++ word).length = out.dst - 1 := by
        rw [length]
        simp [Trail.text]
        omega
      rw [position] at byteRead
      have different : byte ≠ slash := by
        rintro rfl
        simp at free
      rw [if_neg (by rw [byteRead]; exact fun held => different held.2)]
      obtain ⟨final, put, spelled⟩ := terminated out room
      rw [same] at spelled
      refine ⟨final, put, ?_⟩
      simpa [Trail.text, Trail.components, joinPath, intercalate_concat] using spelled
  · have byteRead := out.bytes_eq (slash :: closedWords slash closed ++ last) slash []
      (by simpa [Trail.text] using same)
    have position : (slash :: closedWords slash closed ++ last).length = out.dst - 1 := by
      rw [length]
      simp [Trail.text]
      omega
    rw [position] at byteRead
    have deep : 1 < out.dst := by
      rw [length]
      simp [Trail.text]
    rw [if_pos ⟨deep, byteRead⟩]
    obtain ⟨final, put, spelled⟩ := terminated { out with dst := out.dst - 1 } (by dsimp only; omega)
    refine ⟨final, put, ?_⟩
    rw [out.text_take _ (by omega), same] at spelled
    have cut : (⟨closed ++ [last], none⟩ : Trail).text.take (out.dst - 1) =
        slash :: closedWords slash closed ++ last := by
      have shape : (⟨closed ++ [last], none⟩ : Trail).text =
          (slash :: closedWords slash closed ++ last) ++ [slash] := by simp [Trail.text]
      rw [shape, List.take_left' position]
    rw [cut] at spelled
    simpa [Trail.components, joinPath, intercalate_concat] using spelled

/-- The code succeeds on every absolute path that fits, and writes the components of its trail. -/
theorem vfsNormalizePath_ok (absolute : vfsIsAbsolutePath (some path) = true) (fits : path.length < vfsMaxPath) :
    ∃ out, vfsNormalizePath (some path) (some bytes) = .ok out ∧
      out.Spells (joinPath (pathTrail path).components) ∧ (pathTrail path).Valid := by
  obtain ⟨start, stored, looped, length, reached⟩ := normalizeLoop_starts path bytes absolute
  obtain ⟨out, written, same, valid, room⟩ := reached (pathComponents path) (pathComponents_word path) (by omega)
  have nonempty : out.dst ≠ 0 := by
    rw [← out.text_length, same]
    simp [Trail.text]
  obtain ⟨final, put, spelled⟩ := finish_ok out _ valid same room
  refine ⟨final, ?_, spelled, valid⟩
  simp only [vfsNormalizePath]
  rw [if_neg (by simp [absolute]), if_neg (by omega)]
  simp only [stored, looped, written, if_neg nonempty, bind, Except.bind]
  exact put

/-- The `..` scan of a text that starts with a slash stops behind its first byte. -/
theorem rewind_pos {bytes : Nat → UInt8} (first : bytes 0 = slash) {index : Nat} (positive : 0 < index) :
    0 < rewind bytes index := by
  induction index with
  | zero => omega
  | succ index ih =>
      unfold rewind
      split
      · omega
      · rename_i other
        refine ih (Nat.pos_of_ne_zero fun zero => other ?_)
        rw [zero, first]

/-- The normalization stays inside its buffer: it succeeds and terminates the text inside the buffer, and before each
component the text fits and a scan for `..` stops behind the first byte. -/
theorem vfsNormalizePath_in_buffer (path : Str) (bytes : Nat → UInt8)
    (absolute : vfsIsAbsolutePath (some path) = true) (fits : path.length < vfsMaxPath) :
    (∃ out, vfsNormalizePath (some path) (some bytes) = .ok out ∧ out.dst < vfsMaxPath ∧ out.bytes out.dst = 0) ∧
      ∃ start : Writer, Writer.store ⟨bytes, 0⟩ slash = .ok start ∧
        normalizeLoop path start =
          (pathComponents path).foldlM (fun out component => normalizeComponent component out) start ∧
        ∀ front back, pathComponents path = front ++ back →
          ∃ out, front.foldlM (fun out component => normalizeComponent component out) start = .ok out ∧
            0 < out.dst ∧ out.dst < vfsMaxPath ∧ (1 < out.dst → 0 < rewind out.bytes (out.dst - 1)) := by
  constructor
  · obtain ⟨out, normalized, spelled, -⟩ := vfsNormalizePath_ok path bytes absolute fits
    exact ⟨out, normalized, spelled.inside, spelled.terminated⟩
  · obtain ⟨start, stored, looped, length, reached⟩ := normalizeLoop_starts path bytes absolute
    refine ⟨start, stored, looped, fun front back split => ?_⟩
    rw [split, List.map_append, List.sum_append] at length
    obtain ⟨out, written, same, -, room⟩ := reached front
      (fun component member => pathComponents_word path component (split ▸ List.mem_append_left _ member)) (by omega)
    have nonempty : 0 < out.dst := by
      rw [← out.text_length, same]
      simp [Trail.text]
    refine ⟨out, written, nonempty, room, fun deep => rewind_pos ?_ (by omega)⟩
    exact out.bytes_eq [] slash _ same

/-- The path `/../a/..` climbs at the root and inside a directory. -/
theorem vfsNormalizePath_in_buffer_climb :
    ∃ out, vfsNormalizePath (some [47, 46, 46, 47, 97, 47, 46, 46]) (some fun _ => 1) = .ok out ∧
      out.dst < vfsMaxPath ∧ out.bytes out.dst = 0 :=
  (vfsNormalizePath_in_buffer [47, 46, 46, 47, 97, 47, 46, 46] (fun _ => 1) (by decide) (by decide)).1

/-- The depth of the code counts a name that directly follows a `..` inside a directory twice. The
mark tells whether such a name was read since the depth was last zero. -/
structure Depth where
  depth : Nat
  climbed : Bool
  doubled : Bool
  deriving DecidableEq, Repr

def Depth.step (state : Depth) (component : Str) : Depth :=
  if component = [dot] then state
  else if component = [dot, dot] then
    if state.depth ≤ 1 then ⟨0, true, false⟩ else ⟨state.depth - 1, true, state.doubled⟩
  else if state.climbed ∧ 0 < state.depth then ⟨state.depth + 2, false, true⟩
  else ⟨state.depth + 1, false, state.doubled⟩

/-- A name directly follows a `..` inside a directory, and the depth does not return to zero after
it. -/
def ReentersDirectory (path : Str) : Prop :=
  ((pathComponents path).foldl Depth.step ⟨0, true, false⟩).doubled = true

instance (path : Str) : Decidable (ReentersDirectory path) :=
  inferInstanceAs (Decidable (_ = true))

/-- The trail has the specified components until a name is doubled, and then it is longer. -/
structure Agrees (trail : Trail) (kept : List Str) (state : Depth) : Prop where
  depth : state.depth = trail.components.length
  climbed : state.climbed = true ↔ trail.last = none
  same : state.doubled = false → trail.components = kept
  longer : state.doubled = true → kept.length < trail.components.length

theorem Trail.components_pop (trail : Trail) :
    trail.pop.components = trail.components.dropLast ∧ trail.pop.last = none := by
  obtain ⟨closed, last⟩ := trail
  cases last <;> simp [Trail.pop, Trail.components]

theorem Agrees.pop {trail : Trail} {state : Depth} (agrees : Agrees trail kept state) :
    Agrees trail.pop kept.dropLast
      (if state.depth ≤ 1 then ⟨0, true, false⟩ else ⟨state.depth - 1, true, state.doubled⟩) := by
  obtain ⟨components, last⟩ := trail.components_pop
  have depth := agrees.depth
  have longer := agrees.longer
  split
  · rename_i shallow
    have empty : trail.components.dropLast = [] := by
      apply List.eq_nil_of_length_eq_zero
      rw [List.length_dropLast]
      omega
    refine ⟨by rw [components, empty]; rfl, by simp [last], ?_, by simp⟩
    intro _
    cases mark : state.doubled with
    | false => rw [components, agrees.same mark]
    | true =>
        have short := longer mark
        have none : kept.dropLast = [] := by
          apply List.eq_nil_of_length_eq_zero
          rw [List.length_dropLast]
          omega
        rw [components, empty, none]
  · rename_i deep
    refine ⟨by rw [components, List.length_dropLast, depth], by simp [last], ?_, ?_⟩
    · intro mark
      rw [components, agrees.same mark]
    · intro mark
      have short := longer mark
      rw [components, List.length_dropLast, List.length_dropLast]
      omega

theorem Agrees.push {trail : Trail} {state : Depth} (agrees : Agrees trail kept state) (component : Str) :
    Agrees (trail.push component) (kept ++ [component])
      (if state.climbed ∧ 0 < state.depth then ⟨state.depth + 2, false, true⟩
        else ⟨state.depth + 1, false, state.doubled⟩) := by
  obtain ⟨depth, climbed, same, longer⟩ := agrees
  obtain ⟨closed, last⟩ := trail
  simp only [Trail.components] at *
  cases last with
  | some last =>
      have level : state.climbed = false := by simpa using climbed
      simp only [level, Bool.false_eq_true, false_and, if_false]
      refine ⟨by simp [Trail.push, Trail.components, depth], by simp [Trail.push], ?_, ?_⟩
      · intro mark
        simp [Trail.push, Trail.components, ← same mark]
      · intro mark
        have short := longer mark
        simp only [Trail.push, Trail.components, Option.toList_some, List.length_append,
          List.length_singleton] at short ⊢
        omega
  | none =>
      have up : state.climbed = true := by simpa using climbed
      simp only [Option.toList_none, List.append_nil] at depth same longer
      by_cases root : closed = []
      · subst root
        simp only [up, depth, List.length_nil, Nat.lt_irrefl, and_false, if_false]
        refine ⟨by simp [Trail.push, Trail.components], by simp [Trail.push], ?_, ?_⟩
        · intro mark
          simp [Trail.push, Trail.components, ← same mark]
        · intro mark
          exact absurd (longer mark) (by simp)
      · have inner : 0 < state.depth := by
          rw [depth]
          exact List.length_pos_of_ne_nil root
        simp only [up, inner, and_self, if_true]
        refine ⟨by simp [Trail.push, Trail.components, root, depth], by simp [Trail.push, root],
          by simp, ?_⟩
        intro _
        have atMost : kept.length ≤ closed.length := by
          cases mark : state.doubled with
          | false => rw [same mark]
          | true => exact (longer mark).le
        simp only [Trail.push, Trail.components, root, if_false, Option.toList_some,
          List.length_append, List.length_singleton]
        omega

theorem Agrees.step {trail : Trail} {state : Depth} (agrees : Agrees trail kept state) (component : Str) :
    Agrees (trail.step component) (keepComponent kept component) (state.step component) := by
  unfold Trail.step keepComponent Depth.step
  split
  · exact agrees
  · split
    · exact agrees.pop
    · exact agrees.push component

theorem Agrees.foldl {trail : Trail} {state : Depth} (agrees : Agrees trail kept state) (components : List Str) :
    Agrees (components.foldl Trail.step trail) (components.foldl keepComponent kept)
      (components.foldl Depth.step state) := by
  induction components generalizing trail kept state with
  | nil => exact agrees
  | cons component rest ih => exact ih (agrees.step component)

/-- A proper name is not empty, holds no slash and is neither `.` nor `..`. -/
def ProperName (component : Str) : Prop :=
  component ≠ [] ∧ slash ∉ component ∧ component ≠ [dot] ∧ component ≠ [dot, dot]

theorem keepComponent_proper (nonempty : component ≠ []) (free : slash ∉ component)
    (earlier : ∀ name ∈ kept, ProperName name) :
    ∀ name ∈ keepComponent kept component, ProperName name := by
  unfold keepComponent
  split
  · exact earlier
  · rename_i single
    split
    · intro name member
      exact earlier name (List.mem_of_mem_dropLast member)
    · rename_i parent
      intro name member
      obtain kept | rfl := List.mem_append.mp member |>.imp_right List.mem_singleton.mp
      · exact earlier name kept
      · exact ⟨nonempty, free, single, parent⟩

/-- Every kept component is a proper name. -/
theorem canonicalComponents_proper : ∀ name ∈ canonicalComponents path, ProperName name := by
  unfold canonicalComponents
  have words := pathComponents_word path
  have start : ∀ name ∈ ([] : List Str), ProperName name := by simp
  generalize ([] : List Str) = kept at start
  generalize pathComponents path = components at words
  induction components generalizing kept with
  | nil => exact start
  | cons component rest ih =>
      obtain ⟨nonempty, free⟩ := words component List.mem_cons_self
      exact ih _ (keepComponent_proper nonempty free start)
        fun other member => words other (List.mem_cons_of_mem _ member)

/-- Proper names survive the join. -/
theorem pathComponents_joinPath (proper : ∀ name ∈ names, ProperName name) :
    pathComponents (joinPath names) = names := by
  unfold pathComponents joinPath
  rw [wordsOf_cons_sep]
  exact wordsOf_intercalate slash names fun name member =>
    ⟨(proper name member).1, (proper name member).2.1⟩

/-- Proper names are all kept, and none of them follows a `..`. -/
theorem foldl_proper (kept : List Str) (depth : Nat) (climbed : Bool) (proper : ∀ name ∈ names, ProperName name)
    (level : climbed = true → depth = 0) :
    names.foldl keepComponent kept = kept ++ names ∧
      (names.foldl Depth.step ⟨depth, climbed, false⟩).doubled = false := by
  induction names generalizing kept depth climbed with
  | nil => simp
  | cons name rest ih =>
      obtain ⟨_, _, single, parent⟩ := proper name List.mem_cons_self
      have kept' : keepComponent kept name = kept ++ [name] := by simp [keepComponent, single, parent]
      have deeper : Depth.step ⟨depth, climbed, false⟩ name = ⟨depth + 1, false, false⟩ := by
        simp only [Depth.step, single, parent, if_false]
        rw [if_neg]
        rintro ⟨up, inner⟩
        exact absurd (level up) inner.ne'
      rw [List.foldl_cons, List.foldl_cons, kept', deeper]
      have tail := ih (kept ++ [name]) (depth + 1) false
        (fun other member => proper other (List.mem_cons_of_mem _ member)) (by simp)
      simpa using tail

theorem canonicalComponents_joinPath (proper : ∀ name ∈ names, ProperName name) :
    canonicalComponents (joinPath names) = names ∧ ¬ ReentersDirectory (joinPath names) := by
  unfold canonicalComponents ReentersDirectory
  rw [pathComponents_joinPath names proper]
  obtain ⟨kept, single⟩ := foldl_proper names [] 0 true proper (fun _ => rfl)
  exact ⟨by simpa using kept, by simp [single]⟩

/-- A join has one slash for each component, and the root has one. -/
theorem count_joinPath (components : List Str) (free : ∀ component ∈ components, slash ∉ component) :
    (joinPath components).count slash = max 1 components.length := by
  unfold joinPath
  obtain rfl | ⟨front, last, rfl⟩ := List.eq_nil_or_concat' components
  · simp
  · rw [intercalate_concat, List.count_cons_self, List.count_append,
      count_closedWords slash front fun word member => free word (List.mem_append_left _ member),
      List.count_eq_zero.mpr (free last (by simp))]
    simp

/-- A longer list of components gives a different path. -/
theorem joinPath_ne {trail : Trail} (valid : trail.Valid) (proper : ∀ name ∈ kept, ProperName name)
    (longer : kept.length < trail.components.length) :
    joinPath trail.components ≠ joinPath kept := by
  intro equal
  have slashes : max 1 trail.components.length = max 1 kept.length := by
    rw [← count_joinPath _ valid.free, equal,
      count_joinPath kept fun name member => (proper name member).2.1]
  have single : trail.components.length = 1 := by omega
  obtain ⟨name, only⟩ := List.length_eq_one_iff.mp single
  have none : kept = [] := List.eq_nil_of_length_eq_zero (by omega)
  have first := valid.first
  rw [only] at equal first
  rw [none] at equal
  simp [joinPath] at equal first
  exact first equal

/-- The buffer spells the specified path, its components are joined by single slashes, and a second
normalization changes nothing. -/
structure Normalizes (path : Str) (out : Writer) : Prop where
  spells : out.Spells (canonicalPath path)
  single : out.text = joinPath (pathComponents out.text)
  stable : ∀ bytes, ∃ again, vfsNormalizePath (some out.text) (some bytes) = .ok again ∧
    again.Spells out.text

theorem pathTrail_agrees :
    Agrees (pathTrail path) (canonicalComponents path)
      ((pathComponents path).foldl Depth.step ⟨0, true, false⟩) := by
  apply Agrees.foldl
  exact ⟨rfl, by simp, fun _ => rfl, by simp⟩

/-- The code writes the specified path when the path is plain. -/
theorem vfsNormalizePath_plain (absolute : vfsIsAbsolutePath (some path) = true) (fits : path.length < vfsMaxPath)
    (plain : ¬ ReentersDirectory path) :
    ∃ out, vfsNormalizePath (some path) (some bytes) = .ok out ∧ out.Spells (canonicalPath path) := by
  obtain ⟨out, normalized, spelled, _⟩ := vfsNormalizePath_ok path bytes absolute fits
  refine ⟨out, normalized, ?_⟩
  rw [(pathTrail_agrees path).same (by simpa [ReentersDirectory] using plain)] at spelled
  exact spelled

/-- The normalization meets its specification if and only if the path does not reenter a directory
right after a `..` without a later return to depth zero. -/
theorem vfsNormalizePath_canonical_iff (path : Str) (bytes : Nat → UInt8)
    (absolute : vfsIsAbsolutePath (some path) = true) (fits : path.length < vfsMaxPath) :
    (∃ out, vfsNormalizePath (some path) (some bytes) = .ok out ∧ Normalizes path out) ↔
      ¬ ReentersDirectory path := by
  constructor
  · rintro ⟨out, normalized, normal⟩ reenters
    obtain ⟨other, same, spelled, valid⟩ := vfsNormalizePath_ok path bytes absolute fits
    obtain rfl : out = other := by
      rw [normalized] at same
      exact Except.ok.inj same
    apply joinPath_ne valid (canonicalComponents_proper path)
      ((pathTrail_agrees path).longer reenters)
    rw [← spelled.text_eq, normal.spells.text_eq]
    rfl
  · intro plain
    obtain ⟨out, normalized, spelled⟩ := vfsNormalizePath_plain path bytes absolute fits plain
    have proper := canonicalComponents_proper path
    obtain ⟨fixed, single⟩ := canonicalComponents_joinPath _ proper
    refine ⟨out, normalized, spelled, ?_, ?_⟩
    · rw [spelled.text_eq, canonicalPath, pathComponents_joinPath _ proper]
    · intro bytes
      have again := vfsNormalizePath_plain out.text bytes (by rw [spelled.text_eq]; rfl) ?_ ?_
      · rw [spelled.text_eq, canonicalPath, canonicalPath, fixed] at again
        rwa [spelled.text_eq, canonicalPath]
      · rw [out.text_length]
        exact spelled.inside
      · rw [spelled.text_eq]
        exact single

/-- The path `/a/../b/./c/..` climbs only to the root before its next name. -/
theorem vfsNormalizePath_canonical_climb :
    let path : Str := [47, 97, 47, 46, 46, 47, 98, 47, 46, 47, 99, 47, 46, 46]
    vfsIsAbsolutePath (some path) = true ∧ path.length < vfsMaxPath ∧ canonicalPath path = [47, 98] ∧
      ∃ out, vfsNormalizePath (some path) (some fun _ => 0) = .ok out ∧ Normalizes path out := by
  intro path
  refine ⟨rfl, by decide, by decide +kernel, ?_⟩
  exact (vfsNormalizePath_canonical_iff path (fun _ => 0) rfl (by decide)).mpr (by decide +kernel)

/-- The path `/a/b/../c` becomes `/a//c` instead of `/a/c`. -/
theorem vfsNormalizePath_doubles_slash :
    let path : Str := [47, 97, 47, 98, 47, 46, 46, 47, 99]
    vfsIsAbsolutePath (some path) = true ∧ path.length < vfsMaxPath ∧
      canonicalPath path = [47, 97, 47, 99] ∧
      ∃ out, vfsNormalizePath (some path) (some fun _ => 0) = .ok out ∧
        out.Spells [47, 97, 47, 47, 99] ∧ ¬ Normalizes path out := by
  intro path
  have canonical : canonicalPath path = [47, 97, 47, 99] := by decide +kernel
  obtain ⟨out, normalized, spelled, _⟩ := vfsNormalizePath_ok path (fun _ => 0) rfl (by decide)
  have trail : joinPath (pathTrail path).components = [47, 97, 47, 47, 99] := by decide +kernel
  rw [trail] at spelled
  refine ⟨rfl, by decide, canonical, out, normalized, spelled, ?_⟩
  intro normal
  have equal := spelled.text_eq.symm.trans normal.spells.text_eq
  rw [canonical] at equal
  exact absurd equal (by decide)

end Uesi.Vfs
