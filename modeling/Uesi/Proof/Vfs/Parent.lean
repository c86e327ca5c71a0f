import Uesi.Proof.Vfs.Names

namespace Uesi.Vfs

open Library

variable {component path : Str} {tail : List Str} {node : NodeId}

section Names

theorem lastSlash_concat (front : Str) (byte : UInt8) :
    lastSlash (front ++ [byte]) = if byte = slash then some front.length else lastSlash front := by
  unfold lastSlash
  rw [List.reverse_append, List.reverse_singleton, List.singleton_append, List.findIdx?_cons]
  by_cases same : byte = slash
  · simp [same]
  · rw [if_neg same, if_neg (by simpa using same)]
    cases front.reverse.findIdx? (· == slash) with
    | none => rfl
    | some index =>
        simp only [Option.map_some, Option.some.injEq, List.length_append, List.length_singleton]
        omega

/-- The text behind the last slash has no slash. -/
theorem lastSlash_some {index : Nat} (found : lastSlash path = some index) :
    ∃ front back, path = front ++ slash :: back ∧ slash ∉ back ∧ front.length = index := by
  induction path using List.reverseRecOn with
  | nil => exact absurd found (by simp [lastSlash])
  | append_singleton path byte ih =>
      rw [lastSlash_concat] at found
      by_cases same : byte = slash
      · rw [if_pos same, Option.some.injEq] at found
        exact ⟨path, [], by rw [same], by simp, found⟩
      · rw [if_neg same] at found
        obtain ⟨front, back, rfl, free, length⟩ := ih found
        refine ⟨front, back ++ [byte], by simp, ?_, length⟩
        rw [List.mem_append, List.mem_singleton, not_or]
        exact ⟨free, Ne.symm same⟩

/-- `vfs_dirname` returns what fits into its buffer. -/
theorem vfsDirname_length {dirname : Str} (named : vfsDirname path = some dirname) : dirname.length < vfsMaxPath := by
  unfold vfsDirname at named
  cases slash : lastSlash path with
  | none =>
      rw [slash] at named
      cases named
      decide
  | some index =>
      simp only [slash] at named
      generalize (if index = 0 then 1 else index) = length at named
      by_cases long : vfsMaxPath ≤ length
      · simp [long] at named
      · rw [if_neg long, Option.some.injEq] at named
        rw [← named]
        exact lt_of_le_of_lt (List.length_take_le _ _) (Nat.not_le.mp long)

/-- A path is the components of its directory and its name, in the sense of the two functions. -/
structure Splits (path dirname : Str) : Prop where
  components : pathComponents path =
    pathComponents dirname ++ if vfsBasename path = [] then [] else [vfsBasename path]
  free : slash ∉ vfsBasename path
  absolute : vfsIsAbsolutePath (some path) = true

theorem splits_of_vfsDirname {dirname : Str} (named : vfsDirname path = some dirname)
    (absolute : vfsIsAbsolutePath (some dirname) = true) : Splits path dirname := by
  unfold vfsDirname at named
  cases found : lastSlash path with
  | none =>
      rw [found] at named
      cases named
      exact absurd absolute (by decide)
  | some index =>
      obtain ⟨front, back, rfl, free, rfl⟩ := lastSlash_some found
      have basename : vfsBasename (front ++ slash :: back) = back := by
        simp [vfsBasename, found]
      rw [found] at named
      dsimp only at named
      cases front with
      | nil =>
          rw [List.length_nil, if_pos rfl, if_neg (by decide), Option.some.injEq] at named
          subst named
          refine ⟨?_, by rw [basename]; exact free, rfl⟩
          rw [basename, List.nil_append, pathComponents, wordsOf_cons_sep, wordsOf_free free]
          rfl
      | cons first front =>
          have length : (if (first :: front).length = 0 then 1 else (first :: front).length) =
              (first :: front).length := if_neg (by simp)
          rw [length] at named
          split at named
          · exact absurd named (by simp)
          · rw [List.take_left, Option.some.injEq] at named
            subst named
            refine ⟨?_, by rw [basename]; exact free, absolute⟩
            rw [basename, pathComponents, wordsOf_append_sep, wordsOf_free free]
            rfl

end Names

section Words

/-- The components of a trail that `strtok` finds again. -/
def Trail.words (trail : Trail) : List Str := trail.components.filter (· ≠ [])

/-- The components of the normal form of a path, without a limit on their number. -/
def normalWords (path : Str) : List Str := (pathTrail path).words

theorem Trail.words_push (trail : Trail) (nonempty : component ≠ []) :
    (trail.push component).words = trail.words ++ [component] := by
  obtain ⟨closed, last⟩ := trail
  cases last with
  | some last =>
      simp only [Trail.push, Trail.words, Trail.components, Option.toList_some, List.filter_append]
      simp [nonempty]
  | none =>
      by_cases empty : closed = []
      · simp [Trail.push, Trail.words, Trail.components, nonempty, empty]
      · simp [Trail.push, Trail.words, Trail.components, nonempty, empty]

theorem Trail.words_pop (trail : Trail) : trail.pop.words <+: trail.words := by
  obtain ⟨closed, last⟩ := trail
  cases last with
  | some last =>
      refine List.IsPrefix.filter _ ?_
      simp [Trail.pop, Trail.components]
  | none =>
      refine List.IsPrefix.filter _ ?_
      simpa [Trail.pop, Trail.components] using List.dropLast_prefix closed

theorem pathTrail_valid (path : Str) : (pathTrail path).Valid := by
  have words : ∀ component ∈ pathComponents path, component ≠ [] ∧ slash ∉ component := by
    intro component member
    exact ⟨by simpa using (List.mem_filter.mp member).2, sep_notMem_of_mem_wordsOf slash path component member⟩
  have valid : (⟨[], none⟩ : Trail).Valid := ⟨by simp [Trail.components], by simp, by simp [Trail.components]⟩
  unfold pathTrail
  generalize (⟨[], none⟩ : Trail) = trail at valid ⊢
  generalize pathComponents path = components at words
  induction components generalizing trail with
  | nil => exact valid
  | cons component rest ih =>
      obtain ⟨nonempty, free⟩ := words component List.mem_cons_self
      exact ih _ (valid.step nonempty free) fun other member => words other (List.mem_cons_of_mem _ member)

theorem splitComponents_normalForm (path : Str) :
    splitComponents (normalForm path) = (normalWords path).take maxComponents := by
  unfold splitComponents normalForm joinPath normalWords Trail.words
  rw [List.drop_one, List.tail_cons, wordsOf_join slash _ (pathTrail_valid path).free]

variable {path dirname : Str}

theorem Splits.pathTrail (splits : Splits path dirname) :
    pathTrail path = if vfsBasename path = [] then Vfs.pathTrail dirname
      else (Vfs.pathTrail dirname).step (vfsBasename path) := by
  unfold Vfs.pathTrail
  rw [splits.components]
  split
  · rw [List.append_nil]
  · rw [List.foldl_append]
    rfl

/-- A proper name is one more component behind those of the directory. -/
theorem Splits.words_proper (splits : Splits path dirname) (proper : ProperName (vfsBasename path)) :
    normalWords path = normalWords dirname ++ [vfsBasename path] := by
  obtain ⟨nonempty, _, notDot, notDots⟩ := proper
  rw [normalWords, splits.pathTrail, if_neg nonempty, Trail.step, if_neg notDot, if_neg notDots,
    Trail.words_push _ nonempty]
  rfl

/-- Another name leaves the components of the directory, or fewer. -/
theorem Splits.words_improper (splits : Splits path dirname) (improper : ¬ ProperName (vfsBasename path)) :
    normalWords path <+: normalWords dirname := by
  rw [normalWords, splits.pathTrail]
  by_cases empty : vfsBasename path = []
  · rw [if_pos empty]
    exact List.prefix_rfl
  · rw [if_neg empty, Trail.step]
    by_cases single : vfsBasename path = [dot]
    · rw [if_pos single]
      exact List.prefix_rfl
    · rw [if_neg single]
      by_cases double : vfsBasename path = [dot, dot]
      · rw [if_pos double]
        exact Trail.words_pop _
      · exact absurd ⟨empty, splits.free, single, double⟩ improper

end Words

/-- A walk over components, whose last one is followed, leads from one node to another and from one
count of followed links to another. -/
inductive Crosses (tmpfs : Tmpfs) (root : NodeId) : List Str → List Str → Nat → NodeId → NodeId → Nat → Prop
  | arrive {before depth current} : Crosses tmpfs root before [] depth current current depth
  | enter {before component rest depth current next node links}
      (taken : advance tmpfs true before component rest depth current = .enter next)
      (later : Crosses tmpfs root (before ++ [component]) rest depth next node links) :
      Crosses tmpfs root before (component :: rest) depth current node links
  | follow {before component rest depth current path next node links}
      (taken : advance tmpfs true before component rest depth current = .follow path)
      (resolved : Resolves tmpfs root path true (.ok next))
      (later : Crosses tmpfs root (before ++ [component]) rest (depth + 1) next node links) :
      Crosses tmpfs root before (component :: rest) depth current node links

section Crosses

variable {tmpfs : Tmpfs} {root : NodeId} {followFinal : Bool} {before components rest : List Str}
  {depth links : Nat} {current node : NodeId} {outcome : Except Errno NodeId}

/-- A component that is not the last one is followed in any case. -/
theorem advance_more (more : tail ≠ [] ∨ followFinal = true) :
    advance tmpfs followFinal before component (rest ++ tail) depth current =
      advance tmpfs true before component rest depth current := by
  have keeps : ¬ (rest ++ tail = [] ∧ followFinal = false) := by
    rintro ⟨empty, final⟩
    rw [List.append_eq_nil_iff] at empty
    obtain some | follows := more
    · exact some empty.2
    · rw [final] at follows
      exact absurd follows (by simp)
  unfold advance
  simp only [if_neg keeps, Bool.true_eq_false, and_false, if_false]

/-- A walk that follows its last component stops with errors only. -/
theorem advance_true_stop {answer : Except Errno NodeId}
    (taken : advance tmpfs true before component rest depth current = .stop answer) :
    ∃ code, answer = .error code := by
  unfold advance at taken
  split at taken
  · cases taken
    exact ⟨_, rfl⟩
  · split at taken
    · simp only [Bool.true_eq_false, and_false, if_false] at taken
      split at taken
      · cases taken
        exact ⟨_, rfl⟩
      · split at taken
        · cases taken
          exact ⟨_, rfl⟩
        · exact absurd taken (by simp)
    · exact absurd taken (by simp)

/-- A node that is entered stands under the component and is no symbolic link. -/
theorem advance_enter_inv {next : NodeId}
    (taken : advance tmpfs followFinal before component rest depth current = .enter next) :
    tmpfs.entry current component = some next ∧ ∀ text, tmpfs.dataOf next ≠ some (.symlink text) := by
  rw [entry_some]
  unfold advance at taken
  split at taken
  · exact absurd taken (by simp)
  · rename_i found
    split at taken
    · split at taken
      · exact absurd taken (by simp)
      · split at taken
        · exact absurd taken (by simp)
        · split at taken
          · exact absurd taken (by simp)
          · exact absurd taken (by simp)
    · rename_i plain
      cases taken
      exact ⟨found, fun text => plain text⟩

section Steps

variable {component : Str} {next : NodeId}

theorem walks_stop_iff {answer : Except Errno NodeId}
    (taken : advance tmpfs followFinal before component rest depth current = .stop answer) :
    Walks tmpfs root followFinal before (component :: rest) depth current outcome ↔ outcome = answer :=
  ⟨fun walks => walks.unique (.stop taken), fun same => same ▸ .stop taken⟩

theorem walks_enter_iff
    (taken : advance tmpfs followFinal before component rest depth current = .enter next) :
    Walks tmpfs root followFinal before (component :: rest) depth current outcome ↔
      Walks tmpfs root followFinal (before ++ [component]) rest depth next outcome := by
  refine ⟨fun walks => ?_, .enter taken⟩
  obtain ⟨fuel, walked⟩ := walks
  simp only [walkNodes, taken] at walked
  exact ⟨fuel, walked⟩

theorem walks_follow_iff (taken : advance tmpfs followFinal before component rest depth current = .follow path)
    (resolved : Resolves tmpfs root path true (.ok next)) :
    Walks tmpfs root followFinal before (component :: rest) depth current outcome ↔
      Walks tmpfs root followFinal (before ++ [component]) rest (depth + 1) next outcome := by
  refine ⟨fun walks => ?_, .follow taken resolved⟩
  obtain ⟨fuel, walked⟩ := walks
  simp only [walkNodes, taken] at walked
  cases found : resolve tmpfs root fuel path true with
  | none => simp [found] at walked
  | some answer =>
      obtain rfl := Resolves.unique ⟨fuel, found⟩ resolved
      simp only [found] at walked
      exact ⟨fuel, walked⟩

end Steps

/-- A walk over more components goes on where the walk over the first ones arrives. -/
theorem Crosses.walks_append (crosses : Crosses tmpfs root before components depth current node links)
    (more : tail ≠ [] ∨ followFinal = true) :
    Walks tmpfs root followFinal before (components ++ tail) depth current outcome ↔
      Walks tmpfs root followFinal (before ++ components) tail links node outcome := by
  induction crosses with
  | arrive => simp
  | enter taken later ih =>
      rw [← advance_more more] at taken
      rw [List.cons_append, walks_enter_iff taken, ih, List.append_assoc]
      rfl
  | follow taken resolved later ih =>
      rw [← advance_more more] at taken
      rw [List.cons_append, walks_follow_iff taken resolved, ih, List.append_assoc]
      rfl

/-- A walk that succeeds crosses its first components. -/
theorem Walks.crosses_front (more : tail ≠ [] ∨ followFinal = true)
    (walks : Walks tmpfs root followFinal before (components ++ tail) depth current (.ok node)) :
    ∃ reached links, Crosses tmpfs root before components depth current reached links := by
  induction components generalizing before depth current with
  | nil => exact ⟨current, depth, .arrive⟩
  | cons component rest ih =>
      rw [List.cons_append] at walks
      have same : advance tmpfs followFinal before component (rest ++ tail) depth current =
          advance tmpfs true before component rest depth current := advance_more more
      cases taken : advance tmpfs true before component rest depth current with
      | stop answer =>
          obtain ⟨code, rfl⟩ := advance_true_stop taken
          rw [walks_stop_iff (same.trans taken)] at walks
          exact absurd walks (by simp)
      | enter next =>
          rw [walks_enter_iff (same.trans taken)] at walks
          obtain ⟨reached, links, later⟩ := ih walks
          exact ⟨reached, links, .enter taken later⟩
      | follow path =>
          obtain ⟨fuel, walked⟩ := walks
          simp only [walkNodes, same.trans taken] at walked
          cases found : resolve tmpfs root fuel path true with
          | none => simp [found] at walked
          | some answer =>
              cases answer with
              | error code => simp [found] at walked
              | ok next =>
                  simp only [found] at walked
                  obtain ⟨reached, links, later⟩ := ih ⟨fuel, walked⟩
                  exact ⟨reached, links, .follow taken ⟨fuel, found⟩ later⟩

/-- A walk that succeeds crosses its components. -/
theorem Walks.crosses (walks : Walks tmpfs root true before components depth current (.ok node)) :
    ∃ links, Crosses tmpfs root before components depth current node links := by
  rw [← List.append_nil components] at walks
  obtain ⟨reached, links, crosses⟩ := walks.crosses_front (Or.inr rfl)
  obtain ⟨fuel, arrived⟩ := (crosses.walks_append (Or.inr rfl)).mp walks
  cases arrived
  exact ⟨links, crosses⟩

/-- What is crossed is reached by a walk. -/
theorem Crosses.walks (crosses : Crosses tmpfs root before components depth current node links) :
    Walks tmpfs root true before components depth current (.ok node) := by
  have appended : Walks tmpfs root true before (components ++ []) depth current (.ok node) :=
    (crosses.walks_append (Or.inr rfl)).mpr ⟨0, rfl⟩
  rwa [List.append_nil] at appended

/-- A node that a walk leaves again is a directory. -/
theorem Walks.directory (walks : Walks tmpfs root followFinal before (component :: rest) depth current (.ok node)) :
    tmpfs.kindOf current = some .dir := by
  cases found : entryOf tmpfs current component with
  | error code =>
      rw [walks_stop_iff (advance_error found)] at walks
      exact absurd walks (by simp)
  | ok next => exact kindOf_of_entry (entry_some.mpr found)

/-- A walk to a directory starts at one. -/
theorem Walks.from_directory (walks : Walks tmpfs root followFinal before components depth current (.ok node))
    (directory : tmpfs.kindOf node = some .dir) : tmpfs.kindOf current = some .dir := by
  cases components with
  | nil =>
      cases walks.unique ⟨0, rfl⟩
      exact directory
  | cons component rest => exact walks.directory

/-- The last component is the entry itself when it is not followed or no symbolic link. -/
theorem walks_last {name : Str} {target : NodeId} (found : tmpfs.entry current name = some target)
    (final : followFinal = false ∨ ∀ text, tmpfs.kindOf target ≠ some (.symlink text)) :
    Walks tmpfs root followFinal before [name] depth current outcome ↔ outcome = .ok target := by
  rw [entry_some] at found
  by_cases link : ∃ text, tmpfs.dataOf target = some (.symlink text)
  · obtain ⟨text, data⟩ := link
    obtain rfl | plain := final
    · exact walks_stop_iff (by simp only [advance, found, data, and_self, if_true])
    · exact absurd (by rw [Tmpfs.kindOf, data]; rfl) (plain text)
  · rw [walks_enter_iff (advance_enter found fun text data => link ⟨text, data⟩)]
    exact ⟨fun walks => walks.unique ⟨0, rfl⟩, fun same => same ▸ ⟨0, rfl⟩⟩

theorem walks_missing {name : Str} {code : Errno} (missing : entryOf tmpfs current name = .error code) :
    Walks tmpfs root followFinal before (name :: rest) depth current outcome ↔ outcome = .error code :=
  walks_stop_iff (advance_error missing)

end Crosses

section Resolves

variable {tmpfs : Tmpfs} {root : NodeId} {followFinal : Bool} {path : Str} {outcome : Except Errno NodeId}

theorem resolves_iff_walks (absolute : vfsIsAbsolutePath (some path) = true) (fits : path.length < vfsMaxPath) :
    Resolves tmpfs root path followFinal outcome ↔
      Walks tmpfs root followFinal [] ((normalWords path).take maxComponents) 0 root outcome := by
  rw [← splitComponents_normalForm]
  constructor
  · rintro ⟨fuel, resolved⟩
    cases fuel with
    | zero => exact absurd resolved (by simp [resolve])
    | succ fuel => exact ⟨fuel, by rwa [resolve_walk absolute fits] at resolved⟩
  · rintro ⟨fuel, walked⟩
    exact ⟨fuel + 1, by rwa [resolve_walk absolute fits]⟩

/-- Only an absolute path that fits resolves to a node. -/
theorem Resolves.absolute (resolved : Resolves tmpfs root path followFinal (.ok node)) :
    vfsIsAbsolutePath (some path) = true ∧ path.length < vfsMaxPath := by
  obtain ⟨fuel, found⟩ := resolved
  cases fuel with
  | zero => exact absurd found (by simp [resolve])
  | succ fuel =>
      unfold resolve at found
      split at found
      · exact absurd found (by simp)
      · split at found
        · exact absurd found (by simp)
        · rename_i absolute long
          exact ⟨by simpa using absolute, Nat.not_le.mp long⟩

theorem Resolves.too_long (absolute : vfsIsAbsolutePath (some path) = true) (long : vfsMaxPath ≤ path.length) :
    Resolves tmpfs root path followFinal (.error .enametoolong) :=
  ⟨1, by rw [resolve, if_neg (by simp [absolute]), if_pos long]⟩

/-- What holds of the root and of every node that a walk enters holds of what a path leads to. -/
theorem Resolves.reached (holds : NodeId → Prop) (top : holds root)
    (enters : ∀ {before component rest depth current next},
      advance tmpfs true before component rest depth current = .enter next → holds current → holds next)
    (resolved : Resolves tmpfs root path true (.ok node)) : holds node := by
  obtain ⟨absolute, fits⟩ := resolved.absolute
  obtain ⟨fuel, found⟩ := resolved
  -- The nested resolutions have less fuel, and inside of one the components become fewer.
  induction fuel generalizing path node with
  | zero => exact absurd found (by simp [resolve])
  | succ fuel inner =>
      rw [resolve_walk absolute fits] at found
      have walked (components before : List Str) (depth : Nat) (current : NodeId) (now : holds current)
          (found : walkNodes (resolve tmpfs root fuel · true) tmpfs true before components depth current =
            some (.ok node)) : holds node := by
        induction components generalizing before depth current with
        | nil =>
            cases found
            exact now
        | cons component rest ih =>
            unfold walkNodes at found
            cases taken : advance tmpfs true before component rest depth current with
            | stop answer =>
                obtain ⟨code, rfl⟩ := advance_true_stop taken
                simp [taken] at found
            | enter next =>
                simp only [taken] at found
                exact ih _ _ _ (enters taken now) found
            | follow path =>
                simp only [taken] at found
                cases resolved : resolve tmpfs root fuel path true with
                | none => simp [resolved] at found
                | some answer =>
                    cases answer with
                    | error code => simp [resolved] at found
                    | ok next =>
                        simp only [resolved] at found
                        obtain ⟨absolute, fits⟩ := advance_follow taken
                        exact ih _ _ _ (inner absolute fits resolved) found
      exact walked _ _ _ _ top found

end Resolves

/-- The last component of a path is the name that `vfs_basename` returns, and the lookup reaches it. -/
structure Addressable (path : Str) : Prop where
  fits : path.length < vfsMaxPath
  proper : ProperName (vfsBasename path)
  room : ∀ dirname, vfsDirname path = some dirname → (normalWords dirname).length < maxComponents

section Parents

variable {tmpfs : Tmpfs} {root dir : NodeId} {path name : Str}

/-- A path with a proper name is resolved by one more step from its parent directory. -/
theorem ParentEntry.resolves_iff (parent : ParentEntry tmpfs root path dir name) (addressable : Addressable path) :
    ∃ before links, ∀ followFinal outcome, Resolves tmpfs root path followFinal outcome ↔
      Walks tmpfs root followFinal before [name] links dir outcome := by
  obtain ⟨dirname, named, resolved, rfl⟩ := parent
  obtain ⟨absolute, short⟩ := resolved.absolute
  have splits := splits_of_vfsDirname named absolute
  rw [resolves_iff_walks absolute short] at resolved
  have room := addressable.room dirname named
  rw [List.take_of_length_le room.le] at resolved
  obtain ⟨links, crosses⟩ := resolved.crosses
  refine ⟨normalWords dirname, links, fun followFinal outcome => ?_⟩
  rw [resolves_iff_walks splits.absolute addressable.fits, splits.words_proper addressable.proper,
    List.take_of_length_le (by simpa using room), crosses.walks_append (Or.inl (by simp))]
  rfl

/-- Any other path that fits resolves to its parent directory or to a directory on the way there. -/
theorem ParentEntry.resolves_above (parent : ParentEntry tmpfs root path dir name)
    (fits : path.length < vfsMaxPath) (other : ¬ Addressable path) :
    ∃ reached, Resolves tmpfs root path true (.ok reached) ∧
      (reached = dir ∨ tmpfs.kindOf reached = some .dir) := by
  obtain ⟨dirname, named, resolved, rfl⟩ := parent
  obtain ⟨absolute, short⟩ := resolved.absolute
  have splits := splits_of_vfsDirname named absolute
  rw [resolves_iff_walks absolute short] at resolved
  have prefix_ : (normalWords path).take maxComponents <+: (normalWords dirname).take maxComponents := by
    by_cases proper : ProperName (vfsBasename path)
    · have long : maxComponents ≤ (normalWords dirname).length := by
        by_contra room
        refine other ⟨fits, proper, fun other same => ?_⟩
        rw [named, Option.some.injEq] at same
        exact same ▸ Nat.not_le.mp room
      rw [splits.words_proper proper, List.take_append_of_le_length long]
    · exact (splits.words_improper proper).take _
  obtain ⟨tail, joined⟩ := prefix_
  rw [← joined] at resolved
  obtain ⟨reached, links, crosses⟩ := resolved.crosses_front (Or.inr rfl)
  refine ⟨reached, (resolves_iff_walks splits.absolute fits).mpr crosses.walks, ?_⟩
  have rest := (crosses.walks_append (Or.inr rfl)).mp resolved
  cases tail with
  | nil =>
      left
      have same := rest.unique ⟨0, rfl⟩
      cases same
      rfl
  | cons component tail => exact Or.inr rest.directory

/-- When a path leads to a node that is no directory, the entry of its parent directory stands for that
node or is a symbolic link. -/
theorem ParentEntry.entry_final (parent : ParentEntry tmpfs root path dir name) {target : NodeId}
    (resolved : Resolves tmpfs root path true (.ok target)) (plain : tmpfs.kindOf target ≠ some .dir)
    (found : tmpfs.entry dir name = some node) :
    Addressable path ∧ (node = target ∨ ∃ text, tmpfs.kindOf node = some (.symlink text)) := by
  have fits := resolved.absolute.2
  by_cases addressable : Addressable path
  · refine ⟨addressable, ?_⟩
    by_cases link : ∃ text, tmpfs.kindOf node = some (.symlink text)
    · exact Or.inr link
    · left
      obtain ⟨before, links, iff⟩ := parent.resolves_iff addressable
      rw [iff, walks_last found (Or.inr fun text kind => link ⟨text, kind⟩)] at resolved
      cases resolved
      rfl
  · obtain ⟨reached, again, above⟩ := parent.resolves_above fits addressable
    obtain rfl : reached = target := by
      have same := again.unique resolved
      cases same
      rfl
    obtain rfl | directory := above
    · exact absurd (kindOf_of_entry found) plain
    · exact absurd directory plain

end Parents

end Uesi.Vfs
