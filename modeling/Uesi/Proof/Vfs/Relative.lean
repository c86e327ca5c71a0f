import Uesi.Proof.Vfs.Links

namespace Uesi.Vfs

open Library

variable {word target : Str} {tmpfs : Tmpfs} {names : List Str}

/-- A node with the directories through which it was entered, the nearest one first. -/
structure Place where
  node : NodeId
  above : List NodeId
  deriving DecidableEq, Repr

/-- The real parent directory, where the root is its own parent. -/
def Place.parent (place : Place) : Place :=
  match place.above with
  | [] => place
  | dir :: rest => ⟨dir, rest⟩

def Place.enter (place : Place) (next : NodeId) : Place := ⟨next, place.node :: place.above⟩

/-- The place at which the resolution of a link starts: the directory that contains the link, or the root. -/
def linkStart (root : NodeId) (place : Place) (text : Str) : Place :=
  if text.head? = some slash then ⟨root, []⟩ else place

/-- The components of the text of a link. An absolute text is a path of its own for `vfs_lookup`. -/
def linkWords (text : Str) : List Str :=
  if text.head? = some slash then splitComponents (normalForm text) else wordsOf slash text

/-- The text that the lookup reads from a link. -/
def linkText (target : Str) : Str := target.take (vfsMaxPath - 1)

/-- A word that stands for an entry, unlike `.` and `..`. -/
def Plain (word : Str) : Prop := word ≠ [dot] ∧ word ≠ [dot, dot]

instance (word : Str) : Decidable (Plain word) := inferInstanceAs (Decidable (_ ∧ _))

/-- The resolution word by word from a place: `..` is the real parent, and a relative link is resolved
from the directory that contains it. It meets this number of links. -/
inductive WordWalk (tmpfs : Tmpfs) (root : NodeId) : Place → List Str → Nat → Except Errno Place → Prop
  | done {place} : WordWalk tmpfs root place [] 0 (.ok place)
  | self {place rest links outcome} (directory : tmpfs.kindOf place.node = some .dir)
      (later : WordWalk tmpfs root place rest links outcome) :
      WordWalk tmpfs root place ([dot] :: rest) links outcome
  | up {place rest links outcome} (directory : tmpfs.kindOf place.node = some .dir)
      (later : WordWalk tmpfs root place.parent rest links outcome) :
      WordWalk tmpfs root place ([dot, dot] :: rest) links outcome
  | refused {place word rest} (dots : ¬ Plain word) (file : tmpfs.kindOf place.node ≠ some .dir) :
      WordWalk tmpfs root place (word :: rest) 0 (.error .enotdir)
  | missing {place word rest code} (plain : Plain word) (failed : entryOf tmpfs place.node word = .error code) :
      WordWalk tmpfs root place (word :: rest) 0 (.error code)
  | enter {place word rest next links outcome} (plain : Plain word)
      (found : entryOf tmpfs place.node word = .ok next) (node : ∀ target, tmpfs.dataOf next ≠ some (.symlink target))
      (later : WordWalk tmpfs root (place.enter next) rest links outcome) :
      WordWalk tmpfs root place (word :: rest) links outcome
  | failed {place word rest target inside code} (plain : Plain word) (link : LinkAt tmpfs place.node word target)
      (inner : WordWalk tmpfs root (linkStart root place (linkText target)) (linkWords (linkText target)) inside
        (.error code)) : WordWalk tmpfs root place (word :: rest) (inside + 1) (.error code)
  | follow {place word rest target inside next links outcome} (plain : Plain word)
      (link : LinkAt tmpfs place.node word target)
      (inner : WordWalk tmpfs root (linkStart root place (linkText target)) (linkWords (linkText target)) inside
        (.ok next))
      (later : WordWalk tmpfs root next rest links outcome) :
      WordWalk tmpfs root place (word :: rest) (inside + 1 + links) outcome

/-- The names in front of the text of a link in the path that the code builds. -/
def linkNames (names : List Str) (text : Str) : List Str := if text.head? = some slash then [] else names

/-- A resolution comes to a place with words before it. The names are the path that the code would build
for that place. -/
inductive Meets (tmpfs : Tmpfs) (root : NodeId) :
    List Str → Place → List Str → List Str → Place → List Str → Prop
  | here {names place words} : Meets tmpfs root names place words names place words
  | self {names place rest last end_ ahead} (directory : tmpfs.kindOf place.node = some .dir)
      (later : Meets tmpfs root names place rest last end_ ahead) :
      Meets tmpfs root names place ([dot] :: rest) last end_ ahead
  | up {names place rest last end_ ahead} (directory : tmpfs.kindOf place.node = some .dir)
      (later : Meets tmpfs root names.dropLast place.parent rest last end_ ahead) :
      Meets tmpfs root names place ([dot, dot] :: rest) last end_ ahead
  | enter {names place word rest next last end_ ahead} (plain : Plain word)
      (found : entryOf tmpfs place.node word = .ok next) (node : ∀ target, tmpfs.dataOf next ≠ some (.symlink target))
      (later : Meets tmpfs root (names ++ [word]) (place.enter next) rest last end_ ahead) :
      Meets tmpfs root names place (word :: rest) last end_ ahead
  | inside {names place word rest target last end_ ahead} (plain : Plain word)
      (link : LinkAt tmpfs place.node word target)
      (inner : Meets tmpfs root (linkNames names (linkText target)) (linkStart root place (linkText target))
        (linkWords (linkText target)) last end_ ahead) :
      Meets tmpfs root names place (word :: rest) last end_ ahead
  | after {names place word rest target inside next last end_ ahead} (plain : Plain word)
      (link : LinkAt tmpfs place.node word target)
      (inner : WordWalk tmpfs root (linkStart root place (linkText target)) (linkWords (linkText target)) inside
        (.ok next))
      (later : Meets tmpfs root (names ++ [word]) next rest last end_ ahead) :
      Meets tmpfs root names place (word :: rest) last end_ ahead

/-- The text of a path leads to a node. -/
def Leads (tmpfs : Tmpfs) (root : NodeId) (names : List Str) (node : NodeId) : Prop :=
  ∃ links, Crosses tmpfs root [] names 0 root node links

/-- The text of the path that the code builds can be read word by word: the text without its last name leads
to the real parent, the word at which the resolution fails stays in the text, or some name behind the file
where that word is `.` or `..`, and a relative link has a path that fits, with the expected components. -/
structure Literal (tmpfs : Tmpfs) (root : NodeId) (names : List Str) (place : Place) (word : Str)
    (rest : List Str) : Prop where
  parent : word = [dot, dot] → tmpfs.kindOf place.node = some .dir →
    Leads tmpfs root names.dropLast place.parent.node
  stays : ∀ links code, WordWalk tmpfs root place [word] links (.error code) →
    ∃ name, (Plain word → name = word) ∧ names ++ [name] <+: (word :: rest).foldl keepComponent names
  link : Plain word → ∀ target, LinkAt tmpfs place.node word target → (linkText target).head? ≠ some slash →
    ∃ path, targetPath names target = .ok path ∧
      splitComponents (normalForm path) = (linkWords (linkText target)).foldl keepComponent names

/-- The text can be read word by word at every place to which a resolution comes. -/
def Textual (tmpfs : Tmpfs) (root : NodeId) (names : List Str) (place : Place) (words : List Str) : Prop :=
  ∀ last end_ word rest, Meets tmpfs root names place words last end_ (word :: rest) →
    Literal tmpfs root last end_ word rest

section Words

theorem foldl_keepComponent_plain {words : List Str} (plain : ∀ word ∈ words, Plain word) :
    words.foldl keepComponent names = names ++ words := by
  induction words generalizing names with
  | nil => simp
  | cons word rest ih =>
      rw [List.forall_mem_cons] at plain
      have kept : keepComponent names word = names ++ [word] := by
        rw [keepComponent, if_neg plain.1.1, if_neg plain.1.2]
      rw [List.foldl_cons, kept, ih plain.2, List.append_assoc, List.singleton_append]

/-- The normal form of a path has no `.` and no `..`. -/
theorem normalWords_plain (path : Str) : ∀ word ∈ normalWords path, Plain word := by
  have steps (components : List Str) (trail : Trail) (filled : ∀ component ∈ components, component ≠ [])
      (plain : ∀ word ∈ trail.words, Plain word) :
      ∀ word ∈ (components.foldl Trail.step trail).words, Plain word := by
    induction components generalizing trail with
    | nil => exact plain
    | cons component rest ih =>
        rw [List.forall_mem_cons] at filled
        refine ih _ filled.2 ?_
        unfold Trail.step
        split
        · exact plain
        next single =>
            split
            · exact fun word member => plain word (trail.words_pop.subset member)
            next double =>
                rw [trail.words_push filled.1]
                intro word member
                rw [List.mem_append, List.mem_singleton] at member
                obtain old | rfl := member
                · exact plain word old
                · exact ⟨single, double⟩
  refine steps _ _ ?_ (by simp [Trail.words, Trail.components])
  intro component member
  simpa using (List.mem_filter.mp member).2

theorem splitComponents_plain (path : Str) : ∀ word ∈ splitComponents (normalForm path), Plain word := by
  rw [splitComponents_normalForm]
  exact fun word member => normalWords_plain path word (List.mem_of_mem_take member)

end Words

section Crossing

variable {tmpfs : Tmpfs} {root : NodeId} {before first second : List Str} {depth links more : Nat}
  {current middle node other : NodeId}

theorem Crosses.append (crosses : Crosses tmpfs root before first depth current middle links)
    (later : Crosses tmpfs root (before ++ first) second links middle node more) :
    Crosses tmpfs root before (first ++ second) depth current node more := by
  induction crosses with
  | arrive => simpa using later
  | enter taken _ ih =>
      rw [← advance_more (Or.inr rfl)] at taken
      exact .enter taken (ih (by simpa using later))
  | follow taken resolved _ ih =>
      rw [← advance_more (Or.inr rfl)] at taken
      exact .follow taken resolved (ih (by simpa using later))

theorem Crosses.le (crosses : Crosses tmpfs root before first depth current node links) : depth ≤ links := by
  induction crosses with
  | arrive => exact le_rfl
  | enter _ _ ih => exact ih
  | follow _ _ _ ih => exact Nat.le_of_succ_le ih

/-- The first components have at most the links of all of them. -/
theorem Crosses.links_le (crosses : Crosses tmpfs root before first depth current node links)
    (longer : Crosses tmpfs root before (first ++ second) depth current other more) : links ≤ more := by
  induction crosses with
  | arrive => exact longer.le
  | enter taken _ ih =>
      rw [← advance_more (Or.inr rfl)] at taken
      cases longer with
      | enter again rest =>
          cases again.symm.trans taken
          exact ih rest
      | follow again _ _ => cases again.symm.trans taken
  | follow taken resolved _ ih =>
      rw [← advance_more (Or.inr rfl)] at taken
      cases longer with
      | enter again _ => cases again.symm.trans taken
      | follow again found rest =>
          cases again.symm.trans taken
          cases resolved.unique found
          exact ih rest

theorem Crosses.dropLast (shorter : Crosses tmpfs root [] names.dropLast 0 root node links)
    (crosses : Crosses tmpfs root [] names 0 root other more) : links ≤ more := by
  obtain rfl | ⟨front, last, rfl⟩ := List.eq_nil_or_concat' names
  · cases shorter
    exact Nat.zero_le _
  · rw [List.dropLast_concat] at shorter
    exact shorter.links_le crosses

end Crossing

section Agreement

variable {tmpfs : Tmpfs} {root : NodeId} {names : List Str} {place : Place}

/-- Nothing is found in a node that is no directory. -/
theorem entryOf_file {node : NodeId} (file : tmpfs.kindOf node ≠ some .dir) (name : Str) :
    entryOf tmpfs node name = .error .enotdir := by
  unfold entryOf
  split
  next entries count data => exact absurd (kindOf_dir.mpr ⟨entries, count, data⟩) file
  next => rfl

/-- The path that the code builds for a link fits and has the words of the link behind the names. -/
theorem Literal.targetPath {rest : List Str} (literal : Literal tmpfs root names place word rest) (plain : Plain word)
    (link : LinkAt tmpfs place.node word target) :
    ∃ path, targetPath names target = .ok path ∧ splitComponents (normalForm path) =
      (linkWords (linkText target)).foldl keepComponent (linkNames names (linkText target)) := by
  by_cases absolute : (linkText target).head? = some slash
  · refine ⟨linkText target, ?_, ?_⟩
    · rw [Vfs.targetPath, linkPath]
      exact if_pos absolute
    · rw [linkWords, linkNames, if_pos absolute, if_pos absolute,
        foldl_keepComponent_plain (splitComponents_plain _), List.nil_append]
  · rw [linkNames, if_neg absolute]
    exact literal.link plain target link absolute

/-- The names in front of a link lead to the place at which its resolution starts. -/
theorem crosses_linkStart (text : Str) {depth : Nat} (crosses : Crosses tmpfs root [] names 0 root place.node depth) :
    ∃ less, less ≤ depth ∧
      Crosses tmpfs root [] (linkNames names text) 0 root (linkStart root place text).node less := by
  unfold linkNames linkStart
  split
  · exact ⟨0, Nat.zero_le _, .arrive⟩
  · exact ⟨depth, le_rfl, crosses⟩

/-- Where the text can be read word by word, the walk of the code along the text that it builds ends as
the resolution word by word does. -/
theorem WordWalk.walks {words : List Str} {links : Nat} {outcome : Except Errno Place}
    (follows : WordWalk tmpfs root place words links outcome) {depth used : Nat}
    (textual : Textual tmpfs root names place words) (crosses : Crosses tmpfs root [] names 0 root place.node depth)
    (counted : depth ≤ used) (few : used + links ≤ vfsMaxSymlinkDepth) :
    Walks tmpfs root true [] (words.foldl keepComponent names) 0 root (outcome.map (·.node)) := by
  induction follows generalizing names depth used with
  | done => exact crosses.walks
  | self directory later ih =>
      have same : keepComponent names [dot] = names := if_pos rfl
      rw [List.foldl_cons, same]
      exact ih (fun _ _ _ _ meets => textual _ _ _ _ (.self directory meets)) crosses counted few
  | up directory later ih =>
      have shorter : keepComponent names [dot, dot] = names.dropLast := rfl
      obtain ⟨less, parent⟩ := (textual _ _ _ _ .here).parent rfl directory
      rw [List.foldl_cons, shorter]
      exact ih (fun _ _ _ _ meets => textual _ _ _ _ (.up directory meets)) parent
        ((parent.dropLast crosses).trans counted) few
  | refused dots file =>
      obtain ⟨name, _, tail, text⟩ := (textual _ _ _ _ .here).stays 0 _ (.refused dots file)
      rw [← text, List.append_assoc, crosses.walks_append (Or.inr rfl)]
      exact (walks_missing (entryOf_file file name)).mpr rfl
  | missing plain failed =>
      obtain ⟨name, same, tail, text⟩ := (textual _ _ _ _ .here).stays 0 _ (.missing plain failed)
      rw [← text, same plain, List.append_assoc, crosses.walks_append (Or.inr rfl)]
      exact (walks_missing failed).mpr rfl
  | enter plain found node later ih =>
      have kept : keepComponent names _ = names ++ [_] := (if_neg plain.1).trans (if_neg plain.2)
      rw [List.foldl_cons, kept]
      exact ih (fun _ _ _ _ meets => textual _ _ _ _ (.enter plain found node meets))
        (crosses.append (.enter (advance_enter found node) .arrive)) counted few
  | @failed place word rest target inside code plain link inner ih =>
      have literal := textual _ _ _ _ .here
      obtain ⟨name, same, tail, text⟩ := literal.stays _ _ (.failed plain link inner)
      obtain ⟨path, built, components⟩ := literal.targetPath plain link
      obtain ⟨absolute, fits⟩ := targetPath_ok built
      obtain ⟨less, below, start⟩ := crosses_linkStart (linkText target) crosses
      have resolved : Resolves tmpfs root path true (.error code) := by
        apply Walks.resolves absolute fits
        rw [components]
        exact ih (fun _ _ _ _ meets => textual _ _ _ _ (.inside plain link meets)) start (below.trans counted)
          (by omega)
      rw [← text, same plain, List.append_assoc, crosses.walks_append (Or.inr rfl)]
      exact .failed (link.advance_follow (by omega) built) resolved
  | @follow place word rest target inside next links outcome plain link inner later ihInner ihLater =>
      have literal := textual _ _ _ _ .here
      obtain ⟨path, built, components⟩ := literal.targetPath plain link
      obtain ⟨absolute, fits⟩ := targetPath_ok built
      obtain ⟨less, below, start⟩ := crosses_linkStart (linkText target) crosses
      have resolved : Resolves tmpfs root path true (.ok next.node) := by
        apply Walks.resolves absolute fits
        rw [components]
        exact ihInner (fun _ _ _ _ meets => textual _ _ _ _ (.inside plain link meets)) start
          (below.trans counted) (by omega)
      have kept : keepComponent names _ = names ++ [_] := (if_neg plain.1).trans (if_neg plain.2)
      rw [List.foldl_cons, kept]
      exact ihLater (fun _ _ _ _ meets => textual _ _ _ _ (.after plain link inner meets))
        (crosses.append (.follow (link.advance_follow (by omega) built) resolved .arrive))
        (by omega : depth + 1 ≤ used + inside + 1) (by omega)

end Agreement

section Reading

variable {tmpfs : Tmpfs} {root : NodeId} {names rest : List Str} {place : Place} {word : Str}

theorem Textual.nil : Textual tmpfs root names place [] := by
  intro last end_ word rest meets
  cases meets

theorem Textual.up (literal : Literal tmpfs root names place [dot, dot] rest)
    (later : Textual tmpfs root names.dropLast place.parent rest) :
    Textual tmpfs root names place ([dot, dot] :: rest) := by
  intro last end_ ahead more meets
  generalize same : [dot, dot] :: rest = words at meets
  cases meets with
  | here =>
      cases same
      exact literal
  | self _ _ => exact absurd (List.cons.inj same).1 (by decide)
  | up _ meets =>
      cases same
      exact later _ _ _ _ meets
  | enter plain _ _ _ | inside plain _ _ | after plain _ _ _ => exact absurd (List.cons.inj same).1.symm plain.2

theorem Textual.plain (plain : Plain word) (literal : Literal tmpfs root names place word rest)
    (enters : ∀ next, entryOf tmpfs place.node word = .ok next →
      (∀ target, tmpfs.dataOf next ≠ some (.symlink target)) →
      Textual tmpfs root (names ++ [word]) (place.enter next) rest)
    (follows : ∀ target, LinkAt tmpfs place.node word target →
      Textual tmpfs root (linkNames names (linkText target)) (linkStart root place (linkText target))
        (linkWords (linkText target)) ∧ ∀ next, Textual tmpfs root (names ++ [word]) next rest) :
    Textual tmpfs root names place (word :: rest) := by
  intro last end_ ahead more meets
  generalize same : word :: rest = words at meets
  cases meets with
  | here =>
      cases same
      exact literal
  | self _ _ => exact absurd (List.cons.inj same).1 plain.1
  | up _ _ => exact absurd (List.cons.inj same).1 plain.2
  | enter _ found node meets =>
      cases same
      exact enters _ found node _ _ _ _ meets
  | inside _ link meets =>
      cases same
      exact (follows _ link).1 _ _ _ _ meets
  | after _ link _ meets =>
      cases same
      exact (follows _ link).2 _ _ _ _ _ meets

end Reading

section Tree

theorem LinkAt.unique {current : NodeId} {other : Str} (link : LinkAt tmpfs current word target)
    (again : LinkAt tmpfs current word other) : other = target := by
  obtain ⟨node, found, data⟩ := link
  obtain ⟨same, refound, redata⟩ := again
  rw [found] at refound
  cases refound
  rw [data] at redata
  cases redata
  rfl

end Tree

end Uesi.Vfs
