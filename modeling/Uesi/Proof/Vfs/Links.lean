import Uesi.Proof.Vfs.Coherence
import Uesi.Proof.Vfs.Parent

namespace Uesi.Vfs

open Library

/-- A component of a walk is a symbolic link with this target. -/
def LinkAt (tmpfs : Tmpfs) (current : NodeId) (component target : Str) : Prop :=
  ∃ link, entryOf tmpfs current component = .ok link ∧ tmpfs.dataOf link = some (.symlink target)

/-- The path that a symbolic link behind some components stands for, where the buffer of the lookup cuts
the target. -/
def targetPath (before : List Str) (target : Str) : Except Errno Str :=
  linkPath before (target.take (vfsMaxPath - 1))

/-- A walk whose links are followed without any limit meets this number of links in total, those inside
of the resolution of links included, and ends with the outcome. -/
inductive Traverses (tmpfs : Tmpfs) (root : NodeId) :
    List Str → List Str → NodeId → Nat → Except Errno NodeId → Prop
  | arrive {before current} : Traverses tmpfs root before [] current 0 (.ok current)
  | missing {before component rest current code} (failed : entryOf tmpfs current component = .error code) :
      Traverses tmpfs root before (component :: rest) current 0 (.error code)
  | enter {before component rest current next links outcome}
      (found : entryOf tmpfs current component = .ok next)
      (plain : ∀ target, tmpfs.dataOf next ≠ some (.symlink target))
      (later : Traverses tmpfs root (before ++ [component]) rest next links outcome) :
      Traverses tmpfs root before (component :: rest) current links outcome
  | long {before component rest current target code} (link : LinkAt tmpfs current component target)
      (failed : targetPath before target = .error code) :
      Traverses tmpfs root before (component :: rest) current 1 (.error code)
  | failed {before component rest current target path inside code} (link : LinkAt tmpfs current component target)
      (built : targetPath before target = .ok path)
      (inner : Traverses tmpfs root [] (splitComponents (normalForm path)) root inside (.error code)) :
      Traverses tmpfs root before (component :: rest) current (inside + 1) (.error code)
  | follow {before component rest current target path inside next links outcome}
      (link : LinkAt tmpfs current component target) (built : targetPath before target = .ok path)
      (inner : Traverses tmpfs root [] (splitComponents (normalForm path)) root inside (.ok next))
      (later : Traverses tmpfs root (before ++ [component]) rest next links outcome) :
      Traverses tmpfs root before (component :: rest) current (inside + 1 + links) outcome

/-- One activation of the lookup, the outer one or one for a link, meets one link more than the limit,
not counting those inside of the resolution of links. -/
inductive Overflows (tmpfs : Tmpfs) (root : NodeId) : List Str → List Str → Nat → NodeId → Prop
  | here {before component rest depth current target} (link : LinkAt tmpfs current component target)
      (deep : vfsMaxSymlinkDepth ≤ depth) : Overflows tmpfs root before (component :: rest) depth current
  | enter {before component rest depth current next} (found : entryOf tmpfs current component = .ok next)
      (plain : ∀ target, tmpfs.dataOf next ≠ some (.symlink target))
      (later : Overflows tmpfs root (before ++ [component]) rest depth next) :
      Overflows tmpfs root before (component :: rest) depth current
  | inside {before component rest depth current target path} (link : LinkAt tmpfs current component target)
      (shallow : depth < vfsMaxSymlinkDepth) (built : targetPath before target = .ok path)
      (inner : Overflows tmpfs root [] (splitComponents (normalForm path)) 0 root) :
      Overflows tmpfs root before (component :: rest) depth current
  | after {before component rest depth current target path next} (link : LinkAt tmpfs current component target)
      (shallow : depth < vfsMaxSymlinkDepth) (built : targetPath before target = .ok path)
      (resolved : Resolves tmpfs root path true (.ok next))
      (later : Overflows tmpfs root (before ++ [component]) rest (depth + 1) next) :
      Overflows tmpfs root before (component :: rest) depth current

section Walks

variable {tmpfs : Tmpfs} {root : NodeId} {before components rest : List Str} {component target path : Str}
  {depth links : Nat} {current next : NodeId} {outcome : Except Errno NodeId} {code : Errno}

theorem LinkAt.advance_deep (link : LinkAt tmpfs current component target) (deep : vfsMaxSymlinkDepth ≤ depth) :
    advance tmpfs true before component rest depth current = .stop (.error .eloop) := by
  obtain ⟨node, found, data⟩ := link
  simp [advance, found, data, deep]

theorem LinkAt.advance_long (link : LinkAt tmpfs current component target) (shallow : depth < vfsMaxSymlinkDepth)
    (failed : targetPath before target = .error code) :
    advance tmpfs true before component rest depth current = .stop (.error code) := by
  obtain ⟨node, found, data⟩ := link
  rw [targetPath] at failed
  simp [advance, found, data, Nat.not_le.mpr shallow, failed]

theorem LinkAt.advance_follow (link : LinkAt tmpfs current component target) (shallow : depth < vfsMaxSymlinkDepth)
    (built : targetPath before target = .ok path) :
    advance tmpfs true before component rest depth current = .follow path := by
  obtain ⟨node, found, data⟩ := link
  rw [targetPath] at built
  simp [advance, found, data, Nat.not_le.mpr shallow, built]

theorem targetPath_ok (built : targetPath before target = .ok path) :
    vfsIsAbsolutePath (some path) = true ∧ path.length < vfsMaxPath := by
  refine linkPath_ok ?_ built
  rw [List.length_take]
  have positive : 0 < vfsMaxPath := by decide
  omega

/-- A component is missing, a node to enter, or a link. -/
theorem component_cases (tmpfs : Tmpfs) (current : NodeId) (component : Str) :
    (∃ code, entryOf tmpfs current component = .error code) ∨
      (∃ next, entryOf tmpfs current component = .ok next ∧ ∀ target, tmpfs.dataOf next ≠ some (.symlink target)) ∨
      ∃ target, LinkAt tmpfs current component target := by
  cases found : entryOf tmpfs current component with
  | error code => exact Or.inl ⟨code, rfl⟩
  | ok next =>
      by_cases link : ∃ target, tmpfs.dataOf next = some (.symlink target)
      · obtain ⟨target, data⟩ := link
        exact Or.inr (Or.inr ⟨target, next, found, data⟩)
      · exact Or.inr (Or.inl ⟨next, rfl, fun target data => link ⟨target, data⟩⟩)

/-- A walk that meets few links ends in the same way with the limit. -/
theorem Traverses.walks (traverses : Traverses tmpfs root before components current links outcome)
    (few : depth + links ≤ vfsMaxSymlinkDepth) : Walks tmpfs root true before components depth current outcome := by
  induction traverses generalizing depth with
  | arrive => exact ⟨0, rfl⟩
  | missing failed => exact (walks_missing failed).mpr rfl
  | enter found plain later ih => exact .enter (advance_enter found plain) (ih few)
  | long link failed => exact .stop (link.advance_long (by omega) failed)
  | failed link built inner ih =>
      obtain ⟨absolute, fits⟩ := targetPath_ok built
      exact .failed (link.advance_follow (by omega) built) ((ih (by omega)).resolves absolute fits)
  | follow link built inner later ihInner ihLater =>
      obtain ⟨absolute, fits⟩ := targetPath_ok built
      exact .follow (link.advance_follow (by omega) built) ((ihInner (by omega)).resolves absolute fits)
        (ihLater (by omega))

/-- A ninth link in one activation ends the walk with `-ELOOP`. -/
theorem Overflows.walks (overflows : Overflows tmpfs root before components depth current) :
    Walks tmpfs root true before components depth current (.error .eloop) := by
  induction overflows with
  | here link deep => exact .stop (link.advance_deep deep)
  | enter found plain later ih => exact .enter (advance_enter found plain) ih
  | inside link shallow built inner ih =>
      obtain ⟨absolute, fits⟩ := targetPath_ok built
      exact .failed (link.advance_follow shallow built) (ih.resolves absolute fits)
  | after link shallow built resolved later ih => exact .follow (link.advance_follow shallow built) resolved ih

theorem appendComponents_error {path : Str} {components : List Str}
    (failed : appendComponents path components = .error code) : code = .enametoolong := by
  induction components generalizing path with
  | nil => exact absurd failed (by simp [appendComponents])
  | cons component rest ih =>
      unfold appendComponents at failed
      split at failed
      · exact (Except.error.inj failed).symm
      · split at failed
        · exact ih failed
        · exact ih failed

/-- The only error of the path of a link is that it is too long. -/
theorem targetPath_error (failed : targetPath before target = .error code) : code = .enametoolong := by
  unfold targetPath linkPath at failed
  split at failed
  · exact absurd failed (by simp)
  · cases appended : appendComponents [slash] before with
    | error other =>
        rw [appended] at failed
        cases failed
        exact appendComponents_error appended
    | ok path =>
        rw [appended] at failed
        simp only [bind, Except.bind] at failed
        split at failed
        · exact (Except.error.inj failed).symm
        · split at failed
          · exact absurd failed (by simp [pure, Except.pure])
          · exact absurd failed (by simp [pure, Except.pure])

theorem entryOf_error (failed : entryOf tmpfs current component = .error code) : code ≠ .eloop := by
  unfold entryOf at failed
  split at failed
  · split at failed
    · exact absurd failed (by simp)
    · cases failed
      simp
  · cases failed
    simp

/-- Only a ninth link in one activation ends a walk with `-ELOOP`. -/
theorem Walks.overflows (walks : Walks tmpfs root true before components depth current (.error .eloop)) :
    Overflows tmpfs root before components depth current := by
  obtain ⟨fuel, walked⟩ := walks
  -- A nested resolution has less fuel, and a later component is one of fewer.
  induction fuel using Nat.strong_induction_on generalizing before components depth current with
  | _ fuel inner =>
      induction components generalizing before depth current with
      | nil => exact absurd walked (by simp [walkNodes])
      | cons component rest ih =>
          obtain ⟨code, failed⟩ | ⟨next, found, plain⟩ | ⟨target, link⟩ := component_cases tmpfs current component
          · simp only [walkNodes, advance_error failed, Option.some.injEq, Except.error.injEq] at walked
            exact absurd walked (entryOf_error failed)
          · simp only [walkNodes, advance_enter found plain] at walked
            exact .enter found plain (ih walked)
          · by_cases deep : vfsMaxSymlinkDepth ≤ depth
            · exact .here link deep
            · have shallow := Nat.not_le.mp deep
              cases built : targetPath before target with
              | error code =>
                  simp only [walkNodes, link.advance_long shallow built, Option.some.injEq,
                    Except.error.injEq] at walked
                  rw [targetPath_error built] at walked
                  exact absurd walked (by simp)
              | ok path =>
                  obtain ⟨absolute, fits⟩ := targetPath_ok built
                  simp only [walkNodes, link.advance_follow shallow built] at walked
                  cases resolved : resolve tmpfs root fuel path true with
                  | none => simp [resolved] at walked
                  | some answer =>
                      cases answer with
                      | error code =>
                          simp only [resolved, Option.some.injEq, Except.error.injEq] at walked
                          subst walked
                          cases fuel with
                          | zero => exact absurd resolved (by simp [resolve])
                          | succ less =>
                              rw [resolve_walk absolute fits] at resolved
                              exact .inside link shallow built (inner less (Nat.lt_succ_self less) resolved)
                      | ok next =>
                          simp only [resolved] at walked
                          exact .after link shallow built ⟨_, resolved⟩ (ih walked)

end Walks

/-- The resolution of a path meets at most this number of links in total. A path that does not fit is
refused before it meets any. -/
def LinksAtMost (tmpfs : Tmpfs) (root : NodeId) (path : Str) (most : Nat) : Prop :=
  vfsMaxPath ≤ path.length ∨ ∃ links ≤ most, ∃ outcome,
    Traverses tmpfs root [] (splitComponents (normalForm path)) root links outcome

/-- Some activation of the resolution of a path meets nine links of its own. -/
def NinthLink (tmpfs : Tmpfs) (root : NodeId) (path : Str) : Prop :=
  path.length < vfsMaxPath ∧ Overflows tmpfs root [] (splitComponents (normalForm path)) 0 root

/-- The lookup of a path returns, and with `-ELOOP` when it meets more links than the limit in total. -/
def LimitsLinks (state : VfsState) (root : NodeId) (path : Str) : Prop :=
  ∃ outcome, (∃ fuel, lookupOutcome state fuel path = some outcome) ∧
    (¬ LinksAtMost state.tmpfs root path vfsMaxSymlinkDepth → outcome = .error .eloop)

/-- For every tree with a sound cache and every absolute path: the lookup returns, and with `-ELOOP` when
more than eight links are met in total, if and only if at most eight links are met in total or some
activation meets nine of its own. -/
theorem vfsLookup_limits_iff {state : VfsState} {held : VnodeId → Nat} {root : NodeId}
    (sound : Sound state held root) {path : Str} (absolute : vfsIsAbsolutePath (some path) = true) :
    LimitsLinks state root path ↔
      LinksAtMost state.tmpfs root path vfsMaxSymlinkDepth ∨ NinthLink state.tmpfs root path := by
  have returns (outcome : Except Errno NodeId) : (∃ fuel, lookupOutcome state fuel path = some outcome) ↔
      Resolves state.tmpfs root path true outcome := sound.exists_lookup path outcome
  constructor
  · rintro ⟨outcome, looked, limit⟩
    by_cases few : LinksAtMost state.tmpfs root path vfsMaxSymlinkDepth
    · exact Or.inl few
    · right
      have fits : path.length < vfsMaxPath := Nat.not_le.mp fun long => few (Or.inl long)
      rw [returns, limit few, resolves_iff_walks absolute fits, ← splitComponents_normalForm] at looked
      exact ⟨fits, looked.overflows⟩
  · rintro ((long | ⟨links, few, outcome, traverses⟩) | ⟨fits, overflows⟩)
    · exact ⟨.error .enametoolong, (returns _).mpr (.too_long absolute long), fun many => absurd (Or.inl long) many⟩
    · by_cases long : vfsMaxPath ≤ path.length
      · exact ⟨.error .enametoolong, (returns _).mpr (.too_long absolute long),
          fun many => absurd (Or.inl long) many⟩
      · have walks := traverses.walks (by omega : 0 + links ≤ vfsMaxSymlinkDepth)
        refine ⟨outcome, (returns _).mpr (walks.resolves absolute (Nat.not_le.mp long)), fun many => ?_⟩
        exact absurd (Or.inr ⟨links, few, outcome, traverses⟩) many
    · exact ⟨.error .eloop, (returns _).mpr (overflows.walks.resolves absolute fits), fun _ => rfl⟩

theorem relativeTree_x : entryOf relativeTree.tmpfs 0 [120] = .ok 1 := by decide +kernel

theorem relativeTree_y : entryOf relativeTree.tmpfs 1 [121] = .ok 2 := by decide +kernel

theorem relativeTree_s : LinkAt relativeTree.tmpfs 0 [115] [47, 120, 47, 121] :=
  ⟨3, by decide +kernel, kindOf_symlink.mp (by decide +kernel)⟩

theorem relativeTree_l : LinkAt relativeTree.tmpfs 2 [108] [46, 46, 47, 102] :=
  ⟨4, by decide +kernel, kindOf_symlink.mp (by decide +kernel)⟩

theorem relativeTree_directory (node : NodeId) (kind : relativeTree.tmpfs.kindOf node = some .dir)
    (target : Str) : relativeTree.tmpfs.dataOf node ≠ some (.symlink target) := by
  rw [ne_eq, ← kindOf_symlink, kind]
  simp

theorem relativeTree_file (node : NodeId) (kind : relativeTree.tmpfs.kindOf node = some .file)
    (target : Str) : relativeTree.tmpfs.dataOf node ≠ some (.symlink target) := by
  rw [ne_eq, ← kindOf_symlink, kind]
  simp

/-- The lookup of `/s/l` meets two links in total. -/
theorem vfsLookup_limits_iff_two : LimitsLinks relativeTree 0 [47, 115, 47, 108] := by
  obtain ⟨held, ready⟩ := ready_relativeTree
  refine (vfsLookup_limits_iff ready.sound (by decide)).mpr (Or.inl (Or.inr ⟨2, by decide, .ok 5, ?_⟩))
  have x := relativeTree_directory 1 (by decide +kernel)
  have y := relativeTree_directory 2 (by decide +kernel)
  have f := relativeTree_file 5 (by decide +kernel)
  have directory : Traverses relativeTree.tmpfs 0 [] [[120], [121]] 0 0 (.ok 2) :=
    .enter relativeTree_x x (.enter relativeTree_y y .arrive)
  have file : Traverses relativeTree.tmpfs 0 [] [[102]] 0 0 (.ok 5) := .enter (by decide +kernel) f .arrive
  have first : targetPath [] [47, 120, 47, 121] = .ok [47, 120, 47, 121] := by decide
  -- The text of the second link is `/f` in normal form.
  have second : targetPath [[115]] [46, 46, 47, 102] = .ok [47, 115, 47, 46, 46, 47, 102] := by decide
  exact .follow relativeTree_s first directory (.follow relativeTree_l second file .arrive)

/-- The state after the symbolic link `/a` to `/a` was made. -/
def afterSelfLink : VfsState := finalState (vfsSymlink 1 [47, 97] [47, 97]) mountedRoot

/-- The lookup of a link to itself does not return, whatever the fuel is. -/
theorem vfsLookup_self_link :
    (∀ fuel, lookupOutcome afterSelfLink fuel [47, 97] = none) ∧ ¬ LimitsLinks afterSelfLink 0 [47, 97] := by
  have made : Returns (vfsSymlink 1 [47, 97] [47, 97]) (Ready · 0 0) mountedRoot :=
    ready_mountedRoot.vfsSymlink [47, 97]
  have ran : vfsSymlink 1 [47, 97] [47, 97] mountedRoot = .ok (.ok ()) afterSelfLink := by
    with_unfolding_all rfl
  rw [Returns, Post, ran] at made
  have normal : normalForm [47, 97] = [47, 97] := by decide
  have components : splitComponents [47, 97] = [[97]] := by decide
  have link : LinkAt afterSelfLink.tmpfs 0 [97] [47, 97] :=
    ⟨1, by decide +kernel, kindOf_symlink.mp (by decide +kernel)⟩
  have visits : Visits afterSelfLink.tmpfs 0 true [] (splitComponents [47, 97]) 0 0 (normalForm [47, 97]) := by
    rw [components]
    exact .link (link.advance_follow (by decide) (by decide))
  rw [normal] at visits
  have never (fuel : Nat) : lookupOutcome afterSelfLink fuel [47, 97] = none := by
    cases looked : lookupOutcome afterSelfLink fuel [47, 97] with
    | none => rfl
    | some outcome =>
        have resolved := made.sound.resolves_of_lookup looked
        rw [resolves_iff_walks (by decide) (by decide), ← splitComponents_normalForm, normal] at resolved
        exact absurd visits resolved.not_visits_self
  refine ⟨never, ?_⟩
  rintro ⟨outcome, ⟨fuel, looked⟩, _⟩
  rw [never fuel] at looked
  exact absurd looked (by simp)

end Uesi.Vfs
