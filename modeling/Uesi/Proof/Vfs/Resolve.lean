import Uesi.Proof.Vfs.References
import Uesi.Proof.Vfs.Normalize

namespace Uesi.Vfs

open Library

variable {outcome : Except Errno NodeId} {before components rest : List Str} {followFinal : Bool} {current : NodeId}
  {path component : Str} {fuel : Nat} {tmpfs : Tmpfs}

def Tmpfs.dataOf (tmpfs : Tmpfs) (id : NodeId) : Option TmpfsData := (tmpfs.nodes id).map (·.data)

/-- The node that a name stands for in a directory. -/
def entryOf (tmpfs : Tmpfs) (dir : NodeId) (name : Str) : Except Errno NodeId :=
  match tmpfs.dataOf dir with
  | some (.dir entries _) =>
      match findEntry name entries with
      | some entry => .ok entry.node
      | none => .error .enoent
  | _ => .error .enotdir

/-- What follows after a component of a path was looked up in the tree: an answer, the walk from the
next node, or the resolution of the path that a symbolic link stands for. -/
inductive Advance where
  | stop (answer : Except Errno NodeId)
  | enter (next : NodeId)
  | follow (path : Str)

/-- One component of the walk in the tree alone, without vnodes and without a cache. -/
def advance (tmpfs : Tmpfs) (followFinal : Bool) (before : List Str) (component : Str) (rest : List Str)
    (depth : Nat) (current : NodeId) : Advance :=
  match entryOf tmpfs current component with
  | .error code => .stop (.error code)
  | .ok next =>
      match tmpfs.dataOf next with
      | some (.symlink target) =>
          if rest = [] ∧ followFinal = false then .stop (.ok next)
          else if vfsMaxSymlinkDepth ≤ depth then .stop (.error .eloop)
          else match linkPath before (target.take (vfsMaxPath - 1)) with
            | .error code => .stop (.error code)
            | .ok path => .follow path
      | _ => .enter next

theorem advance_error {depth : Nat} {code : Errno} (failed : entryOf tmpfs current component = .error code) :
    advance tmpfs followFinal before component rest depth current = .stop (.error code) := by
  rw [advance, failed]

/-- A node that is no symbolic link is entered. -/
theorem advance_enter {depth : Nat} {next : NodeId} (found : entryOf tmpfs current component = .ok next)
    (plain : ∀ target, tmpfs.dataOf next ≠ some (.symlink target)) :
    advance tmpfs followFinal before component rest depth current = .enter next := by
  simp only [advance, found]

/-- The walk over the components in the tree alone. -/
def walkNodes (lookup : Str → Option (Except Errno NodeId)) (tmpfs : Tmpfs) (followFinal : Bool) :
    List Str → List Str → Nat → NodeId → Option (Except Errno NodeId)
  | _, [], _, current => some (.ok current)
  | before, component :: rest, depth, current =>
      match advance tmpfs followFinal before component rest depth current with
      | .stop answer => some answer
      | .enter next => walkNodes lookup tmpfs followFinal (before ++ [component]) rest depth next
      | .follow path =>
          match lookup path with
          | none => none
          | some (.error code) => some (.error code)
          | some (.ok next) => walkNodes lookup tmpfs followFinal (before ++ [component]) rest (depth + 1) next

/-- The text that `vfs_normalize_path` writes for an absolute path. -/
def normalForm (path : Str) : Str := joinPath (pathTrail path).components

/-- The node that a path stands for in the tree alone, where the fuel bounds the nesting of links. -/
def resolve (tmpfs : Tmpfs) (root : NodeId) : Nat → Str → Bool → Option (Except Errno NodeId)
  | 0, _, _ => none
  | fuel + 1, path, followFinal =>
      if vfsIsAbsolutePath (some path) = false then some (.error .einval)
      else if vfsMaxPath ≤ path.length then some (.error .enametoolong)
      else walkNodes (resolve tmpfs root fuel · true) tmpfs followFinal []
        (splitComponents (normalForm path)) 0 root

section Fuel

variable {tmpfs : Tmpfs} {root : NodeId} {followFinal : Bool}

/-- More answers of the recursive calls change no answer of the walk. -/
theorem walkNodes_mono {lookup more : Str → Option (Except Errno NodeId)}
    (known : ∀ path outcome, lookup path = some outcome → more path = some outcome) {depth : Nat}
    (walked : walkNodes lookup tmpfs followFinal before components depth current = some outcome) :
    walkNodes more tmpfs followFinal before components depth current = some outcome := by
  induction components generalizing before depth current with
  | nil => exact walked
  | cons component rest ih =>
      unfold walkNodes at walked ⊢
      cases taken : advance tmpfs followFinal before component rest depth current with
      | stop answer => simpa only [taken] using walked
      | enter next =>
          simp only [taken] at walked ⊢
          exact ih walked
      | follow path =>
          simp only [taken] at walked ⊢
          cases found : lookup path with
          | none =>
              rw [found] at walked
              exact absurd walked (by simp)
          | some answer =>
              rw [known path answer found]
              rw [found] at walked
              cases answer with
              | error code => exact walked
              | ok next => exact ih walked

theorem resolve_succ (resolved : resolve tmpfs root fuel path followFinal = some outcome) :
    resolve tmpfs root (fuel + 1) path followFinal = some outcome := by
  induction fuel generalizing path followFinal outcome with
  | zero => exact absurd resolved (by simp [resolve])
  | succ fuel ih =>
      unfold resolve at resolved ⊢
      by_cases relative : vfsIsAbsolutePath (some path) = false
      · rw [if_pos relative] at resolved ⊢
        exact resolved
      · rw [if_neg relative] at resolved ⊢
        by_cases long : vfsMaxPath ≤ path.length
        · rw [if_pos long] at resolved ⊢
          exact resolved
        · rw [if_neg long] at resolved ⊢
          exact walkNodes_mono (fun _ _ known => ih known) resolved

/-- More fuel changes no answer. -/
theorem resolve_mono {more : Nat} (enough : fuel ≤ more)
    (resolved : resolve tmpfs root fuel path followFinal = some outcome) :
    resolve tmpfs root more path followFinal = some outcome := by
  induction more, enough using Nat.le_induction with
  | base => exact resolved
  | succ more _ ih => exact resolve_succ ih

end Fuel

/-- A walk in the tree ends with an outcome. -/
def Walks (tmpfs : Tmpfs) (root : NodeId) (followFinal : Bool) (before components : List Str) (depth : Nat)
    (current : NodeId) (outcome : Except Errno NodeId) : Prop :=
  ∃ fuel, walkNodes (resolve tmpfs root fuel · true) tmpfs followFinal before components depth current =
    some outcome

/-- A path resolves to an outcome in the tree. -/
def Resolves (tmpfs : Tmpfs) (root : NodeId) (path : Str) (followFinal : Bool)
    (outcome : Except Errno NodeId) : Prop :=
  ∃ fuel, resolve tmpfs root fuel path followFinal = some outcome

section Outcomes

variable {tmpfs : Tmpfs} {root : NodeId} {followFinal : Bool}

theorem Resolves.unique {first second : Except Errno NodeId} (one : Resolves tmpfs root path followFinal first)
    (two : Resolves tmpfs root path followFinal second) :
    first = second := by
  obtain ⟨fuel, resolved⟩ := one
  obtain ⟨more, again⟩ := two
  have left := resolve_mono (Nat.le_max_left fuel more) resolved
  rw [resolve_mono (Nat.le_max_right fuel more) again] at left
  exact (Option.some.inj left).symm

theorem Walks.unique {depth : Nat} {first second : Except Errno NodeId}
    (one : Walks tmpfs root followFinal before components depth current first)
    (two : Walks tmpfs root followFinal before components depth current second) : first = second := by
  obtain ⟨fuel, walked⟩ := one
  obtain ⟨more, again⟩ := two
  have left := walkNodes_mono (fun _ _ => resolve_mono (Nat.le_max_left fuel more)) walked
  rw [walkNodes_mono (fun _ _ => resolve_mono (Nat.le_max_right fuel more)) again] at left
  exact (Option.some.inj left).symm

section Steps

variable {before rest : List Str} {component : Str} {depth : Nat} {current next : NodeId}
  {outcome : Except Errno NodeId}

theorem Walks.stop (taken : advance tmpfs followFinal before component rest depth current = .stop outcome) :
    Walks tmpfs root followFinal before (component :: rest) depth current outcome :=
  ⟨0, by rw [walkNodes, taken]⟩

theorem Walks.enter (taken : advance tmpfs followFinal before component rest depth current = .enter next)
    (walks : Walks tmpfs root followFinal (before ++ [component]) rest depth next outcome) :
    Walks tmpfs root followFinal before (component :: rest) depth current outcome := by
  obtain ⟨fuel, walked⟩ := walks
  exact ⟨fuel, by rw [walkNodes, taken]; exact walked⟩

theorem Walks.failed {code : Errno}
    (taken : advance tmpfs followFinal before component rest depth current = .follow path)
    (resolved : Resolves tmpfs root path true (.error code)) :
    Walks tmpfs root followFinal before (component :: rest) depth current (.error code) := by
  obtain ⟨fuel, found⟩ := resolved
  exact ⟨fuel, by simp only [walkNodes, taken, found]⟩

theorem Walks.follow (taken : advance tmpfs followFinal before component rest depth current = .follow path)
    (resolved : Resolves tmpfs root path true (.ok next))
    (walks : Walks tmpfs root followFinal (before ++ [component]) rest (depth + 1) next outcome) :
    Walks tmpfs root followFinal before (component :: rest) depth current outcome := by
  obtain ⟨fuel, found⟩ := resolved
  obtain ⟨more, walked⟩ := walks
  refine ⟨max fuel more, ?_⟩
  simp only [walkNodes, taken, resolve_mono (Nat.le_max_left fuel more) found]
  exact walkNodes_mono (fun _ _ => resolve_mono (Nat.le_max_right fuel more)) walked

end Steps

end Outcomes

/-- A walk in the tree resolves a path with this normal form on its way, for a link or inside the
resolution of a link. -/
inductive Visits (tmpfs : Tmpfs) (root : NodeId) : Bool → List Str → List Str → Nat → NodeId → Str → Prop
  | enter {followFinal before component rest depth current next key}
      (taken : advance tmpfs followFinal before component rest depth current = .enter next)
      (later : Visits tmpfs root followFinal (before ++ [component]) rest depth next key) :
      Visits tmpfs root followFinal before (component :: rest) depth current key
  | link {followFinal before component rest depth current path}
      (taken : advance tmpfs followFinal before component rest depth current = .follow path) :
      Visits tmpfs root followFinal before (component :: rest) depth current (normalForm path)
  | inside {followFinal before component rest depth current path key}
      (taken : advance tmpfs followFinal before component rest depth current = .follow path)
      (inner : Visits tmpfs root true [] (splitComponents (normalForm path)) 0 root key) :
      Visits tmpfs root followFinal before (component :: rest) depth current key
  | after {followFinal before component rest depth current path next key}
      (taken : advance tmpfs followFinal before component rest depth current = .follow path)
      (resolved : Resolves tmpfs root path true (.ok next))
      (later : Visits tmpfs root followFinal (before ++ [component]) rest (depth + 1) next key) :
      Visits tmpfs root followFinal before (component :: rest) depth current key

theorem appendComponents_ok {result : Str} (absolute : path.head? = some slash)
    (appended : appendComponents path components = .ok result) :
    result.head? = some slash := by
  induction components generalizing path with
  | nil =>
      cases appended
      exact absolute
  | cons component rest ih =>
      have started (tail : Str) : (path ++ tail).head? = some slash := by
        rw [List.head?_append, absolute]
        rfl
      unfold appendComponents at appended
      split at appended
      · exact absurd appended (by simp)
      · split at appended
        · exact ih (started _) appended
        · exact ih (started _) appended

/-- A link stands for an absolute path that fits. -/
theorem linkPath_ok {target : Str} (short : target.length < vfsMaxPath) (linked : linkPath before target = .ok path) :
    vfsIsAbsolutePath (some path) = true ∧ path.length < vfsMaxPath := by
  have absolute_of {text : Str} (started : text.head? = some slash) : vfsIsAbsolutePath (some text) = true := by
    cases text with
    | nil => exact absurd started (by simp)
    | cons first rest => simpa [vfsIsAbsolutePath] using started
  unfold linkPath at linked
  by_cases absolute : target.head? = some slash
  · rw [if_pos absolute] at linked
    cases linked
    exact ⟨absolute_of absolute, short⟩
  · rw [if_neg absolute] at linked
    cases appended : appendComponents [slash] before with
    | error code =>
        rw [appended] at linked
        exact absurd linked (by simp [bind, Except.bind])
    | ok parent =>
        have started := appendComponents_ok rfl appended
        have joined (tail : Str) : vfsIsAbsolutePath (some (parent ++ tail)) = true :=
          absolute_of (by rw [List.head?_append, started]; rfl)
        rw [appended] at linked
        simp only [bind, Except.bind] at linked
        split at linked
        · exact absurd linked (by simp)
        · split at linked
          · cases linked
            refine ⟨joined _, ?_⟩
            simp only [List.length_append, List.length_cons]
            omega
          · cases linked
            refine ⟨joined _, ?_⟩
            simp only [List.length_append]
            omega

theorem advance_follow {depth : Nat}
    (taken : advance tmpfs followFinal before component rest depth current = .follow path) :
    vfsIsAbsolutePath (some path) = true ∧ path.length < vfsMaxPath := by
  unfold advance at taken
  split at taken
  · exact absurd taken (by simp)
  · split at taken
    · split at taken
      · exact absurd taken (by simp)
      · split at taken
        · exact absurd taken (by simp)
        · split at taken
          · exact absurd taken (by simp)
          · rename_i linked
            cases taken
            refine linkPath_ok ?_ linked
            rw [List.length_take]
            have positive : 0 < vfsMaxPath := by decide
            omega
    · exact absurd taken (by simp)

section Descent

variable {tmpfs : Tmpfs} {root : NodeId}

/-- A path that fits is resolved by the walk over its components. -/
theorem resolve_walk (absolute : vfsIsAbsolutePath (some path) = true) (fits : path.length < vfsMaxPath) :
    resolve tmpfs root (fuel + 1) path followFinal = walkNodes (resolve tmpfs root fuel · true) tmpfs
      followFinal [] (splitComponents (normalForm path)) 0 root := by
  rw [resolve, if_neg (by simp [absolute]), if_neg (Nat.not_le.mpr fits)]

/-- What is resolved inside of a resolution takes less fuel. -/
theorem Visits.less_fuel {depth : Nat} {key : Str}
    (visits : Visits tmpfs root followFinal before components depth current key)
    (walked : walkNodes (resolve tmpfs root fuel · true) tmpfs followFinal before components depth current =
      some outcome) :
    ∃ less inner, less < fuel ∧ walkNodes (resolve tmpfs root less · true) tmpfs true []
      (splitComponents key) 0 root = some inner := by
  -- A link that is followed has an answer already with one unit of fuel less.
  have followed {followFinal : Bool} {before rest : List Str} {component path : Str} {depth : Nat}
      {current : NodeId} {fuel : Nat} {outcome : Except Errno NodeId}
      (taken : advance tmpfs followFinal before component rest depth current = .follow path)
      (walked : walkNodes (resolve tmpfs root fuel · true) tmpfs followFinal before (component :: rest) depth
        current = some outcome) :
      ∃ less answer, fuel = less + 1 ∧ resolve tmpfs root fuel path true = some answer ∧
        walkNodes (resolve tmpfs root less · true) tmpfs true [] (splitComponents (normalForm path)) 0 root =
          some answer := by
    obtain ⟨absolute, fits⟩ := advance_follow taken
    simp only [walkNodes, taken] at walked
    cases resolved : resolve tmpfs root fuel path true with
    | none =>
        rw [resolved] at walked
        exact absurd walked (by simp)
    | some answer =>
        cases fuel with
        | zero => exact absurd resolved (by simp [resolve])
        | succ less => exact ⟨less, answer, rfl, rfl, by rw [← resolve_walk absolute fits, resolved]⟩
  induction visits generalizing fuel outcome with
  | enter taken later ih =>
      simp only [walkNodes, taken] at walked
      exact ih walked
  | link taken =>
      obtain ⟨less, answer, rfl, _, inner⟩ := followed taken walked
      exact ⟨less, answer, Nat.lt_succ_self less, inner⟩
  | inside taken inner ih =>
      obtain ⟨less, answer, rfl, _, walked'⟩ := followed taken walked
      obtain ⟨fewer, result, below, found⟩ := ih walked'
      exact ⟨fewer, result, Nat.lt_succ_of_lt below, found⟩
  | after taken resolved later ih =>
      obtain ⟨_, answer, _, known, _⟩ := followed taken walked
      obtain rfl := Resolves.unique ⟨fuel, known⟩ resolved
      simp only [walkNodes, taken, known] at walked
      exact ih walked

/-- A path that resolves is not resolved again on the way. -/
theorem Walks.not_visits_self {key : Str} (walks : Walks tmpfs root true [] (splitComponents key) 0 root outcome) :
    ¬ Visits tmpfs root true [] (splitComponents key) 0 root key := by
  intro visits
  obtain ⟨fuel, walked⟩ := walks
  induction fuel using Nat.strong_induction_on generalizing outcome with
  | _ fuel ih =>
      obtain ⟨less, inner, below, again⟩ := visits.less_fuel walked
      exact ih less below again

end Descent

end Uesi.Vfs
