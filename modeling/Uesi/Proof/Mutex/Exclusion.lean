import Uesi.Construction.Mutex
import Uesi.Library.Exec

namespace Uesi.Locking

open Library

/-- One mutex and its tasks: which of them are in the loop of `mutex_lock`, and how often each has come back with
the mutex and has unlocked it. -/
structure Contest where
  mutex : Mutex
  waiting : Nat → Bool := fun _ => false
  acquired : Nat → Nat := fun _ => 0
  released : Nat → Nat := fun _ => 0

/-- The critical sections of the calls. A retry is the next round of a task in the loop of `mutex_lock`. -/
inductive MutexOp where
  | lock (task : Nat) (entry : Bool)
  | retry (task : Nat) (entry : Bool)
  | trylock (task : Nat)
  | unlock (task : Nat)

/-- The task of a critical section. -/
def MutexOp.task : MutexOp → Nat
  | .lock task _ | .retry task _ | .trylock task | .unlock task => task

/-- A critical section is the next one of its task: a retry in the loop of `mutex_lock`, a new call outside. -/
def MutexOp.enabled (contest : Contest) : MutexOp → Bool
  | .retry task _ => contest.waiting task
  | .lock task _ | .trylock task | .unlock task => !contest.waiting task

/-- The task comes back from an attempt, or stays in the loop of `mutex_lock`. -/
def Contest.settle (contest : Contest) (task : Nat) (waits : Bool) (result : Bool × Mutex) : Contest where
  mutex := result.2
  waiting := Function.update contest.waiting task waits
  acquired :=
    if result.1 then Function.update contest.acquired task (contest.acquired task + 1) else contest.acquired
  released := contest.released

/-- The task has unlocked the mutex. -/
def Contest.unlocked (contest : Contest) (task : Nat) (mutex : Mutex) : Contest where
  mutex := mutex
  waiting := contest.waiting
  acquired := contest.acquired
  released := Function.update contest.released task (contest.released task + 1)

/-- The effect of a critical section. -/
def sectionEffect (contest : Contest) : MutexOp → Except Panic Contest
  | .lock task entry =>
      (lockSection contest.mutex task entry).map fun result => contest.settle task (!result.1) result
  | .retry task entry =>
      (lockRound contest.mutex task entry).map fun result => contest.settle task (!result.1) result
  | .trylock task => .ok (contest.settle task false (trylockSection contest.mutex task))
  | .unlock task => (unlockSection contest.mutex task).map fun result => contest.unlocked task result.2

/-- A step of an interleaving: the next critical section of a task. A panic ends the run. -/
def mutexStep (op : MutexOp) : EStateM Panic Contest Unit := do
  let contest ← get
  if op.enabled contest then
    match sectionEffect contest op with
    | .error panic => throw panic
    | .ok next => set next

/-- The task has come back with the mutex more often than it has unlocked it. -/
def Contest.inside (contest : Contest) (task : Nat) : Prop := contest.released task < contest.acquired task

/-- At most one task is inside, the mutex names it as its owner and counts its outstanding acquisitions, and there
are several of them only for a recursive mutex. -/
structure Excludes (contest : Contest) : Prop where
  alone : ∀ task other, contest.inside task → contest.inside other → task = other
  owner : ∀ task, contest.inside task → contest.mutex.owner = some task
  free : (∀ task, ¬ contest.inside task) → contest.mutex.owner = none
  count : ∀ task, contest.inside task →
    contest.acquired task - contest.released task = contest.mutex.recurse.toNat
  recursive : 1 < contest.mutex.recurse.toNat → contest.mutex.has mtxRecurse = true

/-- The owner of a recursive mutex takes it once more. -/
def Recurses (contest : Contest) : MutexOp → Prop
  | .lock task _ | .trylock task =>
      contest.waiting task = false ∧ contest.mutex.owner = some task ∧ contest.mutex.has mtxRecurse = true
  | .retry _ _ | .unlock _ => False

/-- The count of the acquisitions does not leave the range of `mtx_recurse`. -/
def Counted (contest : Contest) (op : MutexOp) : Prop :=
  Recurses contest op → contest.mutex.recurse.toNat + 1 < 2 ^ 32

/-- What a critical section can do. -/
inductive Turn (contest : Contest) (op : MutexOp) : Contest → Prop
  | acquires (waiting : Nat → Bool) (free : contest.mutex.owner = none) :
      Turn contest op ⟨contest.mutex.acquire op.task, waiting,
        Function.update contest.acquired op.task (contest.acquired op.task + 1), contest.released⟩
  | recurses (waiting : Nat → Bool) (again : Recurses contest op) (own : contest.mutex.owner = some op.task)
      (allowed : contest.mutex.has mtxRecurse = true) :
      Turn contest op ⟨{ contest.mutex with recurse := contest.mutex.recurse + 1 }, waiting,
        Function.update contest.acquired op.task (contest.acquired op.task + 1), contest.released⟩
  | stays (waiting : Nat → Bool) (waitq : List Nat) :
      Turn contest op ⟨{ contest.mutex with waitq := waitq }, waiting, contest.acquired, contest.released⟩
  | unwinds (waiting : Nat → Bool) (own : contest.mutex.owner = some op.task) (several : 1 < contest.mutex.recurse) :
      Turn contest op ⟨{ contest.mutex with recurse := contest.mutex.recurse - 1 }, waiting, contest.acquired,
        Function.update contest.released op.task (contest.released op.task + 1)⟩
  | frees (waiting : Nat → Bool) (waitq : List Nat) (own : contest.mutex.owner = some op.task)
      (last : ¬ 1 < contest.mutex.recurse) :
      Turn contest op ⟨{ contest.mutex with owner := none, recurse := 0, waitq := waitq }, waiting, contest.acquired,
        Function.update contest.released op.task (contest.released op.task + 1)⟩

variable {contest next : Contest} {op : MutexOp}

theorem lockSection_eq (mtx : Mutex) (task : Nat) (entry : Bool) :
    lockSection mtx task entry =
      if mtx.owner = some task then
        if mtx.has mtxRecurse then .ok (true, { mtx with recurse := mtx.recurse + 1 }) else .error .recursiveLock
      else lockRound mtx task entry := by
  unfold lockSection lockRecursive
  split_ifs with own allowed
  · rfl
  · rfl
  · rfl

/-- A round of the loop takes a free mutex, and waits otherwise. -/
theorem lockRound_turn {result : Bool × Mutex} {entry : Bool} (waits : Bool)
    (ran : lockRound contest.mutex op.task entry = .ok result) :
    Turn contest op (contest.settle op.task waits result) := by
  unfold lockRound mtxWaitqEnqueue at ran
  split_ifs at ran with free spins stored
  · obtain rfl := Except.ok.inj ran
    exact .acquires _ free
  · obtain rfl := Except.ok.inj ran
    exact .stays _ contest.mutex.waitq
  · obtain rfl := Except.ok.inj ran
    exact .stays _ _
  · exact absurd ran (by simp [Except.map])

theorem lockSection_turn {task : Nat} {entry waits : Bool} {result : Bool × Mutex}
    (outside : contest.waiting task = false) (ran : lockSection contest.mutex task entry = .ok result) :
    Turn contest (.lock task entry) (contest.settle task waits result) := by
  rw [lockSection_eq] at ran
  split_ifs at ran with own allowed
  · obtain rfl := Except.ok.inj ran
    exact .recurses _ ⟨outside, own, allowed⟩ own allowed
  · exact lockRound_turn waits ran

theorem trylockSection_turn {task : Nat} (waits : Bool) (outside : contest.waiting task = false) :
    Turn contest (.trylock task) (contest.settle task waits (trylockSection contest.mutex task)) := by
  unfold trylockSection
  split_ifs with own allowed taken
  · exact .recurses _ ⟨outside, own, allowed⟩ own allowed
  · exact .stays _ contest.mutex.waitq
  · exact .stays _ contest.mutex.waitq
  · exact .acquires _ (not_not.mp taken)

theorem unlockSection_turn {task : Nat} {result : Option Nat × Mutex}
    (ran : unlockSection contest.mutex task = .ok result) :
    Turn contest (.unlock task) (contest.unlocked task result.2) := by
  unfold unlockSection at ran
  split_ifs at ran with other several
  · obtain rfl := Except.ok.inj ran
    exact .unwinds _ (not_not.mp other) several
  · obtain rfl := Except.ok.inj ran
    unfold mtxWaitqDequeue
    split
    · exact .frees _ contest.mutex.waitq (not_not.mp other) several
    · exact .frees _ _ (not_not.mp other) several

/-- A result of an operation that is mapped comes from a result of the operation. -/
theorem ok_of_map {α β : Type} {result : Except Panic α} {change : α → β} {value : β}
    (mapped : result.map change = .ok value) : ∃ given, result = .ok given ∧ change given = value := by
  cases result with
  | error panic => exact absurd mapped (by simp [Except.map])
  | ok given => exact ⟨given, rfl, Except.ok.inj mapped⟩

/-- Every critical section that does not panic is one of the turns. -/
theorem sectionEffect_turn (enabled : op.enabled contest = true) (ran : sectionEffect contest op = .ok next) :
    Turn contest op next := by
  cases op with
  | lock task entry =>
      obtain ⟨result, round, rfl⟩ := ok_of_map ran
      exact lockSection_turn (by simpa [MutexOp.enabled] using enabled) round
  | retry task entry =>
      obtain ⟨result, round, rfl⟩ := ok_of_map ran
      exact lockRound_turn _ round
  | trylock task =>
      obtain rfl := Except.ok.inj ran
      exact trylockSection_turn false (by simpa [MutexOp.enabled] using enabled)
  | unlock task =>
      obtain ⟨result, round, rfl⟩ := ok_of_map ran
      exact unlockSection_turn round

/-- The acquisitions of every task are balanced, apart from those that the mutex counts for its owner. -/
structure Balanced (contest : Contest) : Prop where
  count : ∀ task, contest.acquired task =
    contest.released task + if contest.mutex.owner = some task then contest.mutex.recurse.toNat else 0
  held : contest.mutex.owner ≠ none ↔ contest.mutex.recurse.toNat ≠ 0
  recursive : 1 < contest.mutex.recurse.toNat → contest.mutex.has mtxRecurse = true

theorem Balanced.inside_iff (balanced : Balanced contest) (task : Nat) :
    contest.inside task ↔ contest.mutex.owner = some task := by
  unfold Contest.inside
  rw [balanced.count task]
  constructor
  · intro more
    by_contra other
    rw [if_neg other] at more
    omega
  · intro own
    have counted := balanced.held.mp (by rw [own]; simp)
    rw [if_pos own]
    omega

theorem Balanced.excludes (balanced : Balanced contest) : Excludes contest where
  alone task other first second := by
    rw [balanced.inside_iff] at first second
    exact Option.some.inj (first.symm.trans second)
  owner task inside := (balanced.inside_iff task).mp inside
  free nobody := by
    by_contra taken
    obtain ⟨task, own⟩ := Option.ne_none_iff_exists'.mp taken
    exact nobody task ((balanced.inside_iff task).mpr own)
  count task inside := by
    rw [balanced.count task, if_pos ((balanced.inside_iff task).mp inside)]
    omega
  recursive := balanced.recursive

/-- A change of the counts of one task keeps the balance if no other task owns the mutex before or after it. -/
theorem Balanced.change (balanced : Balanced contest) {task : Nat}
    (before : ∀ other, contest.mutex.owner = some other → other = task)
    (after : ∀ other, next.mutex.owner = some other → other = task)
    (others : ∀ other, other ≠ task →
      next.acquired other = contest.acquired other ∧ next.released other = contest.released other)
    (count : next.acquired task =
      next.released task + if next.mutex.owner = some task then next.mutex.recurse.toNat else 0)
    (held : next.mutex.owner ≠ none ↔ next.mutex.recurse.toNat ≠ 0)
    (recursive : 1 < next.mutex.recurse.toNat → next.mutex.has mtxRecurse = true) : Balanced next := by
  refine ⟨fun other => ?_, held, recursive⟩
  by_cases same : other = task
  · subst same
    exact count
  · have balance := balanced.count other
    rw [if_neg fun own => same (before other own)] at balance
    rw [(others other same).1, (others other same).2, balance, if_neg fun own => same (after other own)]

/-- A turn in the range of the count keeps the balance. -/
theorem Balanced.turn (balanced : Balanced contest) (counted : Counted contest op) (turn : Turn contest op next) :
    Balanced next := by
  have own_only : contest.mutex.owner = some op.task → ∀ other, contest.mutex.owner = some other → other = op.task :=
    fun own other same => Option.some.inj (same.symm.trans own)
  have count := balanced.count op.task
  cases turn with
  | acquires waiting free =>
      rw [free, if_neg (by simp)] at count
      refine balanced.change (fun other own => absurd (free.symm.trans own) (by simp))
        (fun other own => (Option.some.inj own).symm)
        (fun other different => ⟨Function.update_of_ne different _ _, rfl⟩) ?_ (by simp [Mutex.acquire])
        (fun many => absurd many (by simp [Mutex.acquire]))
      simp [Mutex.acquire, count]
  | recurses waiting again own allowed =>
      have wide : (contest.mutex.recurse + 1).toNat = contest.mutex.recurse.toNat + 1 := by
        rw [BitVec.toNat_add]
        exact Nat.mod_eq_of_lt (counted again)
      rw [if_pos own] at count
      refine balanced.change (own_only own) (own_only own)
        (fun other different => ⟨Function.update_of_ne different _ _, rfl⟩) ?_ ?_ (fun _ => allowed)
      · dsimp only
        rw [if_pos own, Function.update_self, wide, count, Nat.add_assoc]
      · dsimp only
        rw [wide, own]
        simp
  | stays waiting waitq => exact ⟨balanced.count, balanced.held, balanced.recursive⟩
  | unwinds waiting own several =>
      have more : 1 < contest.mutex.recurse.toNat := several
      have less : (contest.mutex.recurse - 1).toNat = contest.mutex.recurse.toNat - 1 :=
        BitVec.toNat_sub_of_le (BitVec.le_of_lt several)
      rw [if_pos own] at count
      refine balanced.change (own_only own) (own_only own)
        (fun other different => ⟨rfl, Function.update_of_ne different _ _⟩) ?_ ?_
        (fun _ => balanced.recursive more)
      · dsimp only
        rw [if_pos own, Function.update_self, less]
        omega
      · dsimp only
        rw [less, own]
        simp only [ne_eq, reduceCtorEq, not_false_eq_true, true_iff]
        omega
  | frees waiting waitq own last =>
      have few : ¬ 1 < contest.mutex.recurse.toNat := last
      have counts := balanced.held.mp (by rw [own]; simp)
      rw [if_pos own] at count
      refine balanced.change (own_only own) (fun other never => absurd never (by simp))
        (fun other different => ⟨rfl, Function.update_of_ne different _ _⟩) ?_ (by simp)
        (fun many => absurd many (by simp))
      dsimp only
      rw [if_neg (by simp), Function.update_self]
      omega

/-- A step in the range of the count keeps the balance. -/
theorem Balanced.mutexStep (balanced : Balanced contest) (counted : Counted contest op) :
    Post (fun _ => True) (Locking.mutexStep op) (fun _ => Balanced) contest := by
  unfold Locking.mutexStep
  rw [post_bind, post_get]
  refine Post.ite (fun enabled => ?_) fun _ => balanced
  cases ran : sectionEffect contest op with
  | error panic => trivial
  | ok next => exact balanced.turn counted (sectionEffect_turn enabled ran)

/-- The mutex after `mutex_init`. -/
theorem Balanced.init (type : BitVec 32) : Balanced ⟨mutexInit type, fun _ => false, fun _ => 0, fun _ => 0⟩ where
  count _ := rfl
  held := by simp [mutexInit]
  recursive many := absurd many (by simp [mutexInit])

theorem mutexStep_of_effect (enabled : op.enabled contest = true) (ran : sectionEffect contest op = .ok next) :
    mutexStep op contest = .ok () next := by
  have step : Post (fun _ => False) (mutexStep op) (fun _ final => final = next) contest := by
    unfold mutexStep
    rw [post_bind, post_get, if_pos enabled, ran, post_set]
  obtain ⟨_, _, result, rfl⟩ := step.result
  exact result

/-- The state after the owner has taken the mutex once more. -/
def Contest.again (contest : Contest) (task : Nat) : Contest :=
  contest.settle task false (true, { contest.mutex with recurse := contest.mutex.recurse + 1 })

theorem Contest.again_acquired (contest : Contest) (task : Nat) :
    (contest.again task).acquired task = contest.acquired task + 1 := Function.update_self _ _ _

theorem Recurses.mutexStep (again : Recurses contest op) :
    contest.mutex.owner = some op.task ∧ Locking.mutexStep op contest = .ok () (contest.again op.task) := by
  cases op with
  | lock task entry =>
      obtain ⟨outside, own, allowed⟩ := again
      refine ⟨own, mutexStep_of_effect (by simp [MutexOp.enabled, outside]) ?_⟩
      rw [sectionEffect, lockSection_eq, if_pos own, if_pos allowed]
      rfl
  | trylock task =>
      obtain ⟨outside, own, allowed⟩ := again
      refine ⟨own, mutexStep_of_effect (by simp [MutexOp.enabled, outside]) ?_⟩
      rw [sectionEffect, trylockSection, if_pos own, if_pos allowed]
      rfl
  | retry task entry => exact again.elim
  | unlock task => exact again.elim

/-- The owner that takes the mutex for the 2^32nd time leaves a count of zero. -/
theorem Balanced.overflow (balanced : Balanced contest) (missed : ¬ Counted contest op) :
    ∃ answer next, Locking.mutexStep op contest = .ok answer next ∧ ¬ Excludes next := by
  unfold Counted at missed
  rw [Classical.not_imp] at missed
  obtain ⟨again, full⟩ := missed
  obtain ⟨own, ran⟩ := again.mutexStep
  refine ⟨(), _, ran, fun excludes => ?_⟩
  have wraps : (contest.mutex.recurse + 1).toNat = 0 := by
    rw [BitVec.toNat_add]
    change (contest.mutex.recurse.toNat + 1) % 2 ^ 32 = 0
    omega
  have more : contest.released op.task < contest.acquired op.task := (balanced.inside_iff op.task).mpr own
  have count := excludes.count op.task (by
    unfold Contest.inside
    rw [contest.again_acquired]
    exact Nat.lt_succ_of_lt more)
  rw [contest.again_acquired] at count
  change _ - contest.released op.task = (contest.mutex.recurse + 1).toNat at count
  omega

/-- In every interleaving of the calls on a mutex, the tasks exclude each other in every state that it comes to
if and only if its owner never takes it again while the count is at its maximum. -/
theorem mutex_excludes_iff (type : BitVec 32) (ops : List MutexOp) :
    Throughout mutexStep Excludes ⟨mutexInit type, fun _ => false, fun _ => 0, fun _ => 0⟩ ops ↔
      CallGuarded mutexStep Counted ⟨mutexInit type, fun _ => false, fun _ => 0, fun _ => 0⟩ ops :=
  ⟨Throughout.guarded (fun _ _ balanced counted => balanced.mutexStep counted)
      (fun _ _ balanced missed => balanced.overflow missed) (Balanced.init type),
    CallGuarded.throughout (fun _ balanced => balanced.excludes)
      (fun _ _ balanced counted => balanced.mutexStep counted) (Balanced.init type)⟩

/-- A guarded run of locks by the owner of a recursive mutex does not reach the end of the count. -/
theorem locks_bounded {task : Nat} (times : Nat) (outside : contest.waiting task = false)
    (own : contest.mutex.owner = some task) (allowed : contest.mutex.has mtxRecurse = true)
    (guarded : CallGuarded mutexStep Counted contest (List.replicate times (.lock task true))) :
    contest.mutex.recurse.toNat + times < 2 ^ 32 := by
  induction times generalizing contest with
  | zero => exact contest.mutex.recurse.isLt
  | succ times ih =>
      obtain ⟨counted, later⟩ := guarded
      have again : Recurses contest (.lock task true) := ⟨outside, own, allowed⟩
      have range := counted again
      have rest : CallGuarded mutexStep Counted (contest.again task) (List.replicate times (.lock task true)) :=
        later () _ again.mutexStep.2
      have bound : (contest.again task).mutex.recurse.toNat + times < 2 ^ 32 :=
        ih (Function.update_self _ _ _) own allowed rest
      change (contest.mutex.recurse + 1).toNat + times < 2 ^ 32 at bound
      rw [BitVec.toNat_add] at bound
      change (contest.mutex.recurse.toNat + 1) % 2 ^ 32 + times < 2 ^ 32 at bound
      rw [Nat.mod_eq_of_lt range] at bound
      omega

/-- A task that takes a recursive mutex 2^32 times is inside of it with a count of zero. -/
theorem mutex_count_overflows :
    ¬ Throughout mutexStep Excludes ⟨mutexInit mtxRecurse, fun _ => false, fun _ => 0, fun _ => 0⟩
      (List.replicate (2 ^ 32) (.lock 1 true)) := by
  intro always
  have guarded : CallGuarded mutexStep Counted _ _ := Throughout.guarded
    (fun _ _ balanced counted => balanced.mutexStep counted)
    (fun _ _ balanced missed => balanced.overflow missed) (Balanced.init mtxRecurse) always
  rw [show (2 ^ 32 : Nat) = 4294967295 + 1 by norm_num, List.replicate_succ] at guarded
  have bound := locks_bounded 4294967295 rfl rfl rfl (guarded.2 () _ (mutexStep_of_effect rfl rfl))
  exact absurd bound (by decide)

end Uesi.Locking
