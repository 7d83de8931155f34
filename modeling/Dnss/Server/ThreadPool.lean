/-
`ThreadPool`: the queue, its workers, and their number.

Workers take tasks under a mutex, and under it `resize` starts new ones.  A worker that
has finished a task looks without the mutex whether the pool is too large, and leaves if
a compare-exchange on the counter of workers lets it.  What it compares may be stale, so
every load and the compare-exchange are steps of their own, and a run is any order of
steps of any number of workers and callers.

`Accounts` is the part of the pool that is counted, with a record of what has happened
to the tasks.  `step_effect` says once what a step can do to it, `accounted_run` that the
counts are right after every run, and `threadPool_accounting` what follows for the pool.
-/
import Dnss.Library.Machine
import Dnss.Library.Slots

namespace Dnss

/-! ## Workers -/

/-- Where a worker is in `workerLoop`.  It holds the mutex from `woken` to `recheck`, and
in `maybeShrink` when `locked` is set. -/
inductive WorkerPc where
  /-- In front of the mutex, or asleep. -/
  | top
  | woken
  /-- The predicate of the wait has loaded `liveCount_`. -/
  | predicate (live : Nat)
  | ready
  /-- The test after the wait has loaded `liveCount_`. -/
  | recheck (live : Nat)
  | shrinkLoad (locked : Bool)
  | shrinkTest (locked : Bool) (cur : Nat)
  | shrinkCas (locked : Bool) (cur target : Nat)
  | running (task : Nat)
  | left
  deriving DecidableEq

namespace WorkerPc

/-- The task that the worker runs. -/
def task : WorkerPc → Option Nat
  | running task => some task
  | _ => none

def inLoop : WorkerPc → Bool
  | left => false
  | _ => true

/-- In the loop, and between tasks. -/
structure Idle (pc : WorkerPc) : Prop where
  noTask : pc.task = none
  stays : pc.inLoop = true

/-- Idle, and not in front of the compare-exchange. -/
def isPlain : WorkerPc → Bool
  | shrinkCas _ _ _ => false
  | running _ => false
  | left => false
  | _ => true

end WorkerPc

/-- The counted part of the pool.  Tasks are numbered as they are accepted.  `taken` and
`finished` are in the order of the events, `decremented` has a worker for each time one
lowered `liveCount_`, and `leastTarget` is the least value that `target_` has had. -/
structure Accounts where
  backpressureLimit : Nat
  target : Nat
  liveCount : Nat
  tasks : List Nat := []
  workers : List WorkerPc := []
  accepted : Nat := 0
  taken : List Nat := []
  finished : List Nat := []
  decremented : List Nat := []
  leastTarget : Nat

namespace Accounts

def accept (a : Accounts) : Accounts :=
  { a with tasks := a.tasks ++ [a.accepted], accepted := a.accepted + 1 }

def spawnWorker (a : Accounts) : Accounts :=
  { a with workers := a.workers ++ [.top], liveCount := a.liveCount + 1 }

def store (a : Accounts) (n : Nat) : Accounts :=
  { a with target := n, leastTarget := min a.leastTarget n }

def move (a : Accounts) (i : Nat) (pc : WorkerPc) : Accounts :=
  { a with workers := a.workers.set i pc }

/-- Worker `i` takes the first task. -/
def take (a : Accounts) (i task : Nat) (rest : List Nat) : Accounts :=
  { a.move i (.running task) with tasks := rest, taken := a.taken ++ [task] }

def finish (a : Accounts) (i task : Nat) : Accounts :=
  { a.move i (.shrinkLoad false) with finished := a.finished ++ [task] }

/-- The compare-exchange of worker `i` succeeds. -/
def leave (a : Accounts) (i : Nat) : Accounts :=
  { a.move i .left with
    liveCount := a.liveCount - 1, decremented := a.decremented ++ [i] }

/-- The tasks that workers run. -/
def held (a : Accounts) : List Nat := a.workers.filterMap WorkerPc.task

end Accounts

/-! ## The pool -/

/-- Who has the mutex: a worker, or a call of `resize` that is about to test
`liveCount_` or to start a worker. -/
inductive MutexHolder where
  | worker (i : Nat)
  | resize (n : Nat) (spawning : Bool)
  deriving DecidableEq

/-- `resizes` are the calls of `resize` that have stored their target and wait for the
mutex. -/
structure ThreadPool extends Accounts where
  mutex : Option MutexHolder := none
  resizes : List Nat := []

namespace ThreadPool

def minWorkers : Nat := 4

def maxWorkers : Nat := 64

def spawnWorkers : Nat → Accounts → Accounts
  | 0, a => a
  | n + 1, a => spawnWorkers n a.spawnWorker

/-- The constructor. -/
def construct (n backpressureLimit : Nat) : ThreadPool :=
  { toAccounts :=
      spawnWorkers n { backpressureLimit, target := n, liveCount := 0, leastTarget := n } }

def enqueue (s : ThreadPool) : ThreadPool := { s with toAccounts := s.accept }

def tryEnqueue (s : ThreadPool) : ThreadPool × Bool :=
  if s.backpressureLimit ≤ s.tasks.length then (s, false) else (s.enqueue, true)

/-- The first part of `resize`, up to the mutex. -/
def resize (s : ThreadPool) (n : Nat) : ThreadPool :=
  let n := max minWorkers (min maxWorkers n)
  { s with toAccounts := s.store n, resizes := s.resizes ++ [n] }

def resizeLock (s : ThreadPool) (k : Nat) : ThreadPool :=
  match s.resizes[k]? with
  | none => s
  | some n => { s with mutex := some (.resize n false), resizes := s.resizes.eraseIdx k }

/-- One step of the loop of `resize`.  Threads that were started stay joinable, so
`scrubWorkers` finds nothing. -/
def resizeStep (s : ThreadPool) : ThreadPool :=
  match s.mutex with
  | some (.resize n false) =>
    if s.liveCount < n then { s with mutex := some (.resize n true) } else { s with mutex := none }
  | some (.resize n true) =>
    { s with toAccounts := s.spawnWorker, mutex := some (.resize n false) }
  | _ => s

/-- Give the mutex back if the worker had it. -/
def release (s : ThreadPool) (locked : Bool) : ThreadPool :=
  if locked then { s with mutex := none } else s

def move (s : ThreadPool) (i : Nat) (pc : WorkerPc) : ThreadPool :=
  { s with toAccounts := s.toAccounts.move i pc }

/-- One step of worker `i`.  A compare-exchange may fail without a reason. -/
def workerStep (s : ThreadPool) (i : Nat) (spurious : Bool) : ThreadPool :=
  match s.workers[i]? with
  | none => s
  | some .top =>
    match s.mutex with
    | none => { s.move i .woken with mutex := some (.worker i) }
    | some _ => s
  | some .woken =>
    if s.tasks.isEmpty then s.move i (.predicate s.liveCount) else s.move i .ready
  | some (.predicate live) =>
    if s.target < live then s.move i .ready else (s.move i .top).release true
  | some .ready => s.move i (.recheck s.liveCount)
  | some (.recheck live) =>
    match s.tasks with
    | [] =>
      if s.target < live then s.move i (.shrinkLoad true) else (s.move i .top).release true
    | task :: rest => release { s with toAccounts := s.take i task rest } true
  | some (.shrinkLoad locked) => s.move i (.shrinkTest locked s.liveCount)
  | some (.shrinkTest locked cur) =>
    if s.target < cur then s.move i (.shrinkCas locked cur s.target)
    else (s.move i .top).release locked
  | some (.shrinkCas locked cur _) =>
    if s.liveCount = cur ∧ spurious = false then
      release { s with toAccounts := s.leave i } locked
    else s.move i (.shrinkTest locked s.liveCount)
  | some (.running task) => { s with toAccounts := s.finish i task }
  | some .left => s

inductive Action where
  | enqueue
  | tryEnqueue
  | resize (n : Nat)
  | resizeLock (k : Nat)
  | resizeStep
  | workerStep (i : Nat) (spurious : Bool)
  deriving DecidableEq

/-- A call that needs the mutex waits while another has it. -/
def whenFree (s : ThreadPool) (next : ThreadPool) : ThreadPool := if s.mutex = none then next else s

def step (s : ThreadPool) : Action → ThreadPool
  | .enqueue => s.whenFree s.enqueue
  | .tryEnqueue => s.whenFree s.tryEnqueue.1
  | .resize n => s.resize n
  | .resizeLock k => s.whenFree (s.resizeLock k)
  | .resizeStep => s.resizeStep
  | .workerStep i spurious => s.workerStep i spurious

/-- The call pushes a task now. -/
def pushes (s : ThreadPool) : Action → Bool
  | .enqueue => s.mutex = none
  | .tryEnqueue => s.mutex = none ∧ s.tryEnqueue.2
  | _ => false

/-! ## What a step can do -/

/-- The call may accept a task. -/
def Action.accepts : Action → Bool
  | .enqueue => true
  | .tryEnqueue => true
  | _ => false

/-- The effect of a step on the accounts.  The flag says whether the step may accept a
task. -/
inductive Effect (a : Accounts) : Bool → Accounts → Prop where
  | keep {accepts : Bool} : Effect a accepts a
  | accept : Effect a true a.accept
  | spawnWorker : Effect a false a.spawnWorker
  | store (n : Nat) : Effect a false (a.store n)
  | move {i : Nat} {pc pc' : WorkerPc} (hpc : a.workers[i]? = some pc) (hidle : pc.Idle)
      (hidle' : pc'.Idle)
      (hloaded : ∀ locked cur target, pc' = .shrinkCas locked cur target →
        target = a.target ∧ target < cur) :
      Effect a false (a.move i pc')
  | take {i task : Nat} {rest : List Nat} {pc : WorkerPc} (hpc : a.workers[i]? = some pc)
      (hidle : pc.Idle) (htasks : a.tasks = task :: rest) : Effect a false (a.take i task rest)
  | finish {i task : Nat} (hpc : a.workers[i]? = some (.running task)) :
      Effect a false (a.finish i task)
  | leave {i cur target : Nat} {locked : Bool}
      (hpc : a.workers[i]? = some (.shrinkCas locked cur target)) (hcur : a.liveCount = cur) :
      Effect a false (a.leave i)

@[simp] theorem toAccounts_release (s : ThreadPool) (locked : Bool) :
    (s.release locked).toAccounts = s.toAccounts := by
  unfold release
  split <;> rfl

theorem effect_move {a : Accounts} {i : Nat} {pc pc' : WorkerPc} (hpc : a.workers[i]? = some pc)
    (hidle : pc.Idle) (hplain : pc'.isPlain = true) : Effect a false (a.move i pc') := by
  have hidle' : pc'.Idle := by cases pc' <;> first | exact ⟨rfl, rfl⟩ | cases hplain
  refine .move hpc hidle hidle' ?_
  rintro locked cur target rfl
  cases hplain

theorem workerStep_effect (s : ThreadPool) (i : Nat) (spurious : Bool) :
    Effect s.toAccounts false (s.workerStep i spurious).toAccounts := by
  unfold workerStep
  split
  · exact .keep
  · rename_i hpc
    split
    · exact effect_move hpc ⟨rfl, rfl⟩ rfl
    · exact .keep
  · rename_i hpc
    split
    · exact effect_move hpc ⟨rfl, rfl⟩ rfl
    · exact effect_move hpc ⟨rfl, rfl⟩ rfl
  · rename_i live hpc
    split
    · exact effect_move hpc ⟨rfl, rfl⟩ rfl
    · rw [toAccounts_release]
      exact effect_move hpc ⟨rfl, rfl⟩ rfl
  · rename_i hpc
    exact effect_move hpc ⟨rfl, rfl⟩ rfl
  · rename_i live hpc
    split
    · split
      · exact effect_move hpc ⟨rfl, rfl⟩ rfl
      · rw [toAccounts_release]
        exact effect_move hpc ⟨rfl, rfl⟩ rfl
    · rename_i task rest htasks
      rw [toAccounts_release]
      exact .take hpc ⟨rfl, rfl⟩ htasks
  · rename_i locked hpc
    exact effect_move hpc ⟨rfl, rfl⟩ rfl
  · rename_i locked cur hpc
    split
    · rename_i hlt
      refine .move hpc ⟨rfl, rfl⟩ ⟨rfl, rfl⟩ fun _ _ _ h => ?_
      cases h
      exact ⟨rfl, hlt⟩
    · rw [toAccounts_release]
      exact effect_move hpc ⟨rfl, rfl⟩ rfl
  · rename_i locked cur target hpc
    split
    · rename_i hcas
      rw [toAccounts_release]
      exact .leave hpc hcas.1
    · exact effect_move hpc ⟨rfl, rfl⟩ rfl
  · rename_i task hpc
    exact .finish hpc
  · exact .keep

theorem whenFree_effect {s next : ThreadPool} {accepts : Bool}
    (h : Effect s.toAccounts accepts next.toAccounts) :
    Effect s.toAccounts accepts (s.whenFree next).toAccounts := by
  unfold whenFree
  split
  · exact h
  · exact .keep

/-- Every step has one of these effects. -/
theorem step_effect (s : ThreadPool) (action : Action) :
    Effect s.toAccounts action.accepts (step s action).toAccounts := by
  cases action with
  | enqueue => exact whenFree_effect .accept
  | tryEnqueue =>
    refine whenFree_effect ?_
    unfold tryEnqueue
    split
    · exact .keep
    · exact .accept
  | resize n => exact .store _
  | resizeLock k =>
    refine whenFree_effect ?_
    unfold resizeLock
    split
    · exact .keep
    · exact .keep
  | resizeStep =>
    show Effect s.toAccounts false s.resizeStep.toAccounts
    unfold resizeStep
    split
    · split
      · exact .keep
      · exact .keep
    · exact .spawnWorker
    · exact .keep
  | workerStep i spurious => exact workerStep_effect s i spurious

end ThreadPool

/-! ## The counts -/

namespace Accounts

/-- What holds of the accounts in every run. -/
structure Accounted (a : Accounts) : Prop where
  live : a.liveCount = a.workers.countP WorkerPc.inLoop
  once : a.decremented.Nodup
  left : ∀ i : Nat, i ∈ a.decremented ↔ a.workers[i]? = some .left
  fifo : a.taken ++ a.tasks = List.range a.accepted
  taken : (a.held ++ a.finished).Perm a.taken
  loaded : ∀ (i : Nat) (locked : Bool) (cur target : Nat),
    a.workers[i]? = some (.shrinkCas locked cur target) → a.leastTarget ≤ target ∧ target < cur
  target : a.leastTarget ≤ a.target
  least : a.leastTarget ≤ a.liveCount

section Move

variable {a : Accounts} {i : Nat} {pc pc' : WorkerPc}

theorem getElem?_move (hpc : a.workers[i]? = some pc) (j : Nat) :
    (a.move i pc').workers[j]? = if i = j then some pc' else a.workers[j]? :=
  Slots.getElem?_set_eq hpc pc' j

theorem countP_move (hpc : a.workers[i]? = some pc) (pc' : WorkerPc) :
    (a.move i pc').workers.countP WorkerPc.inLoop + (if pc.inLoop then 1 else 0) =
      a.workers.countP WorkerPc.inLoop + (if pc'.inLoop then 1 else 0) :=
  Slots.countP_set_add WorkerPc.inLoop hpc pc'

theorem held_move (hpc : a.workers[i]? = some pc) (pc' : WorkerPc) :
    (pc.task.toList ++ (a.move i pc').held).Perm (pc'.task.toList ++ a.held) :=
  Slots.filterMap_set_perm WorkerPc.task hpc pc'

end Move

/-! One lemma for each effect. -/

theorem Accounted.accept {a : Accounts} (h : a.Accounted) : a.accept.Accounted where
  live := h.live
  once := h.once
  left := h.left
  fifo := by
    show a.taken ++ (a.tasks ++ [a.accepted]) = List.range (a.accepted + 1)
    rw [← List.append_assoc, h.fifo, List.range_succ]
  taken := h.taken
  loaded := h.loaded
  target := h.target
  least := h.least

theorem Accounted.store {a : Accounts} (h : a.Accounted) (n : Nat) : (a.store n).Accounted where
  live := h.live
  once := h.once
  left := h.left
  fifo := h.fifo
  taken := h.taken
  loaded := by
    intro i locked cur target hpc
    obtain ⟨hle, hlt⟩ := h.loaded i locked cur target hpc
    exact ⟨Nat.le_trans (Nat.min_le_left _ _) hle, hlt⟩
  target := Nat.min_le_right _ _
  least := Nat.le_trans (Nat.min_le_left _ _) h.least

theorem Accounted.spawnWorker {a : Accounts} (h : a.Accounted) : a.spawnWorker.Accounted := by
  have hnew : ∀ (i : Nat) (pc : WorkerPc), a.spawnWorker.workers[i]? = some pc →
      a.workers[i]? = some pc ∨ pc = .top := by
    intro i pc hpc
    rcases Nat.lt_or_ge i a.workers.length with hlt | hge
    · left
      rwa [Accounts.spawnWorker, List.getElem?_append_left hlt] at hpc
    · right
      rw [Accounts.spawnWorker, List.getElem?_append_right hge] at hpc
      have hmem := List.mem_of_getElem? hpc
      exact List.mem_singleton.mp hmem
  refine ⟨?_, h.once, fun i => ⟨fun hi => ?_, fun hi => ?_⟩, h.fifo, ?_, ?_, h.target, ?_⟩
  · show a.liveCount + 1 = (a.workers ++ [WorkerPc.top]).countP WorkerPc.inLoop
    rw [List.countP_append, ← h.live]
    rfl
  · obtain ⟨hlt, hget⟩ := List.getElem?_eq_some_iff.mp ((h.left i).mp hi)
    show (a.workers ++ [WorkerPc.top])[i]? = some WorkerPc.left
    rw [List.getElem?_append_left hlt]
    exact (h.left i).mp hi
  · rcases hnew i .left hi with hold | htop
    · exact (h.left i).mpr hold
    · cases htop
  · show ((a.workers ++ [WorkerPc.top]).filterMap WorkerPc.task ++ a.finished).Perm a.taken
    have hnone : [WorkerPc.top].filterMap WorkerPc.task = [] := rfl
    rw [List.filterMap_append, hnone, List.append_nil]
    exact h.taken
  · intro i locked cur target hpc
    rcases hnew i _ hpc with hold | htop
    · exact h.loaded i locked cur target hold
    · cases htop
  · exact Nat.le_succ_of_le h.least

section Move

variable {a : Accounts} {i : Nat} {pc pc' : WorkerPc}

theorem Accounted.live_move (h : a.Accounted) (hpc : a.workers[i]? = some pc)
    (hin : pc.inLoop = true) (hin' : pc'.inLoop = true) :
    a.liveCount = (a.move i pc').workers.countP WorkerPc.inLoop := by
  have hcount := countP_move hpc pc'
  rw [hin, hin', ← h.live] at hcount
  omega

theorem Accounted.left_move (h : a.Accounted) (hpc : a.workers[i]? = some pc)
    (hin : pc.inLoop = true) (hin' : pc'.inLoop = true) (j : Nat) :
    j ∈ a.decremented ↔ (a.move i pc').workers[j]? = some .left := by
  rw [h.left j, getElem?_move hpc]
  by_cases hij : i = j
  · subst hij
    rw [if_pos rfl, hpc, Option.some.injEq, Option.some.injEq]
    constructor
    · rintro rfl
      cases hin
    · rintro rfl
      cases hin'
  · rw [if_neg hij]

theorem Accounted.loaded_move (h : a.Accounted) (hpc : a.workers[i]? = some pc)
    (hloaded : ∀ locked cur target, pc' = .shrinkCas locked cur target →
      target = a.target ∧ target < cur) (j : Nat) (locked : Bool) (cur target : Nat)
    (hj : (a.move i pc').workers[j]? = some (.shrinkCas locked cur target)) :
    a.leastTarget ≤ target ∧ target < cur := by
  rw [getElem?_move hpc] at hj
  by_cases hij : i = j
  · rw [if_pos hij, Option.some.injEq] at hj
    obtain ⟨rfl, hlt⟩ := hloaded locked cur target hj
    exact ⟨h.target, hlt⟩
  · rw [if_neg hij] at hj
    exact h.loaded j locked cur target hj

theorem Accounted.move (h : a.Accounted) (hpc : a.workers[i]? = some pc) (hidle : pc.Idle)
    (hidle' : pc'.Idle)
    (hloaded : ∀ locked cur target, pc' = .shrinkCas locked cur target →
      target = a.target ∧ target < cur) :
    (a.move i pc').Accounted where
  live := h.live_move hpc hidle.stays hidle'.stays
  once := h.once
  left := h.left_move hpc hidle.stays hidle'.stays
  fifo := h.fifo
  taken := by
    have hheld := held_move hpc pc'
    rw [hidle.noTask, hidle'.noTask] at hheld
    exact (hheld.append_right a.finished).trans h.taken
  loaded := h.loaded_move hpc hloaded
  target := h.target
  least := h.least

theorem Accounted.take {task : Nat} {rest : List Nat} (h : a.Accounted)
    (hpc : a.workers[i]? = some pc) (hidle : pc.Idle) (htasks : a.tasks = task :: rest) :
    (a.take i task rest).Accounted where
  live := h.live_move hpc hidle.stays rfl
  once := h.once
  left := h.left_move hpc hidle.stays rfl
  fifo := by
    show a.taken ++ [task] ++ rest = List.range a.accepted
    rw [← h.fifo, htasks, List.append_assoc]
    rfl
  taken := by
    have hheld := held_move hpc (.running task)
    rw [hidle.noTask] at hheld
    show ((a.move i (.running task)).held ++ a.finished).Perm (a.taken ++ [task])
    refine (hheld.append_right a.finished).trans ?_
    refine ((h.taken).cons task).trans ?_
    exact (List.perm_append_singleton task a.taken).symm
  loaded := h.loaded_move hpc fun _ _ _ hcas => by cases hcas
  target := h.target
  least := h.least

theorem Accounted.finish {task : Nat} (h : a.Accounted)
    (hpc : a.workers[i]? = some (.running task)) : (a.finish i task).Accounted where
  live := h.live_move hpc rfl rfl
  once := h.once
  left := h.left_move hpc rfl rfl
  fifo := h.fifo
  taken := by
    have hheld : (task :: (a.move i (.shrinkLoad false)).held).Perm a.held :=
      held_move hpc (.shrinkLoad false)
    show ((a.move i (.shrinkLoad false)).held ++ (a.finished ++ [task])).Perm a.taken
    rw [← List.append_assoc]
    refine (List.perm_append_singleton task _).trans ?_
    exact (hheld.append_right a.finished).trans h.taken
  loaded := h.loaded_move hpc fun _ _ _ hcas => by cases hcas
  target := h.target
  least := h.least

/-- A worker leaves only after it has seen more workers than a target that was stored. -/
theorem Accounted.leave {cur target : Nat} {locked : Bool} (h : a.Accounted)
    (hpc : a.workers[i]? = some (.shrinkCas locked cur target)) (hcur : cur ≤ a.liveCount) :
    (a.leave i).Accounted := by
  obtain ⟨hle, hlt⟩ := h.loaded i locked cur target hpc
  have hnew : i ∉ a.decremented := by
    intro hi
    rw [h.left i, hpc] at hi
    cases hi
  refine ⟨?_, ?_, fun j => ?_, h.fifo, ?_, ?_, h.target, ?_⟩
  · have hcount := countP_move hpc .left
    have hin : (WorkerPc.shrinkCas locked cur target).inLoop = true := rfl
    have hout : WorkerPc.left.inLoop = false := rfl
    rw [hin, hout, if_pos rfl, if_neg (by decide), ← h.live] at hcount
    show a.liveCount - 1 = (a.move i .left).workers.countP WorkerPc.inLoop
    omega
  · refine List.nodup_append.mpr ⟨h.once, List.pairwise_singleton _ i, fun j hj k hk hjk => ?_⟩
    rw [List.mem_singleton.mp hk] at hjk
    exact hnew (hjk ▸ hj)
  · show j ∈ a.decremented ++ [i] ↔ (a.move i .left).workers[j]? = some .left
    rw [List.mem_append, List.mem_singleton, h.left j, getElem?_move hpc]
    by_cases hij : i = j
    · simp [hij]
    · have hji : j ≠ i := fun hji => hij hji.symm
      simp [hij, hji]
  · exact ((held_move hpc .left).append_right a.finished).trans h.taken
  · exact h.loaded_move hpc fun _ _ _ hcas => by cases hcas
  · show a.leastTarget ≤ a.liveCount - 1
    omega

end Move

theorem Accounted.effect {a a' : Accounts} {accepts : Bool} (h : a.Accounted)
    (heffect : ThreadPool.Effect a accepts a') : a'.Accounted := by
  cases heffect with
  | keep => exact h
  | accept => exact h.accept
  | spawnWorker => exact h.spawnWorker
  | store n => exact h.store n
  | move hpc hidle hidle' hloaded => exact h.move hpc hidle hidle' hloaded
  | take hpc hidle htasks => exact h.take hpc hidle htasks
  | finish hpc => exact h.finish hpc
  | leave hpc hcur => exact h.leave hpc (Nat.le_of_eq hcur.symm)

end Accounts

/-! ## Runs -/

namespace ThreadPool

open Machine

theorem spawnWorkers_eq (n : Nat) (a : Accounts) :
    spawnWorkers n a = { a with
      workers := a.workers ++ List.replicate n .top, liveCount := a.liveCount + n } := by
  induction n generalizing a with
  | zero => simp [spawnWorkers]
  | succ n ih =>
    rw [spawnWorkers, ih]
    simp only [Accounts.spawnWorker, List.append_assoc, List.singleton_append, List.replicate_succ,
      Nat.add_assoc, Nat.add_comm 1 n]

/-- The constructor leaves as many workers as the target says, all at the top of their
loops. -/
theorem construct_eq (n backpressureLimit : Nat) :
    (construct n backpressureLimit).toAccounts =
      { backpressureLimit, target := n, liveCount := n, workers := List.replicate n .top,
        leastTarget := n } := by
  simp [construct, spawnWorkers_eq]

theorem accounted_construct (n backpressureLimit : Nat) :
    (construct n backpressureLimit).Accounted := by
  have htop : ∀ (i : Nat) (pc : WorkerPc),
      (List.replicate n WorkerPc.top)[i]? = some pc → pc = .top := by
    intro i pc hpc
    exact List.eq_of_mem_replicate (List.mem_of_getElem? hpc)
  rw [construct_eq]
  refine ⟨?_, List.Pairwise.nil, fun i => ⟨fun hi => ?_, fun hi => ?_⟩, rfl, ?_, ?_,
    Nat.le_refl n, Nat.le_refl n⟩
  · simp [List.countP_replicate, WorkerPc.inLoop]
  · cases hi
  · cases htop i _ hi
  · simp [Accounts.held, List.filterMap_replicate, WorkerPc.task]
  · intro i locked cur target hi
    cases htop i _ hi

theorem accounted_run (n backpressureLimit : Nat) (actions : List Action) :
    (run step (construct n backpressureLimit) actions).Accounted :=
  run_invariant (P := fun s : ThreadPool => s.Accounted)
    (accounted_construct n backpressureLimit) fun action _ s h => h.effect (step_effect s action)

theorem Effect.backpressureLimit_eq {a a' : Accounts} {accepts : Bool}
    (h : Effect a accepts a') : a'.backpressureLimit = a.backpressureLimit := by
  cases h <;> rfl

/-- Only an accepted task makes the queue longer. -/
theorem Effect.length_tasks_le {a a' : Accounts} (h : Effect a false a') :
    a'.tasks.length ≤ a.tasks.length := by
  cases h with
  | keep => exact Nat.le_refl _
  | spawnWorker => exact Nat.le_refl _
  | store n => exact Nat.le_refl _
  | move hpc hidle hidle' hloaded => exact Nat.le_refl _
  | take hpc hidle htasks =>
    rw [htasks]
    exact Nat.le_succ _
  | finish hpc => exact Nat.le_refl _
  | leave hpc hcur => exact Nat.le_refl _

/-- The queue is within its limit. -/
def Bounded (s : ThreadPool) : Prop := s.tasks.length ≤ s.backpressureLimit

theorem bounded_step {s : ThreadPool} {action : Action} (hne : action ≠ .enqueue)
    (h : s.Bounded) : (step s action).Bounded := by
  have heffect := step_effect s action
  by_cases htry : action = .tryEnqueue
  · subst htry
    show (s.whenFree s.tryEnqueue.1).Bounded
    unfold whenFree tryEnqueue
    split
    · split
      · exact h
      · rename_i hroom
        show (s.tasks ++ [s.accepted]).length ≤ s.backpressureLimit
        rw [List.length_append, List.length_singleton]
        omega
    · exact h
  · have haccepts : action.accepts = false := by
      cases action <;> simp_all [Action.accepts]
    rw [haccepts] at heffect
    have hle := heffect.length_tasks_le
    unfold Bounded at h ⊢
    rw [heffect.backpressureLimit_eq]
    omega

theorem length_tasks_run (n : Nat) {backpressureLimit : Nat} {actions : List Action}
    (hactions : ∀ action ∈ actions, action ≠ .enqueue) :
    (run step (construct n backpressureLimit) actions).tasks.length ≤ backpressureLimit := by
  have hstart : (construct n backpressureLimit).backpressureLimit = backpressureLimit ∧
      (construct n backpressureLimit).Bounded := by
    unfold Bounded
    rw [construct_eq]
    exact ⟨rfl, Nat.zero_le _⟩
  have hrun := run_invariant
    (P := fun s : ThreadPool => s.backpressureLimit = backpressureLimit ∧ s.Bounded) hstart
    fun action haction s h => by
      refine ⟨?_, bounded_step (hactions action haction) h.2⟩
      rw [(step_effect s action).backpressureLimit_eq, h.1]
  have hbounded := hrun.2
  rw [Bounded, hrun.1] at hbounded
  exact hbounded

theorem Effect.accepted_eq {a a' : Accounts} (h : Effect a false a') :
    a'.accepted = a.accepted := by
  cases h <;> rfl

/-- A task is accepted by the calls that push one. -/
theorem accepted_step (s : ThreadPool) (action : Action) :
    (step s action).accepted = s.accepted + if s.pushes action then 1 else 0 := by
  cases action with
  | enqueue =>
    show (s.whenFree s.enqueue).accepted = _
    unfold whenFree pushes
    by_cases hfree : s.mutex = none
    · rw [if_pos hfree, if_pos (decide_eq_true hfree)]
      rfl
    · rw [if_neg hfree, if_neg (by simpa using hfree)]
      rfl
  | tryEnqueue =>
    show (s.whenFree s.tryEnqueue.1).accepted = _
    unfold whenFree pushes
    by_cases hfree : s.mutex = none
    · rw [if_pos hfree]
      unfold tryEnqueue
      split
      · simp
      · simp [hfree, enqueue, Accounts.accept]
    · rw [if_neg hfree, if_neg (by simp [hfree])]
      rfl
  | resize n => exact (step_effect s (.resize n)).accepted_eq
  | resizeLock k => exact (step_effect s (.resizeLock k)).accepted_eq
  | resizeStep => exact (step_effect s .resizeStep).accepted_eq
  | workerStep i spurious => exact (step_effect s (.workerStep i spurious)).accepted_eq

theorem accepted_run (n backpressureLimit : Nat) (actions : List Action) :
    (run step (construct n backpressureLimit) actions).accepted =
      tally step (fun s action => if s.pushes action then 1 else 0)
        (construct n backpressureLimit) actions := by
  refine run_past (P := fun actions (s : ThreadPool) => s.accepted =
    tally step (fun s action => if s.pushes action then 1 else 0)
      (construct n backpressureLimit) actions) ?_ ?_ actions
  · show (construct n backpressureLimit).toAccounts.accepted = 0
    rw [construct_eq]
  · intro actions action ih
    rw [accepted_step, tally_snoc, ih]

/-- The accounts of the pool after a run: the counter is the number of workers that have not
left, each of the others has lowered it once, every accepted task waits, runs, or is
finished, and is in one place only, one was accepted by each call that pushed one, tasks are
taken in the order they were accepted, the counter is at least the least target so far, and the
queue is within its limit if only `tryEnqueue` fills it. -/
structure Accounting (n backpressureLimit : Nat) (actions : List Action) (s : ThreadPool) :
    Prop where
  live : s.liveCount = s.workers.countP WorkerPc.inLoop
  once : s.decremented.Nodup ∧ ∀ i : Nat, i ∈ s.decremented ↔ s.workers[i]? = some .left
  places : (s.tasks ++ s.held ++ s.finished).Perm (List.range s.accepted)
  calls : s.accepted = tally step (fun s action => if s.pushes action then 1 else 0)
    (construct n backpressureLimit) actions
  fifo : s.taken ++ s.tasks = List.range s.accepted
  least : s.leastTarget ≤ s.liveCount
  bounded : (∀ action ∈ actions, action ≠ .enqueue) → s.tasks.length ≤ backpressureLimit

theorem threadPool_accounting (n backpressureLimit : Nat) (actions : List Action) :
    Accounting n backpressureLimit actions (run step (construct n backpressureLimit) actions) := by
  have h := accounted_run n backpressureLimit actions
  refine ⟨h.live, ⟨h.once, h.left⟩, ?_, accepted_run n backpressureLimit actions, h.fifo, h.least,
    length_tasks_run n⟩
  rw [List.append_assoc, ← h.fifo]
  exact (h.taken.append_left _).trans List.perm_append_comm

-- A worker of five leaves after the target has become four, and the next one stays.
example : (run step (construct 5 300)
    (.resize 4 :: List.replicate 8 (.workerStep 0 false) ++
      List.replicate 3 (.workerStep 1 false))).workers = [.left, .top, .top, .top, .top] := by
  decide

end ThreadPool
end Dnss
