/-
`ThreadPool` when it stops: what becomes of the tasks.

`shutdown` sets `stop_` under the mutex.  A worker reads the flag in three places: where it
waits, where it has waited, and after a task, there without the mutex.  It leaves on the flag
only when it finds the queue empty, and lowers the counter of workers when it is out of the loop.

Each place is a step here, on top of the steps of `ThreadPool`.  `Drains` is what holds in every
run: the accounts are those of a pool in which the workers that have stopped still count, and
once one of them is out, every task that was accepted before the stop has been taken.
`finished_of_all_out` is what follows: when all workers are out, these tasks are finished.  A
task that comes later may stay in the queue for ever.
-/
import Dnss.Server.ThreadPool

namespace Dnss

open Machine ThreadPool

/-- A pool that can be stopped.  `resting` are the workers between a task and the test of
`stop_`, `leaving` those that are out of the loop and have not lowered `liveCount_`, and `gone`
those that have.  In `workers` the first are in front of the shrinking, and the others at the
top. -/
structure StoppablePool extends ThreadPool where
  stop : Bool := false
  acceptedAtStop : Nat := 0
  resting : List Nat := []
  leaving : List Nat := []
  gone : List Nat := []

namespace StoppablePool

def construct (n backpressureLimit : Nat) : StoppablePool :=
  { toThreadPool := ThreadPool.construct n backpressureLimit }

/-- A step that does not read the flag. -/
def lift (s : StoppablePool) (pool : ThreadPool) : StoppablePool := { s with toThreadPool := pool }

/-- One step of worker `i`. -/
def workerStep (s : StoppablePool) (i : Nat) (spurious : Bool) : StoppablePool :=
  if i ∈ s.gone then s
  else if i ∈ s.leaving then
    { s with
      liveCount := s.liveCount - 1, leaving := s.leaving.erase i, gone := s.gone ++ [i] }
  else if i ∈ s.resting then
    let s := { s with resting := s.resting.erase i }
    if s.stop then s.lift (s.move i .top) else s
  else
    match s.workers[i]? with
    | some .woken =>
      if s.stop then s.lift (s.move i .ready)
      else s.lift (s.toThreadPool.workerStep i spurious)
    | some .ready =>
      if s.stop && s.tasks.isEmpty then
        { s.lift ((s.move i .top).release true) with leaving := s.leaving ++ [i] }
      else s.lift (s.toThreadPool.workerStep i spurious)
    | some (.running _) =>
      { s.lift (s.toThreadPool.workerStep i spurious) with resting := s.resting ++ [i] }
    | _ => s.lift (s.toThreadPool.workerStep i spurious)

/-- A second call finds the flag set. -/
def shutdown (s : StoppablePool) : StoppablePool :=
  if s.mutex = none ∧ s.stop = false then
    { s with stop := true, acceptedAtStop := s.accepted }
  else s

inductive StopAction where
  | pool (action : Action)
  | shutdown
  deriving DecidableEq

def step (s : StoppablePool) : StopAction → StoppablePool
  | .pool (.workerStep i spurious) => s.workerStep i spurious
  | .pool action => s.lift (s.toThreadPool.step action)
  | .shutdown => s.shutdown

theorem step_pool_cases (s : StoppablePool) (action : Action) :
    (∃ i spurious, action = .workerStep i spurious) ∨
      (∀ i spurious, action ≠ .workerStep i spurious) ∧
        s.step (.pool action) = s.lift (s.toThreadPool.step action) := by
  cases action with
  | workerStep i spurious => exact .inl ⟨i, spurious, rfl⟩
  | _ => exact .inr ⟨fun _ _ heq => (by cases heq), rfl⟩

/-- The thread of worker `i` has ended. -/
def Out (s : StoppablePool) (i : Nat) : Prop := s.workers[i]? = some .left ∨ i ∈ s.gone

instance (s : StoppablePool) (i : Nat) : Decidable (s.Out i) :=
  inferInstanceAs (Decidable (_ ∨ _))

/-- All threads can be joined. -/
def AllOut (s : StoppablePool) : Prop := ∀ i < s.workers.length, s.Out i

instance (s : StoppablePool) : Decidable s.AllOut :=
  inferInstanceAs (Decidable (∀ i < s.workers.length, s.Out i))

/-! ## What the steps of the pool leave alone -/

/-- A step of a worker writes its own place. -/
theorem workers_workerStep (s : ThreadPool) (spurious : Bool) {i j : Nat} (hne : j ≠ i) :
    (s.workerStep i spurious).workers[j]? = s.workers[j]? := by
  have hmove : ∀ pc, (s.workers.set i pc)[j]? = s.workers[j]? :=
    fun pc => List.getElem?_set_ne fun h => hne h.symm
  have hrelease : ∀ (s : ThreadPool) (locked : Bool), (s.release locked).workers = s.workers := by
    intro s locked
    cases locked <;> rfl
  unfold ThreadPool.workerStep
  split
  case h_1 => rfl
  case h_10 => exact hmove _
  case h_11 => rfl
  all_goals
    first
    | exact hmove _
    | split
      all_goals
        first
        | exact hmove _
        | rfl
        | rw [hrelease]; exact hmove _
        | split <;> exact hmove _

/-- The other steps may start workers, and leave those there are. -/
theorem workers_step {s : ThreadPool} {action : Action}
    (haction : ∀ i spurious, action ≠ .workerStep i spurious) {j : Nat} {pc : WorkerPc}
    (hj : s.workers[j]? = some pc) : (s.step action).workers[j]? = some pc := by
  cases action with
  | enqueue =>
    show (s.whenFree s.enqueue).workers[j]? = some pc
    unfold whenFree
    split <;> exact hj
  | tryEnqueue =>
    show (s.whenFree s.tryEnqueue.1).workers[j]? = some pc
    unfold whenFree tryEnqueue
    split
    · split <;> exact hj
    · exact hj
  | resize n => exact hj
  | resizeLock k =>
    show (s.whenFree (s.resizeLock k)).workers[j]? = some pc
    unfold whenFree resizeLock
    split
    · split <;> exact hj
    · exact hj
  | resizeStep =>
    show s.resizeStep.workers[j]? = some pc
    unfold resizeStep
    split
    · split <;> exact hj
    · show (s.workers ++ [WorkerPc.top])[j]? = some pc
      rw [List.getElem?_append_left (List.getElem?_eq_some_iff.mp hj).1]
      exact hj
    · exact hj
  | workerStep i spurious => exact absurd rfl (haction i spurious)

/-- Tasks that have been taken stay so. -/
theorem length_taken_le {a a' : Accounts} {accepts : Bool} (h : Effect a accepts a') :
    a.taken.length ≤ a'.taken.length := by
  cases h with
  | take hpc hidle htasks =>
    show a.taken.length ≤ (a.taken ++ [_]).length
    rw [List.length_append]
    omega
  | _ => exact Nat.le_refl _

theorem accepted_le {a a' : Accounts} {accepts : Bool} (h : Effect a accepts a') :
    a.accepted ≤ a'.accepted := by
  cases h with
  | accept => exact Nat.le_succ _
  | _ => exact Nat.le_refl _

/-! ## The accounts -/

/-- The accounts of the pool, with the workers that have stopped still counted. -/
def counted (a : Accounts) (gone : Nat) : Accounts := { a with liveCount := a.liveCount + gone }

/-- The effects are the same when some more workers are counted. -/
theorem counted_effect {a a' : Accounts} {gone : Nat} {accepts : Bool}
    (h : (counted a gone).Accounted) (heffect : Effect a accepts a') :
    (counted a' gone).Accounted := by
  cases heffect with
  | keep => exact h
  | accept => exact h.accept
  | spawnWorker =>
    have hcount : counted a.spawnWorker gone = (counted a gone).spawnWorker := by
      simp only [counted, Accounts.spawnWorker, Nat.add_right_comm]
    rw [hcount]
    exact h.spawnWorker
  | store n => exact h.store n
  | move hpc hidle hidle' hloaded => exact h.move hpc hidle hidle' hloaded
  | take hpc hidle htasks => exact h.take hpc hidle htasks
  | finish hpc => exact h.finish hpc
  | @leave i cur target locked hpc hcur =>
    have hlt := (h.loaded i locked cur target hpc).2
    have hcount : counted (a.leave i) gone = (counted a gone).leave i := by
      have hsub : a.liveCount - 1 + gone = a.liveCount + gone - 1 := by omega
      simp only [counted, Accounts.leave, Accounts.move, hsub]
    rw [hcount]
    refine h.leave hpc ?_
    show cur ≤ a.liveCount + gone
    omega

/-- What holds in every run. -/
structure Drains (s : StoppablePool) : Prop where
  accounts : (counted s.toAccounts s.gone.length).Accounted
  resting : ∀ i ∈ s.resting, s.workers[i]? = some (.shrinkLoad false)
  restingOnce : s.resting.Nodup
  out : ∀ i ∈ s.leaving ++ s.gone, s.workers[i]? = some .top
  outOnce : (s.leaving ++ s.gone).Nodup
  atStop : s.acceptedAtStop ≤ s.accepted
  drained : s.leaving ++ s.gone ≠ [] → s.acceptedAtStop ≤ s.taken.length
  unstopped : s.stop = false → s.leaving ++ s.gone = []

theorem drains_construct (n backpressureLimit : Nat) : (construct n backpressureLimit).Drains where
  accounts := accounted_construct n backpressureLimit
  resting := fun _ hmem => absurd hmem List.not_mem_nil
  restingOnce := List.nodup_nil
  out := fun _ hmem => absurd hmem List.not_mem_nil
  outOnce := List.nodup_nil
  atStop := Nat.zero_le _
  drained := fun hne => absurd rfl hne
  unstopped := fun _ => rfl

variable {s : StoppablePool} {i : Nat}

/-- A step of the pool that keeps the workers beside the loop where they are. -/
theorem Drains.lift (h : s.Drains) {pool : ThreadPool} {accepts : Bool}
    (heffect : Effect s.toAccounts accepts pool.toAccounts)
    (hworkers : ∀ j ∈ s.resting ++ (s.leaving ++ s.gone), ∀ pc, s.workers[j]? = some pc →
      pool.workers[j]? = some pc) :
    (s.lift pool).Drains where
  accounts := counted_effect h.accounts heffect
  resting := by
    intro j hj
    exact hworkers j (List.mem_append_left _ hj) _ (h.resting j hj)
  restingOnce := h.restingOnce
  out := by
    intro j hj
    exact hworkers j (List.mem_append_right _ hj) _ (h.out j hj)
  outOnce := h.outOnce
  atStop := Nat.le_trans h.atStop (accepted_le heffect)
  drained := fun hne => Nat.le_trans (h.drained hne) (length_taken_le heffect)
  unstopped := h.unstopped

/-- A worker has tested the flag after its task. -/
theorem Drains.rested (h : s.Drains) (i : Nat) :
    Drains { s with resting := s.resting.erase i } where
  accounts := h.accounts
  resting := fun j hj => h.resting j (List.mem_of_mem_erase hj)
  restingOnce := h.restingOnce.erase i
  out := h.out
  outOnce := h.outOnce
  atStop := h.atStop
  drained := h.drained
  unstopped := h.unstopped

/-- A worker has finished a task. -/
theorem Drains.rests (h : s.Drains) (hi : s.workers[i]? = some (.shrinkLoad false))
    (hnew : i ∉ s.resting) : Drains { s with resting := s.resting ++ [i] } where
  accounts := h.accounts
  resting := by
    intro j hj
    rcases List.mem_append.mp hj with hold | hlast
    · exact h.resting j hold
    · rw [List.mem_singleton.mp hlast]
      exact hi
  restingOnce := List.nodup_append.mpr ⟨h.restingOnce, List.pairwise_singleton _ i,
    fun j hj k hk hjk => hnew (List.mem_singleton.mp hk ▸ hjk ▸ hj)⟩
  out := h.out
  outOnce := h.outOnce
  atStop := h.atStop
  drained := h.drained
  unstopped := h.unstopped

/-- A worker has seen the flag, and the queue empty. -/
theorem Drains.leaves (h : s.Drains) (hi : s.workers[i]? = some .top)
    (hnew : i ∉ s.leaving ++ s.gone) (hstop : s.stop = true) (hempty : s.tasks = []) :
    Drains { s with leaving := s.leaving ++ [i] } := by
  have hperm : (s.leaving ++ [i] ++ s.gone).Perm (i :: (s.leaving ++ s.gone)) := by
    rw [List.append_assoc]
    exact List.perm_middle
  have htaken : s.taken.length = s.accepted := by
    have hfifo : s.taken ++ s.tasks = List.range s.accepted := h.accounts.fifo
    have hlength := congrArg List.length hfifo
    rwa [hempty, List.append_nil, List.length_range] at hlength
  refine ⟨h.accounts, h.resting, h.restingOnce, fun j hj => ?_, ?_, h.atStop, fun _ => ?_, ?_⟩
  · rcases List.mem_cons.mp (hperm.mem_iff.mp hj) with rfl | hold
    · exact hi
    · exact h.out j hold
  · exact hperm.nodup_iff.mpr (List.nodup_cons.mpr ⟨hnew, h.outOnce⟩)
  · show s.acceptedAtStop ≤ s.taken.length
    rw [htaken]
    exact h.atStop
  · intro hunset
    rw [hstop] at hunset
    cases hunset

/-- The counter counts the workers that are about to lower it. -/
theorem Drains.liveCount_pos (h : s.Drains) (hi : i ∈ s.leaving) : 0 < s.liveCount := by
  have hlive : s.liveCount + s.gone.length = s.workers.countP WorkerPc.inLoop := h.accounts.live
  have hcounted : (s.leaving ++ s.gone).length ≤ s.workers.countP WorkerPc.inLoop :=
    Slots.length_le_countP (b := .left) WorkerPc.inLoop rfl h.outOnce
      fun j hj => ⟨.top, h.out j hj, rfl⟩
  have hleaving := List.length_pos_of_mem hi
  rw [List.length_append] at hcounted
  omega

/-- A worker that is out of the loop lowers the counter. -/
theorem Drains.goes (h : s.Drains) (hi : i ∈ s.leaving) :
    Drains { s with
      liveCount := s.liveCount - 1, leaving := s.leaving.erase i, gone := s.gone ++ [i] } := by
  have hpos := h.liveCount_pos hi
  have hperm : (s.leaving.erase i ++ (s.gone ++ [i])).Perm (s.leaving ++ s.gone) := by
    rw [← List.append_assoc]
    refine (List.perm_append_singleton i _).trans ?_
    exact ((List.perm_cons_erase hi).symm.append_right s.gone)
  have hne : s.leaving ++ s.gone ≠ [] := List.ne_nil_of_mem (List.mem_append_left _ hi)
  refine ⟨?_, h.resting, h.restingOnce, fun j hj => h.out j (hperm.mem_iff.mp hj),
    hperm.nodup_iff.mpr h.outOnce, h.atStop, fun _ => h.drained hne,
    fun hunset => absurd (h.unstopped hunset) hne⟩
  have hsame : counted { s.toAccounts with liveCount := s.liveCount - 1 } (s.gone ++ [i]).length =
      counted s.toAccounts s.gone.length := by
    have hsum : s.liveCount - 1 + (s.gone.length + 1) = s.liveCount + s.gone.length := by omega
    simp only [counted, List.length_append, List.length_singleton, hsum]
  show (counted { s.toAccounts with liveCount := s.liveCount - 1 }
    (s.gone ++ [i]).length).Accounted
  rw [hsame]
  exact h.accounts

/-- A worker that is not beside the loop is not one of those that are. -/
theorem ne_of_beside {j : Nat} (hgone : i ∉ s.gone) (hleaving : i ∉ s.leaving)
    (hresting : i ∉ s.resting) (hj : j ∈ s.resting ++ (s.leaving ++ s.gone)) : j ≠ i := by
  rintro rfl
  rcases List.mem_append.mp hj with hj | hj
  · exact hresting hj
  · rcases List.mem_append.mp hj with hj | hj
    · exact hleaving hj
    · exact hgone hj

theorem drains_workerStep (h : s.Drains) (i : Nat) (spurious : Bool) :
    (s.workerStep i spurious).Drains := by
  unfold workerStep
  split
  · exact h
  rename_i hgone
  split
  · rename_i hleaving
    exact h.goes hleaving
  rename_i hleaving
  split
  · rename_i hresting
    have hpc := h.resting i hresting
    have hrested := h.rested i
    show Drains (if s.stop then _ else _)
    split
    · have heffect : Effect s.toAccounts false (s.toAccounts.move i .top) :=
        effect_move hpc ⟨rfl, rfl⟩ rfl
      refine hrested.lift heffect fun j hj pc hjpc => ?_
      have hne : i ≠ j := by
        rintro rfl
        rcases List.mem_append.mp hj with hj | hj
        · exact h.restingOnce.not_mem_erase hj
        · have htop := h.out i hj
          rw [hpc] at htop
          cases htop
      show (s.workers.set i .top)[j]? = some pc
      rw [List.getElem?_set_ne hne]
      exact hjpc
    · exact hrested
  rename_i hresting
  have hbeside : ∀ j ∈ s.resting ++ (s.leaving ++ s.gone), j ≠ i :=
    fun j hj => ne_of_beside hgone hleaving hresting hj
  have hmove : ∀ pc', ∀ j ∈ s.resting ++ (s.leaving ++ s.gone), ∀ pc, s.workers[j]? = some pc →
      (s.workers.set i pc')[j]? = some pc := by
    intro pc' j hj pc hjpc
    rw [List.getElem?_set_ne fun hij => hbeside j hj hij.symm]
    exact hjpc
  have hstep : (s.lift (s.toThreadPool.workerStep i spurious)).Drains := by
    refine h.lift (workerStep_effect s.toThreadPool i spurious) fun j hj pc hjpc => ?_
    rw [workers_workerStep _ _ (hbeside j hj)]
    exact hjpc
  split
  · rename_i hpc
    split
    · have heffect : Effect s.toAccounts false (s.toAccounts.move i .ready) :=
        effect_move hpc ⟨rfl, rfl⟩ rfl
      exact h.lift heffect (hmove .ready)
    · exact hstep
  · rename_i hpc
    split
    · rename_i hflag
      rw [Bool.and_eq_true, List.isEmpty_iff] at hflag
      have heffect : Effect s.toAccounts false (s.toAccounts.move i .top) :=
        effect_move hpc ⟨rfl, rfl⟩ rfl
      have hout : (s.lift ((s.move i .top).release true)).Drains := h.lift heffect (hmove .top)
      refine hout.leaves ?_ ?_ hflag.1 hflag.2
      · show (s.workers.set i .top)[i]? = some .top
        rw [Slots.getElem?_set_eq hpc, if_pos rfl]
      · intro hmem
        rcases List.mem_append.mp hmem with hmem | hmem
        · exact hleaving hmem
        · exact hgone hmem
    · exact hstep
  · rename_i task hpc
    refine hstep.rests ?_ hresting
    have hfinish : s.toThreadPool.workerStep i spurious =
        { s.toThreadPool with toAccounts := s.finish i task } := by
      rw [ThreadPool.workerStep, hpc]
    show (s.toThreadPool.workerStep i spurious).workers[i]? = _
    rw [hfinish]
    show (s.workers.set i (.shrinkLoad false))[i]? = _
    rw [Slots.getElem?_set_eq hpc, if_pos rfl]
  · exact hstep

theorem drains_shutdown (h : s.Drains) : s.shutdown.Drains := by
  unfold shutdown
  split
  · rename_i hfree
    have hnone := h.unstopped hfree.2
    exact ⟨h.accounts, h.resting, h.restingOnce, h.out, h.outOnce, Nat.le_refl _,
      fun hne => absurd hnone hne, fun _ => hnone⟩
  · exact h

theorem drains_step (h : s.Drains) (action : StopAction) : (s.step action).Drains := by
  cases action with
  | shutdown => exact drains_shutdown h
  | pool action =>
    rcases step_pool_cases s action with ⟨i, spurious, rfl⟩ | ⟨hother, hlift⟩
    · exact drains_workerStep h i spurious
    · rw [hlift]
      exact h.lift (step_effect s.toThreadPool action)
        fun j _ pc hjpc => workers_step hother hjpc

theorem drains_run (n backpressureLimit : Nat) (actions : List StopAction) :
    (run step (construct n backpressureLimit) actions).Drains :=
  run_invariant (P := Drains) (drains_construct n backpressureLimit)
    fun action _ _ h => drains_step h action

/-! ## The least target -/

theorem leastTarget_workerStep (s : ThreadPool) (i : Nat) (spurious : Bool) :
    (s.workerStep i spurious).leastTarget = s.leastTarget := by
  have hrelease : ∀ (s : ThreadPool) (locked : Bool),
      (s.release locked).leastTarget = s.leastTarget := by
    intro s locked
    cases locked <;> rfl
  unfold ThreadPool.workerStep
  split
  all_goals
    first
    | rfl
    | split
      all_goals
        first
        | rfl
        | exact hrelease _ _
        | split <;> rfl

/-- No call of `resize` stores zero. -/
theorem leastTarget_pos_step {s : ThreadPool} (h : 0 < s.leastTarget) (action : Action) :
    0 < (s.step action).leastTarget := by
  cases action with
  | resize n =>
    show 0 < min s.leastTarget (max minWorkers (min maxWorkers n))
    have hmin : 0 < max minWorkers (min maxWorkers n) :=
      Nat.lt_of_lt_of_le (by decide) (Nat.le_max_left _ _)
    omega
  | workerStep i spurious =>
    show 0 < (s.workerStep i spurious).leastTarget
    rw [leastTarget_workerStep]
    exact h
  | enqueue =>
    show 0 < (s.whenFree s.enqueue).leastTarget
    unfold whenFree
    split <;> exact h
  | tryEnqueue =>
    show 0 < (s.whenFree s.tryEnqueue.1).leastTarget
    unfold whenFree tryEnqueue
    split
    · split <;> exact h
    · exact h
  | resizeLock k =>
    show 0 < (s.whenFree (s.resizeLock k)).leastTarget
    unfold whenFree resizeLock
    split
    · split <;> exact h
    · exact h
  | resizeStep =>
    show 0 < s.resizeStep.leastTarget
    unfold resizeStep
    split
    · split <;> exact h
    · exact h
    · exact h

theorem leastTarget_step (s : StoppablePool) (action : StopAction) :
    (s.step action).leastTarget = s.leastTarget ∨
      ∃ action', (s.step action).leastTarget = (s.toThreadPool.step action').leastTarget := by
  cases action with
  | shutdown =>
    left
    show s.shutdown.leastTarget = s.leastTarget
    unfold shutdown
    split <;> rfl
  | pool action =>
    cases action with
    | workerStep i spurious =>
      left
      have hstep := leastTarget_workerStep s.toThreadPool i spurious
      show (s.workerStep i spurious).leastTarget = s.leastTarget
      unfold workerStep
      split
      · rfl
      split
      · rfl
      split
      · dsimp only
        split <;> rfl
      split
      all_goals first | exact hstep | split <;> first | rfl | exact hstep
    | _ => exact .inr ⟨_, rfl⟩

theorem leastTarget_pos_run {n : Nat} (hn : 0 < n) (backpressureLimit : Nat)
    (actions : List StopAction) :
    0 < (run step (construct n backpressureLimit) actions).leastTarget := by
  refine run_invariant (P := fun s : StoppablePool => 0 < s.leastTarget) ?_ ?_
  · show 0 < (ThreadPool.construct n backpressureLimit).leastTarget
    rw [construct_eq]
    exact hn
  · intro action _ s h
    rcases leastTarget_step s action with hsame | ⟨action', hpool⟩
    · rw [hsame]
      exact h
    · rw [hpool]
      exact leastTarget_pos_step h action'

/-! ## When all threads have ended -/

/-- The workers in the loop are then the ones that have seen the flag. -/
theorem countP_inLoop_le (hout : s.AllOut) :
    s.workers.countP WorkerPc.inLoop ≤ s.gone.length := by
  refine Slots.countP_le_length WorkerPc.inLoop fun j pc hj hpc => ?_
  rcases hout j (List.getElem?_eq_some_iff.mp hj).1 with hleft | hgone
  · rw [hj] at hleft
    cases hleft
    cases hpc
  · exact hgone

theorem Drains.held_eq_nil (h : s.Drains) (hout : s.AllOut) : s.held = [] := by
  refine List.filterMap_eq_nil_iff.mpr fun pc hmem => ?_
  obtain ⟨j, hj⟩ := List.mem_iff_getElem?.mp hmem
  rcases hout j (List.getElem?_eq_some_iff.mp hj).1 with hleft | hgone
  · rw [hj] at hleft
    cases hleft
    rfl
  · have htop := h.out j (List.mem_append_right _ hgone)
    rw [hj] at htop
    cases htop
    rfl

/-- The pool when all threads have ended: it has been stopped, nothing is counted or running,
every task that was accepted before the stop is finished, and each of the others is finished or
still in the queue. -/
structure Stopped (s : StoppablePool) : Prop where
  stop : s.stop = true
  live : s.liveCount = 0
  before : ∀ task < s.acceptedAtStop, task ∈ s.finished
  after : ∀ task ∈ s.tasks, s.acceptedAtStop ≤ task
  places : (s.tasks ++ s.finished).Perm (List.range s.accepted)

theorem Drains.stopped (h : s.Drains) (hleast : 0 < s.leastTarget) (hout : s.AllOut) :
    s.Stopped := by
  have hlive : s.liveCount + s.gone.length = s.workers.countP WorkerPc.inLoop := h.accounts.live
  have hcount := countP_inLoop_le hout
  have hzero : s.liveCount = 0 := by omega
  -- The last worker has not been shrunk away, so it has seen the flag.
  have hgone : s.gone ≠ [] := by
    intro hnil
    have hle : s.leastTarget ≤ s.liveCount + s.gone.length := h.accounts.least
    rw [hnil, List.length_nil] at hle
    omega
  have hsome : s.leaving ++ s.gone ≠ [] := fun hnil => hgone (List.append_eq_nil_iff.mp hnil).2
  have hstop : s.stop = true := by
    cases hflag : s.stop with
    | true => rfl
    | false => exact absurd (h.unstopped hflag) hsome
  have htaken : s.finished.Perm s.taken := by
    have hperm : (s.held ++ s.finished).Perm s.taken := h.accounts.taken
    rwa [h.held_eq_nil hout, List.nil_append] at hperm
  have hfifo : s.taken ++ s.tasks = List.range s.accepted := h.accounts.fifo
  have hdrained := h.drained hsome
  -- Tasks are taken in order, so the first ones are those that have been taken.
  have hget : ∀ k (hk : k < (s.taken ++ s.tasks).length), (s.taken ++ s.tasks)[k] = k := by
    rw [hfifo]
    intro k hk
    exact List.getElem_range hk
  refine ⟨hstop, hzero, fun task htask => ?_, fun task htask => ?_, ?_⟩
  · have hlt : task < s.taken.length := Nat.lt_of_lt_of_le htask hdrained
    have htotal : task < (s.taken ++ s.tasks).length := by
      rw [List.length_append]
      omega
    have hthis := hget task htotal
    rw [List.getElem_append_left hlt] at hthis
    rw [htaken.mem_iff, ← hthis]
    exact List.getElem_mem hlt
  · obtain ⟨k, hk, hkth⟩ := List.mem_iff_getElem.mp htask
    have htotal : s.taken.length + k < (s.taken ++ s.tasks).length := by
      rw [List.length_append]
      omega
    have hthis := hget _ htotal
    rw [List.getElem_append_right (Nat.le_add_right _ _)] at hthis
    simp only [Nat.add_sub_cancel_left] at hthis
    omega
  · rw [← hfifo]
    exact (htaken.append_left s.tasks).trans List.perm_append_comm

theorem finished_of_all_out {n : Nat} (hn : 0 < n) (backpressureLimit : Nat)
    (actions : List StopAction)
    (hout : (run step (construct n backpressureLimit) actions).AllOut) :
    (run step (construct n backpressureLimit) actions).Stopped :=
  (drains_run n backpressureLimit actions).stopped
    (leastTarget_pos_run hn backpressureLimit actions) hout

/-- One worker runs the task it finds after the stop, and leaves. -/
theorem finished_of_all_out_one :
    0 ∈ (run step (construct 1 300) (.pool .enqueue :: .shutdown ::
      List.replicate 10 (.pool (.workerStep 0 false)))).finished :=
  (finished_of_all_out (by decide) 300 _ (by decide)).before 0 (by decide)

end StoppablePool
end Dnss
