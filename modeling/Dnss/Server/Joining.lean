/-
`ThreadPool` when it stops: the threads can be joined.

`stop` joins the threads of the server after it has stopped the pool, and the destructor of the
pool joins its workers.  A worker may have to wait for the mutex, run the tasks that are left,
or load a counter again that another worker has lowered in between.

`Orderly` is what the mutex is for: at most one worker is inside, and after the stop it is on its
way to a task or out.  Then a step of a worker lowers a measure, or it does nothing since the
worker is kept from going on (`workerStep_advances`), and while there are workers some of them is
not kept (`Ending.exists_not_kept`).  So all threads end, with the tasks that were accepted before
the stop finished: `all_out_of_fair` says so for every schedule of the workers that comes back to
each of them.

A compare-exchange may fail without a reason, and then a worker comes no nearer to its end: the
schedule says when, and there may be finitely many such failures.  There is no condition
variable.  A worker that sleeps is at the top of its loop and goes on when its turn comes, since
`shutdown` has woken them all, and after that the predicate of the wait holds.  A task ends in the
step that runs it.
-/
import Dnss.Server.Shutdown
import Mathlib.Algebra.BigOperators.Intervals
import Mathlib.Order.WellFounded

namespace Dnss

open Machine ThreadPool

/-! ## The mutex -/

/-- The worker has the mutex. -/
def WorkerPc.locked : WorkerPc → Bool
  | woken => true
  | predicate _ => true
  | ready => true
  | recheck _ => true
  | shrinkLoad locked => locked
  | shrinkTest locked _ => locked
  | shrinkCas locked _ _ => locked
  | _ => false

namespace ThreadPool

/-- The mutex is with the worker that is inside. -/
def Exclusive (s : ThreadPool) : Prop :=
  ∀ i, s.mutex = some (.worker i) ↔ ∃ pc, s.workers[i]? = some pc ∧ pc.locked = true

/-- Worker `i` moves from `pc` to `pc'`, and takes the mutex, keeps it, or gives it back. -/
structure Moves (s : ThreadPool) (i : Nat) (pc pc' : WorkerPc) (s' : ThreadPool) : Prop where
  before : s.workers[i]? = some pc
  workers : s'.workers = s.workers.set i pc'
  mutex : s'.mutex =
    if pc'.locked then some (.worker i) else if pc.locked then none else s.mutex
  free : pc'.locked = true → pc.locked = false → s.mutex = none

theorem Exclusive.moves {s s' : ThreadPool} {i : Nat} {pc pc' : WorkerPc} (h : s.Exclusive)
    (hmoves : s.Moves i pc pc' s') : s'.Exclusive := by
  intro j
  have hat : s'.workers[j]? = if i = j then some pc' else s.workers[j]? := by
    rw [hmoves.workers]
    exact Slots.getElem?_set_eq hmoves.before pc' j
  have hi := h i
  have hj := h j
  have hlocked : s.mutex = some (.worker i) ↔ pc.locked = true := by
    rw [hi, hmoves.before]
    constructor
    · rintro ⟨_, hsome, hlocked⟩
      cases hsome
      exact hlocked
    · exact fun hlocked => ⟨pc, rfl, hlocked⟩
  by_cases hij : i = j
  · subst hij
    rw [hat, if_pos rfl, hmoves.mutex]
    cases hpc' : pc'.locked with
    | true => exact ⟨fun _ => ⟨pc', rfl, hpc'⟩, fun _ => rfl⟩
    | false =>
      refine ⟨fun hmutex => ?_, ?_⟩
      · cases hpc : pc.locked with
        | true =>
          rw [hpc] at hmutex
          cases hmutex
        | false =>
          rw [hpc] at hmutex
          have htrue := hlocked.mp hmutex
          rw [hpc] at htrue
          cases htrue
      · rintro ⟨_, hsome, htrue⟩
        cases hsome
        rw [hpc'] at htrue
        cases htrue
  · rw [hat, if_neg hij, ← hj, hmoves.mutex]
    have hne : (some (MutexHolder.worker i) = some (MutexHolder.worker j)) ↔ False := by
      simp [hij]
    cases hpc : pc.locked with
    | true =>
      have hmutex := hlocked.mpr hpc
      rw [hmutex, hne]
      split <;> simp [hij]
    | false =>
      cases hpc' : pc'.locked with
      | true =>
        rw [hmoves.free hpc' hpc, if_pos rfl, hne]
        simp
      | false => simp

/-- A step of a worker does nothing, or moves it. -/
theorem workerStep_moves {s : ThreadPool} (h : s.Exclusive) (i : Nat) (spurious : Bool) :
    s.workerStep i spurious = s ∨ ∃ pc pc', s.Moves i pc pc' (s.workerStep i spurious) := by
  have hinside : ∀ pc, s.workers[i]? = some pc → pc.locked = true → s.mutex = some (.worker i) :=
    fun pc hpc hlocked => (h i).mpr ⟨pc, hpc, hlocked⟩
  unfold workerStep
  split
  · exact .inl rfl
  · rename_i hpc
    split
    · rename_i hfree
      exact .inr ⟨_, .woken, hpc, rfl, rfl, fun _ _ => hfree⟩
    · exact .inl rfl
  · rename_i hpc
    have hmutex := hinside _ hpc rfl
    split
    · exact .inr ⟨_, .predicate _, hpc, rfl, hmutex, fun _ hfalse => by cases hfalse⟩
    · exact .inr ⟨_, .ready, hpc, rfl, hmutex, fun _ hfalse => by cases hfalse⟩
  · rename_i live hpc
    have hmutex := hinside _ hpc rfl
    split
    · exact .inr ⟨_, .ready, hpc, rfl, hmutex, fun _ hfalse => by cases hfalse⟩
    · exact .inr ⟨_, .top, hpc, rfl, rfl, fun hfalse => by cases hfalse⟩
  · rename_i hpc
    exact .inr ⟨_, .recheck _, hpc, rfl, hinside _ hpc rfl, fun _ hfalse => by cases hfalse⟩
  · rename_i live hpc
    split
    · split
      · exact .inr ⟨_, .shrinkLoad true, hpc, rfl, hinside _ hpc rfl,
          fun _ hfalse => by cases hfalse⟩
      · exact .inr ⟨_, .top, hpc, rfl, rfl, fun hfalse => by cases hfalse⟩
    · exact .inr ⟨_, .running _, hpc, rfl, rfl, fun hfalse => by cases hfalse⟩
  · rename_i locked hpc
    cases locked with
    | true =>
      exact .inr ⟨_, .shrinkTest true _, hpc, rfl, hinside _ hpc rfl,
        fun _ hfalse => by cases hfalse⟩
    | false => exact .inr ⟨_, .shrinkTest false _, hpc, rfl, rfl, fun hfalse => by cases hfalse⟩
  · rename_i locked cur hpc
    split
    · cases locked with
      | true =>
        exact .inr ⟨_, .shrinkCas true _ _, hpc, rfl, hinside _ hpc rfl,
          fun _ hfalse => by cases hfalse⟩
      | false =>
        exact .inr ⟨_, .shrinkCas false _ _, hpc, rfl, rfl, fun hfalse => by cases hfalse⟩
    · refine .inr ⟨_, .top, hpc, ?_, ?_, fun hfalse => by cases hfalse⟩
      · cases locked <;> rfl
      · cases locked <;> rfl
  · rename_i locked cur target hpc
    split
    · refine .inr ⟨_, .left, hpc, ?_, ?_, fun hfalse => by cases hfalse⟩
      · cases locked <;> rfl
      · cases locked <;> rfl
    · cases locked with
      | true =>
        exact .inr ⟨_, .shrinkTest true _, hpc, rfl, hinside _ hpc rfl,
          fun _ hfalse => by cases hfalse⟩
      | false => exact .inr ⟨_, .shrinkTest false _, hpc, rfl, rfl, fun hfalse => by cases hfalse⟩
  · rename_i task hpc
    exact .inr ⟨_, .shrinkLoad false, hpc, rfl, rfl, fun hfalse => by cases hfalse⟩
  · exact .inl rfl

/-- The other steps wait for a worker that is inside, or leave it alone. -/
structure Outside (s s' : ThreadPool) : Prop where
  mutex : ∀ i, s'.mutex = some (.worker i) ↔ s.mutex = some (.worker i)
  workers : ∀ (j : Nat) (pc : WorkerPc), s'.workers[j]? = some pc →
    s.workers[j]? = some pc ∨ pc = .top
  stay : ∀ (j : Nat) (pc : WorkerPc), s.workers[j]? = some pc → s'.workers[j]? = some pc
  tasks : ∀ i, s.mutex = some (.worker i) → s'.tasks = s.tasks

theorem outside_whenFree {s next : ThreadPool}
    (hmutex : ∀ i, next.mutex ≠ some (.worker i)) (hworkers : next.workers = s.workers) :
    s.Outside (s.whenFree next) := by
  unfold whenFree
  split
  · rename_i hfree
    refine ⟨fun i => ?_, fun j pc hj => ?_, fun j pc hj => ?_, fun i hi => ?_⟩
    · simp [hmutex i, hfree]
    · rw [hworkers] at hj
      exact .inl hj
    · rw [hworkers]
      exact hj
    · rw [hfree] at hi
      cases hi
  · exact ⟨fun _ => Iff.rfl, fun _ _ hj => .inl hj, fun _ _ hj => hj, fun _ _ => rfl⟩

theorem outside_step {s : ThreadPool} {action : Action}
    (haction : ∀ i spurious, action ≠ .workerStep i spurious) : s.Outside (s.step action) := by
  have hsame : s.Outside s :=
    ⟨fun _ => Iff.rfl, fun _ _ hj => .inl hj, fun _ _ hj => hj, fun _ _ => rfl⟩
  cases action with
  | enqueue =>
    show s.Outside (s.whenFree s.enqueue)
    by_cases hfree : s.mutex = none
    · refine outside_whenFree (fun i => ?_) rfl
      show s.mutex ≠ some (.worker i)
      simp [hfree]
    · rw [whenFree, if_neg hfree]
      exact hsame
  | tryEnqueue =>
    show s.Outside (s.whenFree s.tryEnqueue.1)
    by_cases hfree : s.mutex = none
    · refine outside_whenFree (fun i => ?_) ?_
      · unfold tryEnqueue
        split <;> simp [hfree, enqueue]
      · unfold tryEnqueue
        split <;> rfl
    · rw [whenFree, if_neg hfree]
      exact hsame
  | resize n => exact ⟨fun _ => Iff.rfl, fun _ _ hj => .inl hj, fun _ _ hj => hj, fun _ _ => rfl⟩
  | resizeLock k =>
    show s.Outside (s.whenFree (s.resizeLock k))
    by_cases hfree : s.mutex = none
    · refine outside_whenFree (fun i => ?_) ?_
      · unfold resizeLock
        split <;> simp [hfree]
      · unfold resizeLock
        split <;> rfl
    · rw [whenFree, if_neg hfree]
      exact hsame
  | resizeStep =>
    show s.Outside s.resizeStep
    unfold resizeStep
    split
    · rename_i n hmutex
      split
      all_goals
        exact ⟨fun i => by simp [hmutex], fun _ _ hj => .inl hj, fun _ _ hj => hj, fun _ _ => rfl⟩
    · rename_i n hmutex
      refine ⟨fun i => by simp [hmutex], fun j pc hj => ?_, fun j pc hj => ?_, fun i hi => rfl⟩
      · rcases Nat.lt_or_ge j s.workers.length with hlt | hge
        · rw [show s.spawnWorker.workers = s.workers ++ [.top] from rfl,
            List.getElem?_append_left hlt] at hj
          exact .inl hj
        · rw [show s.spawnWorker.workers = s.workers ++ [.top] from rfl,
            List.getElem?_append_right hge] at hj
          exact .inr (List.mem_singleton.mp (List.mem_of_getElem? hj))
      · show (s.workers ++ [WorkerPc.top])[j]? = some pc
        rw [List.getElem?_append_left (List.getElem?_eq_some_iff.mp hj).1]
        exact hj
    · exact hsame
  | workerStep i spurious => exact absurd rfl (haction i spurious)

theorem Exclusive.outside {s s' : ThreadPool} (h : s.Exclusive) (hout : s.Outside s') :
    s'.Exclusive := by
  intro i
  rw [hout.mutex i, h i]
  constructor
  · rintro ⟨pc, hpc, hlocked⟩
    exact ⟨pc, hout.stay i pc hpc, hlocked⟩
  · rintro ⟨pc, hpc, hlocked⟩
    rcases hout.workers i pc hpc with hold | rfl
    · exact ⟨pc, hold, hlocked⟩
    · cases hlocked

end ThreadPool

/-! ## After the stop -/

namespace StoppablePool

variable {s : StoppablePool} {i : Nat}

/-- The worker inside is on its way to a task or out. -/
def Serves (s : StoppablePool) (i : Nat) : Prop :=
  s.workers[i]? = some .woken ∨ s.workers[i]? = some .ready ∨
    (∃ live, s.workers[i]? = some (.recheck live)) ∧ s.tasks ≠ []

/-- What the mutex is for. -/
structure Orderly (s : StoppablePool) : Prop where
  exclusive : s.Exclusive
  serving : s.stop = true → ∀ i, s.mutex = some (.worker i) → s.Serves i

theorem orderly_construct (n backpressureLimit : Nat) :
    (construct n backpressureLimit).Orderly := by
  have hmutex : (construct n backpressureLimit).mutex = none := rfl
  have hworkers : (construct n backpressureLimit).workers = List.replicate n .top := by
    show (ThreadPool.construct n backpressureLimit).workers = _
    rw [construct_eq]
  refine ⟨fun i => ?_, fun _ i hi => ?_⟩
  · rw [show (construct n backpressureLimit).toThreadPool.mutex = none from rfl,
      show (construct n backpressureLimit).toThreadPool.workers = List.replicate n .top from
        hworkers]
    refine ⟨fun hnone => (by cases hnone), ?_⟩
    rintro ⟨pc, hpc, hlocked⟩
    rw [List.eq_of_mem_replicate (List.mem_of_getElem? hpc)] at hlocked
    cases hlocked
  · rw [hmutex] at hi
    cases hi

theorem Orderly.moves (h : s.Orderly) {s' : StoppablePool} {pc pc' : WorkerPc}
    (hmoves : s.Moves i pc pc' s'.toThreadPool) (hstop : s'.stop = s.stop)
    (htasks : pc.locked = false → s'.tasks = s.tasks)
    (hserves : s.stop = true → pc'.locked = true → s'.Serves i) : s'.Orderly := by
  have hexclusive : s'.Exclusive := h.exclusive.moves hmoves
  refine ⟨hexclusive, fun hstopped k hk => ?_⟩
  rw [hstop] at hstopped
  obtain ⟨pck, hpck, hlocked⟩ := (hexclusive k).mp hk
  have hat : s'.workers[k]? = if i = k then some pc' else s.workers[k]? := by
    rw [hmoves.workers]
    exact Slots.getElem?_set_eq hmoves.before pc' k
  by_cases hik : i = k
  · subst hik
    rw [hat, if_pos rfl] at hpck
    cases hpck
    exact hserves hstopped hlocked
  · rw [if_neg hik] at hat
    rw [hat] at hpck
    -- Another worker is inside, so this one is not, and leaves the queue alone.
    have hkth : s.mutex = some (.worker k) := (h.exclusive k).mpr ⟨pck, hpck, hlocked⟩
    have hpc : pc.locked = false := by
      cases hlock : pc.locked with
      | false => rfl
      | true =>
        have hith := (h.exclusive i).mpr ⟨pc, hmoves.before, hlock⟩
        rw [hkth] at hith
        cases hith
        exact absurd rfl hik
    have hserve := h.serving hstopped k hkth
    unfold Serves at hserve ⊢
    rw [hat, htasks hpc]
    exact hserve

theorem Orderly.outside (h : s.Orderly) {pool : ThreadPool}
    (hout : s.toThreadPool.Outside pool) : (s.lift pool).Orderly := by
  refine ⟨h.exclusive.outside hout, fun hstopped k hk => ?_⟩
  have hkth : s.mutex = some (.worker k) := (hout.mutex k).mp hk
  have hserve := h.serving hstopped k hkth
  have htasks : (s.lift pool).tasks = s.tasks := hout.tasks k hkth
  unfold Serves at hserve ⊢
  rw [htasks]
  rcases hserve with hwoken | hready | ⟨⟨live, hrecheck⟩, hsome⟩
  · exact .inl (hout.stay k _ hwoken)
  · exact .inr (.inl (hout.stay k _ hready))
  · exact .inr (.inr ⟨⟨live, hout.stay k _ hrecheck⟩, hsome⟩)

/-! ## The measure -/

end StoppablePool

/-- How far a worker is from the end of its round, after the stop.  A compare-exchange that
compares with an old count is farther than one that will succeed. -/
def WorkerPc.weight (live : Nat) : WorkerPc → Nat
  | running _ => 11
  | shrinkLoad _ => 8
  | shrinkTest _ cur => if cur = live then 7 else 9
  | shrinkCas _ cur _ => if cur = live then 6 else 8
  | top => 5
  | woken => 4
  | ready => 3
  | recheck _ => 2
  | predicate _ => 0
  | left => 0

namespace StoppablePool

variable {s : StoppablePool} {i : Nat}

def weight (s : StoppablePool) (i : Nat) : Nat :=
  if i ∈ s.gone then 0
  else if i ∈ s.leaving then 1
  else if i ∈ s.resting then 10
  else ((s.workers[i]?).map (WorkerPc.weight s.liveCount)).getD 0

/-- A task is worth more than a round. -/
def measure (s : StoppablePool) : Nat × Nat :=
  (s.liveCount, 20 * s.tasks.length + ∑ i ∈ Finset.range s.workers.length, s.weight i)

def Lower (s' s : StoppablePool) : Prop := Prod.Lex (· < ·) (· < ·) s'.measure s.measure

/-- The worker runs its loop, and is not between a task and the flag. -/
structure Inside (s : StoppablePool) (i : Nat) : Prop where
  gone : i ∉ s.gone
  leaving : i ∉ s.leaving
  resting : i ∉ s.resting

theorem Inside.weight_eq (h : s.Inside i) {pc : WorkerPc} (hpc : s.workers[i]? = some pc) :
    s.weight i = pc.weight s.liveCount := by
  rw [weight, if_neg h.gone, if_neg h.leaving, if_neg h.resting, hpc]
  rfl

theorem weight_leaving (hgone : i ∉ s.gone) (hi : i ∈ s.leaving) : s.weight i = 1 := by
  rw [weight, if_neg hgone, if_pos hi]

theorem weight_resting (hgone : i ∉ s.gone) (hleaving : i ∉ s.leaving) (hi : i ∈ s.resting) :
    s.weight i = 10 := by
  rw [weight, if_neg hgone, if_neg hleaving, if_pos hi]

/-- Only the place of worker `i` counts. -/
theorem lower_of_weight {s' : StoppablePool} {pc pc' : WorkerPc} (hpc : s.workers[i]? = some pc)
    (hlive : s'.liveCount = s.liveCount) (hworkers : s'.workers = s.workers.set i pc')
    (hlists : ∀ j ≠ i, (j ∈ s'.gone ↔ j ∈ s.gone) ∧ (j ∈ s'.leaving ↔ j ∈ s.leaving) ∧
      (j ∈ s'.resting ↔ j ∈ s.resting))
    (hless : 20 * s'.tasks.length + s'.weight i < 20 * s.tasks.length + s.weight i) :
    s'.Lower s := by
  have hlt : i ∈ Finset.range s.workers.length :=
    Finset.mem_range.mpr (List.getElem?_eq_some_iff.mp hpc).1
  have hothers : ∑ j ∈ (Finset.range s.workers.length).erase i, s'.weight j =
      ∑ j ∈ (Finset.range s.workers.length).erase i, s.weight j := by
    refine Finset.sum_congr rfl fun j hj => ?_
    have hne := Finset.ne_of_mem_erase hj
    obtain ⟨hgone, hleaving, hresting⟩ := hlists j hne
    have hat : s'.workers[j]? = s.workers[j]? := by
      rw [hworkers, List.getElem?_set_ne fun hij => hne hij.symm]
    simp only [weight, hgone, hleaving, hresting, hlive, hat]
  have hnew := Finset.add_sum_erase _ s'.weight hlt
  have hold := Finset.add_sum_erase _ s.weight hlt
  have hlength : s'.workers.length = s.workers.length := by
    rw [hworkers, List.length_set]
  unfold Lower measure
  rw [hlive, hlength]
  refine Prod.Lex.right _ ?_
  omega

/-- A worker moves in its loop. -/
theorem lower_of_move (h : s.Inside i) {pool : ThreadPool} {pc pc' : WorkerPc}
    (hpc : s.workers[i]? = some pc) (hlive : pool.liveCount = s.liveCount)
    (hworkers : pool.workers = s.workers.set i pc')
    (hless : 20 * pool.tasks.length + pc'.weight s.liveCount <
      20 * s.tasks.length + pc.weight s.liveCount) :
    (s.lift pool).Lower s := by
  have hin : (s.lift pool).Inside i := ⟨h.gone, h.leaving, h.resting⟩
  have hpc' : (s.lift pool).workers[i]? = some pc' := by
    show pool.workers[i]? = some pc'
    rw [hworkers, Slots.getElem?_set_eq hpc, if_pos rfl]
  refine lower_of_weight hpc hlive hworkers (fun _ _ => ⟨Iff.rfl, Iff.rfl, Iff.rfl⟩) ?_
  rw [h.weight_eq hpc, hin.weight_eq hpc']
  show 20 * pool.tasks.length + pc'.weight pool.liveCount < _
  rw [hlive]
  exact hless

theorem lower_of_live {s' : StoppablePool} (h : s'.liveCount < s.liveCount) : s'.Lower s :=
  Prod.Lex.left _ _ h

/-! ## Steps after the stop -/

/-- The worker has ended or does not exist, or waits for the mutex. -/
def Kept (s : StoppablePool) (i : Nat) : Prop :=
  s.Out i ∨ s.workers[i]? = none ∨ s.workers[i]? = some .top ∧ s.mutex ≠ none

/-- The step has kept the order, and is one step nearer to the end. -/
structure Advances (s s' : StoppablePool) : Prop where
  orderly : s'.Orderly
  stop : s'.stop = s.stop
  length : s'.workers.length = s.workers.length
  mutex : ∀ n spawning, s'.mutex = some (.resize n spawning) → s.mutex = some (.resize n spawning)
  lower : s'.Lower s

theorem Advances.of_moves {s' : StoppablePool} {pc pc' : WorkerPc} (h : s.Orderly)
    (hmoves : s.Moves i pc pc' s'.toThreadPool) (hstop : s'.stop = s.stop)
    (htasks : pc.locked = false → s'.tasks = s.tasks)
    (hserves : pc'.locked = true → s'.Serves i) (hlower : s'.Lower s) : s.Advances s' where
  orderly := h.moves hmoves hstop htasks fun _ => hserves
  stop := hstop
  length := by
    rw [hmoves.workers, List.length_set]
  mutex := by
    intro n spawning hmutex
    rw [hmoves.mutex] at hmutex
    split at hmutex
    · cases hmutex
    · split at hmutex
      · cases hmutex
      · exact hmutex
  lower := hlower

theorem advances_move (h : s.Orderly) (hin : s.Inside i) {pool : ThreadPool} {pc pc' : WorkerPc}
    (hmoves : s.Moves i pc pc' pool) (hlive : pool.liveCount = s.liveCount)
    (htasks : pc.locked = false → pool.tasks = s.tasks)
    (hserves : pc'.locked = true → (s.lift pool).Serves i)
    (hless : 20 * pool.tasks.length + pc'.weight s.liveCount <
      20 * s.tasks.length + pc.weight s.liveCount) :
    s.Advances (s.lift pool) :=
  .of_moves h hmoves rfl htasks hserves
    (lower_of_move hin hmoves.before hlive hmoves.workers hless)

theorem advance_rested (h : s.Orderly) (hdrains : s.Drains) (hi : i ∈ s.resting)
    (hgone : i ∉ s.gone) (hleaving : i ∉ s.leaving) :
    s.Advances { s.lift (s.move i .top) with resting := s.resting.erase i } := by
  have hpc := hdrains.resting i hi
  have hnot : i ∉ s.resting.erase i := hdrains.restingOnce.not_mem_erase
  have hmoves : s.Moves i (.shrinkLoad false) .top (s.move i .top) :=
    ⟨hpc, rfl, rfl, fun hfalse => by cases hfalse⟩
  refine .of_moves h hmoves rfl (fun _ => rfl) (fun hfalse => by cases hfalse) ?_
  refine lower_of_weight hpc rfl rfl (fun j hne => ⟨Iff.rfl, Iff.rfl, ?_⟩) ?_
  · exact List.mem_erase_of_ne hne
  · have hold : s.weight i = 10 := weight_resting hgone hleaving hi
    have hin : Inside { s.lift (s.move i .top) with resting := s.resting.erase i } i :=
      ⟨hgone, hleaving, hnot⟩
    have hat : (s.workers.set i .top)[i]? = some WorkerPc.top := by
      rw [Slots.getElem?_set_eq hpc, if_pos rfl]
    rw [hold, hin.weight_eq hat]
    show 20 * s.tasks.length + 5 < _
    omega

theorem advance_finishes (h : s.Orderly) (hin : s.Inside i) {task : Nat}
    (hpc : s.workers[i]? = some (.running task)) :
    s.Advances { s.lift { s.toThreadPool with toAccounts := s.finish i task } with
      resting := s.resting ++ [i] } := by
  have hmoves : s.Moves i (.running task) (.shrinkLoad false)
      { s.toThreadPool with toAccounts := s.finish i task } :=
    ⟨hpc, rfl, rfl, fun hfalse => by cases hfalse⟩
  refine .of_moves h hmoves rfl (fun _ => rfl) (fun hfalse => by cases hfalse) ?_
  refine lower_of_weight hpc rfl rfl (fun j hne => ⟨Iff.rfl, Iff.rfl, ?_⟩) ?_
  · simp [hne]
  · have hmem : i ∈ s.resting ++ [i] := List.mem_append_right _ List.mem_cons_self
    have hnew := weight_resting (s := { s.lift { s.toThreadPool with
      toAccounts := s.finish i task } with resting := s.resting ++ [i] }) hin.gone hin.leaving hmem
    rw [hin.weight_eq hpc, hnew]
    show 20 * s.tasks.length + 10 < 20 * s.tasks.length + 11
    omega

theorem advance_leaves (h : s.Orderly) (hin : s.Inside i) (hpc : s.workers[i]? = some .ready) :
    s.Advances { s.lift ((s.move i .top).release true) with leaving := s.leaving ++ [i] } := by
  have hmoves : s.Moves i .ready .top ((s.move i .top).release true) :=
    ⟨hpc, rfl, rfl, fun hfalse => by cases hfalse⟩
  refine .of_moves h hmoves rfl (fun _ => rfl) (fun hfalse => by cases hfalse) ?_
  refine lower_of_weight hpc rfl rfl (fun j hne => ⟨Iff.rfl, ?_, Iff.rfl⟩) ?_
  · simp [hne]
  · have hmem : i ∈ s.leaving ++ [i] := List.mem_append_right _ List.mem_cons_self
    have hnew := weight_leaving (s := { s.lift ((s.move i .top).release true) with
      leaving := s.leaving ++ [i] }) hin.gone hmem
    rw [hin.weight_eq hpc, hnew]
    show 20 * s.tasks.length + 1 < 20 * s.tasks.length + 3
    omega

theorem advance_goes (h : s.Orderly) (hdrains : s.Drains) (hi : i ∈ s.leaving) :
    s.Advances { s with
      liveCount := s.liveCount - 1, leaving := s.leaving.erase i, gone := s.gone ++ [i] } := by
  refine ⟨⟨h.exclusive, h.serving⟩, rfl, rfl, fun _ _ hmutex => hmutex, lower_of_live ?_⟩
  have hpos := hdrains.liveCount_pos hi
  show s.liveCount - 1 < s.liveCount
  omega

/-- A worker outside the mutex that is not in front of it. -/
theorem advance_shrink (h : s.Orderly) (hdrains : s.Drains) (hin : s.Inside i) {pc : WorkerPc}
    (hpc : s.workers[i]? = some pc)
    (hshrink : pc = .shrinkLoad false ∨ (∃ cur, pc = .shrinkTest false cur) ∨
      ∃ cur target, pc = .shrinkCas false cur target) :
    s.Advances (s.lift (s.toThreadPool.workerStep i false)) := by
  obtain rfl | ⟨cur, rfl⟩ | ⟨cur, target, rfl⟩ := hshrink
  · have hstep : s.toThreadPool.workerStep i false =
        s.move i (.shrinkTest false s.liveCount) := by
      simp only [ThreadPool.workerStep, hpc]
    rw [hstep]
    refine advances_move h hin ⟨hpc, rfl, rfl, fun hfalse => by cases hfalse⟩ rfl (fun _ => rfl)
      (fun hfalse => by cases hfalse) ?_
    show 20 * s.tasks.length + (if s.liveCount = s.liveCount then 7 else 9) < _ + 8
    rw [if_pos rfl]
    omega
  · by_cases htarget : s.target < cur
    · have hstep : s.toThreadPool.workerStep i false =
          s.move i (.shrinkCas false cur s.target) := by
        simp only [ThreadPool.workerStep, hpc, if_pos htarget]
      rw [hstep]
      refine advances_move h hin ⟨hpc, rfl, rfl, fun hfalse => by cases hfalse⟩ rfl (fun _ => rfl)
        (fun hfalse => by cases hfalse) ?_
      show 20 * s.tasks.length + (if cur = s.liveCount then 6 else 8) <
        20 * s.tasks.length + (if cur = s.liveCount then 7 else 9)
      split <;> omega
    · have hstep : s.toThreadPool.workerStep i false = s.move i .top := by
        simp only [ThreadPool.workerStep, hpc, if_neg htarget]
        rfl
      rw [hstep]
      refine advances_move h hin ⟨hpc, rfl, rfl, fun hfalse => by cases hfalse⟩ rfl (fun _ => rfl)
        (fun hfalse => by cases hfalse) ?_
      show 20 * s.tasks.length + 5 < 20 * s.tasks.length + (if cur = s.liveCount then 7 else 9)
      split <;> omega
  · by_cases hcur : s.liveCount = cur
    · have hstep : s.toThreadPool.workerStep i false =
          { s.toThreadPool with toAccounts := s.leave i } := by
        simp only [ThreadPool.workerStep, hpc, hcur]
        rfl
      rw [hstep]
      have hmoves : s.Moves i (.shrinkCas false cur target) .left
          { s.toThreadPool with toAccounts := s.leave i } :=
        ⟨hpc, rfl, rfl, fun hfalse => by cases hfalse⟩
      refine .of_moves h hmoves rfl (fun _ => rfl) (fun hfalse => by cases hfalse)
        (lower_of_live ?_)
      have hlt := (hdrains.accounts.loaded i false cur target hpc).2
      show s.liveCount - 1 < s.liveCount
      omega
    · have hstep : s.toThreadPool.workerStep i false =
          s.move i (.shrinkTest false s.liveCount) := by
        simp only [ThreadPool.workerStep, hpc, hcur, false_and, if_false]
      rw [hstep]
      refine advances_move h hin ⟨hpc, rfl, rfl, fun hfalse => by cases hfalse⟩ rfl (fun _ => rfl)
        (fun hfalse => by cases hfalse) ?_
      have hstale : ¬cur = s.liveCount := fun heq => hcur heq.symm
      show 20 * s.tasks.length + (if s.liveCount = s.liveCount then 7 else 9) <
        20 * s.tasks.length + (if cur = s.liveCount then 6 else 8)
      rw [if_pos rfl, if_neg hstale]
      omega

theorem advance_inside (h : s.Orderly) (hdrains : s.Drains) (hstop : s.stop = true)
    (hin : s.Inside i) {pc : WorkerPc} (hpc : s.workers[i]? = some pc) :
    (s.workerStep i false = s ∧ s.Kept i) ∨ s.Advances (s.workerStep i false) := by
  have hheld : pc.locked = true → s.mutex = some (.worker i) :=
    fun hlocked => (h.exclusive i).mpr ⟨pc, hpc, hlocked⟩
  -- After the stop a worker with the mutex is in three places only.
  have hinside : pc.locked = true → pc = .woken ∨ pc = .ready ∨
      (∃ live, pc = .recheck live) ∧ s.tasks ≠ [] := by
    intro hlocked
    have hserves := h.serving hstop i (hheld hlocked)
    unfold Serves at hserves
    rw [hpc] at hserves
    simpa using hserves
  have hat : ∀ pc', (s.workers.set i pc')[i]? = some pc' := by
    intro pc'
    rw [Slots.getElem?_set_eq hpc, if_pos rfl]
  rw [workerStep, if_neg hin.gone, if_neg hin.leaving, if_neg hin.resting, hpc]
  cases pc with
  | top =>
    show (s.lift (s.toThreadPool.workerStep i false) = s ∧ _) ∨
      s.Advances (s.lift (s.toThreadPool.workerStep i false))
    cases hmutex : s.mutex with
    | none =>
      right
      have hstep : s.toThreadPool.workerStep i false =
          { s.move i .woken with mutex := some (.worker i) } := by
        simp only [ThreadPool.workerStep, hpc, hmutex]
      rw [hstep]
      refine advances_move h hin ⟨hpc, rfl, rfl, fun _ _ => hmutex⟩ rfl (fun _ => rfl)
        (fun _ => .inl (hat .woken)) ?_
      show 20 * s.tasks.length + 4 < 20 * s.tasks.length + 5
      omega
    | some holder =>
      left
      have hstep : s.toThreadPool.workerStep i false = s.toThreadPool := by
        simp only [ThreadPool.workerStep, hpc, hmutex]
      rw [hstep]
      exact ⟨rfl, .inr (.inr ⟨hpc, by simp [hmutex]⟩)⟩
  | woken =>
    right
    show s.Advances (if s.stop then _ else _)
    rw [if_pos hstop]
    refine advances_move h hin ⟨hpc, rfl, hheld rfl, fun _ hfalse => by cases hfalse⟩ rfl
      (fun _ => rfl) (fun _ => .inr (.inl (hat .ready))) ?_
    show 20 * s.tasks.length + 3 < 20 * s.tasks.length + 4
    omega
  | ready =>
    right
    show s.Advances (if s.stop && s.tasks.isEmpty then _ else _)
    by_cases hempty : s.tasks = []
    · rw [if_pos (by rw [hstop, hempty]; rfl)]
      exact advance_leaves h hin hpc
    · rw [if_neg (by simp [hempty])]
      have hstep : s.toThreadPool.workerStep i false = s.move i (.recheck s.liveCount) := by
        simp only [ThreadPool.workerStep, hpc]
      rw [hstep]
      refine advances_move h hin ⟨hpc, rfl, hheld rfl, fun _ hfalse => by cases hfalse⟩ rfl
        (fun _ => rfl) (fun _ => .inr (.inr ⟨⟨_, hat _⟩, hempty⟩)) ?_
      show 20 * s.tasks.length + 2 < 20 * s.tasks.length + 3
      omega
  | recheck live =>
    right
    obtain hpc' | hpc' | ⟨-, hsome⟩ := hinside rfl
    · cases hpc'
    · cases hpc'
    obtain ⟨task, rest, htasks⟩ := List.exists_cons_of_ne_nil hsome
    have hstep : s.toThreadPool.workerStep i false =
        release { s.toThreadPool with toAccounts := s.take i task rest } true := by
      simp only [ThreadPool.workerStep, hpc, htasks]
    show s.Advances (s.lift (s.toThreadPool.workerStep i false))
    rw [hstep]
    refine advances_move h hin ⟨hpc, rfl, rfl, fun hfalse => by cases hfalse⟩ rfl
      (fun hfalse => by cases hfalse) (fun hfalse => by cases hfalse) ?_
    show 20 * rest.length + 11 < 20 * s.tasks.length + 2
    rw [htasks, List.length_cons]
    omega
  | running task =>
    right
    have hstep : s.toThreadPool.workerStep i false =
        { s.toThreadPool with toAccounts := s.finish i task } := by
      simp only [ThreadPool.workerStep, hpc]
    show s.Advances { s.lift (s.toThreadPool.workerStep i false) with resting := s.resting ++ [i] }
    rw [hstep]
    exact advance_finishes h hin hpc
  | left =>
    left
    have hstep : s.toThreadPool.workerStep i false = s.toThreadPool := by
      simp only [ThreadPool.workerStep, hpc]
    refine ⟨?_, .inl (.inl hpc)⟩
    show s.lift (s.toThreadPool.workerStep i false) = s
    rw [hstep]
    rfl
  | predicate live =>
    obtain hpc' | hpc' | ⟨⟨_, hpc'⟩, -⟩ := hinside rfl <;> cases hpc'
  | shrinkLoad locked =>
    cases locked with
    | true => obtain hpc' | hpc' | ⟨⟨_, hpc'⟩, -⟩ := hinside rfl <;> cases hpc'
    | false => exact .inr (advance_shrink h hdrains hin hpc (.inl rfl))
  | shrinkTest locked cur =>
    cases locked with
    | true => obtain hpc' | hpc' | ⟨⟨_, hpc'⟩, -⟩ := hinside rfl <;> cases hpc'
    | false => exact .inr (advance_shrink h hdrains hin hpc (.inr (.inl ⟨cur, rfl⟩)))
  | shrinkCas locked cur target =>
    cases locked with
    | true => obtain hpc' | hpc' | ⟨⟨_, hpc'⟩, -⟩ := hinside rfl <;> cases hpc'
    | false => exact .inr (advance_shrink h hdrains hin hpc (.inr (.inr ⟨cur, target, rfl⟩)))

/-- After the stop a step of a worker advances the pool, unless it is kept. -/
theorem workerStep_advances (h : s.Orderly) (hdrains : s.Drains) (hstop : s.stop = true) (i : Nat) :
    (s.workerStep i false = s ∧ s.Kept i) ∨ s.Advances (s.workerStep i false) := by
  by_cases hgone : i ∈ s.gone
  · left
    rw [workerStep, if_pos hgone]
    exact ⟨rfl, .inl (.inr hgone)⟩
  by_cases hleaving : i ∈ s.leaving
  · right
    rw [workerStep, if_neg hgone, if_pos hleaving]
    exact advance_goes h hdrains hleaving
  by_cases hresting : i ∈ s.resting
  · right
    rw [workerStep, if_neg hgone, if_neg hleaving, if_pos hresting]
    show s.Advances (if s.stop then _ else _)
    rw [if_pos hstop]
    exact advance_rested h hdrains hresting hgone hleaving
  cases hpc : s.workers[i]? with
  | none =>
    left
    have hstep : s.toThreadPool.workerStep i false = s.toThreadPool := by
      simp only [ThreadPool.workerStep, hpc]
    rw [workerStep, if_neg hgone, if_neg hleaving, if_neg hresting, hpc]
    refine ⟨?_, .inr (.inl hpc)⟩
    show s.lift (s.toThreadPool.workerStep i false) = s
    rw [hstep]
    rfl
  | some pc => exact advance_inside h hdrains hstop ⟨hgone, hleaving, hresting⟩ hpc

/-! ## Runs -/

theorem exclusive_workerStep {s : ThreadPool} (h : s.Exclusive) (i : Nat) (spurious : Bool) :
    (s.workerStep i spurious).Exclusive := by
  rcases ThreadPool.workerStep_moves h i spurious with hsame | ⟨pc, pc', hmoves⟩
  · rw [hsame]
    exact h
  · exact h.moves hmoves

/-- Before the stop only the mutex has to be looked at. -/
theorem orderly_running (h : s.Orderly) (hstop : s.stop = false) (i : Nat) (spurious : Bool) :
    (s.workerStep i spurious).Orderly := by
  have hrunning : ∀ s' : StoppablePool, s'.Exclusive → s'.stop = false → s'.Orderly := by
    intro s' hexclusive hfalse
    refine ⟨hexclusive, fun htrue => ?_⟩
    rw [hfalse] at htrue
    cases htrue
  have hstep := exclusive_workerStep h.exclusive i spurious
  unfold workerStep
  split
  · exact h
  split
  · exact hrunning _ h.exclusive hstop
  split
  · show Orderly (if s.stop then _ else _)
    rw [if_neg (by simp [hstop])]
    exact hrunning _ h.exclusive hstop
  split
  · rw [if_neg (by simp [hstop])]
    exact hrunning _ hstep hstop
  · rw [if_neg (by simp [hstop])]
    exact hrunning _ hstep hstop
  · exact hrunning _ hstep hstop
  · exact hrunning _ hstep hstop

/-- A compare-exchange that fails without a reason is the only step that the choice changes. -/
theorem workerStep_spurious (s : StoppablePool) (i : Nat) :
    s.workerStep i true = s.workerStep i false ∨
      ∃ locked cur target, s.workers[i]? = some (.shrinkCas locked cur target) ∧
        s.workerStep i true = s.lift (s.move i (.shrinkTest locked s.liveCount)) := by
  by_cases hcas : ∃ locked cur target, s.workers[i]? = some (.shrinkCas locked cur target)
  · by_cases hin : s.Inside i
    · obtain ⟨locked, cur, target, hpc⟩ := hcas
      right
      refine ⟨locked, cur, target, hpc, ?_⟩
      rw [workerStep, if_neg hin.gone, if_neg hin.leaving, if_neg hin.resting, hpc]
      show s.lift (s.toThreadPool.workerStep i true) = _
      simp only [ThreadPool.workerStep, hpc, Bool.true_eq_false, and_false, if_false]
    · left
      unfold workerStep
      split
      · rfl
      split
      · rfl
      split
      · rfl
      · exact absurd ⟨‹_›, ‹_›, ‹_›⟩ hin
  · left
    have hpool : s.toThreadPool.workerStep i true = s.toThreadPool.workerStep i false := by
      unfold ThreadPool.workerStep
      split <;> first | rfl | exact absurd ⟨_, _, _, ‹_›⟩ hcas
    unfold workerStep
    rw [hpool]

theorem orderly_workerStep (h : s.Orderly) (hdrains : s.Drains) (i : Nat) (spurious : Bool) :
    (s.workerStep i spurious).Orderly := by
  cases hstop : s.stop with
  | false => exact orderly_running h hstop i spurious
  | true =>
    have hsure : (s.workerStep i false).Orderly := by
      rcases workerStep_advances h hdrains hstop i with ⟨hsame, -⟩ | hadvances
      · rw [hsame]
        exact h
      · exact hadvances.orderly
    cases spurious with
    | false => exact hsure
    | true =>
      rcases workerStep_spurious s i with hsame | ⟨locked, cur, target, hpc, hstep⟩
      · rw [hsame]
        exact hsure
      · have hunlocked : locked = false := by
          cases locked with
          | false => rfl
          | true =>
            have hserves := h.serving hstop i ((h.exclusive i).mpr ⟨_, hpc, rfl⟩)
            unfold Serves at hserves
            rw [hpc] at hserves
            simp at hserves
        subst hunlocked
        rw [hstep]
        have hmoves : s.Moves i (.shrinkCas false cur target) (.shrinkTest false s.liveCount)
            (s.move i (.shrinkTest false s.liveCount)) :=
          ⟨hpc, rfl, rfl, fun hfalse => by cases hfalse⟩
        exact h.moves hmoves rfl (fun _ => rfl) fun _ hfalse => by cases hfalse

theorem orderly_step (h : s.Orderly) (hdrains : s.Drains) (action : StopAction) :
    (s.step action).Orderly := by
  cases action with
  | shutdown =>
    show s.shutdown.Orderly
    unfold shutdown
    split
    · rename_i hfree
      refine ⟨h.exclusive, fun _ k hk => ?_⟩
      rw [show s.mutex = some (.worker k) from hk] at hfree
      cases hfree.1
    · exact h
  | pool action =>
    rcases step_pool_cases s action with ⟨i, spurious, rfl⟩ | ⟨hother, hlift⟩
    · exact orderly_workerStep h hdrains i spurious
    · rw [hlift]
      exact h.outside (outside_step hother)

theorem orderly_run (n backpressureLimit : Nat) (actions : List StopAction) :
    (run step (construct n backpressureLimit) actions).Orderly := by
  have hboth : (run step (construct n backpressureLimit) actions).Orderly ∧
      (run step (construct n backpressureLimit) actions).Drains :=
    run_invariant (P := fun s : StoppablePool => s.Orderly ∧ s.Drains)
      ⟨orderly_construct n backpressureLimit, drains_construct n backpressureLimit⟩
      fun action _ _ h => ⟨orderly_step h.1 h.2 action, drains_step h.2 action⟩
  exact hboth.1

/-- What holds while only workers move after the stop. -/
structure Ending (n : Nat) (s : StoppablePool) : Prop where
  orderly : s.Orderly
  drains : s.Drains
  stop : s.stop = true
  length : s.workers.length = n
  mutex : ∀ m spawning, s.mutex ≠ some (.resize m spawning)

theorem Ending.workerStep {n : Nat} (h : s.Ending n) (i : Nat) (spurious : Bool) :
    (s.workerStep i spurious).Ending n := by
  have hsure : (s.workerStep i false).Ending n := by
    rcases workerStep_advances h.orderly h.drains h.stop i with ⟨hsame, -⟩ | hadvances
    · rw [hsame]
      exact h
    · exact ⟨hadvances.orderly, drains_workerStep h.drains i false, hadvances.stop.trans h.stop,
        hadvances.length.trans h.length, fun m spawning hm => h.mutex m spawning
          (hadvances.mutex m spawning hm)⟩
  cases spurious with
  | false => exact hsure
  | true =>
    have horderly := orderly_workerStep h.orderly h.drains i true
    have hdrains := drains_workerStep h.drains i true
    rcases workerStep_spurious s i with hsame | ⟨locked, cur, target, hpc, hstep⟩
    · rw [hsame]
      exact hsure
    · rw [hstep] at horderly hdrains ⊢
      exact ⟨horderly, hdrains, h.stop, (List.length_set ..).trans h.length, h.mutex⟩

/-- Some worker is not kept: the one that has the mutex, or else any that is not out. -/
theorem Ending.exists_not_kept {n : Nat} (h : s.Ending n) (hout : ¬s.AllOut) :
    ∃ i < n, ¬s.Kept i := by
  cases hmutex : s.mutex with
  | none =>
    unfold AllOut at hout
    push Not at hout
    obtain ⟨i, hi, hnot⟩ := hout
    refine ⟨i, h.length ▸ hi, ?_⟩
    rintro (hi' | hnone | ⟨-, hheld⟩)
    · exact hnot hi'
    · rw [List.getElem?_eq_getElem hi] at hnone
      cases hnone
    · exact hheld hmutex
  | some holder =>
    cases holder with
    | resize m spawning => exact absurd hmutex (h.mutex m spawning)
    | worker i =>
      obtain ⟨pc, hpc, hlocked⟩ := (h.orderly.exclusive i).mp hmutex
      refine ⟨i, h.length ▸ (List.getElem?_eq_some_iff.mp hpc).1, ?_⟩
      have hnottop : s.workers[i]? ≠ some .top := by
        rw [hpc]
        rintro hsome
        cases hsome
        cases hlocked
      rintro ((hleft | hgone) | hnone | ⟨htop, -⟩)
      · rw [hpc] at hleft
        cases hleft
        cases hlocked
      · exact hnottop (h.drains.out i (List.mem_append_right _ hgone))
      · rw [hpc] at hnone
        cases hnone
      · exact hnottop htop

/-- Without failures of compare-exchanges all threads end under every schedule that comes back to
each worker. -/
theorem Ending.eventually_allOut {n : Nat} (h : s.Ending n) {schedule : Nat → Nat}
    (hfair : ∀ i < n, ∀ k, ∃ m, k ≤ m ∧ schedule m = i) :
    ∃ k, (trace step s (fun j => .pool (.workerStep (schedule j) false)) k).AllOut := by
  have hwf : WellFounded (Prod.Lex (· < · : Nat → Nat → Prop) (· < · : Nat → Nat → Prop)) :=
    (Prod.lex (inferInstance : WellFoundedRelation Nat) (inferInstance)).wf
  refine eventually_of_measure hwf measure (Ending n) AllOut h
    (fun s j h => h.workerStep (schedule j) false) (fun s j h => ?_) (fun s h hout => ?_)
  · rcases workerStep_advances h.orderly h.drains h.stop (schedule j) with ⟨hsame, -⟩ | hadvances
    · exact .inl hsame
    · exact .inr hadvances.lower
  · obtain ⟨i, hi, hnot⟩ := h.exists_not_kept hout
    refine ⟨.pool (.workerStep i false), ?_, fun k => ?_⟩
    · rcases workerStep_advances h.orderly h.drains h.stop i with ⟨-, hkept⟩ | hadvances
      · exact absurd hkept hnot
      · exact hadvances.lower
    · obtain ⟨m, hkm, hm⟩ := hfair i hi k
      exact ⟨m, hkm, by rw [hm]⟩

/-- The pool has been stopped and no call of `resize` has the mutex.  Then all threads end under
every schedule of the workers that comes back to each of them, and in which compare-exchanges
fail without a reason finitely often. -/
theorem all_out_of_fair {n : Nat} (hn : 0 < n) (backpressureLimit : Nat)
    (actions : List StopAction)
    (hstop : (run step (construct n backpressureLimit) actions).stop = true)
    (hresize : ∀ m spawning,
      (run step (construct n backpressureLimit) actions).mutex ≠ some (.resize m spawning))
    (schedule : Nat → Nat × Bool)
    (hfair : ∀ i < (run step (construct n backpressureLimit) actions).workers.length,
      ∀ k, ∃ m, k ≤ m ∧ (schedule m).1 = i)
    (hspurious : ∃ k, ∀ m, k ≤ m → (schedule m).2 = false) :
    ∃ k, (run step (construct n backpressureLimit) (actions ++ (List.range k).map fun j =>
      .pool (.workerStep (schedule j).1 (schedule j).2))).Stopped := by
  have hending : (run step (construct n backpressureLimit) actions).Ending
      (run step (construct n backpressureLimit) actions).workers.length :=
    ⟨orderly_run n backpressureLimit actions, drains_run n backpressureLimit actions, hstop, rfl,
      hresize⟩
  obtain ⟨k, hsure⟩ := hspurious
  have hlate : (trace step (run step (construct n backpressureLimit) actions)
      (fun j => .pool (.workerStep (schedule j).1 (schedule j).2)) k).Ending
        (run step (construct n backpressureLimit) actions).workers.length :=
    trace_invariant hending fun j s h => h.workerStep (schedule j).1 (schedule j).2
  -- From `k` on, every compare-exchange does what it compares.
  have hfair' : ∀ i < (run step (construct n backpressureLimit) actions).workers.length,
      ∀ k', ∃ m, k' ≤ m ∧ (schedule (k + m)).1 = i := by
    intro i hi k'
    obtain ⟨m, hm, hturn⟩ := hfair i hi (k + k')
    refine ⟨m - k, by omega, ?_⟩
    rw [Nat.add_sub_cancel' (by omega), hturn]
  obtain ⟨d, hout⟩ := hlate.eventually_allOut hfair'
  have hsame : (fun j => StopAction.pool (.workerStep (schedule (k + j)).1 false)) =
      fun j => .pool (.workerStep (schedule (k + j)).1 (schedule (k + j)).2) := by
    funext j
    rw [hsure (k + j) (Nat.le_add_right k j)]
  rw [hsame, ← trace_add, trace_eq_run, ← run_append] at hout
  exact ⟨k + d, (drains_run n backpressureLimit _).stopped
    (leastTarget_pos_run hn backpressureLimit _) hout⟩

/-- Two workers with a task, which take turns, and the first ten turns are unlucky. -/
theorem all_out_of_fair_two : ∃ k, (run step (construct 2 300)
    ([.pool .enqueue, .shutdown] ++ (List.range k).map fun j =>
      .pool (.workerStep (j % 2) (decide (j < 10))))).Stopped := by
  have hmutex : (run step (construct 2 300) [.pool .enqueue, .shutdown]).mutex = none := rfl
  refine all_out_of_fair (by decide) 300 [.pool .enqueue, .shutdown] rfl (fun _ _ => ?_)
    (fun j => (j % 2, decide (j < 10))) (fun i hi k => ⟨2 * k + i, by omega, ?_⟩)
    ⟨10, fun m hm => decide_eq_false (Nat.not_lt.mpr hm)⟩
  · rw [hmutex]
    intro hheld
    cases hheld
  · have htwo : i < 2 := hi
    show (2 * k + i) % 2 = i
    omega

end StoppablePool
end Dnss
