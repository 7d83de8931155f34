/-
The stale-refresh worker.

`init` starts a thread that takes work from the queue of stale hits for as long as
`running_` is set.  It is `maintain` that sets it, later, and the destructor clears it.
A state is the resolver with the flag, the place of the main thread in this order, and
the place of the worker in its loop; an action is one step of the main thread, of the
worker, or of any other thread, and a run is an interleaving.

`workerAlive_iff` is the account of all interleavings: the worker lives until the
destructor exactly when it does not come to its first test before `maintain`.
-/
import Dnss.Cache.Runs

namespace Dnss
namespace CachingResolver

open Machine

/-- What the main thread has done last. -/
inductive Phase where
  | constructed
  | initialized
  | maintained
  | destroyed
  deriving DecidableEq

/-- The place of the worker in its loop. -/
inductive Worker where
  | unstarted
  /-- Before `while (running_)`. -/
  | loop
  /-- In `wait`, without the mutex. -/
  | waiting
  /-- Behind `wait`, with the mutex. -/
  | woken
  | refreshing (work : StaleRefreshWork)
  | terminated
  /-- An exception has left the thread, which ends the process. -/
  | aborted

structure Service where
  resolver : CachingResolver := {}
  running : Bool := false
  phase : Phase := .constructed
  worker : Worker := .unstarted

inductive Act where
  | init
  | maintain
  | destroy
  /-- A call that another thread makes. -/
  | call (op : Op)
  /-- `while (running_)`. -/
  | test
  /-- The predicate of `wait`. -/
  | wait
  /-- The two tests behind `wait`, and the work is taken. -/
  | take
  | refresh (env : Env)

namespace Service

def init (s : Service) : Service :=
  match s.phase with
  | .constructed => { s with phase := .initialized, worker := .loop }
  | _ => s

def maintain (s : Service) : Service :=
  match s.phase with
  | .initialized => { s with phase := .maintained, running := true }
  | _ => s

def destroy (s : Service) : Service :=
  { s with phase := .destroyed, running := false }

/-- What a call leaves of the resolver.  One that would push work waits while the worker
has the mutex. -/
def call (s : Service) (op : Op) : CachingResolver :=
  let resolver := CachingResolver.step s.resolver op
  match s.worker with
  | .woken =>
    if resolver.staleRefreshQueue.length = s.resolver.staleRefreshQueue.length then resolver
    else s.resolver
  | _ => resolver

/-- Where the worker is after its test. -/
def test (s : Service) : Worker :=
  match s.worker with
  | .loop => if s.running then .waiting else .terminated
  | worker => worker

/-- Where it is after the predicate. -/
def wait (s : Service) : Worker :=
  match s.worker with
  | .waiting => if !s.running || !s.resolver.staleRefreshQueue.isEmpty then .woken else .waiting
  | worker => worker

def take (s : Service) : CachingResolver × Worker :=
  match s.worker with
  | .woken =>
    if !s.running && s.resolver.staleRefreshQueue.isEmpty then (s.resolver, .terminated)
    else
      match s.resolver.staleRefreshQueue with
      | [] => (s.resolver, .loop)
      | work :: rest => ({ s.resolver with staleRefreshQueue := rest }, .refreshing work)
  | worker => (s.resolver, worker)

def refresh (s : Service) (env : Env) : CachingResolver × Worker :=
  match s.worker with
  | .refreshing work =>
    match s.resolver.refreshEntry env work.key work.question with
    | (resolver, .ok _) => (resolver, .loop)
    | (resolver, .error _) => (resolver, .aborted)
  | worker => (s.resolver, worker)

/-- One action.  One that its thread cannot take now leaves the state as it is, as does
every action of a process that is gone. -/
def step (s : Service) (act : Act) : Service :=
  match s.worker with
  | .aborted => s
  | _ =>
    match act with
    | .init => s.init
    | .maintain => s.maintain
    | .destroy => s.destroy
    | .call op => { s with resolver := s.call op }
    | .test => { s with worker := s.test }
    | .wait => { s with worker := s.wait }
    | .take => { s with resolver := s.take.1, worker := s.take.2 }
    | .refresh env => { s with resolver := (s.refresh env).1, worker := (s.refresh env).2 }

/-- The worker has not left its loop, unless the destructor has run; no work waits for a
worker that is gone. -/
structure Alive (s : Service) : Prop where
  loops : s.worker = .terminated → s.phase = .destroyed
  served : ¬(s.running = true ∧ s.resolver.staleRefreshQueue ≠ [] ∧ s.worker = .terminated)

/-- The worker comes to its test between `init` and `maintain`. -/
def TestsEarly (s : Service) (act : Act) : Prop :=
  act = .test ∧ s.worker = .loop ∧ s.phase = .initialized

end Service

/-- Every state of the interleaving is alive. -/
def WorkerAlive (acts : List Act) : Prop :=
  ∀ before after, acts = before ++ after → (run Service.step {} before).Alive

/-! ## The flag -/

namespace Service

/-- `running_` is set from `maintain` to the destructor. -/
def FlagSet (s : Service) : Prop := s.running = true ↔ s.phase = .maintained

theorem flagSet_init {s : Service} (h : s.FlagSet) : s.init.FlagSet := by
  unfold init
  cases hphase : s.phase with
  | constructed =>
    rw [FlagSet, hphase] at h
    have hphases : Phase.constructed = .maintained ↔ Phase.initialized = .maintained := by decide
    exact h.trans hphases
  | initialized => exact h
  | maintained => exact h
  | destroyed => exact h

theorem flagSet_maintain {s : Service} (h : s.FlagSet) : s.maintain.FlagSet := by
  unfold maintain
  cases hphase : s.phase with
  | initialized => exact ⟨fun _ => rfl, fun _ => rfl⟩
  | constructed => exact h
  | maintained => exact h
  | destroyed => exact h

theorem flagSet_destroy (s : Service) : s.destroy.FlagSet := by
  constructor
  · intro hrunning
    cases hrunning
  · intro hphase
    cases hphase

theorem flagSet_step {s : Service} (act : Act) (h : s.FlagSet) : (s.step act).FlagSet := by
  unfold step
  split
  · exact h
  · cases act with
    | init => exact flagSet_init h
    | maintain => exact flagSet_maintain h
    | destroy => exact flagSet_destroy s
    | call op => exact h
    | test => exact h
    | wait => exact h
    | take => exact h
    | refresh env => exact h

theorem flagSet_run (acts : List Act) : (run step {} acts).FlagSet := by
  refine run_invariant ?_ fun act _ s => flagSet_step act
  constructor
  · intro hrunning
    cases hrunning
  · intro hphase
    cases hphase

end Service

/-! ## The worker -/

/-- Where the worker can be, given what the main thread has done: it gets past its test
only while `running_` is set, and that takes `maintain`. -/
def Worker.Allowed (phase : Phase) : Worker → Prop
  | .unstarted => True
  | .loop => phase ≠ .constructed
  | .waiting => phase = .maintained ∨ phase = .destroyed
  | .woken => phase = .maintained ∨ phase = .destroyed
  | .refreshing _ => phase = .maintained ∨ phase = .destroyed
  | .terminated => phase = .destroyed
  | .aborted => True

theorem Worker.allowed_maintained {worker : Worker} (h : worker.Allowed .initialized) :
    worker.Allowed .maintained := by
  cases worker with
  | unstarted => trivial
  | loop => exact fun hphase => by cases hphase
  | waiting => exact Or.inl rfl
  | woken => exact Or.inl rfl
  | refreshing work => exact Or.inl rfl
  | terminated => cases h
  | aborted => trivial

theorem Worker.allowed_destroyed (worker : Worker) : worker.Allowed .destroyed := by
  cases worker with
  | unstarted => trivial
  | loop => exact fun hphase => by cases hphase
  | waiting => exact Or.inr rfl
  | woken => exact Or.inr rfl
  | refreshing work => exact Or.inr rfl
  | terminated => rfl
  | aborted => trivial

theorem Worker.allowed_loop {phase : Phase} (h : phase = .maintained ∨ phase = .destroyed) :
    Worker.loop.Allowed phase := by
  intro hphase
  rw [hphase] at h
  rcases h with h | h
  · cases h
  · cases h

namespace Service

/-- The worker is where it can be. -/
def WorkerAllowed (s : Service) : Prop := s.worker.Allowed s.phase

theorem WorkerAllowed.alive {s : Service} (hflag : s.FlagSet) (h : s.WorkerAllowed) : s.Alive := by
  have hloops : s.worker = .terminated → s.phase = .destroyed := by
    intro hworker
    rw [WorkerAllowed, hworker] at h
    exact h
  refine ⟨hloops, fun hserved => ?_⟩
  obtain ⟨hrunning, -, hworker⟩ := hserved
  have hphase := hflag.mp hrunning
  rw [hloops hworker] at hphase
  cases hphase

theorem workerAllowed_init {s : Service} (h : s.WorkerAllowed) : s.init.WorkerAllowed := by
  unfold init
  cases s.phase with
  | constructed => exact fun hphase => by cases hphase
  | initialized => exact h
  | maintained => exact h
  | destroyed => exact h

theorem workerAllowed_maintain {s : Service} (h : s.WorkerAllowed) : s.maintain.WorkerAllowed := by
  unfold maintain
  cases hphase : s.phase with
  | initialized =>
    rw [WorkerAllowed, hphase] at h
    exact Worker.allowed_maintained h
  | constructed => exact h
  | maintained => exact h
  | destroyed => exact h

theorem allowed_test {s : Service} (hflag : s.FlagSet) (h : s.WorkerAllowed)
    (hearly : ¬s.TestsEarly .test) : s.test.Allowed s.phase := by
  unfold test
  split
  · rename_i hworker
    rw [WorkerAllowed, hworker] at h
    split
    · rename_i hrunning
      exact Or.inl (hflag.mp hrunning)
    · rename_i hrunning
      show s.phase = .destroyed
      cases hphase : s.phase with
      | constructed => exact absurd hphase h
      | initialized => exact absurd ⟨rfl, hworker, hphase⟩ hearly
      | maintained => exact absurd (hflag.mpr hphase) hrunning
      | destroyed => rfl
  · exact h

theorem allowed_wait {s : Service} (h : s.WorkerAllowed) : s.wait.Allowed s.phase := by
  unfold wait
  split
  · rename_i hworker
    rw [WorkerAllowed, hworker] at h
    split
    · exact h
    · exact h
  · exact h

theorem allowed_take {s : Service} (hflag : s.FlagSet) (h : s.WorkerAllowed) :
    s.take.2.Allowed s.phase := by
  unfold take
  split
  · rename_i hworker
    rw [WorkerAllowed, hworker] at h
    split
    · rename_i hleaves
      rw [Bool.and_eq_true, Bool.not_eq_true'] at hleaves
      -- The flag is down, so the phase is not the maintained one.
      refine h.resolve_left fun hmaintained => ?_
      rw [hflag.mpr hmaintained] at hleaves
      cases hleaves.1
    · split
      · exact Worker.allowed_loop h
      · exact h
  · exact h

theorem allowed_refresh {s : Service} (h : s.WorkerAllowed) (env : Env) :
    (s.refresh env).2.Allowed s.phase := by
  unfold refresh
  split
  · rename_i work hworker
    rw [WorkerAllowed, hworker] at h
    split
    · exact Worker.allowed_loop h
    · trivial
  · exact h

theorem workerAllowed_step {s : Service} {act : Act} (hflag : s.FlagSet) (h : s.WorkerAllowed)
    (hearly : ¬s.TestsEarly act) : (s.step act).WorkerAllowed := by
  unfold step
  split
  · exact h
  · cases act with
    | init => exact workerAllowed_init h
    | maintain => exact workerAllowed_maintain h
    | destroy => exact Worker.allowed_destroyed s.worker
    | call op => exact h
    | test => exact allowed_test hflag h hearly
    | wait => exact allowed_wait h
    | take => exact allowed_take hflag h
    | refresh env => exact allowed_refresh h env

theorem workerAllowed_run {acts : List Act}
    (hearly : ∀ s act, Visits step {} acts s act → ¬s.TestsEarly act) :
    (run step {} acts).WorkerAllowed := by
  have hempty : WorkerAllowed {} := trivial
  refine run_invariant_of_visits hempty fun s act hvisit h => ?_
  have hflag : s.FlagSet := by
    obtain ⟨before, after, -, rfl⟩ := hvisit
    exact flagSet_run before
  exact workerAllowed_step hflag h (hearly s act hvisit)

/-- A test that comes early ends the worker. -/
theorem step_of_testsEarly {s : Service} {act : Act} (hflag : s.FlagSet) (h : s.TestsEarly act) :
    s.step act = { s with worker := .terminated } := by
  obtain ⟨rfl, hworker, hphase⟩ := h
  have hrunning : ¬s.running = true := by
    intro hrunning
    rw [hflag.mp hrunning] at hphase
    cases hphase
  simp only [step, test, hworker]
  rw [if_neg hrunning]

end Service

/-- In an interleaving the worker lives until the destructor exactly when no test of its
loop comes between `init` and `maintain`. -/
theorem workerAlive_iff (acts : List Act) :
    WorkerAlive acts ↔ ∀ s act, Visits Service.step {} acts s act → ¬s.TestsEarly act := by
  constructor
  · intro h s act hvisit hearly
    obtain ⟨before, after, hsplit, rfl⟩ := hvisit
    have halive := h (before ++ [act]) after (by rw [hsplit, List.append_assoc]; rfl)
    rw [run_snoc, Service.step_of_testsEarly (Service.flagSet_run before) hearly] at halive
    have hphase := halive.loops rfl
    rw [hearly.2.2] at hphase
    cases hphase
  · intro h before after hsplit
    refine (Service.workerAllowed_run fun s act hvisit => ?_).alive (Service.flagSet_run before)
    exact h s act (hsplit ▸ hvisit.append after)

/-- The worker is at its test before the server has bound its socket.  Later a name is
asked for again in its stale window, and nobody takes the work from the queue. -/
def earlyActs : List Act :=
  [.init, .test, .maintain, .call (denyingQuery { name := [0x61], type := 1, qclass := 1 }),
    .call (.query { denyingEnv with now := seconds 400 } (DnsMessage.createQuery [0x61] 1) true)]

theorem earlyActs_not_workerAlive :
    (run Service.step {} earlyActs).running = true ∧
      (run Service.step {} earlyActs).resolver.staleRefreshQueue ≠ [] ∧
      (run Service.step {} earlyActs).worker = .terminated ∧ ¬WorkerAlive earlyActs := by
  have hrunning : (run Service.step {} earlyActs).running = true := by decide +kernel
  have hqueue : (run Service.step {} earlyActs).resolver.staleRefreshQueue ≠ [] := by
    rw [← List.length_pos_iff]
    decide +kernel
  have hworker : (run Service.step {} earlyActs).worker = .terminated := rfl
  refine ⟨hrunning, hqueue, hworker, fun h => ?_⟩
  exact (h earlyActs [] (List.append_nil _).symm).served ⟨hrunning, hqueue, hworker⟩

end CachingResolver
end Dnss
