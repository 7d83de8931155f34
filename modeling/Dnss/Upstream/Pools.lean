/-
`HttpResolver::maintain`: a pool that does well is locked for good.

The sizes of the pools follow their error rates: under `growMutex` a bad pool gives up a connection
and a good one is to get one more.  For this `maintain` calls `ensurePoolSize`, which locks
`growMutex` again in the same thread.  The thread never comes back, and it holds the mutex that
`getNextConnection` needs.

`blocked_eq_nil_iff` says that this is the only way to block, in every run and for any number of
threads.  `blocked_after_seize` says what follows for the requests, and `blocked_of_no_error` how
little it takes: ten exchanges without an error and the next maintenance.

A second lock by the owner is a wait without an end.  The counters are natural numbers.
-/
import Dnss.Library.Machine
import Mathlib.Logic.Function.Basic

namespace Dnss
namespace HttpResolver

open Machine

/-! ## The pools -/

structure UpstreamPool where
  /-- `connections.size()`. -/
  size : Nat := 0
  errors : Nat := 0
  successes : Nat := 0
  lastErrorRatio : Nat := 0
  /-- The thread that has `growMutex`; between two steps it is one that does not come back. -/
  growMutex : Option Nat := none

structure Upstreams where
  /-- The number of pools. -/
  count : Nat
  pool : Nat → UpstreamPool
  /-- The threads that wait for a mutex. -/
  blocked : List Nat := []

def maxConnections : Nat := 128

namespace Upstreams

def set (s : Upstreams) (p : Nat) (pool : UpstreamPool) : Upstreams :=
  { s with pool := Function.update s.pool p pool }

def block (s : Upstreams) (t : Nat) : Upstreams := { s with blocked := t :: s.blocked }

/-- A section under `growMutex`. -/
def locked (s : Upstreams) (t p : Nat) (body : UpstreamPool → UpstreamPool) : Upstreams :=
  if (s.pool p).growMutex = none then s.set p (body (s.pool p)) else s.block t

def ensurePoolSize (s : Upstreams) (t p target : Nat) : Upstreams :=
  if (s.pool p).size ≥ target then s else s.locked t p fun pool => { pool with size := target }

end Upstreams

namespace UpstreamPool

def total (pool : UpstreamPool) : Nat := pool.successes + pool.errors

def errRatio (pool : UpstreamPool) : Nat := pool.errors * 100 / pool.total

def decay (pool : UpstreamPool) : UpstreamPool :=
  { pool with successes := pool.successes / 2, errors := pool.errors / 2 }

def note (pool : UpstreamPool) : UpstreamPool := { pool with lastErrorRatio := pool.errRatio }

@[simp] theorem errRatio_note (pool : UpstreamPool) : pool.note.errRatio = pool.errRatio := rfl

@[simp] theorem size_note (pool : UpstreamPool) : pool.note.size = pool.size := rfl

@[simp] theorem growMutex_note (pool : UpstreamPool) : pool.note.growMutex = pool.growMutex := rfl

/-- The pool is to shrink. -/
def bad (pool : UpstreamPool) : Bool := pool.errRatio > 30 ∧ pool.size > 2

@[simp] theorem bad_note (pool : UpstreamPool) : pool.note.bad = pool.bad := rfl

/-- What comes of a pool that is not to grow: a bad one is smaller by one, and the counters are
halved. -/
def rebalance (pool : UpstreamPool) : UpstreamPool :=
  if pool.bad then { pool.decay with size := pool.size - 1 } else pool.decay

@[simp] theorem growMutex_rebalance (pool : UpstreamPool) :
    pool.rebalance.growMutex = pool.growMutex := by
  unfold rebalance
  split <;> rfl

theorem bad_eq_false {pool : UpstreamPool} (h : pool.errRatio < 5) : pool.bad = false := by
  refine decide_eq_false fun hbad => ?_
  have hlarge := hbad.1
  omega

/-- The pool is to grow. -/
def Healthy (pool : UpstreamPool) : Prop :=
  10 ≤ pool.total ∧ pool.errRatio < 5 ∧ pool.size < maxConnections / 2

end UpstreamPool

/-- The section of `maintain` under `growMutex`, which this thread has.  A call in it may wait for
good. -/
def Upstreams.adjust (s : Upstreams) (t p : Nat) : Upstreams :=
  let pool := s.pool p
  let s :=
    if pool.bad then s.set p { pool with size := pool.size - 1 }
    else if pool.errRatio < 5 ∧ pool.size < maxConnections / 2 then
      s.ensurePoolSize t p (pool.size + 1)
    else s
  if t ∈ s.blocked then s else s.set p { (s.pool p).decay with growMutex := none }

/-- `maintain`, for one pool. -/
def Upstreams.maintain (s : Upstreams) (t p : Nat) : Upstreams :=
  let pool := s.pool p
  if s.count < 2 ∨ pool.total < 10 then s
  else
    let s := s.set p pool.note
    if pool.growMutex = none then (s.set p { pool.note with growMutex := some t }).adjust t p
    else s.block t

/-- What a thread does with a pool. -/
inductive PoolUse where
  /-- An exchange has come back. -/
  | success
  | error
  /-- `reload` has found another proxy. -/
  | clear
  | ensurePoolSize (target : Nat)
  /-- Which connection it is does not matter here. -/
  | getNextConnection
  | maintain
  deriving DecidableEq

structure PoolAction where
  thread : Nat
  pool : Nat
  use : PoolUse
  deriving DecidableEq

def Upstreams.step (s : Upstreams) (action : PoolAction) : Upstreams :=
  if action.thread ∈ s.blocked then s
  else
    let t := action.thread
    let p := action.pool
    match action.use with
    | .success => s.set p { s.pool p with successes := (s.pool p).successes + 1 }
    | .error => s.set p { s.pool p with errors := (s.pool p).errors + 1 }
    | .clear => s.set p { s.pool p with size := 0 }
    | .ensurePoolSize target => s.ensurePoolSize t p target
    | .getNextConnection => s.locked t p id
    | .maintain => s.maintain t p

/-- The maintenance of a pool that is to grow takes its mutex for good. -/
def Seizes (p : Nat) (s : Upstreams) (action : PoolAction) : Prop :=
  action.thread ∉ s.blocked ∧ action.pool = p ∧ action.use = .maintain ∧ 2 ≤ s.count ∧
    (s.pool p).growMutex = none ∧ (s.pool p).Healthy

namespace Upstreams

/-! ## One step -/

variable (s : Upstreams) (t p q : Nat)

@[simp] theorem set_blocked (pool : UpstreamPool) : (s.set p pool).blocked = s.blocked := rfl

@[simp] theorem set_pool (pool : UpstreamPool) :
    (s.set p pool).pool q = if q = p then pool else s.pool q := by
  show Function.update s.pool p pool q = _
  rw [Function.update_apply]

@[simp] theorem block_pool : (s.block t).pool q = s.pool q := rfl

@[simp] theorem block_blocked : (s.block t).blocked = t :: s.blocked := rfl

/-- Every mutex is as before, and a thread that waits has found its pool's taken. -/
def Waits (t p : Nat) (s s' : Upstreams) : Prop :=
  (∀ q, (s'.pool q).growMutex = (s.pool q).growMutex) ∧
    (s'.blocked = s.blocked ∨ (s.pool p).growMutex ≠ none ∧ s'.blocked = t :: s.blocked)

theorem waits_refl : Waits t p s s := ⟨fun _ => rfl, .inl rfl⟩

variable {s t p q}

theorem waits_set {pool : UpstreamPool} (h : pool.growMutex = (s.pool p).growMutex) :
    Waits t p s (s.set p pool) := by
  refine ⟨fun q => ?_, .inl rfl⟩
  rw [set_pool]
  split
  · rename_i hq
    rw [hq, h]
  · rfl

theorem waits_locked {body : UpstreamPool → UpstreamPool}
    (h : ∀ pool, (body pool).growMutex = pool.growMutex) : Waits t p s (s.locked t p body) := by
  unfold locked
  split
  · exact waits_set (h _)
  · rename_i htaken
    exact ⟨fun _ => rfl, .inr ⟨htaken, rfl⟩⟩

theorem waits_ensurePoolSize (target : Nat) : Waits t p s (s.ensurePoolSize t p target) := by
  unfold ensurePoolSize
  split
  · exact waits_refl s t p
  · exact waits_locked fun _ => rfl

theorem set_set (pool pool' : UpstreamPool) : (s.set p pool).set p pool' = s.set p pool' := by
  unfold set
  rw [Function.update_idem]

theorem set_pool_self (pool : UpstreamPool) : (s.set p pool).pool p = pool := by
  rw [set_pool, if_pos rfl]

/-- The pool of a thread that has its mutex locks it again, or is rebalanced. -/
theorem adjust_eq (ht : t ∉ s.blocked) {pool : UpstreamPool} :
    (s.set p { pool with growMutex := some t }).adjust t p =
      if !pool.bad ∧ pool.errRatio < 5 ∧ pool.size < maxConnections / 2 then
        (s.set p { pool with growMutex := some t }).block t
      else s.set p { pool.rebalance with growMutex := none } := by
  have hbad : UpstreamPool.bad { pool with growMutex := some t } = pool.bad := rfl
  have hratio : UpstreamPool.errRatio { pool with growMutex := some t } = pool.errRatio := rfl
  have hlarger : ¬pool.size ≥ pool.size + 1 := by omega
  unfold adjust
  simp only [set_pool_self, hbad, hratio]
  by_cases hshrink : pool.bad = true
  · have hsame : UpstreamPool.rebalance pool = { pool.decay with size := pool.size - 1 } :=
      if_pos hshrink
    simp only [hshrink, if_true, set_set, set_blocked, ht, if_false, set_pool_self, hsame]
    simp [UpstreamPool.decay]
  · have hsame : UpstreamPool.rebalance pool = pool.decay := if_neg hshrink
    by_cases hgrow : pool.errRatio < 5 ∧ pool.size < maxConnections / 2
    · -- The mutex is taken, by this thread.
      have hagain : (s.set p { pool with growMutex := some t }).ensurePoolSize t p (pool.size + 1) =
          (s.set p { pool with growMutex := some t }).block t := by
        unfold ensurePoolSize locked
        simp only [set_pool_self, hlarger, if_false]
        exact if_neg (Option.some_ne_none t)
      simp [hshrink, hgrow, hagain]
    · simp [hshrink, hgrow, ht, set_set, hsame, UpstreamPool.decay]

/-- A thread that does not wait takes the mutex twice, or holds it for a moment. -/
theorem maintain_eq (ht : t ∉ s.blocked) :
    s.maintain t p =
      if s.count < 2 ∨ (s.pool p).total < 10 then s
      else if (s.pool p).growMutex = none ∧ !(s.pool p).bad ∧ (s.pool p).errRatio < 5 ∧
          (s.pool p).size < maxConnections / 2 then
        (s.set p { (s.pool p).note with growMutex := some t }).block t
      else (s.set p (s.pool p).note).locked t p UpstreamPool.rebalance := by
  unfold maintain
  dsimp only
  split
  · rfl
  · by_cases hfree : (s.pool p).growMutex = none
    · have hstill : (s.pool p).note.rebalance.growMutex = none := by
        rw [UpstreamPool.growMutex_rebalance]
        exact hfree
      rw [if_pos hfree, set_set, adjust_eq ht, locked, set_pool_self]
      simp only [UpstreamPool.bad_note, UpstreamPool.errRatio_note, UpstreamPool.size_note,
        UpstreamPool.growMutex_note, hfree, true_and, if_true, set_set, ← hstill]
    · rw [if_neg hfree, if_neg fun h => hfree h.1, locked, set_pool_self,
        UpstreamPool.growMutex_note, if_neg hfree]

/-- The maintenance takes the mutex, or is like the rest. -/
theorem maintain_cases (ht : t ∉ s.blocked) :
    Seizes p s ⟨t, p, .maintain⟩ ∧ (s.maintain t p).blocked = t :: s.blocked ∧
        (∀ q, ((s.maintain t p).pool q).growMutex =
          if q = p then some t else (s.pool q).growMutex) ∨
      ¬ Seizes p s ⟨t, p, .maintain⟩ ∧ Waits t p s (s.maintain t p) := by
  have hnote : Waits t p s (s.set p (s.pool p).note) := waits_set rfl
  rw [maintain_eq ht]
  by_cases hfew : s.count < 2 ∨ (s.pool p).total < 10
  · right
    rw [if_pos hfew]
    refine ⟨?_, waits_refl s t p⟩
    rintro ⟨-, -, -, hcount, -, htotal, -⟩
    show False
    omega
  · rw [if_neg hfew]
    split
    · rename_i hgrow
      obtain ⟨hfree, -, hratio, hsize⟩ := hgrow
      left
      refine ⟨⟨ht, rfl, rfl, by omega, hfree, by omega, hratio, hsize⟩, rfl, fun q => ?_⟩
      rw [block_pool, set_pool]
      by_cases hq : q = p
      · rw [if_pos hq, if_pos hq]
      · rw [if_neg hq, if_neg hq]
    · rename_i hgrow
      right
      refine ⟨?_, ?_⟩
      · rintro ⟨-, -, -, -, hfree, -, hratio, hsize⟩
        refine hgrow ⟨hfree, ?_, hratio, hsize⟩
        rw [UpstreamPool.bad_eq_false hratio]
        rfl
      · have hlocked := waits_locked (t := t) (p := p) (s := s.set p (s.pool p).note)
          UpstreamPool.growMutex_rebalance
        refine ⟨fun q => (hlocked.1 q).trans (hnote.1 q), ?_⟩
        rw [← hnote.1 p]
        exact hlocked.2

/-- What a step does to the mutexes and to those who wait. -/
theorem step_cases (s : Upstreams) (action : PoolAction) :
    Seizes action.pool s action ∧ (s.step action).blocked = action.thread :: s.blocked ∧
        (∀ q, ((s.step action).pool q).growMutex =
          if q = action.pool then some action.thread else (s.pool q).growMutex) ∨
      ¬ Seizes action.pool s action ∧ Waits action.thread action.pool s (s.step action) := by
  obtain ⟨t, p, use⟩ := action
  unfold step
  by_cases ht : t ∈ s.blocked
  · rw [if_pos ht]
    exact .inr ⟨fun h => h.1 ht, waits_refl s t p⟩
  · rw [if_neg ht]
    cases use with
    | success => exact .inr ⟨fun h => PoolUse.noConfusion h.2.2.1, waits_set rfl⟩
    | error => exact .inr ⟨fun h => PoolUse.noConfusion h.2.2.1, waits_set rfl⟩
    | clear => exact .inr ⟨fun h => PoolUse.noConfusion h.2.2.1, waits_set rfl⟩
    | ensurePoolSize target => exact .inr ⟨fun h => PoolUse.noConfusion h.2.2.1, waits_ensurePoolSize target⟩
    | getNextConnection => exact .inr ⟨fun h => PoolUse.noConfusion h.2.2.1, waits_locked fun _ => rfl⟩
    | maintain => exact maintain_cases ht

/-! ## Runs -/

theorem mem_blocked_step {action : PoolAction} (h : t ∈ s.blocked) :
    t ∈ (s.step action).blocked := by
  rcases step_cases s action with ⟨-, hblocked, -⟩ | ⟨-, -, hblocked | ⟨-, hblocked⟩⟩
  · rw [hblocked]
    exact List.mem_cons_of_mem _ h
  · rw [hblocked]
    exact h
  · rw [hblocked]
    exact List.mem_cons_of_mem _ h

/-- A thread that waits does so for good. -/
theorem mem_blocked_run (actions : List PoolAction) (h : t ∈ s.blocked) :
    t ∈ (run step s actions).blocked :=
  run_invariant (P := fun s : Upstreams => t ∈ s.blocked) h fun _ _ _ hs => mem_blocked_step hs

/-- A mutex that is taken stays taken. -/
theorem taken_step {action : PoolAction} (h : (s.pool p).growMutex ≠ none) :
    ((s.step action).pool p).growMutex ≠ none := by
  rcases step_cases s action with ⟨-, -, hmutex⟩ | ⟨-, hmutex, -⟩
  · rw [hmutex]
    split
    · exact Option.some_ne_none _
    · exact h
  · rw [hmutex]
    exact h

theorem taken_run (actions : List PoolAction) (h : (s.pool p).growMutex ≠ none) :
    ((run step s actions).pool p).growMutex ≠ none :=
  run_invariant (P := fun s : Upstreams => (s.pool p).growMutex ≠ none) h fun _ _ _ hs => taken_step hs

/-- In every run a mutex is taken exactly when a maintenance has met its pool in good health. -/
theorem taken_iff {actions : List PoolAction} (hfree : (s.pool p).growMutex = none) :
    ((run step s actions).pool p).growMutex ≠ none ↔ Happened step s (Seizes p) actions := by
  constructor
  · refine happened_of_run (H := fun s : Upstreams => (s.pool p).growMutex ≠ none) (fun h => h hfree) ?_
    intro action _ s h
    rcases step_cases s action with ⟨hseizes, -, hmutex⟩ | ⟨-, hmutex, -⟩
    · by_cases hp : p = action.pool
      · rw [← hp] at hseizes
        exact .inl hseizes
      · rw [hmutex, if_neg hp] at h
        exact .inr h
    · rw [hmutex] at h
      exact .inr h
  · rintro ⟨s', action, ⟨done, rest, rfl, rfl⟩, hseizes⟩
    rw [run_append]
    show ((run step (step (run step s done) action) rest).pool p).growMutex ≠ none
    refine taken_run rest ?_
    have hp : action.pool = p := hseizes.2.1
    rcases step_cases (run step s done) action with ⟨-, -, hmutex⟩ | ⟨hnot, -⟩
    · rw [hmutex, if_pos hp.symm]
      exact Option.some_ne_none _
    · rw [hp] at hnot
      exact absurd hseizes hnot

/-- In every run somebody waits exactly when a maintenance has met a pool in good health. -/
theorem blocked_eq_nil_iff {actions : List PoolAction}
    (hfree : ∀ p, (s.pool p).growMutex = none) (hblocked : s.blocked = []) :
    (run step s actions).blocked = [] ↔ ∀ p, ¬ Happened step s (Seizes p) actions := by
  constructor
  · rintro hnone p ⟨s', action, ⟨done, rest, rfl, rfl⟩, hseizes⟩
    have hp : action.pool = p := hseizes.2.1
    rw [← hp] at hseizes
    have hwaits : action.thread ∈ (step (run step s done) action).blocked := by
      rcases step_cases (run step s done) action with ⟨-, hwaits, -⟩ | ⟨hnot, -⟩
      · rw [hwaits]
        exact List.mem_cons_self
      · exact absurd hseizes hnot
    have hafter := mem_blocked_run rest hwaits
    rw [run_append] at hnone
    change (run step (step (run step s done) action) rest).blocked = [] at hnone
    rw [hnone] at hafter
    cases hafter
  · intro hnever
    have hboth : (∀ p, ((run step s actions).pool p).growMutex = none) ∧
        (run step s actions).blocked = [] := by
      refine run_invariant_of_visits
        (P := fun s' : Upstreams => (∀ p, (s'.pool p).growMutex = none) ∧ s'.blocked = [])
        ⟨hfree, hblocked⟩ fun s' action hvisit hs' => ?_
      have hnot : ¬ Seizes action.pool s' action := fun hseizes =>
        hnever _ ⟨s', action, hvisit, hseizes⟩
      rcases step_cases s' action with ⟨hseizes, -, -⟩ | ⟨-, hmutex, hsame | ⟨htaken, -⟩⟩
      · exact absurd hseizes hnot
      · exact ⟨fun p => (hmutex p).trans (hs'.1 p), hsame.trans hs'.2⟩
      · exact absurd (hs'.1 _) htaken
    exact hboth.2

/-- Two pools as after `warmUp`. -/
def fresh : Upstreams := { count := 2, pool := fun _ => { size := 12 } }

/-- Ten good exchanges of one thread with a pool. -/
def tenSuccesses (t p : Nat) : List PoolAction := List.replicate 10 ⟨t, p, .success⟩

theorem blocked_tenSuccesses :
    (run step fresh (tenSuccesses 7 0 ++ [⟨7, 0, .maintain⟩])).blocked = [] ↔
      ∀ p, ¬ Happened step fresh (Seizes p) (tenSuccesses 7 0 ++ [⟨7, 0, .maintain⟩]) :=
  blocked_eq_nil_iff (fun _ => rfl) rfl

/-- After that, whoever asks the pool for a connection never returns. -/
theorem blocked_after_seize {actions : List PoolAction} (h : Happened step s (Seizes p) actions)
    (hfree : (s.pool p).growMutex = none) (t : Nat) (rest : List PoolAction) :
    t ∈ (run step s (actions ++ ⟨t, p, .getNextConnection⟩ :: rest)).blocked := by
  rw [run_append]
  refine mem_blocked_run rest ?_
  have htaken := (taken_iff hfree).mpr h
  generalize run step s actions = s' at htaken
  unfold step
  split
  · rename_i hwaits
    exact hwaits
  · show t ∈ (s'.locked t p id).blocked
    unfold locked
    rw [if_neg htaken]
    exact List.mem_cons_self

/-! ## A pool without errors -/

/-- The counters are as after `n` exchanges without an error, and the pool may grow. -/
structure Faultless (p n : Nat) (s : Upstreams) : Prop where
  errors : (s.pool p).errors = 0
  successes : (s.pool p).successes = n
  size : (s.pool p).size < maxConnections / 2
  count : 2 ≤ s.count

/-- The exchanges with the pool that the action tells of. -/
def succeeds (p : Nat) (action : PoolAction) : Nat :=
  match action.use with
  | .success => if action.pool = p then 1 else 0
  | _ => 0

theorem set_pool_of_ne {pool : UpstreamPool} (h : p ≠ q) : (s.set p pool).pool q = s.pool q := by
  rw [set_pool, if_neg (Ne.symm h)]

theorem locked_of_ne {body : UpstreamPool → UpstreamPool} (h : p ≠ q) :
    (s.locked t p body).pool q = s.pool q ∧ (s.locked t p body).count = s.count := by
  unfold locked
  split
  · exact ⟨set_pool_of_ne h, rfl⟩
  · exact ⟨rfl, rfl⟩

/-- A step leaves the other pools alone. -/
theorem step_of_ne {action : PoolAction} (h : action.pool ≠ q) :
    (s.step action).pool q = s.pool q ∧ (s.step action).count = s.count := by
  obtain ⟨t, p, use⟩ := action
  have hset : ∀ pool, (s.set p pool).pool q = s.pool q ∧ (s.set p pool).count = s.count :=
    fun pool => ⟨set_pool_of_ne h, rfl⟩
  unfold step
  split
  · exact ⟨rfl, rfl⟩
  · rename_i ht
    cases use with
    | success => exact hset _
    | error => exact hset _
    | clear => exact hset _
    | ensurePoolSize target =>
      show (s.ensurePoolSize t p target).pool q = _ ∧ (s.ensurePoolSize t p target).count = _
      unfold ensurePoolSize
      split
      · exact ⟨rfl, rfl⟩
      · exact locked_of_ne h
    | getNextConnection => exact locked_of_ne h
    | maintain =>
      show (s.maintain t p).pool q = _ ∧ (s.maintain t p).count = _
      rw [maintain_eq ht]
      split
      · exact ⟨rfl, rfl⟩
      · split
        · exact ⟨set_pool_of_ne h, rfl⟩
        · exact ⟨(locked_of_ne h).1.trans (set_pool_of_ne h), (locked_of_ne h).2⟩

theorem locked_of_nobody {body : UpstreamPool → UpstreamPool}
    (h : (s.locked t p body).blocked = []) :
    s.locked t p body = s.set p (body (s.pool p)) := by
  unfold locked at h ⊢
  split at h
  · rename_i hfree
    rw [if_pos hfree]
  · cases h

theorem Faultless.set {n m : Nat} {pool : UpstreamPool} (h : Faultless p n s)
    (herrors : pool.errors = 0) (hsuccesses : pool.successes = m)
    (hsize : pool.size < maxConnections / 2) : Faultless p m (s.set p pool) where
  errors := by rw [set_pool_self, herrors]
  successes := by rw [set_pool_self, hsuccesses]
  size := by rw [set_pool_self]; exact hsize
  count := h.count

/-- A maintenance of the pool whose thread returns has had too little to go by. -/
theorem Faultless.maintain {n : Nat} (h : Faultless p n s) (ht : t ∉ s.blocked)
    (hnone : (s.maintain t p).blocked = []) : s.maintain t p = s ∧ n < 10 := by
  have htotal : (s.pool p).total = n := by
    unfold UpstreamPool.total
    rw [h.errors, h.successes, Nat.add_zero]
  have hratio : (s.pool p).errRatio = 0 := by
    unfold UpstreamPool.errRatio
    rw [h.errors, Nat.zero_mul, Nat.zero_div]
  have hcount := h.count
  rw [maintain_eq ht] at hnone ⊢
  rw [htotal] at hnone ⊢
  by_cases hfew : s.count < 2 ∨ n < 10
  · rw [if_pos hfew]
    exact ⟨rfl, by omega⟩
  · exfalso
    rw [if_neg hfew] at hnone
    split at hnone
    · cases hnone
    · rename_i hgrow
      refine hgrow ⟨?_, ?_, by omega, h.size⟩
      · by_contra htaken
        have hstill : ((s.set p (s.pool p).note).pool p).growMutex ≠ none := by
          rw [set_pool_self]
          exact htaken
        unfold locked at hnone
        rw [if_neg hstill] at hnone
        cases hnone
      · rw [UpstreamPool.bad_eq_false (by omega)]
        rfl

theorem nobody_of_step {action : PoolAction} (h : (s.step action).blocked = []) :
    s.blocked = [] := by
  rw [List.eq_nil_iff_forall_not_mem] at h ⊢
  exact fun t hwaits => h t (mem_blocked_step hwaits)

/-- A step after which nobody waits. -/
theorem Faultless.step {n : Nat} {action : PoolAction} (h : Faultless p n s)
    (herror : action.pool = p → action.use ≠ .error)
    (htarget : ∀ target, action.use = .ensurePoolSize target → target < maxConnections / 2)
    (hnone : (s.step action).blocked = []) :
    Faultless p (n + succeeds p action) (s.step action) := by
  by_cases hp : action.pool = p
  · obtain ⟨t, q, use⟩ := action
    change q = p at hp
    subst hp
    have hold : t ∉ s.blocked := by
      rw [nobody_of_step hnone]
      exact List.not_mem_nil
    unfold Upstreams.step at hnone ⊢
    rw [if_neg hold] at hnone ⊢
    cases use with
    | success =>
      have hone : succeeds q ⟨t, q, .success⟩ = 1 := if_pos rfl
      rw [hone]
      exact h.set h.errors (congrArg (· + 1) h.successes) h.size
    | error => exact absurd rfl (herror rfl)
    | clear => exact h.set h.errors h.successes (Nat.zero_lt_of_lt h.size)
    | ensurePoolSize target =>
      change (s.ensurePoolSize t q target).blocked = [] at hnone
      show Faultless q n (s.ensurePoolSize t q target)
      unfold ensurePoolSize at hnone ⊢
      split at hnone
      · rename_i hlarge
        rw [if_pos hlarge]
        exact h
      · rename_i hlarge
        rw [if_neg hlarge, locked_of_nobody hnone]
        exact h.set h.errors h.successes (htarget target rfl)
    | getNextConnection =>
      change (s.locked t q id).blocked = [] at hnone
      show Faultless q n (s.locked t q id)
      rw [locked_of_nobody hnone]
      exact h.set h.errors h.successes h.size
    | maintain =>
      change (s.maintain t q).blocked = [] at hnone
      show Faultless q n (s.maintain t q)
      rw [(h.maintain hold hnone).1]
      exact h
  · obtain ⟨hpool, hcount⟩ := step_of_ne (s := s) hp
    have hzero : succeeds p action = 0 := by
      unfold succeeds
      split
      · exact if_neg hp
      · rfl
    rw [hzero]
    exact ⟨by rw [hpool, h.errors], by rw [hpool, h.successes]; rfl, by rw [hpool]; exact h.size,
      by rw [hcount]; exact h.count⟩

/-- Ten exchanges without an error, and the next maintenance does not return. -/
theorem blocked_of_no_error {actions : List PoolAction} (h : Faultless p 0 s)
    (herror : ∀ action ∈ actions, action.pool = p → action.use ≠ .error)
    (htarget : ∀ action ∈ actions, ∀ target, action.use = .ensurePoolSize target →
      target < maxConnections / 2)
    (hten : 10 ≤ (actions.map (succeeds p)).sum) (t : Nat) :
    (run step s (actions ++ [⟨t, p, .maintain⟩])).blocked ≠ [] := by
  intro hnone
  rw [run_snoc] at hnone
  have hfaultless : (run step s actions).blocked = [] →
      Faultless p (actions.map (succeeds p)).sum (run step s actions) := by
    refine run_past (P := fun done s' => (∀ action ∈ done, action.pool = p → action.use ≠ .error) →
      (∀ action ∈ done, ∀ target, action.use = .ensurePoolSize target →
        target < maxConnections / 2) → s'.blocked = [] →
      Faultless p (done.map (succeeds p)).sum s') ?_ ?_ actions herror htarget
    · exact fun _ _ _ => h
    · intro done action ih herror htarget hnobody
      rw [List.forall_mem_append, List.forall_mem_singleton] at herror htarget
      have hbefore := ih herror.1 htarget.1 (nobody_of_step hnobody)
      rw [List.map_append, List.sum_append, List.map_singleton, List.sum_singleton]
      exact hbefore.step herror.2 htarget.2 hnobody
  have hbefore := hfaultless (nobody_of_step hnone)
  have hold : t ∉ (run step s actions).blocked := by
    rw [nobody_of_step hnone]
    exact List.not_mem_nil
  generalize run step s actions = s' at hnone hbefore hold
  unfold Upstreams.step at hnone
  rw [if_neg hold] at hnone
  have hfew := (hbefore.maintain hold hnone).2
  omega

theorem blocked_tenSuccesses_maintain :
    (run step fresh (tenSuccesses 7 0 ++ [⟨8, 0, .maintain⟩])).blocked ≠ [] := by
  refine blocked_of_no_error ⟨rfl, rfl, by decide, by decide⟩ (fun action hmem _ => ?_)
    (fun action hmem target htarget => ?_) (by decide) 8
  · rw [List.eq_of_mem_replicate hmem]
    exact PoolUse.noConfusion
  · rw [List.eq_of_mem_replicate hmem] at htarget
    cases htarget

end Upstreams

end HttpResolver
end Dnss
