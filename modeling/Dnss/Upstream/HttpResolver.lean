/-
`HttpResolver::doPost`: who holds the connections of the pools.

A connection is taken by an atomic exchange of its `inUse` flag and given back by storing
false.  `doPost` takes connections in three places: the race, which takes one from each
pool; the retry loop, which takes one at a time; and the reopening of a closed connection,
one for each pool.  What the call finds and what happens to it is an input, `Env`: the flags
at every moment at which they are read, the results of the exchanges and openings, the
readiness of the futures and the deadlines.  Other threads may do anything in between.

`held` is what the call has taken and not given back.  The connections that `openPoolAsync`
takes are handed to background tasks, each of which opens its connection and then gives it back:
they are `handedOver`.  What is never given back is `kept`: what the call holds at its end, and
the connections of the tasks whose `open` throws.  It should be empty.

There are two ways in which it is not.  An exception of an exchange or an opening, in the call or
in a task, passes through without a release.  And the reopening loop takes a connection before it
counts: after one that did not open it takes the next closed one, finds that it is the second,
and leaves the loop with it.  `doPost_releases_iff` says for all inputs that there is no third.

The packing of the request comes before all this, and the threads of the tasks can be started.
-/
import Mathlib.Data.List.Basic

namespace Dnss
namespace HttpResolver

/-! ## What the call meets -/

/-- A connection: its pool and its index there. -/
abbrev ConnId := Nat × Nat

structure Flags where
  connected : Bool
  inUse : Bool

/-- How `exchange` ends. -/
inductive Outcome where
  | reply
  | null
  | throws
  deriving DecidableEq

/-- How `open` ends. -/
inductive Opening where
  | opened
  | failed
  | throws
  deriving DecidableEq

structure Pool where
  id : Nat
  size : Nat
  deriving DecidableEq

/-- Everything outside the call. -/
structure Env where
  /-- `fanOutEnabled() && allowFanOut`. -/
  fanOut : Bool
  recommendedConnections : Nat
  /-- `nextConn` of a pool at its turn, in the race and in an attempt of the retry loop.  It is
  not negative here; the counter that wraps is in `RoundRobin`. -/
  raceStart : Nat → Nat
  retryStart : Nat → Nat → Nat
  /-- The flags of the connections, where the race, an attempt and the reopening read them. -/
  raceFlags : ConnId → Flags
  retryFlags : Nat → ConnId → Flags
  reopenFlags : ConnId → Flags
  /-- The flags that `anyConnected` and `openPoolAsync` read. -/
  seenConnected : ConnId → Bool
  asyncFlags : ConnId → Flags
  raceOutcome : ConnId → Outcome
  retryOutcome : Nat → ConnId → Outcome
  reopenOutcome : ConnId → Outcome
  opening : ConnId → Opening
  /-- How `open` ends in a background task. -/
  asyncOpening : ConnId → Opening
  /-- The futures of the race in the order in which they are found ready in time. -/
  ready : List Nat
  /-- The deadline of the retry loop has not passed before this attempt. -/
  inTime : Nat → Bool

/-- How the call or a part of it ends: it goes on, or has a reply, or an exception. -/
inductive Ending where
  | goOn
  | reply
  | threw
  deriving DecidableEq

/-- The end of the call. -/
structure Done where
  ending : Ending
  held : List ConnId
  /-- Taken by `openPoolAsync` for a background task. -/
  handedOver : List ConnId := []

/-- The connections that no one gives back: a task does so when its `open` returns. -/
def Done.kept (env : Env) (d : Done) : List ConnId :=
  d.held ++ d.handedOver.filter fun c => env.asyncOpening c = .throws

def acquire (c : ConnId) (held : List ConnId) : List ConnId := c :: held

/-- `conn->inUse = false`. -/
def release (c : ConnId) (held : List ConnId) : List ConnId := held.erase c

/-- The call goes on with what it holds, unless it has ended. -/
def andThen (r : Ending × List ConnId) (next : List ConnId → Ending × List ConnId) :
    Ending × List ConnId :=
  match r with
  | (.goOn, held) => next held
  | ended => ended

/-! ## The pools -/

def ensurePoolSize (target : Nat) (pool : Pool) : Pool :=
  if pool.size ≥ target then pool else { pool with size := target }

/-- Connected and not in use: the scan takes it. -/
def Flags.free (f : Flags) : Bool := f.connected && !f.inUse

/-- Closed and not in use: the reopening takes it. -/
def Flags.reopenable (f : Flags) : Bool := !f.connected && !f.inUse

def getNextConnection (flags : ConnId → Flags) (nextConn : Nat) (pool : Pool) : Option ConnId :=
  if pool.size = 0 then none
  else
    let start := nextConn % pool.size
    ((List.range pool.size).map fun i => (pool.id, (start + i) % pool.size)).find?
      fun c => (flags c).free

def connectionsOf (pool : Pool) : List ConnId :=
  (List.range pool.size).map fun i => (pool.id, i)

def openPoolAsync (env : Env) (pool : Pool) : List ConnId :=
  (connectionsOf pool).filter fun c => (env.asyncFlags c).reopenable

/-! ## The race -/

def candidates (env : Env) (pools : List Pool) : List ConnId :=
  pools.filterMap fun pool => getNextConnection env.raceFlags (env.raceStart pool.id) pool

/-- The polling of the futures that become ready: a reply ends it, and an exception leaves
`f.get()`. -/
def poll (env : Env) (conns : List ConnId) : List Nat → Ending
  | [] => .goOn
  | k :: ready =>
    match conns[k]? with
    | none => poll env conns ready
    | some c =>
      match env.raceOutcome c with
      | .reply => .reply
      | .null => poll env conns ready
      | .throws => .threw

def raceUpstreams (env : Env) (pools : List Pool) (held : List ConnId) : Ending × List ConnId :=
  let conns := candidates env pools
  let held := conns.foldl (fun held c => acquire c held) held
  match poll env conns env.ready with
  | .threw => (.threw, held)
  | ending => (ending, conns.foldl (fun held c => release c held) held)

/-! ## The retry loop -/

/-- The exchange over a connection that the call has just taken. -/
def exchangeHeld (outcome : Outcome) (c : ConnId) (held : List ConnId) : Ending × List ConnId :=
  match outcome with
  | .reply => (.reply, release c held)
  | .null => (.goOn, release c held)
  | .throws => (.threw, held)

def retryPools (env : Env) (attempt : Nat) : List Pool → List ConnId → Ending × List ConnId
  | [], held => (.goOn, held)
  | pool :: pools, held =>
    match getNextConnection (env.retryFlags attempt) (env.retryStart attempt pool.id) pool with
    | none => retryPools env attempt pools held
    | some c =>
      andThen (exchangeHeld (env.retryOutcome attempt c) c (acquire c held))
        (retryPools env attempt pools)

/-- `left` attempts are left; there are six. -/
def retryLoop (env : Env) (pools : List Pool) : Nat → Nat → List ConnId → Ending × List ConnId
  | 0, _, held => (.goOn, held)
  | left + 1, attempt, held =>
    if !env.inTime attempt then (.goOn, held)
    else andThen (retryPools env attempt pools held) (retryLoop env pools left (attempt + 1))

def anyConnected (env : Env) (pools : List Pool) : Bool :=
  pools.any fun pool => (connectionsOf pool).any env.seenConnected

/-! ## The reopening -/

/-- The loop over the connections of one pool; `opened` is its counter. -/
def reopenConns (env : Env) : List ConnId → Nat → List ConnId → Ending × List ConnId
  | [], _, held => (.goOn, held)
  | c :: conns, opened, held =>
    if (env.reopenFlags c).connected then reopenConns env conns opened held
    else if (env.reopenFlags c).inUse then reopenConns env conns opened held
    else
      let held := acquire c held
      -- The connection is already taken when the loop is left here.
      if opened + 1 > 1 then (.goOn, held)
      else
        match env.opening c with
        | .throws => (.threw, held)
        | .failed => reopenConns env conns (opened + 1) (release c held)
        | .opened => exchangeHeld (env.reopenOutcome c) c held

def reopenPools (env : Env) : List Pool → List ConnId → Ending × List ConnId
  | [], held => (.goOn, held)
  | pool :: pools, held =>
    andThen (reopenConns env (connectionsOf pool) 0 held) (reopenPools env pools)

def reopen (env : Env) (pools : List Pool) (held : List ConnId) : Done :=
  match reopenPools env pools held with
  | (.reply, held) => ⟨.reply, held, pools.flatMap (openPoolAsync env)⟩
  | (ending, held) => ⟨ending, held, []⟩

/-! ## The call -/

def afterRace (env : Env) (pools : List Pool) (held : List ConnId) : Done :=
  let retried := if anyConnected env pools then retryLoop env pools 6 0 held else (.goOn, held)
  match retried with
  | (.goOn, held) => reopen env pools held
  | (ending, held) => ⟨ending, held, []⟩

def grownPools (env : Env) (pools : List Pool) : List Pool :=
  pools.map (ensurePoolSize (max (env.recommendedConnections / pools.length) 2))

def doPost (env : Env) (pools : List Pool) : Done :=
  let pools := grownPools env pools
  let raced := if env.fanOut then raceUpstreams env pools [] else (.goOn, [])
  match raced with
  | (.goOn, held) => afterRace env pools held
  | (ending, held) => ⟨ending, held, []⟩

/-! ## When the call gives everything back -/

/-- What a sequence of exchanges comes to: the first that is not null decides. -/
def ends : List Outcome → Ending
  | [] => .goOn
  | .null :: rest => ends rest
  | .reply :: _ => .reply
  | .throws :: _ => .threw

/-- The exchanges of the race that are collected, in this order. -/
def raceOutcomes (env : Env) (pools : List Pool) : List Outcome :=
  (env.ready.filterMap fun k => (candidates env pools)[k]?).map env.raceOutcome

/-- The exchanges of one attempt, as if none of them ended it. -/
def attemptOutcomes (env : Env) (pools : List Pool) (attempt : Nat) : List Outcome :=
  (pools.filterMap fun pool =>
    getNextConnection (env.retryFlags attempt) (env.retryStart attempt pool.id) pool).map
      (env.retryOutcome attempt)

def retryOutcomes (env : Env) (pools : List Pool) : List Outcome :=
  ((List.range 6).takeWhile env.inTime).flatMap (attemptOutcomes env pools)

def raceEnd (env : Env) (pools : List Pool) : Ending :=
  if env.fanOut then ends (raceOutcomes env pools) else .goOn

def retryEnd (env : Env) (pools : List Pool) : Ending :=
  if anyConnected env pools then ends (retryOutcomes env pools) else .goOn

/-- The closed and free connections of a pool. -/
def reopenables (env : Env) (pool : Pool) : List ConnId :=
  (connectionsOf pool).filter fun c => (env.reopenFlags c).reopenable

/-- The first closed connection opens and its exchange does not throw, or it fails to open
and is the only one. -/
def PoolOk (env : Env) (pool : Pool) : Prop :=
  match reopenables env pool with
  | [] => True
  | c :: rest =>
    match env.opening c with
    | .throws => False
    | .failed => rest = []
    | .opened => env.reopenOutcome c ≠ .throws

/-- The first closed connection opens and gives a reply. -/
def PoolReplies (env : Env) (pool : Pool) : Prop :=
  match reopenables env pool with
  | [] => False
  | c :: _ => env.opening c = .opened ∧ env.reopenOutcome c = .reply

/-- Every pool is all right up to the first that gives a reply. -/
def ReopenOk (env : Env) : List Pool → Prop
  | [] => True
  | pool :: pools => PoolOk env pool ∧ (¬ PoolReplies env pool → ReopenOk env pools)

/-- No closed and free connection of any pool has an opening that throws in its task. -/
def AsyncOk (env : Env) (pools : List Pool) : Prop :=
  ∀ pool ∈ pools, ∀ c ∈ openPoolAsync env pool, env.asyncOpening c ≠ .throws

structure Clean (env : Env) (pools : List Pool) : Prop where
  race : raceEnd env pools ≠ .threw
  retry : raceEnd env pools = .goOn → retryEnd env pools ≠ .threw
  reopen : raceEnd env pools = .goOn → retryEnd env pools = .goOn → ReopenOk env pools
  async : raceEnd env pools = .goOn → retryEnd env pools = .goOn →
    (∃ pool ∈ pools, PoolReplies env pool) → AsyncOk env pools

/-- A part of the call that ends in this way gives back what it took, unless it throws. -/
structure EndsIn (ending : Ending) (held : List ConnId) (r : Ending × List ConnId) : Prop where
  ended : r.1 = ending
  released : ending ≠ .threw → r.2 = held
  leaked : ending = .threw → r.2 ≠ []

@[simp] theorem release_acquire (c : ConnId) (held : List ConnId) :
    release c (acquire c held) = held :=
  List.erase_cons_head c held

/-! ### The race -/

theorem poll_eq_ends (env : Env) (conns : List ConnId) (ready : List Nat) :
    poll env conns ready = ends ((ready.filterMap fun k => conns[k]?).map env.raceOutcome) := by
  induction ready with
  | nil => rfl
  | cons k ready ih =>
    rw [poll]
    cases hconn : conns[k]? with
    | none => rw [List.filterMap_cons_none hconn, ih]
    | some c =>
      rw [List.filterMap_cons_some hconn, List.map_cons]
      cases houtcome : env.raceOutcome c with
      | reply => simp only [houtcome, ends]
      | null => simp only [houtcome, ends, ih]
      | throws => simp only [houtcome, ends]

theorem foldl_acquire (conns held : List ConnId) :
    conns.foldl (fun held c => acquire c held) held = conns.reverse ++ held := by
  induction conns generalizing held with
  | nil => rfl
  | cons c conns ih =>
    rw [List.foldl_cons, ih, acquire]
    simp

theorem foldl_release_of_perm {conns held : List ConnId} (h : held.Perm conns) :
    conns.foldl (fun held c => release c held) held = [] := by
  induction conns generalizing held with
  | nil => exact h.eq_nil
  | cons c conns ih =>
    have herase := h.erase c
    rw [List.erase_cons_head] at herase
    exact ih herase

theorem raceUpstreams_spec (env : Env) (pools : List Pool) :
    EndsIn (ends (raceOutcomes env pools)) [] (raceUpstreams env pools []) := by
  have hpoll : poll env (candidates env pools) env.ready = ends (raceOutcomes env pools) :=
    poll_eq_ends env _ _
  simp only [raceUpstreams, foldl_acquire, List.append_nil, hpoll]
  cases hends : ends (raceOutcomes env pools) with
  | threw =>
    refine ⟨rfl, fun h => absurd rfl h, fun _ hnil => ?_⟩
    -- An exception came from one of the candidates.
    have hempty : candidates env pools = [] := List.reverse_eq_nil_iff.mp hnil
    have hnone : raceOutcomes env pools = [] := by simp [raceOutcomes, hempty]
    rw [hnone] at hends
    cases hends
  | goOn =>
    refine ⟨rfl, fun _ => foldl_release_of_perm (List.reverse_perm _), fun h => ?_⟩
    cases h
  | reply =>
    refine ⟨rfl, fun _ => foldl_release_of_perm (List.reverse_perm _), fun h => ?_⟩
    cases h

/-! ### The retry loop -/

theorem ends_append (xs ys : List Outcome) :
    ends (xs ++ ys) = if ends xs = .goOn then ends ys else ends xs := by
  induction xs with
  | nil => rfl
  | cons x xs ih =>
    cases x with
    | null => exact ih
    | reply => rfl
    | throws => rfl

/-- One exchange over a connection that was just taken. -/
theorem exchangeHeld_spec (outcome : Outcome) (c : ConnId) (held : List ConnId) :
    EndsIn (ends [outcome]) held (exchangeHeld outcome c (acquire c held)) := by
  cases outcome with
  | reply =>
    refine ⟨rfl, fun _ => release_acquire c held, fun h => ?_⟩
    cases h
  | null =>
    refine ⟨rfl, fun _ => release_acquire c held, fun h => ?_⟩
    cases h
  | throws => exact ⟨rfl, fun h => absurd rfl h, fun _ => List.cons_ne_nil c held⟩

/-- Two parts of the call, the second of which runs when the first goes on. -/
theorem EndsIn.andThen {first second : Ending} {held : List ConnId} {r : Ending × List ConnId}
    {next : List ConnId → Ending × List ConnId} (hfirst : EndsIn first held r)
    (hsecond : EndsIn second held (next held)) :
    EndsIn (if first = .goOn then second else first) held (andThen r next) := by
  obtain ⟨e, held'⟩ := r
  have hended : e = first := hfirst.ended
  cases e with
  | goOn =>
    have hsame : held' = held := hfirst.released (by rw [← hended]; decide)
    rw [← hended, if_pos rfl, hsame]
    exact hsecond
  | reply =>
    rw [← hended] at hfirst ⊢
    exact hfirst
  | threw =>
    rw [← hended] at hfirst ⊢
    exact hfirst

theorem retryPools_spec (env : Env) (attempt : Nat) (pools : List Pool) (held : List ConnId) :
    EndsIn (ends (attemptOutcomes env pools attempt)) held (retryPools env attempt pools held) := by
  induction pools with
  | nil =>
    refine ⟨rfl, fun _ => rfl, fun h => ?_⟩
    cases h
  | cons pool pools ih =>
    cases hconn : getNextConnection (env.retryFlags attempt) (env.retryStart attempt pool.id)
        pool with
    | none =>
      simp only [retryPools, hconn, attemptOutcomes, List.filterMap_cons]
      exact ih
    | some c =>
      have hfirst := exchangeHeld_spec (env.retryOutcome attempt c) c held
      have hboth := hfirst.andThen ih
      rw [← ends_append] at hboth
      simp only [retryPools, hconn]
      simpa only [attemptOutcomes, List.filterMap_cons, hconn, List.map_cons,
        List.singleton_append] using hboth

theorem retryLoop_spec (env : Env) (pools : List Pool) (left attempt : Nat) (held : List ConnId) :
    EndsIn (ends (((List.range' attempt left).takeWhile env.inTime).flatMap
      (attemptOutcomes env pools))) held (retryLoop env pools left attempt held) := by
  induction left generalizing attempt with
  | zero =>
    refine ⟨rfl, fun _ => rfl, fun h => ?_⟩
    cases h
  | succ left ih =>
    rw [List.range'_succ, retryLoop]
    by_cases htime : env.inTime attempt = true
    · rw [List.takeWhile_cons_of_pos htime, List.flatMap_cons, ends_append, htime, Bool.not_true,
        if_neg Bool.false_ne_true]
      exact (retryPools_spec env attempt pools held).andThen (ih (attempt + 1))
    · rw [List.takeWhile_cons_of_neg htime, if_pos (by simpa using htime)]
      refine ⟨rfl, fun _ => rfl, fun h => ?_⟩
      cases h

/-- The retry loop, or nothing when no connection was seen connected. -/
theorem retried_spec (env : Env) (pools : List Pool) (held : List ConnId) :
    EndsIn (retryEnd env pools) held
      (if anyConnected env pools then retryLoop env pools 6 0 held else (.goOn, held)) := by
  unfold retryEnd
  split
  · have hloop := retryLoop_spec env pools 6 0 held
    rwa [← List.range_eq_range'] at hloop
  · refine ⟨rfl, fun _ => rfl, fun h => ?_⟩
    cases h

theorem raced_spec (env : Env) (pools : List Pool) :
    EndsIn (raceEnd env pools) []
      (if env.fanOut then raceUpstreams env pools [] else (.goOn, [])) := by
  unfold raceEnd
  split
  · exact raceUpstreams_spec env pools
  · refine ⟨rfl, fun _ => rfl, fun h => ?_⟩
    cases h

/-! ### The reopening -/

theorem reopenable_iff {f : Flags} :
    f.reopenable = true ↔ f.connected = false ∧ f.inUse = false := by
  simp [Flags.reopenable]

theorem reopenConns_cons_skip {env : Env} {c : ConnId} (conns : List ConnId) (opened : Nat)
    (held : List ConnId) (h : (env.reopenFlags c).reopenable = false) :
    reopenConns env (c :: conns) opened held = reopenConns env conns opened held := by
  rw [reopenConns]
  by_cases hconnected : (env.reopenFlags c).connected = true
  · rw [if_pos hconnected]
  · have hinUse : (env.reopenFlags c).inUse = true := by
      simpa [Flags.reopenable, hconnected] using h
    rw [if_neg hconnected, if_pos hinUse]

theorem reopenConns_cons_take {env : Env} {c : ConnId} (conns : List ConnId) (opened : Nat)
    (held : List ConnId) (h : (env.reopenFlags c).reopenable = true) :
    reopenConns env (c :: conns) opened held =
      if opened + 1 > 1 then (.goOn, acquire c held)
      else
        match env.opening c with
        | .throws => (.threw, acquire c held)
        | .failed => reopenConns env conns (opened + 1) (release c (acquire c held))
        | .opened => exchangeHeld (env.reopenOutcome c) c (acquire c held) := by
  obtain ⟨hconnected, hinUse⟩ := reopenable_iff.mp h
  rw [reopenConns, hconnected, if_neg Bool.false_ne_true, hinUse, if_neg Bool.false_ne_true]

/-- After a connection that did not open, the next closed one is taken and kept. -/
theorem reopenConns_one (env : Env) (conns held : List ConnId) :
    reopenConns env conns 1 held =
      match conns.filter (fun c => (env.reopenFlags c).reopenable) with
      | [] => (.goOn, held)
      | c :: _ => (.goOn, acquire c held) := by
  induction conns with
  | nil => rfl
  | cons c conns ih =>
    by_cases h : (env.reopenFlags c).reopenable = true
    · rw [reopenConns_cons_take conns 1 held h, List.filter_cons, if_pos h]
      rfl
    · rw [reopenConns_cons_skip conns 1 held (by simpa using h), List.filter_cons, if_neg h, ih]

theorem reopenConns_zero (env : Env) (conns held : List ConnId) :
    reopenConns env conns 0 held =
      match conns.filter (fun c => (env.reopenFlags c).reopenable) with
      | [] => (.goOn, held)
      | c :: rest =>
        match env.opening c with
        | .throws => (.threw, acquire c held)
        | .failed =>
          match rest with
          | [] => (.goOn, held)
          | d :: _ => (.goOn, acquire d held)
        | .opened => exchangeHeld (env.reopenOutcome c) c (acquire c held) := by
  induction conns with
  | nil => rfl
  | cons c conns ih =>
    by_cases h : (env.reopenFlags c).reopenable = true
    · rw [reopenConns_cons_take conns 0 held h, List.filter_cons, if_pos h, release_acquire,
        reopenConns_one]
      rfl
    · rw [reopenConns_cons_skip conns 0 held (by simpa using h), List.filter_cons, if_neg h, ih]

/-- What the reopening of one pool comes to. -/
theorem reopenConns_spec (env : Env) (pool : Pool) (held : List ConnId) :
    (PoolOk env pool ∧ PoolReplies env pool ∧
      reopenConns env (connectionsOf pool) 0 held = (.reply, held)) ∨
    (PoolOk env pool ∧ ¬ PoolReplies env pool ∧
      reopenConns env (connectionsOf pool) 0 held = (.goOn, held)) ∨
    (¬ PoolOk env pool ∧ ∃ e c,
      reopenConns env (connectionsOf pool) 0 held = (e, acquire c held)) := by
  have hconns := reopenConns_zero env (connectionsOf pool) held
  unfold PoolOk PoolReplies reopenables
  cases hfilter : (connectionsOf pool).filter fun c => (env.reopenFlags c).reopenable with
  | nil =>
    rw [hfilter] at hconns
    exact .inr (.inl ⟨trivial, id, hconns⟩)
  | cons c rest =>
    rw [hfilter] at hconns
    cases hopening : env.opening c with
    | throws =>
      simp only [hopening] at hconns ⊢
      exact .inr (.inr ⟨id, .threw, c, hconns⟩)
    | failed =>
      simp only [hopening] at hconns ⊢
      cases rest with
      | nil =>
        have hno : ¬ (Opening.failed = Opening.opened ∧ env.reopenOutcome c = .reply) := by
          rintro ⟨h, -⟩
          cases h
        exact .inr (.inl ⟨rfl, hno, hconns⟩)
      | cons d rest => exact .inr (.inr ⟨List.cons_ne_nil d rest, .goOn, d, hconns⟩)
    | opened =>
      simp only [hopening] at hconns ⊢
      cases houtcome : env.reopenOutcome c with
      | reply =>
        rw [houtcome, exchangeHeld, release_acquire] at hconns
        exact .inl ⟨by decide, ⟨trivial, rfl⟩, hconns⟩
      | null =>
        rw [houtcome, exchangeHeld, release_acquire] at hconns
        exact .inr (.inl ⟨by decide, fun h => (by cases h.2), hconns⟩)
      | throws =>
        rw [houtcome] at hconns
        exact .inr (.inr ⟨fun h => h rfl, .threw, c, hconns⟩)

theorem reopenPools_held_iff (env : Env) (pools : List Pool) (held : List ConnId) :
    (reopenPools env pools held).2 = [] ↔ held = [] ∧ ReopenOk env pools := by
  induction pools generalizing held with
  | nil => simp [reopenPools, ReopenOk]
  | cons pool pools ih =>
    rw [reopenPools, ReopenOk]
    rcases reopenConns_spec env pool held with
      ⟨hok, hreplies, heq⟩ | ⟨hok, hreplies, heq⟩ | ⟨hok, e, c, heq⟩
    · rw [heq]
      simp [andThen, hok, hreplies]
    · rw [heq]
      simp [andThen, hok, hreplies, ih]
    · -- What is kept here is kept to the end.
      rw [heq]
      cases e with
      | goOn => simp [andThen, hok, ih, acquire]
      | reply => simp [andThen, hok, acquire]
      | threw => simp [andThen, hok, acquire]

/-- Where nothing goes wrong, the reopening has a reply when some pool gives one. -/
theorem reopenPools_reply_iff {env : Env} {pools : List Pool} (held : List ConnId)
    (hok : ReopenOk env pools) :
    (reopenPools env pools held).1 = .reply ↔ ∃ pool ∈ pools, PoolReplies env pool := by
  induction pools generalizing held with
  | nil => simp [reopenPools]
  | cons pool pools ih =>
    obtain ⟨hpool, hrest⟩ := hok
    rw [reopenPools, List.exists_mem_cons_iff]
    rcases reopenConns_spec env pool held with
      ⟨-, hreplies, heq⟩ | ⟨-, hreplies, heq⟩ | ⟨hbad, -⟩
    · rw [heq]
      simp [andThen, hreplies]
    · rw [heq, or_iff_right hreplies]
      exact ih held (hrest hreplies)
    · exact absurd hpool hbad

theorem reopen_eq (env : Env) (pools : List Pool) (held : List ConnId) :
    reopen env pools held = ⟨(reopenPools env pools held).1, (reopenPools env pools held).2,
      if (reopenPools env pools held).1 = .reply then pools.flatMap (openPoolAsync env)
      else []⟩ := by
  unfold reopen
  obtain ⟨e, held'⟩ := reopenPools env pools held
  cases e <;> rfl

theorem filter_handedOver_eq_nil_iff (env : Env) (pools : List Pool) :
    (pools.flatMap (openPoolAsync env)).filter (fun c => env.asyncOpening c = .throws) = [] ↔
      AsyncOk env pools := by
  simp only [List.filter_eq_nil_iff, List.mem_flatMap, decide_eq_true_eq, AsyncOk]
  constructor
  · exact fun h pool hpool c hc => h c ⟨pool, hpool, hc⟩
  · rintro h c ⟨pool, hpool, hc⟩
    exact h pool hpool c hc

theorem kept_reopen_iff (env : Env) (pools : List Pool) :
    (reopen env pools []).kept env = [] ↔
      ReopenOk env pools ∧ ((∃ pool ∈ pools, PoolReplies env pool) → AsyncOk env pools) := by
  rw [reopen_eq, Done.kept, List.append_eq_nil_iff, reopenPools_held_iff, and_iff_right rfl]
  refine and_congr_right fun hok => ?_
  rw [← reopenPools_reply_iff [] hok]
  by_cases hreply : (reopenPools env pools []).1 = .reply
  · rw [if_pos hreply, filter_handedOver_eq_nil_iff]
    exact ⟨fun h _ => h, fun h => h hreply⟩
  · rw [if_neg hreply]
    exact ⟨fun _ h => absurd h hreply, fun _ => rfl⟩

/-! ### The whole call -/

theorem kept_of_not_handedOver (env : Env) (ending : Ending) (held : List ConnId) :
    (⟨ending, held, []⟩ : Done).kept env = held :=
  List.append_nil held

theorem kept_afterRace_iff (env : Env) (pools : List Pool) :
    (afterRace env pools []).kept env = [] ↔
      retryEnd env pools ≠ .threw ∧ (retryEnd env pools = .goOn → ReopenOk env pools ∧
        ((∃ pool ∈ pools, PoolReplies env pool) → AsyncOk env pools)) := by
  have hretried := retried_spec env pools []
  unfold afterRace
  generalize (if anyConnected env pools then retryLoop env pools 6 0 [] else (.goOn, [])) = r
    at hretried
  obtain ⟨e, held⟩ := r
  have hended : e = retryEnd env pools := hretried.ended
  rw [← hended] at hretried ⊢
  cases e with
  | goOn =>
    have hnil : held = [] := hretried.released (by decide)
    simp [hnil, kept_reopen_iff]
  | reply =>
    have hnil : held = [] := hretried.released (by decide)
    simp [hnil, kept_of_not_handedOver]
  | threw =>
    have hne : held ≠ [] := hretried.leaked rfl
    simp [hne, kept_of_not_handedOver]

/-- A call and its tasks give everything back exactly in these cases. -/
theorem doPost_releases_iff (env : Env) (pools : List Pool) :
    (doPost env pools).kept env = [] ↔ Clean env (grownPools env pools) := by
  have hraced := raced_spec env (grownPools env pools)
  simp only [doPost]
  generalize (if env.fanOut then raceUpstreams env (grownPools env pools) [] else (.goOn, [])) = r
    at hraced
  obtain ⟨e, held⟩ := r
  have hended : e = raceEnd env (grownPools env pools) := hraced.ended
  cases e with
  | goOn =>
    have hnil : held = [] := hraced.released (by rw [← hended]; decide)
    rw [hnil, kept_afterRace_iff]
    constructor
    · rintro ⟨hretry, hlast⟩
      exact ⟨by rw [← hended]; decide, fun _ => hretry, fun _ h => (hlast h).1,
        fun _ h => (hlast h).2⟩
    · intro h
      exact ⟨h.retry hended.symm, fun hgo => ⟨h.reopen hended.symm hgo, h.async hended.symm hgo⟩⟩
  | reply =>
    have hnil : held = [] := hraced.released (by rw [← hended]; decide)
    have hnot : raceEnd env (grownPools env pools) ≠ .goOn := by
      rw [← hended]
      decide
    rw [kept_of_not_handedOver]
    exact ⟨fun _ => ⟨by rw [← hended]; decide, fun h => absurd h hnot, fun h => absurd h hnot,
      fun h => absurd h hnot⟩, fun _ => hnil⟩
  | threw =>
    have hne : held ≠ [] := hraced.leaked hended.symm
    rw [kept_of_not_handedOver]
    constructor
    · intro h
      exact absurd h hne
    · intro h
      exact absurd hended.symm h.race

/-- One pool of 32 closed and free connections that do not open, without fan-out. -/
def unreachable : Env :=
  { fanOut := false, recommendedConnections := 32, raceStart := fun _ => 0,
    retryStart := fun _ _ => 0, raceFlags := fun _ => ⟨false, false⟩,
    retryFlags := fun _ _ => ⟨false, false⟩, reopenFlags := fun _ => ⟨false, false⟩,
    seenConnected := fun _ => false, asyncFlags := fun _ => ⟨false, false⟩,
    raceOutcome := fun _ => .null, retryOutcome := fun _ _ => .null,
    reopenOutcome := fun _ => .null, opening := fun _ => .failed,
    asyncOpening := fun _ => .failed, ready := [], inTime := fun _ => true }

/-- The second connection stays in use after the call has returned. -/
theorem unreachable_keeps_second :
    doPost unreachable [⟨0, 32⟩] = ⟨.goOn, [(0, 1)], []⟩ ∧
    (doPost unreachable [⟨0, 32⟩]).kept unreachable ≠ [] := by
  have hkept : doPost unreachable [⟨0, 32⟩] = ⟨.goOn, [(0, 1)], []⟩ := by rfl
  refine ⟨hkept, ?_⟩
  rw [hkept, kept_of_not_handedOver]
  exact List.cons_ne_nil _ _

end HttpResolver
end Dnss
