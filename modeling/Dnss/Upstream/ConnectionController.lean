/-
`ConnectionController`: the managed connections and the threads that look after them.

Callers add and remove connections and report what became of them.  A maintenance loop and
the probes check idle connections, and four workers reopen the closed ones from a queue.
`mutex_` is held for short blocks only, so a run is any order of these blocks: each is one
step, and what a thread remembers between two of its blocks is part of the state.  The
outcomes of health checks and openings and the times are inputs.

Streams are numbered as they are made.  `Connection::open` makes a new one each time, and
its callers pass it on, so that no stream is managed twice.  They pass the address of a flag
and set the open function before the start, so neither pointer is null.
-/
import Dnss.Library.Machine

namespace Dnss

/-! ## Entries and work -/

structure Endpoint where
  host : String
  port : String
  target : String
  deriving DecidableEq

/-- An entry of `managed_`.  Times are in nanoseconds. -/
structure ManagedConn where
  endpoint : Endpoint
  stream : Nat
  connected : Bool
  lastUse : Int
  lastCheck : Int
  failures : Int := 0
  reconnectPending : Bool := false
  deriving DecidableEq

structure ReconnectWork where
  stream : Nat
  endpoint : Endpoint
  retries : Nat := 0
  deriving DecidableEq

namespace ManagedConn

/-- The work that the controller queues for the entry. -/
def reconnectWork (mc : ManagedConn) : ReconnectWork :=
  { stream := mc.stream, endpoint := mc.endpoint }

def idleMs (mc : ManagedConn) (now : Int) : Int := (now - mc.lastUse).tdiv 1000000

def sinceCheck (mc : ManagedConn) (now : Int) : Int := (now - mc.lastCheck).tdiv 1000000

end ManagedConn

/-- A health check to be made: `Work` of `probeAllIdle` and of `run`. -/
structure HealthCheck where
  idx : Nat
  stream : Nat
  deriving DecidableEq

/-- Where a worker is in `reconnectLoop`. -/
inductive ReconnectWorker where
  | waiting
  /-- In front of the first block of `reconnectStream`. -/
  | took (work : ReconnectWork)
  /-- Between its two blocks, where the stream is opened. -/
  | opening (work : ReconnectWork)
  deriving DecidableEq

/-- The stream that the worker reconnects. -/
def ReconnectWorker.stream : ReconnectWorker → Option Nat
  | waiting => none
  | took work => some work.stream
  | opening work => some work.stream

/-- The members of the controller, and what its threads remember: `checks` and `reconnects`
of the maintenance loop, the checks that are left to each call of `probeAllIdle`, and the
workers.  `streams` is the number of streams that have been made. -/
structure ConnectionController where
  managed : List ManagedConn := []
  reconnectQueue : List ReconnectWork := []
  connectedCount : Int := 0
  totalCount : Nat := 0
  checks : List HealthCheck := []
  reconnects : List Nat := []
  probes : List (List HealthCheck) := []
  workers : List ReconnectWorker := List.replicate 4 .waiting
  streams : Nat := 0
  deriving DecidableEq

namespace ConnectionController

/-! ## The callers -/

/-- `reconnectQueue_.push_back`. -/
def enqueue (s : ConnectionController) (work : ReconnectWork) : ConnectionController :=
  { s with reconnectQueue := s.reconnectQueue ++ [work] }

/-- The first entry of the stream, with its index. -/
def lookup (s : ConnectionController) (stream : Nat) : Option (Nat × ManagedConn) :=
  (s.managed.findIdx? fun mc => mc.stream == stream).bind fun i =>
    (s.managed[i]?).map fun mc => (i, mc)

def manage (s : ConnectionController) (endpoint : Endpoint) (stream : Nat) (connected : Bool)
    (now : Int) : ConnectionController :=
  let managed := s.managed ++ [{ endpoint, stream, connected, lastUse := now, lastCheck := now }]
  { s with
    managed
    connectedCount := if connected then s.connectedCount + 1 else s.connectedCount
    totalCount := managed.length }

/-- The part of `unmanage` that erases the entry. -/
def eraseEntry (s : ConnectionController) (i : Nat) (mc : ManagedConn) : ConnectionController :=
  let managed := s.managed.eraseIdx i
  { s with
    managed
    connectedCount := if mc.connected then s.connectedCount - 1 else s.connectedCount
    totalCount := managed.length }

/-- The part of `unmanage` that cancels the work in the queue.  Work that a worker has taken
stays with it. -/
def cancel (s : ConnectionController) (stream : Nat) : ConnectionController :=
  { s with reconnectQueue := s.reconnectQueue.filter fun work => work.stream != stream }

def unmanage (s : ConnectionController) (stream : Nat) : ConnectionController :=
  match s.lookup stream with
  | none => s.cancel stream
  | some (i, mc) => (s.eraseEntry i mc).cancel stream

def notifyUsed (s : ConnectionController) (stream : Nat) (now : Int) : ConnectionController :=
  match s.lookup stream with
  | none => s
  | some (i, mc) => { s with managed := s.managed.set i { mc with lastUse := now, failures := 0 } }

/-- Entry `i` has failed: `connected->exchange(false)` with the count, and a reconnect
unless one is pending. -/
def fail (s : ConnectionController) (i : Nat) (mc : ManagedConn) : ConnectionController :=
  let connectedCount := if mc.connected then s.connectedCount - 1 else s.connectedCount
  if mc.reconnectPending then
    { s with connectedCount, managed := s.managed.set i { mc with connected := false } }
  else
    enqueue
      { s with
        connectedCount
        managed := s.managed.set i { mc with connected := false, reconnectPending := true } }
      mc.reconnectWork

def notifyFailure (s : ConnectionController) (stream : Nat) : ConnectionController :=
  match s.lookup stream with
  | none => s
  | some (i, mc) => s.fail i { mc with failures := mc.failures + 1 }

/-! ## Health checks -/

/-- The block after a health check.  It compares the stream, for the index may be stale. -/
def afterCheck (s : ConnectionController) (check : HealthCheck) (healthy : Bool) :
    ConnectionController :=
  if healthy then s
  else
    match s.managed[check.idx]? with
    | none => s
    | some mc => if mc.stream = check.stream then s.fail check.idx mc else s

/-- The entries that `probeAllIdle` checks. -/
def idleChecks (s : ConnectionController) (now : Int) : List HealthCheck :=
  s.managed.zipIdx.filterMap fun (mc, i) =>
    if mc.connected && !mc.reconnectPending && 3000 ≤ mc.idleMs now then some ⟨i, mc.stream⟩
    else none

/-- The first block of `probeAllIdle`. -/
def probeAllIdle (s : ConnectionController) (now : Int) : ConnectionController :=
  { s with probes := s.probes ++ [s.idleChecks now] }

/-- The next check of the call `k` of `probeAllIdle`. -/
def probe (s : ConnectionController) (k : Nat) (healthy : Bool) : ConnectionController :=
  match s.probes[k]? with
  | some (check :: rest) => afterCheck { s with probes := s.probes.set k rest } check healthy
  | _ => s

/-! ## The maintenance loop -/

/-- One turn of the scan. -/
def scanEntry (now : Int) (s : ConnectionController) (i : Nat) : ConnectionController :=
  match s.managed[i]? with
  | none => s
  | some mc =>
    if mc.reconnectPending then s
    else if mc.connected then
      if 3000 ≤ mc.idleMs now ∧ 12000 ≤ mc.sinceCheck now then
        { s with checks := s.checks ++ [⟨i, mc.stream⟩] }
      else s
    else
      { s with
        managed := s.managed.set i { mc with reconnectPending := true }
        reconnects := s.reconnects ++ [i] }

def scan (s : ConnectionController) (now : Int) : ConnectionController :=
  (List.range s.managed.length).foldl (scanEntry now) s

/-- The work for a carried index.  The stream is not compared here. -/
def enqueueAt (s : ConnectionController) (idx : Nat) : ConnectionController :=
  match s.managed[idx]? with
  | none => s
  | some mc => s.enqueue mc.reconnectWork

/-- The next block of `run`: a check, then a carried index, then the scan of the next
round. -/
def maintain (s : ConnectionController) (now : Int) (healthy : Bool) : ConnectionController :=
  match s.checks with
  | check :: rest => afterCheck { s with checks := rest } check healthy
  | [] =>
    match s.reconnects with
    | idx :: rest => enqueueAt { s with reconnects := rest } idx
    | [] => s.scan now

/-! ## The workers -/

def setWorker (s : ConnectionController) (w : Nat) (worker : ReconnectWorker) :
    ConnectionController :=
  { s with workers := s.workers.set w worker }

/-- The first block of `reconnectStream`. -/
def lookUp (s : ConnectionController) (w : Nat) (work : ReconnectWork) : ConnectionController :=
  match s.lookup work.stream with
  | none => s.setWorker w .waiting
  | some (_, mc) => if mc.connected then s.setWorker w .waiting else s.setWorker w (.opening work)

/-- The last block of `reconnectStream`, after the opening. -/
def finish (s : ConnectionController) (work : ReconnectWork) (ok : Bool) (now : Int) :
    ConnectionController :=
  match s.lookup work.stream with
  | none => s
  | some (i, mc) =>
    if ok then
      { s with
        managed := s.managed.set i { mc with
          reconnectPending := false, connected := true, lastUse := now, lastCheck := now,
          failures := 0 }
        connectedCount := s.connectedCount + 1 }
    else if work.retries < 5 then s.enqueue { work with retries := work.retries + 1 }
    else { s with managed := s.managed.set i { mc with reconnectPending := false } }

/-- The next block of worker `w`; `ok` is the result of the open function. -/
def workerStep (s : ConnectionController) (w : Nat) (ok : Bool) (now : Int) :
    ConnectionController :=
  match s.workers[w]? with
  | none => s
  | some .waiting =>
    match s.reconnectQueue with
    | [] => s
    | work :: rest => setWorker { s with reconnectQueue := rest } w (.took work)
  | some (.took work) => s.lookUp w work
  | some (.opening work) => (s.setWorker w .waiting).finish work ok now

/-! ## Runs -/

inductive Action where
  /-- A connection is opened and its new stream is managed. -/
  | manage (endpoint : Endpoint) (connected : Bool) (now : Int)
  | unmanage (stream : Nat)
  | notifyUsed (stream : Nat) (now : Int)
  | notifyFailure (stream : Nat)
  | probeAllIdle (now : Int)
  | probe (k : Nat) (healthy : Bool)
  | maintain (now : Int) (healthy : Bool)
  | workerStep (w : Nat) (ok : Bool) (now : Int)
  deriving DecidableEq

def step (s : ConnectionController) : Action → ConnectionController
  | .manage endpoint connected now =>
    { s.manage endpoint s.streams connected now with streams := s.streams + 1 }
  | .unmanage stream => s.unmanage stream
  | .notifyUsed stream now => s.notifyUsed stream now
  | .notifyFailure stream => s.notifyFailure stream
  | .probeAllIdle now => s.probeAllIdle now
  | .probe k healthy => s.probe k healthy
  | .maintain now healthy => s.maintain now healthy
  | .workerStep w ok now => s.workerStep w ok now

end ConnectionController
end Dnss
