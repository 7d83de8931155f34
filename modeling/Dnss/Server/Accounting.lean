/-
How often a request is counted.

`PerfMonitor` counts queries in two places.  A receiver counts what it admits, and
`peekCacheRaw` counts what it finds.  The loop of `udpWorker` counts only after a miss,
so the two add up to one.  `onUdpReceive` counts before it looks, so a hit there is
counted twice, and the TCP path leaves the counting to the lookup, so a miss there is
not counted at all.

`countsEach_iff` says for every order of requests, pool tasks, and housekeeping when
the counter is the number of requests.
-/
import Dnss.Server.Routing
import Dnss.Library.Machine

namespace Dnss
namespace DnsServer

open CachingResolver Machine

/-! ## Requests -/

inductive Transport where
  | onUdpReceive
  | udpWorker
  | tcp
  deriving DecidableEq

/-- A message with one question that a receiver admits, together with the moment it is
looked up and the number of tasks waiting then. -/
structure Request where
  transport : Transport
  env : Env
  data : Bytes
  pending : Nat
  req : DnsMessage
  question : DnsQuestion
  parsed : DnsMessage.parse data = .ok req
  single : req.questions = [question]

/-- The call counts no query.  These are the calls of pool tasks and housekeeping;
nothing calls `peekCache`. -/
def Uncounted : Op → Prop
  | .peekCache _ _ => False
  | .peekCacheRaw _ _ => False
  | _ => True

inductive Event where
  | request (r : Request)
  | background (op : Op) (h : Uncounted op)

/-- `recordDnsQuery`, `n` times. -/
def recordDnsQuery (s : CachingResolver) (n : Nat) : CachingResolver :=
  { s with perf := { s.perf with queries := s.perf.queries + n } }

/-- What a request does to the resolver: the lookup, and after a miss the query of the
thread that made it.  A UDP receiver queries only when the pool is full, and otherwise
leaves that to a later pool task. -/
def lookThenQuery (s : CachingResolver) (env : Env) (req : DnsMessage) (data : Bytes)
    (queries allowFanOut : Bool) : CachingResolver :=
  let looked := s.peekCacheRaw env data
  match looked.2 with
  | some _ => looked.1
  | none => if queries then (looked.1.query env req allowFanOut).1 else looked.1

def serve (s : CachingResolver) (r : Request) : CachingResolver :=
  let arrival : Arrival := { data := r.data, pending := r.pending }
  match r.transport with
  | .onUdpReceive =>
    recordDnsQuery (lookThenQuery s r.env r.req r.data (!tryEnqueue r.pending) false)
      (onUdpReceive (s.asResolver r.env) arrival).queries
  | .udpWorker =>
    recordDnsQuery (lookThenQuery s r.env r.req r.data (!tryEnqueue r.pending) false)
      (udpWorkerBody (s.asResolver r.env) arrival).queries
  | .tcp =>
    if r.pending < tcpBackpressureLimit then lookThenQuery s r.env r.req r.data true true else s

def eventStep (s : CachingResolver) : Event → CachingResolver
  | .request r => serve s r
  | .background op _ => step s op

/-! ## The counter -/

theorem queries_enqueueStaleRefresh (s : CachingResolver) (key : CacheKey) :
    (s.enqueueStaleRefresh key).perf = s.perf := by
  unfold enqueueStaleRefresh
  split <;> rfl

theorem queries_query (s : CachingResolver) (env : Env) (req : DnsMessage) (allowFanOut : Bool) :
    (s.query env req allowFanOut).1.perf.queries = s.perf.queries := by
  unfold query
  split
  · rename_i q hq
    simp only [probe_track]
    cases s.probe env q.key with
    | turbo msg => rfl
    | fresh entry => rfl
    | stale entry =>
      simp only [queries_enqueueStaleRefresh]
      rfl
    | miss =>
      cases env.back req env.fanOutEnabled with
      | error e => rfl
      | ok r =>
        cases r with
        | none =>
          simp only [storeFailure]
          split <;> rfl
        | some u =>
          simp only [storeReply]
          split <;> rfl
  · rfl

/-- The fast path finds the key of the datagram in the cache. -/
def FastHit (s : CachingResolver) (env : Env) (data : Bytes) : Prop :=
  ∃ key, rawKey data = some key ∧ ∃ msg, (s.probe env key).msg = some msg

/-- A hit is answered and counted, and a miss is neither. -/
theorem peekCacheRaw_spec (s : CachingResolver) (env : Env) (data : Bytes) :
    (FastHit s env data ∧ (∃ reply, (s.peekCacheRaw env data).2 = some reply) ∧
        (s.peekCacheRaw env data).1.perf.queries = s.perf.queries + 1) ∨
      (¬FastHit s env data ∧ (s.peekCacheRaw env data).2 = none ∧
        (s.peekCacheRaw env data).1.perf.queries = s.perf.queries) := by
  unfold peekCacheRaw
  cases hkey : rawKey data with
  | none =>
    refine Or.inr ⟨?_, rfl, rfl⟩
    rintro ⟨key, hraw, -⟩
    rw [hkey] at hraw
    cases hraw
  | some key =>
    cases hprobe : s.probe env key with
    | turbo msg =>
      simp only [hprobe]
      exact Or.inl ⟨⟨key, hkey, msg, by rw [hprobe]; rfl⟩, ⟨_, rfl⟩, rfl⟩
    | fresh entry =>
      simp only [hprobe]
      exact Or.inl ⟨⟨key, hkey, entry.msg, by rw [hprobe]; rfl⟩, ⟨_, rfl⟩, rfl⟩
    | stale entry =>
      simp only [hprobe, queries_enqueueStaleRefresh]
      exact Or.inl ⟨⟨key, hkey, entry.msg, by rw [hprobe]; rfl⟩, ⟨_, rfl⟩, rfl⟩
    | miss =>
      simp only [hprobe]
      refine Or.inr ⟨?_, trivial, trivial⟩
      rintro ⟨key', hraw, msg, hmsg⟩
      rw [hkey, Option.some.injEq] at hraw
      rw [← hraw, hprobe] at hmsg
      cases hmsg

theorem queries_lookThenQuery_of_hit {s : CachingResolver} {env : Env} {req : DnsMessage}
    {data : Bytes} (queries allowFanOut : Bool) (hhit : FastHit s env data) :
    (lookThenQuery s env req data queries allowFanOut).perf.queries = s.perf.queries + 1 := by
  rcases peekCacheRaw_spec s env data with ⟨-, ⟨reply, hreply⟩, hcount⟩ | ⟨hmiss, -⟩
  · simp only [lookThenQuery, hreply, hcount]
  · exact absurd hhit hmiss

theorem queries_lookThenQuery_of_miss {s : CachingResolver} {env : Env} {req : DnsMessage}
    {data : Bytes} (queries allowFanOut : Bool) (hmiss : ¬FastHit s env data) :
    (lookThenQuery s env req data queries allowFanOut).perf.queries = s.perf.queries := by
  rcases peekCacheRaw_spec s env data with ⟨hhit, -⟩ | ⟨-, hreply, hcount⟩
  · exact absurd hhit hmiss
  · simp only [lookThenQuery, hreply]
    cases queries with
    | true => exact (queries_query _ _ _ _).trans hcount
    | false => exact hcount

@[simp] theorem queries_sendCached (cached : DnsMessage) (h : Handled) :
    (sendCached cached h).queries = h.queries := by
  unfold sendCached
  split <;> rfl

@[simp] theorem queries_resolveInline (res : Resolver) (data : Bytes) (h : Handled) :
    (resolveInline res data h).queries = h.queries := by
  unfold resolveInline sendReply
  split
  · rfl
  · rfl
  · split <;> rfl

@[simp] theorem queries_catchStd (h : Handled) : (catchStd h).queries = h.queries := by
  unfold catchStd
  split <;> rfl

/-- The handler counts every datagram that it admits. -/
theorem queries_onUdpReceive (res : Resolver) (data : Bytes) (pending : Nat) :
    (onUdpReceive res { data, pending }).queries = 1 := by
  simp only [onUdpReceive]
  cases res.peekCacheRaw data with
  | some cached => exact queries_sendCached _ _
  | none =>
    by_cases hroom : tryEnqueue pending = true
    · simp [hroom]
    · simp [hroom]

/-- The worker counts a datagram that it does not find. -/
theorem queries_udpWorkerBody (res : Resolver) {data : Bytes} (pending : Nat)
    (hlen : 12 ≤ data.length) :
    (udpWorkerBody res { data, pending }).queries =
      if (res.peekCacheRaw data).isSome then 0 else 1 := by
  have hlong : ¬data.length < 12 := Nat.not_lt.mpr hlen
  simp only [udpWorkerBody, hlong]
  cases res.peekCacheRaw data with
  | some cached => exact queries_sendCached _ _
  | none =>
    by_cases hroom : tryEnqueue pending = true
    · simp [hroom]
    · simp [hroom]

/-- A request counts once unless it is a hit of the handler, or a TCP request that is a
miss or that the full pool turns away. -/
theorem queries_serve_iff (s : CachingResolver) (r : Request) :
    (serve s r).perf.queries = s.perf.queries + 1 ↔
      (r.transport = .onUdpReceive → ¬FastHit s r.env r.data) ∧
        (r.transport = .tcp → r.pending < tcpBackpressureLimit ∧ FastHit s r.env r.data) := by
  obtain ⟨transport, env, data, pending, req, question, hparse, hquestion⟩ := r
  have hlen := length_of_parse hparse
  have hlook := peekCacheRaw_spec s env data
  cases transport with
  | onUdpReceive =>
    simp only [serve, recordDnsQuery, queries_onUdpReceive, forall_const]
    by_cases hhit : FastHit s env data
    · simp [queries_lookThenQuery_of_hit, hhit]
    · simp [queries_lookThenQuery_of_miss, hhit]
  | udpWorker =>
    -- Either the lookup counts or the worker does.
    simp only [serve, recordDnsQuery, queries_udpWorkerBody _ _ hlen, asResolver]
    rcases hlook with ⟨hhit, ⟨reply, hreply⟩, -⟩ | ⟨hmiss, hreply, -⟩
    · simp [queries_lookThenQuery_of_hit, hhit, hreply]
    · simp [queries_lookThenQuery_of_miss, hmiss, hreply]
  | tcp =>
    simp only [serve]
    by_cases hroom : pending < tcpBackpressureLimit
    · by_cases hhit : FastHit s env data
      · simp [queries_lookThenQuery_of_hit, hhit, hroom]
      · simp [queries_lookThenQuery_of_miss, hhit, hroom]
    · simp [hroom]

theorem queries_background {op : Op} (h : Uncounted op) (s : CachingResolver) :
    (step s op).perf.queries = s.perf.queries := by
  cases op with
  | query env req allowFanOut => exact queries_query s env req allowFanOut
  | peekCache env req => exact h.elim
  | peekCacheRaw env data => exact h.elim
  | refreshEntry env key question =>
    simp only [step, refreshEntry]
    split
    · rfl
    · rfl
    · split
      · split <;> rfl
      · rfl
  | gcCache env => rfl
  | flushCache => rfl
  | loadCache now file =>
    simp only [step, loadCache]
    split <;> rfl

/-! ## Sequences of requests -/

def Event.requests : Event → Nat
  | .request _ => 1
  | .background _ _ => 0

/-- At every moment the counter has grown by the number of requests so far. -/
def CountsEach (s : CachingResolver) (events : List Event) : Prop :=
  ∀ before after, events = before ++ after →
    (run eventStep s before).perf.queries = s.perf.queries + (before.map Event.requests).sum

/-- The handler finds none of its requests in the cache, and the TCP tasks all run and find
theirs. -/
def CountedOnce (s : CachingResolver) (events : List Event) : Prop :=
  ∀ s' r, Visits eventStep s events s' (.request r) →
    (r.transport = .onUdpReceive → ¬FastHit s' r.env r.data) ∧
      (r.transport = .tcp → r.pending < tcpBackpressureLimit ∧ FastHit s' r.env r.data)

/-- The counter is the number of requests exactly in the runs of that kind. -/
theorem countsEach_iff (s : CachingResolver) (events : List Event) :
    CountsEach s events ↔ CountedOnce s events := by
  refine (counts_iff (fun s : CachingResolver => s.perf.queries) Event.requests).trans ?_
  constructor
  · intro h s' r hvisit
    exact (queries_serve_iff s' r).mp (h s' (.request r) hvisit)
  · intro h s' event hvisit
    cases event with
    | request r => exact (queries_serve_iff s' r).mpr (h s' r hvisit)
    | background op hop => exact queries_background hop s'

/-- A query for the name `a`, type A. -/
def addressRequest (transport : Transport) : Request :=
  { transport, env := denyingEnv, data := singleLabelQuery, pending := 0,
    req := DnsMessage.createQuery [0x61] 1, question := ⟨[0x61], 1, 1⟩,
    parsed := by decide +kernel, single := rfl }

/-- The same query over TCP, and then on the main socket. -/
def missThenHit : List Event :=
  [.request (addressRequest .tcp), .request (addressRequest .onUdpReceive)]

/-- The miss is not counted, and the hit is counted twice. -/
theorem missThenHit_not_countsEach : ¬CountsEach {} missThenHit := by
  intro h
  have hmiss : (eventStep {} (.request (addressRequest .tcp))).perf.queries = 0 := by
    decide +kernel
  have hone : (eventStep {} (.request (addressRequest .tcp))).perf.queries = 0 + 1 :=
    h [.request (addressRequest .tcp)] [.request (addressRequest .onUdpReceive)] rfl
  rw [hmiss] at hone
  cases hone

end DnsServer
end Dnss
