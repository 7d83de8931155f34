/-
`CachingResolver`: the cache, its lookups, and the calls to the resolver behind it.

The state holds both cache tiers, the stale-refresh queue, the prewarm tracker, and
the counters.  Each operation takes an `Env`: the clock, the tuned settings, the
iteration order of the hash map, and the resolver behind.  An operation reads the
clock at `now`; what it does after an exchange with the resolver behind happens at
`later`.

An `unordered_map` is an association list here.  Nothing but the loops over it can
see the order of its entries, and a loop asks `Env.order` for one.
-/
import Mathlib.Data.List.AList
import Dnss.Cache.Turbo
import Dnss.Protocol.Codec

namespace Dnss

/-- An exception on its way out of a call: one of the decoder's own, another
`std::exception`, or anything else. -/
inductive Thrown where
  | runtimeError (e : RuntimeError)
  | stdException
  | other
  deriving DecidableEq, Repr

structure CacheEntry where
  msg : DnsMessage
  ttl : Int
  expiresAt : Int
  deriving DecidableEq

/-- The L2 map. -/
abbrev Cache := AList (fun _ : CacheKey => CacheEntry)

abbrev CacheItem := (_ : CacheKey) × CacheEntry

/-- An order in which a loop visits the entries of the map. -/
structure IterOrder where
  order : List CacheItem → List CacheItem
  perm : ∀ items, (order items).Perm items

/-- What an operation meets outside the resolver. -/
structure Env where
  now : Int
  later : Int
  minTTL : Int32
  negativeTTL : Int32
  staleThreshold : Int32
  fanOutEnabled : Bool
  order : IterOrder
  back : DnsMessage → Bool → Except Thrown (Option DnsMessage)

structure StaleRefreshWork where
  key : CacheKey
  question : DnsQuestion
  deriving DecidableEq

/-- The counters of `PerfMonitor` that the resolver moves. -/
structure PerfCounters where
  queries : Nat := 0
  cacheHits : Nat := 0
  cacheMisses : Nat := 0
  deriving DecidableEq

structure CachingResolver where
  turbo : Turbo := emptyTurbo
  cache : Cache := ∅
  staleRefreshQueue : List StaleRefreshWork := []
  prewarmTracker : AList (fun _ : Bytes => Nat) := ∅
  totalQueries : Nat := 0
  cacheHits : Nat := 0
  cacheMisses : Nat := 0
  cacheRecorded : Nat := 0
  preemptiveRefreshes : Nat := 0
  staleHits : Nat := 0
  turboHits : Nat := 0
  perf : PerfCounters := {}

namespace CachingResolver

def maxCacheSize : Nat := 50000

def maxTTL : Int := 7200

def maxStaleRefreshQueue : Nat := 64

/-- A number of seconds on the clock. -/
def seconds (n : Int) : Int := n * 1000000000

/-! ## Helpers -/

def shouldCache (question : DnsQuestion) (reply : DnsMessage) : Bool :=
  reply.header.qr && reply.header.opcode == 0 &&
    match reply.questions with
    | [q] =>
      !reply.header.tc && q.qname == question.qname && q.qtype == question.qtype &&
        (reply.header.rcode == DnsRcode.NXDomain || reply.header.rcode == DnsRcode.ServFail ||
          reply.header.rcode == DnsRcode.Refused ||
          (reply.header.rcode == DnsRcode.NoError &&
            (!reply.answers.isEmpty || !reply.authorities.isEmpty)))
    | _ => false

/-- The least record TTL between the tuned minimum and `maxTTL`, or the minimum
when there is no record. -/
def computeCacheTTL (minTTL : Int32) (reply : DnsMessage) : Int :=
  let rrs := reply.answers ++ reply.authorities ++ reply.additionals
  let least := rrs.foldl (fun acc rr => if rr.ttl < acc then rr.ttl else acc) (7200 : UInt32)
  let ttl : Int := if rrs.isEmpty then minTTL.toInt else (least.toNat : Int)
  let ttl := if ttl < minTTL.toInt then minTTL.toInt else ttl
  if maxTTL < ttl then maxTTL else ttl

def clobberTTL (msg : DnsMessage) (ttl : Int) : DnsMessage :=
  let clobber := fun rr : DnsResourceRecord => { rr with ttl := UInt32.ofInt ttl }
  { msg with
    answers := msg.answers.map clobber, authorities := msg.authorities.map clobber,
    additionals := msg.additionals.map clobber }

def buildCachedReply (req cached : DnsMessage) : DnsMessage :=
  let reply := DnsMessage.createReply req
  { reply with
    header :=
      { reply.header with
        ancount := UInt16.ofNat cached.answers.length,
        nscount := UInt16.ofNat cached.authorities.length,
        arcount := UInt16.ofNat cached.additionals.length },
    answers := cached.answers, authorities := cached.authorities,
    additionals := cached.additionals }

def isExpired (now : Int) (entry : CacheEntry) : Bool := entry.expiresAt ≤ now

/-- The TTL of a reply that is about to be stored: negative replies have their
own. -/
def storeTTL (env : Env) (reply : DnsMessage) : Int :=
  if reply.header.rcode = DnsRcode.NXDomain ∨ reply.header.rcode = DnsRcode.ServFail ∨
      reply.header.rcode = DnsRcode.Refused then
    env.negativeTTL.toInt
  else computeCacheTTL env.minTTL reply

/-! ## Lookups -/

/-- Where a key was found: in L1, in L2 before its expiry, in L2 within the stale
window, or nowhere. -/
inductive Probe where
  | turbo (msg : DnsMessage)
  | fresh (entry : CacheEntry)
  | stale (entry : CacheEntry)
  | miss

def Probe.msg : Probe → Option DnsMessage
  | .turbo msg => some msg
  | .fresh entry => some entry.msg
  | .stale entry => some entry.msg
  | .miss => none

/-- The lookup that `query`, `peekCache`, and `peekCacheRaw` share. -/
def probe (s : CachingResolver) (env : Env) (key : CacheKey) : Probe :=
  match turboLookup s.turbo (turboHash key) env.now with
  | some msg => .turbo msg
  | none =>
    match s.cache.lookup key with
    | none => .miss
    | some entry =>
      if !isExpired env.now entry then .fresh entry
      else if env.now < entry.expiresAt + seconds env.staleThreshold.toInt then .stale entry
      else .miss

/-- Queue a refresh unless the queue is full. -/
def enqueueStaleRefresh (s : CachingResolver) (key : CacheKey) : CachingResolver :=
  if s.staleRefreshQueue.length < maxStaleRefreshQueue then
    { s with
      staleRefreshQueue := s.staleRefreshQueue ++
        [{ key, question := { qname := key.name, qtype := key.type, qclass := key.qclass } }] }
  else s

/-- `turboInsert` of a message found in L2. -/
def promote (s : CachingResolver) (key : CacheKey) (msg : DnsMessage) (expiresAt : Int) :
    CachingResolver :=
  { s with turbo := turboInsert s.turbo (turboHash key) msg expiresAt }

/-! ## Stores -/

/-- Write an entry to both tiers. -/
def record (s : CachingResolver) (key : CacheKey) (entry : CacheEntry) : CachingResolver :=
  { s with
    cache := s.cache.insert key entry,
    turbo := turboInsert s.turbo (turboHash key) entry.msg entry.expiresAt,
    cacheRecorded := s.cacheRecorded + 1 }

/-- One pass of the eviction loop over the candidate so far and its remaining
milliseconds. -/
def evictStep (now : Int) (best : CacheKey × Nat) (item : CacheItem) : CacheKey × Nat :=
  let rem := (item.2.expiresAt - now).tdiv 1000000
  if 0 < rem ∧ rem.toNat < best.2 then (item.1, rem.toNat) else best

def evictKey (now : Int) (items : List CacheItem) : Option CacheKey :=
  match items with
  | [] => none
  | first :: _ => some (items.foldl (evictStep now) (first.1, 2 ^ 64 - 1)).1

/-- Make room for one entry when the map is full. -/
def evict (cache : Cache) (env : Env) : Cache :=
  if maxCacheSize ≤ cache.entries.length then
    match evictKey env.later (env.order.order cache.entries) with
    | some key => cache.erase key
    | none => cache
  else cache

/-- The local SERVFAIL for a failed exchange, kept for 30 to 60 seconds. -/
def failureTTL (env : Env) : Int := max 30 (min 60 (env.negativeTTL.toInt.tdiv 10))

def storeFailure (s : CachingResolver) (env : Env) (key : CacheKey) (req : DnsMessage) :
    CachingResolver × DnsMessage :=
  let ttl := failureTTL env
  let errorReply := clobberTTL (DnsMessage.createError req DnsRcode.ServFail) ttl
  if maxCacheSize ≤ s.cache.entries.length then (s, errorReply)
  else
    (s.record key { msg := errorReply, ttl, expiresAt := env.later + seconds ttl }, errorReply)

def storeReply (s : CachingResolver) (env : Env) (key : CacheKey) (reply : DnsMessage) :
    CachingResolver × DnsMessage :=
  let ttl := storeTTL env reply
  let reply := clobberTTL reply ttl
  (record { s with cache := evict s.cache env } key
      { msg := reply, ttl, expiresAt := env.later + seconds ttl }, reply)

/-! ## Operations -/

def track (s : CachingResolver) (name : Bytes) : CachingResolver :=
  { s with prewarmTracker :=
      s.prewarmTracker.insert name ((s.prewarmTracker.lookup name).getD 0 + 1) }

def query (s : CachingResolver) (env : Env) (req : DnsMessage) (allowFanOut : Bool) :
    CachingResolver × Except Thrown (Option DnsMessage) :=
  let s := { s with totalQueries := s.totalQueries + 1 }
  match req.questions with
  | [q] =>
    let s := s.track q.qname
    let hit := { s.perf with cacheHits := s.perf.cacheHits + 1 }
    match s.probe env q.key with
    | .turbo msg =>
      ({ s with cacheHits := s.cacheHits + 1, turboHits := s.turboHits + 1, perf := hit },
        .ok (some (buildCachedReply req msg)))
    | .fresh entry =>
      (promote { s with cacheHits := s.cacheHits + 1, perf := hit } q.key entry.msg
          entry.expiresAt,
        .ok (some (buildCachedReply req entry.msg)))
    | .stale entry =>
      ((promote { s with staleHits := s.staleHits + 1, perf := hit } q.key entry.msg
          (env.now + seconds 60)).enqueueStaleRefresh q.key,
        .ok (some (buildCachedReply req entry.msg)))
    | .miss =>
      let s :=
        { s with
          cacheMisses := s.cacheMisses + 1,
          perf := { s.perf with cacheMisses := s.perf.cacheMisses + 1 } }
      match env.back req env.fanOutEnabled with
      | .error e => (s, .error e)
      | .ok none =>
        let (s, errorReply) := s.storeFailure env q.key req
        (s, .ok (some errorReply))
      | .ok (some reply) =>
        if shouldCache q reply then
          let (s, reply) := s.storeReply env q.key reply
          (s, .ok (some reply))
        else (s, .ok (some reply))
  | _ => (s, env.back req allowFanOut)

/-- The counters a `peek` hit moves. -/
def recordPeekHit (s : CachingResolver) : CachingResolver :=
  { s with
    totalQueries := s.totalQueries + 1, cacheHits := s.cacheHits + 1,
    perf :=
      { s.perf with queries := s.perf.queries + 1, cacheHits := s.perf.cacheHits + 1 } }

def peekCache (s : CachingResolver) (env : Env) (req : DnsMessage) :
    CachingResolver × Option DnsMessage :=
  match req.questions with
  | [q] =>
    match s.probe env q.key with
    | .turbo msg =>
      ({ s.recordPeekHit with turboHits := s.turboHits + 1 }, some (buildCachedReply req msg))
    | .fresh entry => (s.recordPeekHit, some (buildCachedReply req entry.msg))
    | .stale entry =>
      ({ s.recordPeekHit with staleHits := s.staleHits + 1 },
        some (buildCachedReply req entry.msg))
    | .miss => (s, none)
  | _ => (s, none)

/-- The name loop of `peekCacheRaw`.  It stops in front of a zero byte, in front
of a compression pointer, or at the end of the data; `none` is its early return. -/
def rawNameLoop (data : Bytes) (p : Nat) (qname : Bytes) : Option (Bytes × Nat) :=
  if h : p < data.length then
    let len := data.get ⟨p, h⟩
    if len = 0 then some (qname, p)
    else if len &&& 0xC0 = 0xC0 then some (qname, p)
    else if data.length < p + 1 + len.toNat then none
    else
      rawNameLoop data (p + 1 + len.toNat)
        (Separated.appendWord dot qname ((data.drop (p + 1)).take len.toNat))
  else some (qname, p)
termination_by data.length - p
decreasing_by omega

/-- The big-endian word at `p`, for a caller that has checked the length. -/
def rawU16 (data : Bytes) (p : Nat) : UInt16 :=
  Word.be16 (data.getD p 0) (data.getD (p + 1) 0)

/-- The key `peekCacheRaw` reads off the datagram, or `none` when it returns before
the lookup. -/
def rawKey (data : Bytes) : Option CacheKey :=
  if data.length < 12 then none
  else if rawU16 data 4 = 0 then none
  else
    match rawNameLoop data 12 [] with
    | none => none
    | some (qname, p) =>
      if data.length ≤ p then none
      else if data.length < p + 1 + 4 then none
      else some { name := qname, type := rawU16 data (p + 1), qclass := rawU16 data (p + 3) }

/-- The reply `peekCacheRaw` builds for an L1 hit or a fresh L2 hit. -/
def rawReply (data : Bytes) (cached : DnsMessage) : DnsMessage :=
  { header :=
      { id := rawU16 data 0, flags := 0x8180, qdcount := 1,
        ancount := UInt16.ofNat cached.answers.length,
        nscount := UInt16.ofNat cached.authorities.length,
        arcount := UInt16.ofNat cached.additionals.length },
    questions := cached.questions, answers := cached.answers,
    authorities := cached.authorities, additionals := cached.additionals }

/-- Its reply for a stale hit, which leaves out two sections. -/
def rawStaleReply (data : Bytes) (cached : DnsMessage) : DnsMessage :=
  { header :=
      { id := rawU16 data 0, flags := 0x8180, qdcount := 1,
        ancount := UInt16.ofNat cached.answers.length },
    questions := cached.questions, answers := cached.answers }

def peekCacheRaw (s : CachingResolver) (env : Env) (data : Bytes) :
    CachingResolver × Option DnsMessage :=
  match rawKey data with
  | none => (s, none)
  | some key =>
    match s.probe env key with
    | .turbo msg =>
      ({ s.recordPeekHit with turboHits := s.turboHits + 1 }, some (rawReply data msg))
    | .fresh entry =>
      (promote s.recordPeekHit key entry.msg entry.expiresAt, some (rawReply data entry.msg))
    | .stale entry =>
      ((promote { s.recordPeekHit with staleHits := s.staleHits + 1 } key entry.msg
          (env.now + seconds 60)).enqueueStaleRefresh key,
        some (rawStaleReply data entry.msg))
    | .miss => (s, none)

def refreshQuery (question : DnsQuestion) : DnsMessage :=
  DnsMessage.createQuery question.qname question.qtype question.qclass

/-- Ask the resolver behind again for a key, and replace its entry if it still has
one. -/
def refreshEntry (s : CachingResolver) (env : Env) (key : CacheKey) (question : DnsQuestion) :
    CachingResolver × Except Thrown Unit :=
  match env.back (refreshQuery question) true with
  | .error e => (s, .error e)
  | .ok none => (s, .ok ())
  | .ok (some reply) =>
    if shouldCache question reply then
      let ttl := storeTTL env reply
      match s.cache.lookup key with
      | none => (s, .ok ())
      | some _ =>
        let entry : CacheEntry :=
          { msg := clobberTTL reply ttl, ttl, expiresAt := env.later + seconds ttl }
        ({ s with
            cache := s.cache.insert key entry,
            preemptiveRefreshes := s.preemptiveRefreshes + 1 }, .ok ())
    else (s, .ok ())

def gcCache (s : CachingResolver) (env : Env) : CachingResolver :=
  { s with
    cache := (env.order.order s.cache.entries).foldl
      (fun cache item => if isExpired env.now item.2 then cache.erase item.1 else cache)
      s.cache }

def flushCache (s : CachingResolver) : CachingResolver :=
  { s with cache := ∅ }

end CachingResolver
end Dnss
