/-
What the cache keeps from the resolver behind.

An entry of L2 is lost to a flush, a load, a refresh of its key, the collector after its expiry,
and the eviction of a full cache, and to nothing else (`lookup_kept_run`).  Until its expiry a
query for its key is answered here: `query_of_unexpired` says so for every run that has none of
the others, whatever the resolver behind would answer.

A stale hit puts its message into L1 for 60 seconds and queues a refresh.  While L1 has it there
is no other stale hit, so the refreshes of one key are 60 seconds apart, and
`staleRefresh_paced` says what it takes to have them closer: a key with another hash that took
the slot.
-/
import Dnss.Cache.Tiers

namespace Dnss
namespace CachingResolver

open Machine

/-! ## Entries that stay -/

/-- The call reads the clock before `t`, if it does so before an exchange. -/
def Op.Before (t : Int) : Op → Prop
  | .query env _ _ => env.now < t
  | .peekCache env _ => env.now < t
  | .peekCacheRaw env _ => env.now < t
  | .gcCache env => env.now < t
  | _ => True

/-- The call is none of those that drop or replace entries before their expiry. -/
def Op.Leaves (key : CacheKey) : Op → Prop
  | .refreshEntry _ key' _ => key' ≠ key
  | .flushCache => False
  | .loadCache _ _ => False
  | _ => True

theorem Op.Before.now_lt {t : Int} {op : Op} {env : Env} {key : CacheKey} (h : op.Before t)
    (hkey : op.lookup = some (env, key)) : env.now < t := by
  cases op with
  | query env' req allowFanOut =>
    obtain ⟨_, _, hpair⟩ := Option.map_eq_some_iff.mp hkey
    cases hpair
    exact h
  | peekCache env' req =>
    obtain ⟨_, _, hpair⟩ := Option.map_eq_some_iff.mp hkey
    cases hpair
    exact h
  | peekCacheRaw env' data =>
    obtain ⟨_, _, hpair⟩ := Option.map_eq_some_iff.mp hkey
    cases hpair
    exact h
  | refreshEntry env' key' question => cases hkey
  | gcCache env' => cases hkey
  | flushCache => cases hkey
  | loadCache now file => cases hkey

theorem evict_of_room {cache : Cache} (env : Env) (h : cache.entries.length < maxCacheSize) :
    evict cache env = cache := by
  rw [evict, if_neg (Nat.not_le.mpr h)]

/-- A fetch for a key whose entry has not expired is a refresh. -/
theorem Fetched.eq_refresh {s : CachingResolver} {op : Op} {key : CacheKey} {u : DnsMessage}
    {entry new : CacheEntry} (h : Fetched s op key u new) (hentry : s.cache.lookup key = some entry)
    (hbefore : op.Before entry.expiresAt) : ∃ env question, op = .refreshEntry env key question := by
  cases h with
  | @reply env req _ allowFanOut q hq hmiss hback hcache =>
    have hexpired := ((probe_eq_miss hmiss).2 entry hentry).1
    have hnow : env.now < entry.expiresAt := hbefore
    omega
  | @failure env req allowFanOut q hq hmiss hback hroom =>
    have hexpired := ((probe_eq_miss hmiss).2 entry hentry).1
    have hnow : env.now < entry.expiresAt := hbefore
    omega
  | @refresh env _ question _ old hback hcache hold => exact ⟨env, question, rfl⟩

/-- What a call writes into the tiers for the key it looks up.  L1 had nothing for it. -/
structure Writes (s : CachingResolver) (op : Op) (env : Env) (key : CacheKey) : Prop where
  lookup : op.lookup = some (env, key)
  missed : turboLookup s.turbo (turboHash key) env.now = none
  turbo : ∃ msg expiresAt, (step s op).turbo = turboInsert s.turbo (turboHash key) msg expiresAt
  cache : (step s op).cache = s.cache ∨ ∃ u new base, Fetched s op key u new ∧
    (base = s.cache ∨ base = evict s.cache env) ∧ (step s op).cache = base.insert key new

theorem turboLookup_eq_none_of_probe {s : CachingResolver} {env : Env} {key : CacheKey}
    (h : ∀ msg, s.probe env key ≠ .turbo msg) :
    turboLookup s.turbo (turboHash key) env.now = none := by
  cases hlookup : turboLookup s.turbo (turboHash key) env.now with
  | none => rfl
  | some msg =>
    refine absurd ?_ (h msg)
    rw [probe, hlookup]

theorem storeFailure_of_full {s : CachingResolver} (env : Env) (key : CacheKey) (req : DnsMessage)
    (hfull : maxCacheSize ≤ s.cache.entries.length) : (s.storeFailure env key req).1 = s := by
  simp only [storeFailure, if_pos hfull]

theorem query_cases (s : CachingResolver) (env : Env) {req : DnsMessage} {q : DnsQuestion}
    (hq : req.questions = [q]) (allowFanOut : Bool) :
    ((s.query env req allowFanOut).1.turbo = s.turbo ∧
        (s.query env req allowFanOut).1.cache = s.cache) ∨
      Writes s (.query env req allowFanOut) env q.key := by
  have hkey : (Op.query env req allowFanOut).lookup = some (env, q.key) := by
    simp [Op.lookup, requestKey, hq]
  cases hp : s.probe env q.key with
  | turbo msg =>
    left
    simp only [query, hq, probe_track, hp]
    exact ⟨rfl, rfl⟩
  | fresh entry =>
    have hmissed : turboLookup s.turbo (turboHash q.key) env.now = none :=
      turboLookup_eq_none_of_probe fun msg hturbo => by rw [hp] at hturbo; cases hturbo
    refine .inr ⟨hkey, hmissed, ⟨entry.msg, entry.expiresAt, ?_⟩, .inl ?_⟩
    · simp only [step, query, hq, probe_track, hp]
      rfl
    · simp only [step, query, hq, probe_track, hp]
      rfl
  | stale entry =>
    have hmissed : turboLookup s.turbo (turboHash q.key) env.now = none :=
      turboLookup_eq_none_of_probe fun msg hturbo => by rw [hp] at hturbo; cases hturbo
    refine .inr ⟨hkey, hmissed, ⟨entry.msg, env.now + seconds 60, ?_⟩, .inl ?_⟩
    · simp only [step, query, hq, probe_track, hp, turbo_enqueueStaleRefresh]
      rfl
    · simp only [step, query, hq, probe_track, hp, cache_enqueueStaleRefresh]
      rfl
  | miss =>
    have hmissed := (probe_eq_miss hp).1
    cases hback : env.back req env.fanOutEnabled with
    | error e =>
      left
      simp only [query, hq, probe_track, hp, hback]
      exact ⟨rfl, rfl⟩
    | ok r =>
      cases r with
      | none =>
        by_cases hroom : s.cache.entries.length < maxCacheSize
        · have hstore : (s.query env req allowFanOut).1.turbo = turboInsert s.turbo
                (turboHash q.key) (entryOf env (DnsMessage.createError req DnsRcode.ServFail)
                  (failureTTL env)).msg (env.later + seconds (failureTTL env)) ∧
              (s.query env req allowFanOut).1.cache = s.cache.insert q.key
                (entryOf env (DnsMessage.createError req DnsRcode.ServFail) (failureTTL env)) := by
            simp only [query, hq, probe_track, hp, hback]
            rw [storeFailure_of_room]
            · exact ⟨rfl, rfl⟩
            · exact hroom
          exact .inr ⟨hkey, hmissed, ⟨_, _, hstore.1⟩,
            .inr ⟨_, _, _, .failure hq hp hback hroom, .inl rfl, hstore.2⟩⟩
        · left
          have hfull : maxCacheSize ≤ s.cache.entries.length := Nat.not_lt.mp hroom
          simp only [query, hq, probe_track, hp, hback]
          rw [storeFailure_of_full]
          · exact ⟨rfl, rfl⟩
          · exact hfull
      | some u =>
        by_cases hcache : shouldCache q u = true
        · obtain ⟨hturbo, hstore⟩ := query_store allowFanOut hq hp hback hcache
          exact .inr ⟨hkey, hmissed, ⟨_, _, hturbo⟩,
            .inr ⟨u, _, _, .reply hq hp hback hcache, .inr rfl, hstore⟩⟩
        · left
          simp only [query, hq, probe_track, hp, hback, hcache]
          exact ⟨rfl, rfl⟩

theorem peekCacheRaw_cases (s : CachingResolver) (env : Env) {data : Bytes} {key : CacheKey}
    (hraw : rawKey data = some key) :
    ((s.peekCacheRaw env data).1.turbo = s.turbo ∧ (s.peekCacheRaw env data).1.cache = s.cache) ∨
      Writes s (.peekCacheRaw env data) env key := by
  have hkey : (Op.peekCacheRaw env data).lookup = some (env, key) := by
    simp [Op.lookup, hraw]
  cases hp : s.probe env key with
  | turbo msg =>
    left
    simp only [peekCacheRaw, hraw, hp]
    exact ⟨rfl, rfl⟩
  | fresh entry =>
    have hmissed : turboLookup s.turbo (turboHash key) env.now = none :=
      turboLookup_eq_none_of_probe fun msg hturbo => by rw [hp] at hturbo; cases hturbo
    refine .inr ⟨hkey, hmissed, ⟨entry.msg, entry.expiresAt, ?_⟩, .inl ?_⟩
    · simp only [step, peekCacheRaw, hraw, hp]
      rfl
    · simp only [step, peekCacheRaw, hraw, hp]
      rfl
  | stale entry =>
    have hmissed : turboLookup s.turbo (turboHash key) env.now = none :=
      turboLookup_eq_none_of_probe fun msg hturbo => by rw [hp] at hturbo; cases hturbo
    refine .inr ⟨hkey, hmissed, ⟨entry.msg, env.now + seconds 60, ?_⟩, .inl ?_⟩
    · simp only [step, peekCacheRaw, hraw, hp, turbo_enqueueStaleRefresh]
      rfl
    · simp only [step, peekCacheRaw, hraw, hp, cache_enqueueStaleRefresh]
      rfl
  | miss =>
    left
    have hsame : (s.peekCacheRaw env data).1 = s := by
      simp only [peekCacheRaw, hraw, hp]
    rw [hsame]
    exact ⟨rfl, rfl⟩

/-- A call that looks up a key leaves the tiers alone, or writes for that key. -/
theorem step_lookup_cases {s : CachingResolver} {op : Op} {env : Env} {key : CacheKey}
    (hkey : op.lookup = some (env, key)) :
    ((step s op).turbo = s.turbo ∧ (step s op).cache = s.cache) ∨ Writes s op env key := by
  cases op with
  | query env' req allowFanOut =>
    obtain ⟨key', hreq, hpair⟩ := Option.map_eq_some_iff.mp hkey
    cases hpair
    obtain ⟨q, hq, rfl⟩ : ∃ q, req.questions = [q] ∧ q.key = key := by
      unfold requestKey at hreq
      split at hreq
      · rename_i q hq
        exact ⟨q, hq, Option.some.inj hreq⟩
      · cases hreq
    exact query_cases s env hq allowFanOut
  | peekCache env' req => exact .inl (tiers_peekCache s env' req)
  | peekCacheRaw env' data =>
    obtain ⟨key', hraw, hpair⟩ := Option.map_eq_some_iff.mp hkey
    cases hpair
    exact peekCacheRaw_cases s env hraw
  | refreshEntry env' key' question => cases hkey
  | gcCache env' => cases hkey
  | flushCache => cases hkey
  | loadCache now file => cases hkey

/-- A call that looks up no key leaves L1 alone. -/
theorem turbo_step_of_no_lookup {s : CachingResolver} {op : Op} (hkey : op.lookup = none) :
    (step s op).turbo = s.turbo := by
  have heffect := step_effect s op
  generalize (step s op).turbo = turbo at heffect ⊢
  generalize (step s op).cache = cache at heffect
  cases heffect with
  | promoteFresh hsome =>
    rw [hkey] at hsome
    cases hsome
  | promoteStale hsome =>
    rw [hkey] at hsome
    cases hsome
  | store hsome =>
    rw [hkey] at hsome
    cases hsome
  | _ => rfl

theorem lookup_refreshEntry_of_ne {s : CachingResolver} {env : Env} {key key' : CacheKey}
    {question : DnsQuestion} {entry : CacheEntry} (hentry : s.cache.lookup key = some entry)
    (hne : key' ≠ key) : (s.refreshEntry env key' question).1.cache.lookup key = some entry := by
  unfold refreshEntry
  split
  · exact hentry
  · exact hentry
  · split
    · split
      · exact hentry
      · show (s.cache.insert key' _).lookup key = some entry
        rw [AList.lookup_insert_ne hne.symm]
        exact hentry
    · exact hentry

theorem lookup_kept_step {s : CachingResolver} {op : Op} {key : CacheKey} {entry : CacheEntry}
    (hentry : s.cache.lookup key = some entry) (hbefore : op.Before entry.expiresAt)
    (hleaves : op.Leaves key) (hroom : s.cache.entries.length < maxCacheSize) :
    (step s op).cache.lookup key = some entry := by
  -- What is fetched before the expiry is fetched for another key.
  have hfetch : ∀ key' u new, Fetched s op key' u new → key' ≠ key := by
    rintro key' u new hfetched rfl
    obtain ⟨env, question, rfl⟩ := hfetched.eq_refresh hentry hbefore
    exact hleaves rfl
  cases hkey : op.lookup with
  | some found =>
    obtain ⟨env, key'⟩ := found
    rcases step_lookup_cases (s := s) hkey with ⟨-, hcache⟩ | hwrites
    · rw [hcache]
      exact hentry
    · rcases hwrites.cache with hcache | ⟨u, new, base, hfetched, hbase, hcache⟩
      · rw [hcache]
        exact hentry
      · have hsame : base = s.cache := by
          rcases hbase with rfl | rfl
          · rfl
          · exact evict_of_room env hroom
        rw [hcache, hsame, AList.lookup_insert_ne (hfetch _ _ _ hfetched).symm]
        exact hentry
  | none =>
    cases op with
    | query env req allowFanOut =>
      have hreq : requestKey req = none := Option.map_eq_none_iff.mp hkey
      have hcache : (s.query env req allowFanOut).1.cache = s.cache := by
        unfold query
        split
        · rename_i q hq
          simp [requestKey, hq] at hreq
        · rfl
      show (s.query env req allowFanOut).1.cache.lookup key = some entry
      rw [hcache]
      exact hentry
    | peekCache env req =>
      show (s.peekCache env req).1.cache.lookup key = some entry
      rw [(tiers_peekCache s env req).2]
      exact hentry
    | peekCacheRaw env data =>
      have hraw : rawKey data = none := Option.map_eq_none_iff.mp hkey
      show (s.peekCacheRaw env data).1.cache.lookup key = some entry
      rw [peekCacheRaw, hraw]
      exact hentry
    | refreshEntry env key' question => exact lookup_refreshEntry_of_ne hentry hleaves
    | gcCache env => exact lookup_gcCache_iff.mpr ⟨hentry, hbefore⟩
    | flushCache => exact absurd hleaves id
    | loadCache now file => exact absurd hleaves id

theorem lookup_kept_run {s : CachingResolver} {ops : List Op} {key : CacheKey} {entry : CacheEntry}
    (hentry : s.cache.lookup key = some entry) (hbefore : ∀ op ∈ ops, op.Before entry.expiresAt)
    (hleaves : ∀ op ∈ ops, op.Leaves key)
    (hroom : ∀ s' op, Visits step s ops s' op → s'.cache.entries.length < maxCacheSize) :
    (run step s ops).cache.lookup key = some entry := by
  refine run_invariant_of_visits (P := fun s : CachingResolver => s.cache.lookup key = some entry)
    hentry fun s' op hvisit hkept => ?_
  exact lookup_kept_step hkept (hbefore op hvisit.mem) (hleaves op hvisit.mem) (hroom s' op hvisit)

/-- A query for the key of an entry that has not expired does not ask the resolver behind. -/
theorem query_of_fresh {s : CachingResolver} {env : Env} {req : DnsMessage} {q : DnsQuestion}
    {entry : CacheEntry} (hq : req.questions = [q]) (hentry : s.cache.lookup q.key = some entry)
    (hnow : env.now < entry.expiresAt) :
    ∃ reply, ∀ back allowFanOut,
      (s.query { env with back := back } req allowFanOut).2 = .ok (some reply) := by
  have hfound : ∀ back, s.probe { env with back := back } q.key = s.probe env q.key := fun _ => rfl
  have hlive : isExpired env.now entry = false := decide_eq_false (Int.not_le.mpr hnow)
  cases hturbo : turboLookup s.turbo (turboHash q.key) env.now with
  | some msg =>
    have hp : s.probe env q.key = .turbo msg := by rw [probe, hturbo]
    refine ⟨buildCachedReply req msg, fun back allowFanOut => ?_⟩
    simp only [query, hq, probe_track, hfound, hp]
  | none =>
    have hp : s.probe env q.key = .fresh entry := by
      simp [probe, hturbo, hentry, hlive]
    refine ⟨buildCachedReply req entry.msg, fun back allowFanOut => ?_⟩
    simp only [query, hq, probe_track, hfound, hp]

/-- Until an entry expires, it is there and no query for its key reaches the resolver behind: after
every run that has no flush, no load, and no refresh of this key, and in which the cache does not
fill. -/
theorem query_of_unexpired {s : CachingResolver} {ops : List Op} {req : DnsMessage}
    {q : DnsQuestion} {entry : CacheEntry} (hq : req.questions = [q])
    (hentry : s.cache.lookup q.key = some entry)
    (hbefore : ∀ op ∈ ops, op.Before entry.expiresAt) (hleaves : ∀ op ∈ ops, op.Leaves q.key)
    (hroom : ∀ s' op, Visits step s ops s' op → s'.cache.entries.length < maxCacheSize) :
    (run step s ops).cache.lookup q.key = some entry ∧
      ∀ env : Env, env.now < entry.expiresAt → ∃ reply, ∀ back allowFanOut,
        ((run step s ops).query { env with back := back } req allowFanOut).2 =
          .ok (some reply) := by
  have hkept := lookup_kept_run hentry hbefore hleaves hroom
  exact ⟨hkept, fun env hnow => query_of_fresh hq hkept hnow⟩

/-- The address that was asked for is still there after the name was looked up again. -/
theorem addressPeeked_query_of_unexpired : ∃ reply, ∀ back allowFanOut,
    ((run step (run step {} [addressAsked]) [addressPeeked]).query
      { addressEnv (seconds 20) with back := back } (DnsMessage.createQuery [0x61] 1)
        allowFanOut).2 = .ok (some reply) := by
  have hlookup : (run step {} [addressAsked]).cache.lookup
      { name := [0x61], type := 1, qclass := 1 } =
        some { msg := addressReply, ttl := 3600, expiresAt := seconds 3600 } := by
    decide +kernel
  have hsize : (run step {} [addressAsked]).cache.entries.length = 1 := by decide +kernel
  refine (query_of_unexpired (q := { qname := [0x61], qtype := 1, qclass := 1 }) rfl hlookup
    ?_ ?_ ?_).2 _ (by decide)
  · rw [List.forall_mem_singleton]
    show seconds 10 < seconds 3600
    decide
  · rw [List.forall_mem_singleton]
    exact trivial
  · intro s' op hvisit
    rcases visits_cons_iff.mp hvisit with ⟨rfl, -⟩ | hnone
    · rw [hsize]
      decide
    · exact absurd hnone (not_visits_nil _ _)

/-! ## Stale hits -/

/-- What goes into L1 when a query or a raw lookup finds a message in L2. -/
def Probe.promoted (now : Int) : Probe → Option (DnsMessage × Int)
  | .fresh entry => some (entry.msg, entry.expiresAt)
  | .stale entry => some (entry.msg, now + seconds 60)
  | _ => none

theorem turbo_step_of_promoted {s : CachingResolver} {op : Op} {env : Env} {key : CacheKey}
    {msg : DnsMessage} {expiresAt : Int} (hkey : op.lookup = some (env, key))
    (hop : ∀ env req, op ≠ .peekCache env req)
    (hfound : (s.probe env key).promoted env.now = some (msg, expiresAt)) :
    (step s op).turbo = turboInsert s.turbo (turboHash key) msg expiresAt := by
  cases op with
  | query env' req allowFanOut =>
    obtain ⟨key', hreq, hpair⟩ := Option.map_eq_some_iff.mp hkey
    cases hpair
    unfold requestKey at hreq
    split at hreq
    · rename_i q hq
      cases hreq
      cases hp : s.probe env q.key with
      | fresh entry =>
        rw [hp] at hfound
        cases hfound
        simp only [step, query, hq, probe_track, hp]
        rfl
      | stale entry =>
        rw [hp] at hfound
        cases hfound
        simp only [step, query, hq, probe_track, hp, turbo_enqueueStaleRefresh]
        rfl
      | turbo msg' =>
        rw [hp] at hfound
        cases hfound
      | miss =>
        rw [hp] at hfound
        cases hfound
    · cases hreq
  | peekCache env' req => exact absurd rfl (hop env' req)
  | peekCacheRaw env' data =>
    obtain ⟨key', hraw, hpair⟩ := Option.map_eq_some_iff.mp hkey
    cases hpair
    cases hp : s.probe env key with
    | fresh entry =>
      rw [hp] at hfound
      cases hfound
      simp only [step, peekCacheRaw, hraw, hp]
      rfl
    | stale entry =>
      rw [hp] at hfound
      cases hfound
      simp only [step, peekCacheRaw, hraw, hp, turbo_enqueueStaleRefresh]
      rfl
    | turbo msg' =>
      rw [hp] at hfound
      cases hfound
    | miss =>
      rw [hp] at hfound
      cases hfound
  | refreshEntry env' key' question => cases hkey
  | gcCache env' => cases hkey
  | flushCache => cases hkey
  | loadCache now file => cases hkey

/-- The call serves a stale entry of `key` and queues its refresh, if there is room for it. -/
structure StaleHit (s : CachingResolver) (op : Op) (env : Env) (key : CacheKey) : Prop where
  lookup : op.lookup = some (env, key)
  promotes : ∀ env req, op ≠ .peekCache env req
  probe : ∃ entry, s.probe env key = .stale entry

/-- The message of a stale hit is in L1 for the next 60 seconds. -/
theorem StaleHit.holds {s : CachingResolver} {op : Op} {env : Env} {key : CacheKey}
    (h : StaleHit s op env key) :
    ∃ msg, HoldsUntil (step s op).turbo (turboHash key) msg (env.now + seconds 60) := by
  obtain ⟨entry, hp⟩ := h.probe
  refine ⟨entry.msg, ?_⟩
  rw [turbo_step_of_promoted h.lookup h.promotes (by rw [hp]; rfl)]
  exact DirectMapped.lookup_insert_self _ _

/-- The call is for a key of another hash that has the same slot. -/
def Collides (key : CacheKey) (op : Op) : Prop :=
  ∃ env key', op.lookup = some (env, key') ∧ turboHash key' ≠ turboHash key ∧
    turboIndex (turboHash key') = turboIndex (turboHash key)

/-- What L1 holds is displaced before its expiry only by a key of another hash. -/
theorem holdsUntil_kept {s : CachingResolver} {op : Op} {key : CacheKey} {msg : DnsMessage}
    {expiresAt : Int} (hholds : HoldsUntil s.turbo (turboHash key) msg expiresAt)
    (hbefore : op.Before expiresAt) :
    Collides key op ∨ HoldsUntil (step s op).turbo (turboHash key) msg expiresAt := by
  cases hkey : op.lookup with
  | none =>
    right
    rw [turbo_step_of_no_lookup hkey]
    exact hholds
  | some found =>
    obtain ⟨env, key'⟩ := found
    rcases step_lookup_cases (s := s) hkey with ⟨hturbo, -⟩ | hwrites
    · right
      rw [hturbo]
      exact hholds
    · obtain ⟨msg', expiresAt', hturbo⟩ := hwrites.turbo
      by_cases hslot : turboIndex (turboHash key') = turboIndex (turboHash key)
      · left
        refine ⟨env, key', hkey, fun hhash => ?_, hslot⟩
        -- A key of the same hash would have found the message.
        have hlive := turboLookup_eq_some_iff.mpr ⟨expiresAt, hholds, hbefore.now_lt hkey⟩
        rw [← hhash, hwrites.missed] at hlive
        cases hlive
      · right
        rw [hturbo]
        exact (DirectMapped.lookup_insert_of_ne _ fun h => hslot h.symm).trans hholds

/-- Two stale hits of one key within 60 seconds have a collision in its L1 slot between them. -/
theorem staleRefresh_paced {s : CachingResolver} {first second : Op} {env env' : Env}
    {key : CacheKey} {between : List Op} (hfirst : StaleHit s first env key)
    (hsecond : StaleHit (run step s (first :: between)) second env' key)
    (hclock : ∀ op ∈ between, op.Before (env.now + seconds 60))
    (hsoon : env'.now < env.now + seconds 60) :
    ∃ op ∈ between, Collides key op := by
  obtain ⟨msg, hholds⟩ := hfirst.holds
  by_contra hnone
  push Not at hnone
  have hkept : HoldsUntil (run step (step s first) between).turbo (turboHash key) msg
      (env.now + seconds 60) := by
    refine run_invariant (P := fun s : CachingResolver =>
      HoldsUntil s.turbo (turboHash key) msg (env.now + seconds 60)) hholds fun op hop s h => ?_
    exact (holdsUntil_kept h (hclock op hop)).resolve_left (hnone op hop)
  have hlive := turboLookup_eq_some_iff.mpr ⟨_, hkept, hsoon⟩
  obtain ⟨entry, hp⟩ := hsecond.probe
  rw [show run step s (first :: between) = run step (step s first) between from rfl, probe,
    hlive] at hp
  cases hp

/-- A stale name is asked for, then its other address family, then the name again. -/
theorem denied_staleRefresh_paced :
    ∃ op ∈ [denyingQuery { name := [0x61], type := 28, qclass := 1 }],
      Collides { name := [0x61], type := 1, qclass := 1 } op := by
  have hfirst : StaleHit (delegationCache 0)
      (denyingQuery { name := [0x61], type := 1, qclass := 1 }) denyingEnv
      { name := [0x61], type := 1, qclass := 1 } :=
    ⟨rfl, fun _ _ h => (by cases h), ⟨{ msg := delegation, ttl := 600, expiresAt := 0 }, rfl⟩⟩
  have hmissed : turboLookup (run step (delegationCache 0)
      [denyingQuery { name := [0x61], type := 1, qclass := 1 },
        denyingQuery { name := [0x61], type := 28, qclass := 1 }]).turbo
      (turboHash { name := [0x61], type := 1, qclass := 1 }) denyingEnv.now = none := by
    decide +kernel
  have hlookup : (run step (delegationCache 0)
      [denyingQuery { name := [0x61], type := 1, qclass := 1 },
        denyingQuery { name := [0x61], type := 28, qclass := 1 }]).cache.lookup
      { name := [0x61], type := 1, qclass := 1 } =
        some { msg := delegation, ttl := 600, expiresAt := 0 } := by
    decide +kernel
  have hsecond : StaleHit (run step (delegationCache 0)
      [denyingQuery { name := [0x61], type := 1, qclass := 1 },
        denyingQuery { name := [0x61], type := 28, qclass := 1 }])
      (denyingQuery { name := [0x61], type := 1, qclass := 1 }) denyingEnv
      { name := [0x61], type := 1, qclass := 1 } := by
    refine ⟨rfl, fun _ _ h => (by cases h), { msg := delegation, ttl := 600, expiresAt := 0 }, ?_⟩
    rw [probe, hmissed, hlookup]
    rfl
  refine staleRefresh_paced hfirst hsecond ?_ (by decide)
  rw [List.forall_mem_singleton]
  show (0 : Int) < 0 + seconds 60
  decide

/-! ## Types of one name -/

/-- The type does not reach the bits of the slot. -/
theorem turboIndex_turboHash (name : Bytes) (type type' qclass : UInt16) :
    turboIndex (turboHash { name, type, qclass }) =
      turboIndex (turboHash { name, type := type', qclass }) := by
  have hlow : ∀ (h c : UInt64) (t : UInt16),
      ((h ^^^ (t.toUInt64 <<< 16) ^^^ c) &&& 4095).toNat = ((h ^^^ c) &&& 4095).toNat := by
    intro h c t
    refine Nat.eq_of_testBit_eq fun i => ?_
    have hmask : (4095 : Nat).testBit i = decide (i < 12) := Nat.testBit_two_pow_sub_one 12 i
    have hshift : (t.toUInt64 <<< 16).toNat.testBit i =
        (decide (i < 64) && decide (16 ≤ i) && t.toNat.testBit (i - 16)) := by
      rw [UInt64.toNat_shiftLeft, show (16 : UInt64).toNat % 64 = 16 from rfl,
        Nat.testBit_mod_two_pow, Nat.testBit_shiftLeft, UInt16.toNat_toUInt64, Bool.and_assoc]
    simp only [UInt64.toNat_and, UInt64.toNat_xor, Nat.testBit_and, Nat.testBit_xor, hshift,
      show (4095 : UInt64).toNat = 4095 from rfl, hmask]
    by_cases hi : i < 12
    · have hnot : ¬16 ≤ i := by omega
      simp [hi, hnot]
    · simp [hi]
  unfold turboIndex turboHash
  rw [hlow, hlow]

theorem turboHash_type_injective {name : Bytes} {type type' qclass : UInt16}
    (h : turboHash { name, type, qclass } = turboHash { name, type := type', qclass }) :
    type = type' := by
  unfold turboHash at h
  simp only [UInt64.xor_left_inj, UInt64.xor_right_inj] at h
  have hnat := congrArg UInt64.toNat h
  simp only [UInt64.toNat_shiftLeft, UInt16.toNat_toUInt64,
    show (16 : UInt64).toNat % 64 = 16 from rfl, Nat.shiftLeft_eq] at hnat
  have hlt := type.toNat_lt
  have hlt' := type'.toNat_lt
  refine UInt16.toNat_inj.mp ?_
  omega

/-- A slot that has a message under one hash has none under another. -/
theorem turboLookup_eq_none_of_holds {t : Turbo} {h h' : UInt64} {msg : DnsMessage}
    (hholds : TurboHolds t h msg) (hne : h' ≠ h) (hslot : turboIndex h' = turboIndex h) (now : Int) :
    turboLookup t h' now = none := by
  obtain ⟨expiresAt, hlookup⟩ := hholds
  unfold DirectMapped.lookup at hlookup
  split at hlookup
  · rename_i htag
    have htag' : (t (turboIndex h')).tag ≠ h' := by
      rw [hslot, htag]
      exact fun heq => hne heq.symm
    rw [turboLookup, DirectMapped.lookup, if_neg htag']
  · cases hlookup

/-- What a query or a raw lookup has found is in L1 afterwards. -/
theorem turboHolds_of_hit {s : CachingResolver} {op : Op} {env : Env} {key : CacheKey}
    (hkey : op.lookup = some (env, key)) (hop : ∀ env req, op ≠ .peekCache env req)
    (hhit : s.probe env key ≠ .miss) : ∃ msg, TurboHolds (step s op).turbo (turboHash key) msg := by
  have hinserted : ∀ {msg : DnsMessage} {expiresAt : Int},
      (s.probe env key).promoted env.now = some (msg, expiresAt) →
        ∃ msg, TurboHolds (step s op).turbo (turboHash key) msg := by
    intro msg expiresAt hfound
    rw [turbo_step_of_promoted hkey hop hfound]
    exact ⟨msg, expiresAt, DirectMapped.lookup_insert_self _ _⟩
  cases hp : s.probe env key with
  | turbo msg =>
    rcases step_lookup_cases (s := s) hkey with ⟨hturbo, -⟩ | hwrites
    · refine ⟨msg, ?_⟩
      rw [hturbo]
      exact turboHolds_of_turboLookup (probe_eq_turbo hp)
    · have hmissed := hwrites.missed
      rw [probe_eq_turbo hp] at hmissed
      cases hmissed
  | fresh entry => exact hinserted (by rw [hp]; rfl)
  | stale entry => exact hinserted (by rw [hp]; rfl)
  | miss => exact absurd hp hhit

/-- After a hit for one type of a name, L1 misses every other type of it. -/
theorem turbo_misses_other_type {s : CachingResolver} {op : Op} {env : Env} {name : Bytes}
    {type type' qclass : UInt16} (hkey : op.lookup = some (env, { name, type, qclass }))
    (hop : ∀ env req, op ≠ .peekCache env req)
    (hhit : s.probe env { name, type, qclass } ≠ .miss) (hne : type' ≠ type) (env' : Env)
    (msg : DnsMessage) : (step s op).probe env' { name, type := type', qclass } ≠ .turbo msg := by
  obtain ⟨msg', hholds⟩ := turboHolds_of_hit hkey hop hhit
  have hmissed := turboLookup_eq_none_of_holds hholds
    (fun hhash => hne (turboHash_type_injective hhash))
    (turboIndex_turboHash name type' type qclass) env'.now
  intro hp
  have hfound := probe_eq_turbo hp
  rw [hmissed] at hfound
  cases hfound

/-- The address is found again, and then L1 has nothing for the other family. -/
theorem address_misses_other_type :
    (step (run step {} [addressAsked]) addressAsked).probe (addressEnv 0)
      { name := [0x61], type := 28, qclass := 1 } ≠ .turbo addressReply := by
  have hfound : turboLookup (run step {} [addressAsked]).turbo
      (turboHash { name := [0x61], type := 1, qclass := 1 }) (addressEnv 0).now =
        some addressReply := by
    decide +kernel
  have hkey : addressAsked.lookup =
      some (addressEnv 0, { name := [0x61], type := 1, qclass := 1 }) := rfl
  refine turbo_misses_other_type hkey (fun _ _ h => by cases h) ?_ (by decide) _ _
  rw [probe, hfound]
  intro hmiss
  cases hmiss

end CachingResolver
end Dnss
