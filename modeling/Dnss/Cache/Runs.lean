/-
Runs of the caching resolver.

An `Op` is one call with everything it meets outside the resolver, so `step` is a
function and a run is a list of calls.  `step_effect` says once what a call can do
to the two tiers: leave them, copy an L2 entry into L1, store what was fetched, drop
entries, or load a file.  `Fetched` names the one way a message enters a run from
the resolver behind, with the entry that is made of it.  `lookup_step` and
`turboHolds_step` read the effects backwards, from what a tier holds after a call.

`stored_of_holds` is the provenance of every cached message: whatever a tier holds
after a run was fetched, or loaded, at an earlier moment of the run.
-/
import Dnss.Cache.DiskLoad
import Dnss.Library.Machine

namespace Dnss
namespace CachingResolver

open Machine

inductive Op where
  | query (env : Env) (req : DnsMessage) (allowFanOut : Bool)
  | peekCache (env : Env) (req : DnsMessage)
  | peekCacheRaw (env : Env) (data : Bytes)
  | refreshEntry (env : Env) (key : CacheKey) (question : DnsQuestion)
  | gcCache (env : Env)
  | flushCache
  | loadCache (now : Int) (file : Bytes)

def step (s : CachingResolver) : Op → CachingResolver
  | .query env req allowFanOut => (s.query env req allowFanOut).1
  | .peekCache env req => (s.peekCache env req).1
  | .peekCacheRaw env data => (s.peekCacheRaw env data).1
  | .refreshEntry env key question => (s.refreshEntry env key question).1
  | .gcCache env => s.gcCache env
  | .flushCache => s.flushCache
  | .loadCache now file => (s.loadCache now file).1

/-- The reply a call gives its client, if it gives one. -/
def Op.reply (s : CachingResolver) : Op → Option DnsMessage
  | .query env req allowFanOut =>
    match (s.query env req allowFanOut).2 with
    | .ok reply => reply
    | .error _ => none
  | .peekCache env req => (s.peekCache env req).2
  | .peekCacheRaw env data => (s.peekCacheRaw env data).2
  | _ => none

/-- The key of a request with one question. -/
def requestKey (req : DnsMessage) : Option CacheKey :=
  match req.questions with
  | [q] => some q.key
  | _ => none

/-- The key a call looks up, with the moment it does so. -/
def Op.lookup : Op → Option (Env × CacheKey)
  | .query env req _ => (requestKey req).map (env, ·)
  | .peekCache env req => (requestKey req).map (env, ·)
  | .peekCacheRaw env data => (rawKey data).map (env, ·)
  | _ => none

/-- The entry made of a message that is stored with the lifetime `ttl`. -/
def entryOf (env : Env) (u : DnsMessage) (ttl : Int) : CacheEntry :=
  { msg := clobberTTL u ttl, ttl, expiresAt := env.later + seconds ttl }

/-- The call stores `entry` under `key`, made of the message `u`: a reply of the
resolver behind, or the local SERVFAIL. -/
inductive Fetched (s : CachingResolver) : Op → CacheKey → DnsMessage → CacheEntry → Prop where
  | reply {env : Env} {req u : DnsMessage} {allowFanOut : Bool} {q : DnsQuestion}
      (hq : req.questions = [q]) (hmiss : s.probe env q.key = .miss)
      (hback : env.back req env.fanOutEnabled = .ok (some u)) (hcache : shouldCache q u = true) :
      Fetched s (.query env req allowFanOut) q.key u (entryOf env u (storeTTL env u))
  | failure {env : Env} {req : DnsMessage} {allowFanOut : Bool} {q : DnsQuestion}
      (hq : req.questions = [q]) (hmiss : s.probe env q.key = .miss)
      (hback : env.back req env.fanOutEnabled = .ok none)
      (hroom : s.cache.entries.length < maxCacheSize) :
      Fetched s (.query env req allowFanOut) q.key (DnsMessage.createError req DnsRcode.ServFail)
        (entryOf env (DnsMessage.createError req DnsRcode.ServFail) (failureTTL env))
  | refresh {env : Env} {key : CacheKey} {question : DnsQuestion} {u : DnsMessage}
      {old : CacheEntry}
      (hback : env.back (refreshQuery question) true = .ok (some u))
      (hcache : shouldCache question u = true) (hold : s.cache.lookup key = some old) :
      Fetched s (.refreshEntry env key question) key u (entryOf env u (storeTTL env u))

/-- What a call does to the two tiers. -/
inductive Effect (s : CachingResolver) (op : Op) : Turbo → Cache → Prop where
  | keep : Effect s op s.turbo s.cache
  | promoteFresh {env : Env} {key : CacheKey} {entry : CacheEntry}
      (hkey : op.lookup = some (env, key)) (hentry : s.cache.lookup key = some entry)
      (hfresh : env.now < entry.expiresAt) :
      Effect s op (turboInsert s.turbo (turboHash key) entry.msg entry.expiresAt) s.cache
  | promoteStale {env : Env} {key : CacheKey} {entry : CacheEntry}
      (hkey : op.lookup = some (env, key)) (hprobe : s.probe env key = .stale entry) :
      Effect s op (turboInsert s.turbo (turboHash key) entry.msg (env.now + seconds 60)) s.cache
  | store {env : Env} {key : CacheKey} {u : DnsMessage} {entry : CacheEntry} {base : Cache}
      (hkey : op.lookup = some (env, key)) (hfetched : Fetched s op key u entry)
      (hbase : (base = s.cache ∧ s.cache.entries.length < maxCacheSize) ∨
        base = evict s.cache env) :
      Effect s op (turboInsert s.turbo (turboHash key) entry.msg entry.expiresAt)
        (base.insert key entry)
  | refresh {key : CacheKey} {u : DnsMessage} {entry old : CacheEntry}
      (hfetched : Fetched s op key u entry) (hold : s.cache.lookup key = some old) :
      Effect s op s.turbo (s.cache.insert key entry)
  | remove {cache : Cache}
      (hsub : ∀ key entry, cache.lookup key = some entry → s.cache.lookup key = some entry)
      (hlen : cache.entries.length ≤ s.cache.entries.length) : Effect s op s.turbo cache
  | load {now : Int} {file : Bytes} (hop : op = .loadCache now file) :
      Effect s op s.turbo (s.loadCache now file).1.cache

/-! ## Lookups -/

/-- The loops over the map meet its entries. -/
theorem mem_order_iff {env : Env} {cache : Cache} {item : CacheItem} :
    item ∈ env.order.order cache.entries ↔ cache.lookup item.1 = some item.2 := by
  rw [(env.order.perm cache.entries).mem_iff]
  exact AList.mem_lookup_iff.symm

/-- What a probe found is where it says, and what it missed is nowhere or past its stale
window. -/
theorem probe_spec (s : CachingResolver) (env : Env) (key : CacheKey) :
    match s.probe env key with
    | .turbo msg => turboLookup s.turbo (turboHash key) env.now = some msg
    | .fresh entry => s.cache.lookup key = some entry ∧ env.now < entry.expiresAt
    | .stale entry =>
      s.cache.lookup key = some entry ∧ entry.expiresAt ≤ env.now ∧
        env.now < entry.expiresAt + seconds env.staleThreshold.toInt
    | .miss =>
      turboLookup s.turbo (turboHash key) env.now = none ∧
        ∀ entry, s.cache.lookup key = some entry → entry.expiresAt ≤ env.now ∧
          entry.expiresAt + seconds env.staleThreshold.toInt ≤ env.now := by
  unfold probe
  cases hturbo : turboLookup s.turbo (turboHash key) env.now with
  | some msg => rfl
  | none =>
    cases hlookup : s.cache.lookup key with
    | none => simp
    | some e =>
      by_cases hexp : e.expiresAt ≤ env.now
      · by_cases hstale : env.now < e.expiresAt + seconds env.staleThreshold.toInt
        · simp [isExpired, hexp, hstale]
        · have hpast : e.expiresAt + seconds env.staleThreshold.toInt ≤ env.now := by omega
          simp [isExpired, hexp, hstale, hpast]
      · have hnow : env.now < e.expiresAt := by omega
        simp [isExpired, hexp, hnow]

theorem probe_eq_turbo {s : CachingResolver} {env : Env} {key : CacheKey} {msg : DnsMessage}
    (h : s.probe env key = .turbo msg) :
    turboLookup s.turbo (turboHash key) env.now = some msg := by
  have hspec := probe_spec s env key
  rwa [h] at hspec

theorem probe_eq_fresh {s : CachingResolver} {env : Env} {key : CacheKey} {entry : CacheEntry}
    (h : s.probe env key = .fresh entry) :
    s.cache.lookup key = some entry ∧ env.now < entry.expiresAt := by
  have hspec := probe_spec s env key
  rwa [h] at hspec

theorem probe_eq_stale {s : CachingResolver} {env : Env} {key : CacheKey} {entry : CacheEntry}
    (h : s.probe env key = .stale entry) :
    s.cache.lookup key = some entry ∧ entry.expiresAt ≤ env.now ∧
      env.now < entry.expiresAt + seconds env.staleThreshold.toInt := by
  have hspec := probe_spec s env key
  rwa [h] at hspec

theorem probe_eq_miss {s : CachingResolver} {env : Env} {key : CacheKey}
    (h : s.probe env key = .miss) :
    turboLookup s.turbo (turboHash key) env.now = none ∧
      ∀ entry, s.cache.lookup key = some entry → entry.expiresAt ≤ env.now ∧
        entry.expiresAt + seconds env.staleThreshold.toInt ≤ env.now := by
  have hspec := probe_spec s env key
  rwa [h] at hspec

theorem Probe.msg_eq_none_iff {p : Probe} : p.msg = none ↔ p = .miss := by
  cases p with
  | turbo msg => simp [Probe.msg]
  | fresh entry => simp [Probe.msg]
  | stale entry => simp [Probe.msg]
  | miss => simp [Probe.msg]

/-- A message that a probe finds is live in L1, or in L2 fresh or in its stale window. -/
theorem found_of_probe {s : CachingResolver} {env : Env} {key : CacheKey} {msg : DnsMessage}
    (h : (s.probe env key).msg = some msg) :
    (∃ expiresAt, HoldsUntil s.turbo (turboHash key) msg expiresAt ∧ env.now < expiresAt) ∨
      ∃ entry, s.cache.lookup key = some entry ∧ entry.msg = msg ∧
        (env.now < entry.expiresAt ∨
          env.now < entry.expiresAt + seconds env.staleThreshold.toInt) := by
  cases hp : s.probe env key with
  | turbo m =>
    rw [hp, Probe.msg, Option.some.injEq] at h
    rw [← h]
    exact Or.inl (turboLookup_eq_some_iff.mp (probe_eq_turbo hp))
  | fresh entry =>
    rw [hp, Probe.msg, Option.some.injEq] at h
    obtain ⟨hentry, hfresh⟩ := probe_eq_fresh hp
    exact Or.inr ⟨entry, hentry, h, Or.inl hfresh⟩
  | stale entry =>
    rw [hp, Probe.msg, Option.some.injEq] at h
    obtain ⟨hentry, -, hstale⟩ := probe_eq_stale hp
    exact Or.inr ⟨entry, hentry, h, Or.inr hstale⟩
  | miss =>
    rw [hp] at h
    cases h

/-- A probe sees the two tiers and nothing else of the state. -/
theorem probe_congr {s s' : CachingResolver} (hturbo : s'.turbo = s.turbo)
    (hcache : s'.cache = s.cache) (env : Env) (key : CacheKey) :
    s'.probe env key = s.probe env key := by
  rw [probe, probe, hturbo, hcache]

/-- Counting the query and its name does not show in a probe. -/
theorem probe_track (s : CachingResolver) (env : Env) (key : CacheKey) (name : Bytes) :
    (track { s with totalQueries := s.totalQueries + 1 } name).probe env key = s.probe env key :=
  probe_congr rfl rfl env key

theorem probe_empty (env : Env) (key : CacheKey) :
    ({} : CachingResolver).probe env key = .miss := by
  rw [probe, turboLookup_emptyTurbo]
  rfl

/-! ## The effect of each call -/

@[simp] theorem turbo_enqueueStaleRefresh (s : CachingResolver) (key : CacheKey) :
    (s.enqueueStaleRefresh key).turbo = s.turbo := by
  unfold enqueueStaleRefresh
  split <;> rfl

@[simp] theorem cache_enqueueStaleRefresh (s : CachingResolver) (key : CacheKey) :
    (s.enqueueStaleRefresh key).cache = s.cache := by
  unfold enqueueStaleRefresh
  split <;> rfl

theorem effect_query (s : CachingResolver) (env : Env) (req : DnsMessage) (allowFanOut : Bool) :
    Effect s (.query env req allowFanOut) (s.query env req allowFanOut).1.turbo
      (s.query env req allowFanOut).1.cache := by
  unfold query
  split
  · rename_i q hq
    have hkey : (Op.query env req allowFanOut).lookup = some (env, q.key) := by
      simp [Op.lookup, requestKey, hq]
    simp only [probe_track]
    cases hp : s.probe env q.key with
    | turbo msg => exact .keep
    | fresh entry =>
      obtain ⟨hentry, hfresh⟩ := probe_eq_fresh hp
      exact .promoteFresh hkey hentry hfresh
    | stale entry =>
      simp only [turbo_enqueueStaleRefresh, cache_enqueueStaleRefresh]
      exact .promoteStale hkey hp
    | miss =>
      cases hback : env.back req env.fanOutEnabled with
      | error e => exact .keep
      | ok r =>
        cases r with
        | none =>
          simp only [storeFailure]
          split
          · exact .keep
          · rename_i hroom
            have hroom' : s.cache.entries.length < maxCacheSize := Nat.lt_of_not_le hroom
            exact .store hkey (.failure hq hp hback hroom') (Or.inl ⟨rfl, hroom'⟩)
        | some u =>
          by_cases hcache : shouldCache q u = true
          · simp only [hcache, if_true]
            exact .store hkey (.reply hq hp hback hcache) (Or.inr rfl)
          · simp only [hcache]
            exact .keep
  · exact .keep

/-- `peekCache` only counts. -/
theorem tiers_peekCache (s : CachingResolver) (env : Env) (req : DnsMessage) :
    (s.peekCache env req).1.turbo = s.turbo ∧ (s.peekCache env req).1.cache = s.cache := by
  unfold peekCache
  split
  · rename_i q hq
    cases s.probe env q.key with
    | turbo msg => exact ⟨rfl, rfl⟩
    | fresh entry => exact ⟨rfl, rfl⟩
    | stale entry => exact ⟨rfl, rfl⟩
    | miss => exact ⟨rfl, rfl⟩
  · exact ⟨rfl, rfl⟩

theorem effect_peekCache (s : CachingResolver) (env : Env) (req : DnsMessage) :
    Effect s (.peekCache env req) (s.peekCache env req).1.turbo (s.peekCache env req).1.cache := by
  obtain ⟨hturbo, hcache⟩ := tiers_peekCache s env req
  rw [hturbo, hcache]
  exact .keep

theorem effect_peekCacheRaw (s : CachingResolver) (env : Env) (data : Bytes) :
    Effect s (.peekCacheRaw env data) (s.peekCacheRaw env data).1.turbo
      (s.peekCacheRaw env data).1.cache := by
  unfold peekCacheRaw
  cases hraw : rawKey data with
  | none => exact .keep
  | some key =>
    have hkey : (Op.peekCacheRaw env data).lookup = some (env, key) := by
      simp [Op.lookup, hraw]
    cases hp : s.probe env key with
    | turbo msg =>
      simp only [hp]
      exact .keep
    | fresh entry =>
      obtain ⟨hentry, hfresh⟩ := probe_eq_fresh hp
      simp only [hp]
      exact .promoteFresh hkey hentry hfresh
    | stale entry =>
      simp only [hp, turbo_enqueueStaleRefresh, cache_enqueueStaleRefresh]
      exact .promoteStale hkey hp
    | miss =>
      simp only [hp]
      exact .keep

theorem effect_refreshEntry (s : CachingResolver) (env : Env) (key : CacheKey)
    (question : DnsQuestion) :
    Effect s (.refreshEntry env key question) (s.refreshEntry env key question).1.turbo
      (s.refreshEntry env key question).1.cache := by
  unfold refreshEntry
  cases hback : env.back (refreshQuery question) true with
  | error e => exact .keep
  | ok r =>
    cases r with
    | none => exact .keep
    | some u =>
      by_cases hcache : shouldCache question u = true
      · cases hold : s.cache.lookup key with
        | none =>
          simp only [hcache, if_true]
          exact .keep
        | some old =>
          simp only [hcache, if_true]
          exact .refresh (.refresh hback hcache hold) hold
      · simp only [hcache]
        exact .keep

/-- Every call has one of the listed effects on the two tiers. -/
theorem step_effect (s : CachingResolver) (op : Op) :
    Effect s op (step s op).turbo (step s op).cache := by
  cases op with
  | query env req allowFanOut => exact effect_query s env req allowFanOut
  | peekCache env req => exact effect_peekCache s env req
  | peekCacheRaw env data => exact effect_peekCacheRaw s env data
  | refreshEntry env key question => exact effect_refreshEntry s env key question
  | gcCache env =>
    refine .remove (fun key entry h => ?_) ?_
    · exact (Assoc.lookup_foldl_erase (fun item : CacheItem => item.1)
        (fun item => isExpired env.now item.2) _ s.cache).mp h |>.1
    · exact Assoc.length_foldl_erase_le (fun item : CacheItem => item.1)
        (fun item => isExpired env.now item.2) _ s.cache
  | flushCache => exact .remove (fun _ _ h => by cases h) (Nat.zero_le _)
  | loadCache now file =>
    have hturbo : (s.loadCache now file).1.turbo = s.turbo := by
      unfold loadCache
      split <;> rfl
    show Effect s _ (s.loadCache now file).1.turbo _
    rw [hturbo]
    exact .load rfl

/-- Evicting only removes. -/
theorem lookup_evict {cache : Cache} {env : Env} {key : CacheKey} {entry : CacheEntry}
    (h : (evict cache env).lookup key = some entry) : cache.lookup key = some entry := by
  unfold evict at h
  split at h
  · split at h
    · exact Assoc.lookup_erase_eq_some h
    · exact h
  · exact h

/-! ## What a call leaves in the tiers -/

/-- An L2 entry after a call was there before, or the call fetched it for that key,
or loaded it. -/
theorem lookup_step {s : CachingResolver} {op : Op} {key : CacheKey} {entry : CacheEntry}
    (h : (step s op).cache.lookup key = some entry) :
    s.cache.lookup key = some entry ∨ (∃ u, Fetched s op key u entry) ∨
      ∃ now file, op = .loadCache now file ∧ LoadedFrom now file entry := by
  have heffect := step_effect s op
  generalize (step s op).turbo = turbo at heffect
  generalize (step s op).cache = cache at h heffect
  cases heffect with
  | keep => exact Or.inl h
  | promoteFresh hkey hentry hfresh => exact Or.inl h
  | promoteStale hkey hprobe => exact Or.inl h
  | store hkey hfetched hbase =>
    rcases Assoc.lookup_insert_eq_some h with ⟨rfl, rfl⟩ | hold
    · exact Or.inr (Or.inl ⟨_, hfetched⟩)
    · rcases hbase with ⟨rfl, -⟩ | rfl
      · exact Or.inl hold
      · exact Or.inl (lookup_evict hold)
  | refresh hfetched hlookup =>
    rcases Assoc.lookup_insert_eq_some h with ⟨rfl, rfl⟩ | hold
    · exact Or.inr (Or.inl ⟨_, hfetched⟩)
    · exact Or.inl hold
  | remove hsub hlen => exact Or.inl (hsub key entry h)
  | load hop =>
    rcases lookup_loadCache h with hold | hloaded
    · exact Or.inl hold
    · exact Or.inr (Or.inr ⟨_, _, hop, hloaded⟩)

/-- How a message gets from an L2 entry into L1: with the entry's own expiry while it
is fresh or just fetched, and with 60 seconds in the stale window. -/
inductive Copied (s : CachingResolver) (op : Op) (env : Env) (key : CacheKey) (entry : CacheEntry) :
    Int → Prop where
  | fresh (hentry : s.cache.lookup key = some entry) (hfresh : env.now < entry.expiresAt) :
      Copied s op env key entry entry.expiresAt
  | stale (hprobe : s.probe env key = .stale entry) :
      Copied s op env key entry (env.now + seconds 60)
  | fetched {u : DnsMessage} (hfetched : Fetched s op key u entry) :
      Copied s op env key entry entry.expiresAt

/-- What L1 holds after a call it held before, or the call copied it. -/
theorem holdsUntil_step {s : CachingResolver} {op : Op} {h : UInt64} {msg : DnsMessage}
    {expiresAt : Int} (hholds : HoldsUntil (step s op).turbo h msg expiresAt) :
    HoldsUntil s.turbo h msg expiresAt ∨
      ∃ env key entry, op.lookup = some (env, key) ∧ turboHash key = h ∧ entry.msg = msg ∧
        Copied s op env key entry expiresAt := by
  have heffect := step_effect s op
  generalize (step s op).turbo = turbo at hholds heffect
  generalize (step s op).cache = cache at heffect
  cases heffect with
  | keep => exact Or.inl hholds
  | promoteFresh hkey hentry hfresh =>
    rcases holdsUntil_turboInsert hholds with ⟨rfl, rfl, rfl⟩ | hold
    · exact Or.inr ⟨_, _, _, hkey, rfl, rfl, .fresh hentry hfresh⟩
    · exact Or.inl hold
  | promoteStale hkey hprobe =>
    rcases holdsUntil_turboInsert hholds with ⟨rfl, rfl, rfl⟩ | hold
    · exact Or.inr ⟨_, _, _, hkey, rfl, rfl, .stale hprobe⟩
    · exact Or.inl hold
  | store hkey hfetched hbase =>
    rcases holdsUntil_turboInsert hholds with ⟨rfl, rfl, rfl⟩ | hold
    · exact Or.inr ⟨_, _, _, hkey, rfl, rfl, .fetched hfetched⟩
    · exact Or.inl hold
  | refresh hfetched hlookup => exact Or.inl hholds
  | remove hsub hlen => exact Or.inl hholds
  | load hop => exact Or.inl hholds

/-- An L1 message after a call was there before, or is that of an L2 entry with the
same hash that the call found or fetched. -/
theorem turboHolds_step {s : CachingResolver} {op : Op} {h : UInt64} {msg : DnsMessage}
    (hholds : TurboHolds (step s op).turbo h msg) :
    TurboHolds s.turbo h msg ∨ ∃ key entry, turboHash key = h ∧ entry.msg = msg ∧
      (s.cache.lookup key = some entry ∨ ∃ u, Fetched s op key u entry) := by
  obtain ⟨expiresAt, hlookup⟩ := hholds
  rcases holdsUntil_step hlookup with hold | ⟨env, key, entry, -, hhash, hmsg, hcopied⟩
  · exact Or.inl ⟨expiresAt, hold⟩
  · refine Or.inr ⟨key, entry, hhash, hmsg, ?_⟩
    cases hcopied with
    | fresh hentry hfresh => exact Or.inl hentry
    | stale hprobe => exact Or.inl (probe_eq_stale hprobe).1
    | fetched hfetched => exact Or.inr ⟨_, hfetched⟩

/-! ## A query that stores -/

/-- A query that misses and gets a cacheable reply writes it to both tiers. -/
theorem query_store {s : CachingResolver} {env : Env} {req u : DnsMessage} {q : DnsQuestion}
    (allowFanOut : Bool) (hq : req.questions = [q]) (hmiss : s.probe env q.key = .miss)
    (hback : env.back req env.fanOutEnabled = .ok (some u)) (hcache : shouldCache q u = true) :
    (s.query env req allowFanOut).1.turbo =
        turboInsert s.turbo (turboHash q.key) (clobberTTL u (storeTTL env u))
          (env.later + seconds (storeTTL env u)) ∧
      (s.query env req allowFanOut).1.cache =
        (evict s.cache env).insert q.key (entryOf env u (storeTTL env u)) := by
  simp only [query, hq, probe_track, hmiss, hback, hcache, if_true]
  exact ⟨rfl, rfl⟩

theorem storeFailure_of_room {s : CachingResolver} (env : Env) (key : CacheKey) (req : DnsMessage)
    (hroom : s.cache.entries.length < maxCacheSize) :
    (s.storeFailure env key req).1 =
      s.record key
        (entryOf env (DnsMessage.createError req DnsRcode.ServFail) (failureTTL env)) := by
  have hroom' : ¬maxCacheSize ≤ s.cache.entries.length := Nat.not_le.mpr hroom
  simp only [storeFailure, if_neg hroom', entryOf]

/-- What is fetched lies under its key after the call. -/
theorem lookup_of_fetched {s : CachingResolver} {op : Op} {key : CacheKey} {u : DnsMessage}
    {entry : CacheEntry} (h : Fetched s op key u entry) :
    (step s op).cache.lookup key = some entry := by
  cases h with
  | @reply env req _ allowFanOut q hq hmiss hback hcache =>
    obtain ⟨-, hstore⟩ := query_store allowFanOut hq hmiss hback hcache
    show (s.query env req allowFanOut).1.cache.lookup q.key = _
    rw [hstore, AList.lookup_insert]
  | @failure env req allowFanOut q hq hmiss hback hroom =>
    simp only [step, query, hq, probe_track, hmiss, hback]
    rw [storeFailure_of_room]
    · exact AList.lookup_insert s.cache
    · exact hroom
  | refresh hback hcache hold =>
    simp only [step, refreshEntry, hback, hcache, hold, if_true]
    exact AList.lookup_insert s.cache

/-! The resolver behind denies that a name exists, so the query for any key stores an
answer. -/

def denyingEnv : Env :=
  { now := 0, later := 0, minTTL := 600, negativeTTL := 300, staleThreshold := 300,
    fanOutEnabled := true, order := ⟨id, fun _ => .refl _⟩,
    back := fun req _ => .ok (some (DnsMessage.createError req DnsRcode.NXDomain)) }

def denyingQuery (key : CacheKey) : Op :=
  .query denyingEnv (DnsMessage.createQuery key.name key.type key.qclass) true

theorem questions_createQuery (key : CacheKey) :
    (DnsMessage.createQuery key.name key.type key.qclass).questions =
      [{ qname := key.name, qtype := key.type, qclass := key.qclass }] := rfl

theorem lookup_denyingQuery (key : CacheKey) :
    (denyingQuery key).lookup = some (denyingEnv, key) := rfl

def deniedReply (key : CacheKey) : DnsMessage :=
  DnsMessage.createError (DnsMessage.createQuery key.name key.type key.qclass) DnsRcode.NXDomain

theorem shouldCache_deniedReply (key : CacheKey) :
    shouldCache { qname := key.name, qtype := key.type, qclass := key.qclass }
      (deniedReply key) = true := by
  -- The header is the same for every key.
  have hheader : (deniedReply key).header = (deniedReply ⟨[], 0, 0⟩).header := rfl
  have hquestions : (deniedReply key).questions =
      [{ qname := key.name, qtype := key.type, qclass := key.qclass }] := rfl
  have hflags : (deniedReply ⟨[], 0, 0⟩).header.qr = true ∧
      (deniedReply ⟨[], 0, 0⟩).header.opcode = 0 ∧ (deniedReply ⟨[], 0, 0⟩).header.tc = false ∧
      (deniedReply ⟨[], 0, 0⟩).header.rcode = DnsRcode.NXDomain := by decide
  simp only [shouldCache, hheader, hquestions, hflags]
  simp

theorem storeTTL_deniedReply (key : CacheKey) : storeTTL denyingEnv (deniedReply key) = 300 := by
  have hrcode : (deniedReply key).header.rcode = (deniedReply ⟨[], 0, 0⟩).header.rcode := rfl
  rw [storeTTL, hrcode, if_pos (by decide)]
  decide

theorem back_denyingEnv (key : CacheKey) :
    denyingEnv.back (DnsMessage.createQuery key.name key.type key.qclass)
      denyingEnv.fanOutEnabled = .ok (some (deniedReply key)) := rfl

theorem turbo_denyingQuery (key : CacheKey) :
    (step {} (denyingQuery key)).turbo =
      turboInsert emptyTurbo (turboHash key) (clobberTTL (deniedReply key) 300) (seconds 300) := by
  obtain ⟨hturbo, -⟩ := query_store true (questions_createQuery key) (probe_empty denyingEnv _)
    (back_denyingEnv key) (shouldCache_deniedReply key)
  rw [storeTTL_deniedReply] at hturbo
  exact hturbo

/-! ## Provenance -/

/-- The call puts `entry` into L2 under `key`. -/
structure Enters (s : CachingResolver) (op : Op) (key : CacheKey) (entry : CacheEntry) : Prop where
  lookup : (step s op).cache.lookup key = some entry
  origin : (∃ u, Fetched s op key u entry) ∨
    ∃ now file, op = .loadCache now file ∧ LoadedFrom now file entry

theorem Fetched.enters {s : CachingResolver} {op : Op} {key : CacheKey} {u : DnsMessage}
    {entry : CacheEntry} (h : Fetched s op key u entry) : Enters s op key entry :=
  ⟨lookup_of_fetched h, Or.inl ⟨u, h⟩⟩

theorem enters_of_lookup_step {s : CachingResolver} {op : Op} {key : CacheKey} {entry : CacheEntry}
    (h : (step s op).cache.lookup key = some entry) :
    s.cache.lookup key = some entry ∨ Enters s op key entry := by
  rcases lookup_step h with hold | hfetched | hloaded
  · exact Or.inl hold
  · exact Or.inr ⟨h, Or.inl hfetched⟩
  · exact Or.inr ⟨h, Or.inr hloaded⟩

/-- A tier holds `msg` under a key with the hash `h`. -/
def Holds (s : CachingResolver) (h : UInt64) (msg : DnsMessage) : Prop :=
  TurboHolds s.turbo h msg ∨
    ∃ key entry, s.cache.lookup key = some entry ∧ turboHash key = h ∧ entry.msg = msg

theorem holds_of_probe {s : CachingResolver} {env : Env} {key : CacheKey} {msg : DnsMessage}
    (h : (s.probe env key).msg = some msg) : Holds s (turboHash key) msg := by
  rcases found_of_probe h with ⟨expiresAt, hholds, -⟩ | ⟨entry, hentry, hmsg, -⟩
  · exact Or.inl ⟨expiresAt, hholds⟩
  · exact Or.inr ⟨key, entry, hentry, rfl, hmsg⟩

/-- What the cache holds after a call it held before, or the call put it into L2. -/
theorem enters_or_holds_of_step {s : CachingResolver} {op : Op} {h : UInt64} {msg : DnsMessage}
    (hholds : Holds (step s op) h msg) :
    (∃ key entry, Enters s op key entry ∧ turboHash key = h ∧ entry.msg = msg) ∨
      Holds s h msg := by
  rcases hholds with hturbo | ⟨key, entry, hlookup, hhash, hmsg⟩
  · rcases turboHolds_step hturbo with hold | ⟨key, entry, hhash, hmsg, hfound⟩
    · exact Or.inr (Or.inl hold)
    · rcases hfound with hlookup | ⟨u, hfetched⟩
      · exact Or.inr (Or.inr ⟨key, entry, hlookup, hhash, hmsg⟩)
      · exact Or.inl ⟨key, entry, hfetched.enters, hhash, hmsg⟩
  · rcases enters_of_lookup_step hlookup with hold | henters
    · exact Or.inr (Or.inr ⟨key, entry, hold, hhash, hmsg⟩)
    · exact Or.inl ⟨key, entry, henters, hhash, hmsg⟩

/-- Whatever the cache holds after a run entered it at a moment of the run. -/
theorem enters_of_holds {ops : List Op} {h : UInt64} {msg : DnsMessage}
    (hholds : Holds (run step {} ops) h msg) :
    Happened step {}
      (fun s op => ∃ key entry, Enters s op key entry ∧ turboHash key = h ∧ entry.msg = msg) ops := by
  have hempty : ¬Holds {} h msg := by
    intro hinit
    rcases hinit with hturbo | ⟨key, entry, hlookup, -⟩
    · exact not_turboHolds_emptyTurbo h msg hturbo
    · cases hlookup
  exact happened_of_run (H := fun s => Holds s h msg) hempty
    (fun _ _ _ => enters_or_holds_of_step) hholds

/-- The call puts `msg` into the cache under `key`, made of the message `u`. -/
inductive Stored (s : CachingResolver) (op : Op) (key : CacheKey) (u : DnsMessage) :
    DnsMessage → Prop where
  | fetched {entry : CacheEntry} (h : Fetched s op key u entry) : Stored s op key u entry.msg
  | loaded {now : Int} {file wire : Bytes} {ttl : UInt32} (hop : op = .loadCache now file)
      (hwire : wire <:+: file) (hparse : DnsMessage.parse wire = .ok u) :
      Stored s op key u (loadedEntry now ttl u).msg

theorem Enters.exists_stored {s : CachingResolver} {op : Op} {key : CacheKey} {entry : CacheEntry}
    (h : Enters s op key entry) : ∃ u, Stored s op key u entry.msg := by
  rcases h.origin with ⟨u, hfetched⟩ | ⟨now, file, hop, hloaded⟩
  · exact ⟨u, .fetched hfetched⟩
  · obtain ⟨wire, u, ttl, hwire, hparse, -, rfl⟩ := hloaded
    exact ⟨u, .loaded hop hwire hparse⟩

/-- Whatever the cache holds after a run was stored at a moment of the run. -/
theorem stored_of_holds {ops : List Op} {h : UInt64} {msg : DnsMessage}
    (hholds : Holds (run step {} ops) h msg) :
    Happened step {} (fun s op => ∃ key u, Stored s op key u msg ∧ turboHash key = h) ops := by
  obtain ⟨s, op, hvisit, key, entry, henters, hhash, rfl⟩ := enters_of_holds hholds
  obtain ⟨u, hstored⟩ := henters.exists_stored
  exact ⟨s, op, hvisit, key, u, hstored, hhash⟩

end CachingResolver
end Dnss
