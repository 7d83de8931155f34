/-
How long a message lives.

A message is stored with a lifetime, written into all of its records, and an expiry
that lies that far ahead.  It is served until its expiry, then for the stale window,
and a copy that L1 took in the stale window for 60 seconds more.

`boundedStaleness` is the bound over whole runs: every message that is served was
stored with an expiry that is no further back than the stale window and 60 seconds.
`honestTTLs_iff` is about the records: nothing counts their TTLs down, so they are
honest only in the first second.
-/
import Dnss.Cache.Bounds
import Dnss.Cache.Replies

namespace Dnss
namespace CachingResolver

open Machine

/-! ## Entering the cache -/

/-- The instant at which a call stores what it has. -/
def Op.storeInstant : Op → Option Int
  | .query env _ _ => some env.later
  | .refreshEntry env _ _ => some env.later
  | .loadCache now _ => some now
  | _ => none

/-- An entry carries its lifetime in every record, and ends that long after the
instant at which it was stored. -/
theorem Enters.spec {s : CachingResolver} {op : Op} {key : CacheKey} {entry : CacheEntry}
    (h : Enters s op key entry) :
    clobberTTL entry.msg entry.ttl = entry.msg ∧
      ∃ t₀, op.storeInstant = some t₀ ∧ entry.expiresAt = t₀ + seconds entry.ttl := by
  rcases h.origin with ⟨u, hfetched⟩ | ⟨now, file, rfl, hloaded⟩
  · cases hfetched with
    | reply hq hmiss hback hcache =>
      exact ⟨clobberTTL_clobberTTL _ _ _, _, rfl, rfl⟩
    | failure hq hmiss hback hroom =>
      exact ⟨clobberTTL_clobberTTL _ _ _, _, rfl, rfl⟩
    | refresh hback hcache hold =>
      exact ⟨clobberTTL_clobberTTL _ _ _, _, rfl, rfl⟩
  · obtain ⟨wire, u, ttl, -, -, -, rfl⟩ := hloaded
    exact ⟨clobberTTL_clobberTTL _ _ _, _, rfl, rfl⟩

theorem Enters.record_ttl {s : CachingResolver} {op : Op} {key : CacheKey} {entry : CacheEntry}
    (h : Enters s op key entry) {rr : DnsResourceRecord} (hrr : rr ∈ entry.msg.records) :
    rr.ttl = UInt32.ofInt entry.ttl := by
  rw [← h.spec.1, records_clobberTTL, List.mem_map] at hrr
  obtain ⟨rr', -, rfl⟩ := hrr
  rfl

/-! ## Normalised TTLs -/

/-- The tuned settings are between 0 and two hours. -/
structure Tuned (env : Env) : Prop where
  minTTL : 0 ≤ env.minTTL.toInt ∧ env.minTTL.toInt ≤ maxTTL
  negativeTTL : 0 ≤ env.negativeTTL.toInt ∧ env.negativeTTL.toInt ≤ maxTTL

/-- The call finds tuned settings, and is not a load. -/
def Op.Tuned : Op → Prop
  | .query env _ _ => CachingResolver.Tuned env
  | .refreshEntry env _ _ => CachingResolver.Tuned env
  | .loadCache _ _ => False
  | _ => True

/-- After the run, an L2 entry has its lifetime in every record, lives for two hours at
most, and ends its lifetime after the instant of its store; a message in L1 has one TTL. -/
structure TTLsNormalised (ops : List Op) : Prop where
  records : ∀ key entry, (run step {} ops).cache.lookup key = some entry →
    ∀ rr ∈ entry.msg.records, (rr.ttl.toNat : Int) = entry.ttl
  bounded : ∀ key entry, (run step {} ops).cache.lookup key = some entry → entry.ttl ≤ maxTTL
  expiry : ∀ key entry, (run step {} ops).cache.lookup key = some entry →
    ∃ s op t₀, Visits step {} ops s op ∧ Enters s op key entry ∧ op.storeInstant = some t₀ ∧
      entry.expiresAt = t₀ + seconds entry.ttl
  slots : ∀ h msg e, HoldsUntil (run step {} ops).turbo h msg e →
    ∃ ttl, ∀ rr ∈ msg.records, rr.ttl = ttl

theorem computeCacheTTL_nonneg {minTTL : Int32} (h : 0 ≤ minTTL.toInt) (reply : DnsMessage) :
    0 ≤ computeCacheTTL minTTL reply := by
  have hclamp : ∀ ttl : Int, 0 ≤ (if maxTTL < (if ttl < minTTL.toInt then minTTL.toInt else ttl)
      then maxTTL else if ttl < minTTL.toInt then minTTL.toInt else ttl) := by
    intro ttl
    unfold maxTTL
    split <;> split <;> omega
  exact hclamp _

theorem storeTTL_range {env : Env} (h : Tuned env) (reply : DnsMessage) :
    0 ≤ storeTTL env reply ∧ storeTTL env reply ≤ maxTTL := by
  unfold storeTTL
  split
  · exact h.negativeTTL
  · exact ⟨computeCacheTTL_nonneg h.minTTL.1 reply, computeCacheTTL_le env.minTTL reply⟩

theorem Enters.ttl_range {s : CachingResolver} {op : Op} {key : CacheKey} {entry : CacheEntry}
    (h : Enters s op key entry) (hop : op.Tuned) : 0 ≤ entry.ttl ∧ entry.ttl ≤ maxTTL := by
  rcases h.origin with ⟨u, hfetched⟩ | ⟨now, file, rfl, -⟩
  · cases hfetched with
    | reply hq hmiss hback hcache => exact storeTTL_range hop _
    | failure hq hmiss hback hroom =>
      simp only [entryOf, failureTTL, maxTTL]
      omega
    | refresh hback hcache hold => exact storeTTL_range hop _
  · exact hop.elim

/-- An entry of L2 entered it at a moment of the run. -/
theorem enters_of_lookup {ops : List Op} {key : CacheKey} {entry : CacheEntry}
    (h : (run step {} ops).cache.lookup key = some entry) :
    Happened step {} (fun s op => Enters s op key entry) ops := by
  refine happened_of_run (H := fun s => s.cache.lookup key = some entry) ?_ ?_ h
  · intro hempty
    cases hempty
  · intro op _ s hlookup
    exact (enters_of_lookup_step hlookup).symm

/-- TTLs are normalised in every run with tuned settings. -/
theorem ttlsNormalised {ops : List Op} (hops : ∀ op ∈ ops, op.Tuned) : TTLsNormalised ops := by
  constructor
  · intro key entry hlookup rr hrr
    obtain ⟨s, op, hvisit, henters⟩ := enters_of_lookup hlookup
    obtain ⟨hnonneg, hle⟩ := henters.ttl_range (hops op hvisit.mem)
    rw [henters.record_ttl hrr]
    unfold maxTTL at hle
    exact Word.toNat_ofInt32 hnonneg (by omega)
  · intro key entry hlookup
    obtain ⟨s, op, hvisit, henters⟩ := enters_of_lookup hlookup
    exact (henters.ttl_range (hops op hvisit.mem)).2
  · intro key entry hlookup
    obtain ⟨s, op, hvisit, henters⟩ := enters_of_lookup hlookup
    obtain ⟨-, t₀, hinstant, hexpires⟩ := henters.spec
    exact ⟨s, op, t₀, hvisit, henters, hinstant, hexpires⟩
  · intro h msg e hholds
    obtain ⟨s, op, -, key, entry, henters, -, rfl⟩ := enters_of_holds (Or.inl ⟨e, hholds⟩)
    exact ⟨_, fun rr hrr => henters.record_ttl hrr⟩

/-- The resolver behind gives an address for an hour. -/
def addressReply : DnsMessage :=
  { DnsMessage.createReply (DnsMessage.createQuery [0x61] 1) with
    answers := [{ name := [0x61], type := DnsType.A, rclass := 1, ttl := 3600,
                  rdata := [10, 0, 0, 1] }] }

def addressEnv (now : Int) : Env :=
  { denyingEnv with now := now, later := now, back := fun _ _ => .ok (some addressReply) }

def addressAsked : Op := .query (addressEnv 0) (DnsMessage.createQuery [0x61] 1) true

/-- The same name again, ten seconds later. -/
def addressPeeked : Op := .peekCache (addressEnv (seconds 10)) (DnsMessage.createQuery [0x61] 1)

/-- An address is kept for its hour. -/
theorem address_ttlsNormalised :
    (∃ entry, (run step {} [addressAsked, addressPeeked]).cache.lookup
      { name := [0x61], type := 1, qclass := 1 } = some entry ∧ entry.msg.records ≠ []) ∧
      TTLsNormalised [addressAsked, addressPeeked] := by
  refine ⟨⟨{ msg := addressReply, ttl := 3600, expiresAt := seconds 3600 }, ?_, by decide⟩,
    ttlsNormalised fun op hop => ?_⟩
  · decide +kernel
  · rw [List.mem_cons, List.mem_singleton] at hop
    rcases hop with rfl | rfl
    · exact ⟨by decide, by decide⟩
    · trivial

/-! ## Bounded staleness -/

/-- The stale window is `stale` seconds long when the call looks up its key. -/
def Op.StaleWindow (stale : Int) (op : Op) : Prop :=
  ∀ env key, op.lookup = some (env, key) → env.staleThreshold.toInt = stale

/-- An entry of `msg`, under a key with the hash `h`, that can still be served at `t`:
by itself, or from a copy made in the stale window. -/
structure LastsUntil (stale t : Int) (h : UInt64) (msg : DnsMessage) (key : CacheKey)
    (entry : CacheEntry) : Prop where
  hash : turboHash key = h
  msg : entry.msg = msg
  bound : t < entry.expiresAt + seconds stale + seconds 60

/-- A tier holds `msg` in such a way that it can still be served at `t`. -/
def Servable (stale t : Int) (h : UInt64) (msg : DnsMessage) (s : CachingResolver) : Prop :=
  (∃ key entry, s.cache.lookup key = some entry ∧ LastsUntil stale t h msg key entry) ∨
    ∃ expiresAt, HoldsUntil s.turbo h msg expiresAt ∧ t < expiresAt

theorem servable_of_probe {s : CachingResolver} {env : Env} {key : CacheKey} {msg : DnsMessage}
    {stale : Int} (hnonneg : 0 ≤ stale) (hstale : env.staleThreshold.toInt = stale)
    (h : (s.probe env key).msg = some msg) : Servable stale env.now (turboHash key) msg s := by
  rcases found_of_probe h with ⟨expiresAt, hholds, hnow⟩ | ⟨entry, hentry, hmsg, hnow⟩
  · exact Or.inr ⟨expiresAt, hholds, hnow⟩
  · rw [hstale] at hnow
    refine Or.inl ⟨key, entry, hentry, rfl, hmsg, ?_⟩
    unfold seconds at hnow ⊢
    omega

/-- A copy in L1 is served no longer than the entry it was made of allows. -/
theorem Copied.lt {s : CachingResolver} {op : Op} {env : Env} {key : CacheKey} {entry : CacheEntry}
    {stale t expiresAt : Int} (h : Copied s op env key entry expiresAt) (hnonneg : 0 ≤ stale)
    (hstale : env.staleThreshold.toInt = stale) (ht : t < expiresAt) :
    t < entry.expiresAt + seconds stale + seconds 60 := by
  unfold seconds
  cases h with
  | fresh hentry hfresh => omega
  | stale hprobe =>
    have hwindow := (probe_eq_stale hprobe).2.2
    rw [hstale] at hwindow
    unfold seconds at hwindow ht
    omega
  | fetched hfetched => omega

theorem servable_step {stale t : Int} {h : UInt64} {msg : DnsMessage} {s : CachingResolver}
    {op : Op} (hnonneg : 0 ≤ stale) (hop : op.StaleWindow stale)
    (hservable : Servable stale t h msg (step s op)) :
    (∃ key entry, Enters s op key entry ∧ LastsUntil stale t h msg key entry) ∨
      Servable stale t h msg s := by
  rcases hservable with ⟨key, entry, hlookup, hlasts⟩ | ⟨expiresAt, hholds, ht⟩
  · rcases enters_of_lookup_step hlookup with hold | henters
    · exact Or.inr (Or.inl ⟨key, entry, hold, hlasts⟩)
    · exact Or.inl ⟨key, entry, henters, hlasts⟩
  · rcases holdsUntil_step hholds with hold | ⟨env, key, entry, hkey, hhash, hmsg, hcopied⟩
    · exact Or.inr (Or.inr ⟨expiresAt, hold, ht⟩)
    · have hlasts : LastsUntil stale t h msg key entry :=
        ⟨hhash, hmsg, hcopied.lt hnonneg (hop env key hkey) ht⟩
      cases hcopied with
      | fresh hentry hfresh => exact Or.inr (Or.inl ⟨key, entry, hentry, hlasts⟩)
      | stale hprobe => exact Or.inr (Or.inl ⟨key, entry, (probe_eq_stale hprobe).1, hlasts⟩)
      | fetched hfetched => exact Or.inl ⟨key, entry, hfetched.enters, hlasts⟩

/-- Every message that the run serves from the cache was stored in L2 by an earlier
call, at `t₀` and with the lifetime `entry.ttl`, and is served less than the stale
window and 60 seconds after its expiry. -/
def BoundedStaleness (stale : Int) (ops : List Op) : Prop :=
  ∀ before op after, ops = before ++ op :: after →
    ∀ env key msg, op.lookup = some (env, key) →
      ((run step {} before).probe env key).msg = some msg →
        ∃ s op' key' entry t₀, Visits step {} before s op' ∧ Enters s op' key' entry ∧
          turboHash key' = turboHash key ∧ entry.msg = msg ∧ op'.storeInstant = some t₀ ∧
          entry.expiresAt = t₀ + seconds entry.ttl ∧
          env.now < entry.expiresAt + seconds stale + seconds 60

/-- Staleness is bounded in every run with a fixed stale window. -/
theorem boundedStaleness {stale : Int} {ops : List Op} (hnonneg : 0 ≤ stale)
    (hops : ∀ op ∈ ops, op.StaleWindow stale) : BoundedStaleness stale ops := by
  intro before op after hsplit env key msg hlookup hmsg
  rw [hsplit, List.forall_mem_append, List.forall_mem_cons] at hops
  have hservable := servable_of_probe hnonneg (hops.2.1 env key hlookup) hmsg
  have hempty : ¬Servable stale env.now (turboHash key) msg {} := by
    intro h
    rcases h with ⟨key, entry, hentry, -⟩ | ⟨expiresAt, hholds, -⟩
    · cases hentry
    · exact not_turboHolds_emptyTurbo _ msg ⟨expiresAt, hholds⟩
  obtain ⟨s, op', hvisit, key', entry, henters, hlasts⟩ := happened_of_run hempty
    (fun op' hop' _ => servable_step hnonneg (hops.1 op' hop')) hservable
  obtain ⟨-, t₀, hinstant, hexpires⟩ := henters.spec
  exact ⟨s, op', key', entry, t₀, hvisit, henters, hlasts.hash, hlasts.msg, hinstant, hexpires,
    hlasts.bound⟩

/-- A denial is asked for twice, the second time from L1. -/
theorem repeatedDenial_boundedStaleness :
    BoundedStaleness 300 [denyingQuery { name := [0x61], type := 1, qclass := 1 },
      denyingQuery { name := [0x61], type := 1, qclass := 1 }] := by
  apply boundedStaleness
  · decide
  · intro op hop env key hlookup
    have hdenying : op = denyingQuery { name := [0x61], type := 1, qclass := 1 } := by
      simpa using hop
    rw [hdenying, lookup_denyingQuery, Option.some.injEq, Prod.mk.injEq] at hlookup
    rw [← hlookup.1]
    decide

/-! ## The TTLs of served records -/

/-- A span of time in whole seconds, rounded up. -/
def ceilSeconds (d : Int) : Int := (d + 999999999) / 1000000000

theorem le_ceilSeconds_iff (n d : Int) : n ≤ ceilSeconds d ↔ seconds n < d + seconds 1 := by
  unfold ceilSeconds seconds
  omega

/-- The lookup is answered with `msg` from an entry of L1 or L2 that is live until
`e`. -/
inductive ServedLive (s : CachingResolver) (env : Env) (key : CacheKey) :
    DnsMessage → Int → Prop where
  | turbo {msg : DnsMessage} {e : Int} (hholds : HoldsUntil s.turbo (turboHash key) msg e)
      (hnow : env.now < e) : ServedLive s env key msg e
  | fresh {entry : CacheEntry} (hprobe : s.probe env key = .fresh entry) :
      ServedLive s env key entry.msg entry.expiresAt

theorem ServedLive.probe_eq {s : CachingResolver} {env : Env} {key : CacheKey} {msg : DnsMessage}
    {e : Int} (h : ServedLive s env key msg e) :
    s.probe env key = .turbo msg ∨ ∃ entry, s.probe env key = .fresh entry ∧ entry.msg = msg := by
  cases h with
  | turbo hholds hnow =>
    left
    rw [probe, turboLookup_eq_some_iff.mpr ⟨e, hholds, hnow⟩]
  | fresh hprobe => exact Or.inr ⟨_, hprobe, rfl⟩

theorem ServedLive.probe_msg {s : CachingResolver} {env : Env} {key : CacheKey} {msg : DnsMessage}
    {e : Int} (h : ServedLive s env key msg e) : (s.probe env key).msg = some msg := by
  rcases h.probe_eq with hturbo | ⟨entry, hfresh, hmsg⟩
  · rw [hturbo]
    rfl
  · rw [hfresh, ← hmsg]
    rfl

/-- A reply from a live entry carries the records of the cached message as they are. -/
theorem ServedLive.records_reply {s : CachingResolver} {op : Op} {env : Env} {key : CacheKey}
    {msg : DnsMessage} {e : Int} (h : ServedLive s env key msg e)
    (hlookup : op.lookup = some (env, key)) :
    ∃ reply, op.reply s = some reply ∧ reply.records = msg.records := by
  rw [reply_eq_cachedReply hlookup h.probe_msg]
  cases op with
  | query env' req allowFanOut =>
    rw [Op.cachedReply, h.probe_msg]
    exact ⟨_, rfl, rfl⟩
  | peekCache env' req =>
    rw [Op.cachedReply, h.probe_msg]
    exact ⟨_, rfl, rfl⟩
  | peekCacheRaw env' data =>
    rcases h.probe_eq with hturbo | ⟨entry, hfresh, hmsg⟩
    · rw [hturbo]
      exact ⟨_, rfl, rfl⟩
    · rw [hfresh, ← hmsg]
      exact ⟨_, rfl, rfl⟩
  | refreshEntry env' key' question => cases hlookup
  | gcCache env' => cases hlookup
  | flushCache => cases hlookup
  | loadCache now file => cases hlookup

/-- Every record served from a live entry has a TTL within the rest of the entry's
lifetime. -/
def HonestTTLs (ops : List Op) : Prop :=
  ∀ before op after, ops = before ++ op :: after →
    ∀ env key msg e, op.lookup = some (env, key) →
      ServedLive (run step {} before) env key msg e →
        ∃ reply, op.reply (run step {} before) = some reply ∧
          ∀ rr ∈ reply.records, (rr.ttl.toNat : Int) ≤ ceilSeconds (e - env.now)

/-- The lifetime of an entry, as `clobberTTL` writes it into the records. -/
def writtenTTL (entry : CacheEntry) : Int := (UInt32.ofInt entry.ttl).toNat

/-- A live message with records is served less than a second after the moment that
lies its lifetime before its expiry: the moment it was stored, unless L1 has given it
60 seconds more. -/
def ServedAtOnce (ops : List Op) : Prop :=
  ∀ before op after, ops = before ++ op :: after →
    ∀ env key msg e, op.lookup = some (env, key) →
      ServedLive (run step {} before) env key msg e → msg.records ≠ [] →
        ∀ s op' key' entry, Visits step {} before s op' → Enters s op' key' entry →
          entry.msg = msg → env.now < e - seconds (writtenTTL entry) + seconds 1

theorem Enters.ttl_eq {s : CachingResolver} {op : Op} {key : CacheKey} {entry : CacheEntry}
    (h : Enters s op key entry) {rr : DnsResourceRecord} (hrr : rr ∈ entry.msg.records) :
    (rr.ttl.toNat : Int) = writtenTTL entry := by
  rw [h.record_ttl hrr]
  rfl

/-- The TTLs of a run are honest exactly when it serves live records in their first
second only. -/
theorem honestTTLs_iff (ops : List Op) : HonestTTLs ops ↔ ServedAtOnce ops := by
  constructor
  · intro h before op after hsplit env key msg e hlookup hlive hrecords s op' key' entry hvisit
      henters hmsg
    obtain ⟨reply, hreply, hhonest⟩ := h before op after hsplit env key msg e hlookup hlive
    obtain ⟨reply', hreply', hsame⟩ := hlive.records_reply hlookup
    rw [hreply, Option.some.injEq] at hreply'
    rw [hreply', hsame] at hhonest
    obtain ⟨rr, hrr⟩ := List.exists_mem_of_ne_nil _ hrecords
    have hle := hhonest rr hrr
    rw [henters.ttl_eq (by rw [hmsg]; exact hrr), le_ceilSeconds_iff] at hle
    omega
  · intro h before op after hsplit env key msg e hlookup hlive
    obtain ⟨reply, hreply, hsame⟩ := hlive.records_reply hlookup
    refine ⟨reply, hreply, fun rr hrr => ?_⟩
    rw [hsame] at hrr
    obtain ⟨s, op', hvisit, key', entry, henters, -, hmsg⟩ :=
      enters_of_holds (holds_of_probe hlive.probe_msg)
    have hlt := h before op after hsplit env key msg e hlookup hlive (List.ne_nil_of_mem hrr)
      s op' key' entry hvisit henters hmsg
    rw [henters.ttl_eq (by rw [hmsg]; exact hrr), le_ceilSeconds_iff]
    omega

theorem addressPeeked_not_honestTTLs : ¬HonestTTLs [addressAsked, addressPeeked] := by
  intro h
  have hholds : HoldsUntil (run step {} [addressAsked]).turbo
      (turboHash { name := [0x61], type := 1, qclass := 1 }) addressReply (seconds 3600) := by
    show DirectMapped.lookup _ _ _ = _
    decide +kernel
  have hlive : ServedLive (run step {} [addressAsked]) (addressEnv (seconds 10))
      { name := [0x61], type := 1, qclass := 1 } addressReply (seconds 3600) :=
    .turbo hholds (by decide)
  have hlookup : addressPeeked.lookup =
      some (addressEnv (seconds 10), { name := [0x61], type := 1, qclass := 1 }) := rfl
  obtain ⟨reply, hreply, hhonest⟩ := h [addressAsked] addressPeeked [] rfl _ _ _ _ hlookup hlive
  obtain ⟨reply', hreply', hsame⟩ := hlive.records_reply hlookup
  rw [hreply, Option.some.injEq] at hreply'
  rw [hreply', hsame] at hhonest
  exact absurd (hhonest _ (List.mem_singleton_self _)) (by decide)

end CachingResolver
end Dnss
