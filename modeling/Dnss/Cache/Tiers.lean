/-
Calls that change L2 and leave L1.

`gcCache`, `flushCache`, and `refreshEntry` write to the map only.  `gcCache` drops
entries at their expiry, though a lookup would still serve them in the stale window;
`gcTransparent_iff` says when nobody can tell.  `flushCache` and `refreshEntry` take a
message out of L2 whose copy may live on in L1; `staysGone_iff` says when it is gone
for good.
-/
import Dnss.Cache.Lifetimes

namespace Dnss
namespace CachingResolver

open Machine

/-! ## Garbage collection -/

/-- The collector leaves the entries that have not expired. -/
theorem lookup_gcCache_iff {s : CachingResolver} {env : Env} {key : CacheKey} {entry : CacheEntry} :
    (s.gcCache env).cache.lookup key = some entry ↔
      s.cache.lookup key = some entry ∧ env.now < entry.expiresAt := by
  refine (Assoc.lookup_foldl_erase (fun item : CacheItem => item.1)
    (fun item => isExpired env.now item.2) _ s.cache).trans ?_
  constructor
  · intro h
    have hfresh : isExpired env.now entry = false := h.2 ⟨key, entry⟩ (mem_order_iff.mpr h.1) rfl
    exact ⟨h.1, Int.not_le.mp (of_decide_eq_false hfresh)⟩
  · intro h
    refine ⟨h.1, fun item hitem hkey => ?_⟩
    -- The item visited under this key is the entry.
    obtain ⟨key', entry'⟩ := item
    have hlookup := mem_order_iff.mp hitem
    cases hkey
    rw [h.1, Option.some.injEq] at hlookup
    rw [← hlookup]
    exact decide_eq_false (Int.not_le.mpr h.2)

/-- What a lookup does when L1 has nothing. -/
def probeL2 (s : CachingResolver) (env : Env) (key : CacheKey) : Probe :=
  match s.cache.lookup key with
  | none => .miss
  | some entry =>
    if !isExpired env.now entry then .fresh entry
    else if env.now < entry.expiresAt + seconds env.staleThreshold.toInt then .stale entry
    else .miss

theorem probe_of_turboLookup_none {s : CachingResolver} {env : Env} {key : CacheKey}
    (h : turboLookup s.turbo (turboHash key) env.now = none) :
    s.probe env key = s.probeL2 env key := by
  rw [probe, h]
  rfl

theorem probe_congr_l2 {s s' : CachingResolver} {env : Env} {key : CacheKey}
    (hturbo : s'.turbo = s.turbo) (hl2 : s'.probeL2 env key = s.probeL2 env key) :
    s'.probe env key = s.probe env key := by
  cases hlookup : turboLookup s.turbo (turboHash key) env.now with
  | some msg => rw [probe, probe, hturbo, hlookup]
  | none =>
    have hlookup' : turboLookup s'.turbo (turboHash key) env.now = none := by rw [hturbo, hlookup]
    rw [probe_of_turboLookup_none hlookup, probe_of_turboLookup_none hlookup', hl2]

/-- Nobody can tell by a lookup in `env` that the collector ran in `gc`. -/
structure GcTransparent (s : CachingResolver) (gc env : Env) : Prop where
  l2 : ∀ key, (s.gcCache gc).probeL2 env key = s.probeL2 env key
  peek : ∀ req, ((s.gcCache gc).peekCache env req).2 = (s.peekCache env req).2
  kept : ∀ key entry, s.cache.lookup key = some entry →
    env.now < entry.expiresAt + seconds env.staleThreshold.toInt →
      (s.gcCache gc).cache.lookup key = some entry

/-- Whatever had expired when the collector ran is past its stale window. -/
def NothingStale (s : CachingResolver) (gc env : Env) : Prop :=
  ∀ key entry, s.cache.lookup key = some entry → entry.expiresAt ≤ gc.now →
    entry.expiresAt + seconds env.staleThreshold.toInt ≤ env.now

theorem probeL2_gcCache {s : CachingResolver} {gc env : Env} (hle : gc.now ≤ env.now)
    (h : NothingStale s gc env) (key : CacheKey) :
    (s.gcCache gc).probeL2 env key = s.probeL2 env key := by
  cases hentry : s.cache.lookup key with
  | none =>
    have hgc : (s.gcCache gc).cache.lookup key = none := by
      rw [Option.eq_none_iff_forall_ne_some]
      intro entry hgc
      rw [(lookup_gcCache_iff.mp hgc).1] at hentry
      cases hentry
    rw [probeL2, probeL2, hentry, hgc]
  | some entry =>
    by_cases hfresh : gc.now < entry.expiresAt
    · rw [probeL2, probeL2, hentry, lookup_gcCache_iff.mpr ⟨hentry, hfresh⟩]
    · have hexpired : entry.expiresAt ≤ gc.now := Int.not_lt.mp hfresh
      have hgc : (s.gcCache gc).cache.lookup key = none := by
        rw [Option.eq_none_iff_forall_ne_some]
        intro entry' hgc
        obtain ⟨hentry', hfresh'⟩ := lookup_gcCache_iff.mp hgc
        rw [hentry, Option.some.injEq] at hentry'
        exact hfresh (hentry' ▸ hfresh')
      have hpast := h key entry hentry hexpired
      have hisExpired : isExpired env.now entry = true :=
        decide_eq_true (Int.le_trans hexpired hle)
      have hnotStale : ¬env.now < entry.expiresAt + seconds env.staleThreshold.toInt := by omega
      rw [probeL2, probeL2, hentry, hgc]
      simp [hisExpired, hnotStale]

/-- The collector goes unnoticed exactly when everything it drops has left its stale
window. -/
theorem gcTransparent_iff {s : CachingResolver} {gc env : Env} (hle : gc.now ≤ env.now) :
    GcTransparent s gc env ↔ NothingStale s gc env := by
  constructor
  · intro h key entry hentry hexpired
    by_contra hstale
    have hkept := h.kept key entry hentry (Int.not_le.mp hstale)
    have hfresh := (lookup_gcCache_iff.mp hkept).2
    omega
  · intro h
    refine ⟨probeL2_gcCache hle h, ?_, ?_⟩
    · exact peekCache_reply_congr fun key => probe_congr_l2 rfl (probeL2_gcCache hle h key)
    · intro key entry hentry hstale
      refine lookup_gcCache_iff.mpr ⟨hentry, ?_⟩
      by_contra hexpired
      have hpast := h key entry hentry (Int.not_lt.mp hexpired)
      omega

/-- Before its expiry the delegation is safe from the collector. -/
theorem freshDelegation_gcTransparent :
    GcTransparent (delegationCache (seconds 600)) denyingEnv denyingEnv := by
  refine (gcTransparent_iff (Int.le_refl _)).mpr fun key entry hlookup hexpired => ?_
  rcases Assoc.lookup_insert_eq_some hlookup with ⟨-, rfl⟩ | hempty
  · exact absurd hexpired (by decide)
  · cases hempty

/-- At its expiry it is collected, with a stale window of five minutes ahead. -/
theorem staleDelegation_not_gcTransparent :
    ¬GcTransparent (delegationCache 0) denyingEnv denyingEnv := by
  intro h
  have hlookup : (delegationCache 0).cache.lookup delegatedQuestion.key =
      some { msg := delegation, ttl := 600, expiresAt := 0 } := AList.lookup_insert _
  have hkept := h.kept _ _ hlookup (by decide)
  exact absurd (lookup_gcCache_iff.mp hkept).2 (by decide)

/-! ## Displaced messages -/

/-- The call takes `msg` out of L2 under `key`: a refresh puts another message in its
place, or a flush empties the map. -/
inductive Displaces (s : CachingResolver) (key : CacheKey) : Op → DnsMessage → Prop where
  | refresh {env : Env} {question : DnsQuestion} {u : DnsMessage} {entry old : CacheEntry}
      (hfetched : Fetched s (.refreshEntry env key question) key u entry)
      (hold : s.cache.lookup key = some old) (hnew : entry.msg ≠ old.msg) :
      Displaces s key (.refreshEntry env key question) old.msg
  | flush {old : CacheEntry} (hold : s.cache.lookup key = some old) :
      Displaces s key .flushCache old.msg

/-- No lookup of the run is for another key with the hash of `key`. -/
def Apart (key : CacheKey) (ops : List Op) : Prop :=
  ∀ op ∈ ops, ∀ env key', op.lookup = some (env, key') → turboHash key' = turboHash key → key' = key

/-- No call of the run from `s` stores `msg` under `key` again. -/
def NotRestored (s : CachingResolver) (key : CacheKey) (msg : DnsMessage) (ops : List Op) : Prop :=
  ∀ s' op, Visits step s ops s' op → ∀ entry, Enters s' op key entry → entry.msg ≠ msg

/-- Whatever happens after the call, no lookup for `key` from the instant `t` on is
answered with `msg`, unless it has been stored again. -/
def StaysGone (s : CachingResolver) (op : Op) (key : CacheKey) (msg : DnsMessage) (t : Int) : Prop :=
  ∀ ops, Apart key ops → NotRestored (step s op) key msg ops →
    ∀ look env, Op.lookup look = some (env, key) → t ≤ env.now →
      ((run step (step s op) ops).probe env key).msg ≠ some msg

/-- L2 has another message under `key`, and L1 has `msg` until `t` at most. -/
structure Gone (key : CacheKey) (msg : DnsMessage) (t : Int) (s : CachingResolver) : Prop where
  l2 : ∀ entry, s.cache.lookup key = some entry → entry.msg ≠ msg
  l1 : ∀ expiresAt, HoldsUntil s.turbo (turboHash key) msg expiresAt → expiresAt ≤ t

theorem Displaces.turbo_eq {s : CachingResolver} {op : Op} {key : CacheKey} {msg : DnsMessage}
    (h : Displaces s key op msg) : (step s op).turbo = s.turbo := by
  cases h with
  | refresh hfetched hold hnew =>
    cases hfetched with
    | refresh hback hcache hlookup =>
      simp only [step, refreshEntry, hback, hcache, hlookup, if_true]
  | flush hold => rfl

theorem Displaces.l2_ne {s : CachingResolver} {op : Op} {key : CacheKey} {msg : DnsMessage}
    (h : Displaces s key op msg) {entry : CacheEntry}
    (hentry : (step s op).cache.lookup key = some entry) : entry.msg ≠ msg := by
  cases h with
  | refresh hfetched hold hnew =>
    rw [lookup_of_fetched hfetched, Option.some.injEq] at hentry
    rw [← hentry]
    exact hnew
  | flush hold => cases hentry

theorem gone_step {key : CacheKey} {msg : DnsMessage} {t : Int} {s : CachingResolver} {op : Op}
    (hapart : ∀ env key', op.lookup = some (env, key') → turboHash key' = turboHash key →
      key' = key)
    (hrestored : ∀ entry, Enters s op key entry → entry.msg ≠ msg) (h : Gone key msg t s) :
    Gone key msg t (step s op) := by
  constructor
  · intro entry hlookup
    rcases enters_of_lookup_step hlookup with hold | henters
    · exact h.l2 entry hold
    · exact hrestored entry henters
  · intro expiresAt hholds
    rcases holdsUntil_step hholds with hold | ⟨env, key', entry, hkey, hhash, hmsg, hcopied⟩
    · exact h.l1 expiresAt hold
    · -- A copy would have to be made of an L2 entry of the message under this key.
      rw [hapart env key' hkey hhash] at hcopied
      cases hcopied with
      | fresh hentry hfresh => exact absurd hmsg (h.l2 entry hentry)
      | stale hprobe => exact absurd hmsg (h.l2 entry (probe_eq_stale hprobe).1)
      | fetched hfetched => exact absurd hmsg (hrestored entry hfetched.enters)

theorem gone_run {key : CacheKey} {msg : DnsMessage} {t : Int} {s : CachingResolver}
    {ops : List Op} (hapart : Apart key ops) (hrestored : NotRestored s key msg ops)
    (h : Gone key msg t s) : Gone key msg t (run step s ops) := by
  refine run_past (P := fun as s' => Apart key as → NotRestored s key msg as → Gone key msg t s')
    (fun _ _ => h) ?_ ops hapart hrestored
  intro as op ih hapart hrestored
  rw [Apart, List.forall_mem_append, List.forall_mem_singleton] at hapart
  refine gone_step hapart.2 (hrestored _ op (visits_snoc as op)) (ih hapart.1 ?_)
  intro s' op' hvisit
  exact hrestored s' op' (hvisit.snoc op)

theorem Gone.probe_ne {key : CacheKey} {msg : DnsMessage} {t : Int} {s : CachingResolver}
    {env : Env} (h : Gone key msg t s) (hnow : t ≤ env.now) :
    (s.probe env key).msg ≠ some msg := by
  intro hmsg
  rcases found_of_probe hmsg with ⟨expiresAt, hholds, hlive⟩ | ⟨entry, hentry, hmsg, -⟩
  · have hle := h.l1 expiresAt hholds
    omega
  · exact h.l2 entry hentry hmsg

/-- The lookup right after the call. -/
theorem StaysGone.probe_ne {s : CachingResolver} {op look : Op} {key : CacheKey} {msg : DnsMessage}
    {t : Int} {env : Env} (h : StaysGone s op key msg t) (hlookup : look.lookup = some (env, key))
    (hnow : t ≤ env.now) : ((step s op).probe env key).msg ≠ some msg := by
  refine h [] (fun _ hop => by cases hop) ?_ look env hlookup hnow
  intro s' op' hvisit
  cases hvisit.mem

/-- A displaced message stays gone from `t` on exactly when L1 has no copy of it that
lasts beyond `t`. -/
theorem staysGone_iff {s : CachingResolver} {op : Op} {key : CacheKey} {msg : DnsMessage}
    (hdisplaces : Displaces s key op msg) (t : Int) :
    StaysGone s op key msg t ↔
      ∀ expiresAt, HoldsUntil s.turbo (turboHash key) msg expiresAt → expiresAt ≤ t := by
  constructor
  · intro h expiresAt hholds
    by_contra hlive
    have hlookup : (Op.peekCache { denyingEnv with now := t }
        (DnsMessage.createQuery key.name key.type key.qclass)).lookup =
          some ({ denyingEnv with now := t }, key) := rfl
    refine h.probe_ne hlookup (Int.le_refl t) ?_
    rw [probe, hdisplaces.turbo_eq,
      turboLookup_eq_some_iff.mpr ⟨expiresAt, hholds, Int.not_le.mp hlive⟩]
    rfl
  · intro h ops hapart hrestored look env hlookup hnow
    have hgone : Gone key msg t (step s op) := by
      refine ⟨fun entry hentry => hdisplaces.l2_ne hentry, ?_⟩
      rw [hdisplaces.turbo_eq]
      exact h
    exact (gone_run hapart hrestored hgone).probe_ne hnow

/-- A delegation that never was in L1 is gone with the flush. -/
theorem flushedDelegation_staysGone :
    StaysGone (delegationCache (seconds 600)) .flushCache delegatedQuestion.key delegation 0 := by
  have hlookup : (delegationCache (seconds 600)).cache.lookup delegatedQuestion.key =
      some { msg := delegation, ttl := 600, expiresAt := seconds 600 } := AList.lookup_insert _
  refine (staysGone_iff (.flush hlookup) 0).mpr fun expiresAt hholds => ?_
  exact absurd ⟨expiresAt, hholds⟩ (not_turboHolds_emptyTurbo _ _)

/-- An address that was asked for is in both tiers: ten seconds later the map is
flushed, and the next lookup still finds it. -/
theorem flushedAddress_not_staysGone :
    Displaces (run step {} [addressAsked]) { name := [0x61], type := 1, qclass := 1 } .flushCache
        addressReply ∧
      ¬StaysGone (run step {} [addressAsked]) .flushCache { name := [0x61], type := 1, qclass := 1 }
        addressReply (seconds 10) := by
  have hlookup : (run step {} [addressAsked]).cache.lookup
      { name := [0x61], type := 1, qclass := 1 } =
        some { msg := addressReply, ttl := 3600, expiresAt := seconds 3600 } := by
    decide +kernel
  refine ⟨.flush hlookup, fun h => ?_⟩
  have hpeeked : addressPeeked.lookup =
      some (addressEnv (seconds 10), { name := [0x61], type := 1, qclass := 1 }) := rfl
  exact h.probe_ne hpeeked (Int.le_refl _) (by decide +kernel)

end CachingResolver
end Dnss
