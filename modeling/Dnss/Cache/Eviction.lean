/-
The entry that a full map gives up.

The loop over the map looks for the entry with the least time left, but only among
those that have a whole millisecond left.  An expired entry is never a candidate: the
first entry of the iteration goes when no entry has a millisecond, and a live one
goes in every other case.  A key that is in the map makes no difference to the loop,
although storing under it needs no room.

`evictsShortest_iff` says for every full map and every query that stores into it when
the entry with the shortest lifetime is the one that goes.
-/
import Dnss.Cache.Capacity

namespace Dnss
namespace CachingResolver

open Machine

/-! ## The victim -/

/-- Lifetimes are differences of 64-bit clock readings. -/
def Clocked (now : Int) (cache : Cache) : Prop :=
  ∀ key entry, cache.lookup key = some entry → entry.expiresAt - now < 2 ^ 63

/-- The entry has a whole millisecond left. -/
def Lasting (now : Int) (entry : CacheEntry) : Prop := 0 < remainingMs now entry

/-- The entry that goes has the least time left of those with a millisecond, or it is the
first of the iteration and there are none. -/
inductive Victim (env : Env) (cache : Cache) (victim : CacheKey) (old : CacheEntry) : Prop where
  | lasting (hlasting : Lasting env.later old)
      (hleast : ∀ key entry, cache.lookup key = some entry →
        Lasting env.later entry → remainingMs env.later old ≤ remainingMs env.later entry)
  | first (hnone : ∀ key entry, cache.lookup key = some entry → ¬Lasting env.later entry)
      (hfirst : (env.order.order cache.entries).head? = some ⟨victim, old⟩)

theorem remainingMs_eq (now : Int) (entry : CacheEntry) :
    remainingMs now entry = (entry.expiresAt - now).toNat / 1000000 := by
  unfold remainingMs
  generalize entry.expiresAt - now = left
  rcases Int.le_total 0 left with hleft | hleft
  · rw [Int.tdiv_eq_ediv_of_nonneg hleft]
    omega
  · have hneg : 0 ≤ (-left).tdiv 1000000 := Int.tdiv_nonneg (by omega) (by decide)
    rw [Int.neg_tdiv] at hneg
    omega

theorem remainingMs_lt {now : Int} {entry : CacheEntry} (h : entry.expiresAt - now < 2 ^ 63) :
    remainingMs now entry < 2 ^ 64 - 1 := by
  rw [remainingMs_eq]
  omega

theorem not_lasting_of_expired {now : Int} {entry : CacheEntry} (h : isExpired now entry = true) :
    ¬Lasting now entry := by
  have hle : entry.expiresAt ≤ now := of_decide_eq_true h
  unfold Lasting
  rw [remainingMs_eq]
  omega

theorem evict_of_full {cache : Cache} {env : Env} (hfull : maxCacheSize ≤ cache.entries.length)
    (hclock : Clocked env.later cache) :
    ∃ victim old, cache.lookup victim = some old ∧ evict cache env = cache.erase victim ∧
      Victim env cache victim old := by
  have hmem : ∀ {key : CacheKey} {entry : CacheEntry},
      ⟨key, entry⟩ ∈ env.order.order cache.entries ↔ cache.lookup key = some entry :=
    mem_order_iff
  rw [evict, if_pos hfull]
  cases horder : env.order.order cache.entries with
  | nil =>
    have hlen := (env.order.perm cache.entries).length_eq
    rw [horder, List.length_nil] at hlen
    unfold maxCacheSize at hfull
    omega
  | cons first rest =>
    rw [horder] at hmem
    simp only [evictKey]
    rcases foldl_evictStep_spec env.later (first :: rest) (first.1, 2 ^ 64 - 1) with
      ⟨hkeep, hleast⟩ | ⟨item, hitem, hfold, hpos, -, hleast⟩
    · refine ⟨first.1, first.2, hmem.mp List.mem_cons_self, ?_, .first ?_ ?_⟩
      · rw [hkeep]
      · intro key entry hentry hlasting
        have hlt := remainingMs_lt (hclock key entry hentry)
        rcases hleast ⟨key, entry⟩ (hmem.mpr hentry) with hzero | hle
        · exact absurd hlasting (Nat.not_lt.mpr (Nat.le_of_eq hzero))
        · exact absurd hlt (Nat.not_lt.mpr hle)
      · rw [horder]
        rfl
    · refine ⟨item.1, item.2, hmem.mp hitem, ?_, .lasting hpos fun key entry hentry hlasting => ?_⟩
      · rw [hfold]
      · rcases hleast ⟨key, entry⟩ (hmem.mpr hentry) with hzero | hle
        · exact absurd hlasting (Nat.not_lt.mpr (Nat.le_of_eq hzero))
        · exact hle

/-! ## What an insertion should do -/

/-- No entry has less time left, and none has expired unless this one has. -/
def Shortest (now : Int) (cache : Cache) (old : CacheEntry) : Prop :=
  ∀ key entry, cache.lookup key = some entry →
    remainingMs now old ≤ remainingMs now entry ∧
      (isExpired now entry = true → isExpired now old = true)

/-- The map `after` has the new entry and keeps all others of `before`, but for one with
the shortest lifetime when the key is new. -/
structure EvictsShortest (now : Int) (before after : Cache) (key : CacheKey) (entry : CacheEntry) :
    Prop where
  stored : after.lookup key = some entry
  present : key ∈ before → ∀ other, other ≠ key → after.lookup other = before.lookup other
  absent : key ∉ before → ∃ victim old, before.lookup victim = some old ∧
    after.lookup victim = none ∧ Shortest now before old ∧
    ∀ other, other ≠ key → other ≠ victim → after.lookup other = before.lookup other

/-- The entries all have a millisecond left; or none has, and the loop starts at the key's
own entry, or at an expired one if there is any when the key is new. -/
def EvictsWell (env : Env) (cache : Cache) (key : CacheKey) : Prop :=
  (∀ other entry, cache.lookup other = some entry → Lasting env.later entry) ∨
    (∀ other entry, cache.lookup other = some entry → ¬Lasting env.later entry) ∧
      ∃ first, (env.order.order cache.entries).head? = some first ∧
        (key ∈ cache → first.1 = key) ∧
        (key ∉ cache → isExpired env.later first.2 = true ∨
          ∀ other entry, cache.lookup other = some entry → isExpired env.later entry = false)

theorem lookup_erase_insert (cache : Cache) (victim key : CacheKey) (entry : CacheEntry)
    {other : CacheKey} (hne : other ≠ key) :
    ((cache.erase victim).insert key entry).lookup other =
      if other = victim then none else cache.lookup other := by
  rw [AList.lookup_insert_ne hne]
  by_cases hvictim : other = victim
  · rw [if_pos hvictim, hvictim, AList.lookup_erase]
  · rw [if_neg hvictim, AList.lookup_erase_ne hvictim]

/-- An insertion that gives up `victim` is as it should be exactly when the victim is the
key itself, or the key is new and the victim has the shortest lifetime. -/
theorem evictsShortest_erase_iff {now : Int} {cache : Cache} {victim key : CacheKey}
    {old entry : CacheEntry} (hold : cache.lookup victim = some old) :
    EvictsShortest now cache ((cache.erase victim).insert key entry) key entry ↔
      (key ∈ cache → victim = key) ∧ (key ∉ cache → Shortest now cache old) := by
  constructor
  · intro h
    constructor
    · intro hmem
      by_contra hne
      have hkept := h.present hmem victim hne
      rw [lookup_erase_insert cache victim key entry hne, if_pos rfl, hold] at hkept
      cases hkept
    · intro habsent
      obtain ⟨gone, old', hbefore, hafter, hshortest, -⟩ := h.absent habsent
      have hne : gone ≠ key := by
        rintro rfl
        exact habsent (AList.lookup_isSome.mp (by rw [hbefore]; rfl))
      -- The one entry that is missing afterwards is the one given up.
      have hgone : gone = victim := by
        by_contra hkept
        rw [lookup_erase_insert cache victim key entry hne, if_neg hkept, hbefore] at hafter
        cases hafter
      rw [hgone, hold, Option.some.injEq] at hbefore
      rw [hbefore]
      exact hshortest
  · intro h
    refine ⟨AList.lookup_insert _, fun hmem other hne => ?_, fun habsent => ?_⟩
    · rw [lookup_erase_insert cache victim key entry hne, h.1 hmem, if_neg hne]
    · have hne : victim ≠ key := by
        rintro rfl
        exact habsent (AList.lookup_isSome.mp (by rw [hold]; rfl))
      refine ⟨victim, old, hold, ?_, h.2 habsent, fun other hother hkept => ?_⟩
      · rw [lookup_erase_insert cache victim key entry hne, if_pos rfl]
      · rw [lookup_erase_insert cache victim key entry hother, if_neg hkept]

/-- The victim of the loop has the shortest lifetime when all entries last, or when none
does and it has expired if any has. -/
theorem Victim.shortest_iff {env : Env} {cache : Cache} {victim : CacheKey} {old : CacheEntry}
    (h : Victim env cache victim old) (hold : cache.lookup victim = some old) :
    Shortest env.later cache old ↔
      (∀ other entry, cache.lookup other = some entry → Lasting env.later entry) ∨
        (∀ other entry, cache.lookup other = some entry → ¬Lasting env.later entry) ∧
          (isExpired env.later old = true ∨ ∀ other entry,
            cache.lookup other = some entry → isExpired env.later entry = false) := by
  cases h with
  | lasting hlasting hleast =>
    constructor
    · intro hshortest
      left
      intro other entry hentry
      exact Nat.lt_of_lt_of_le hlasting (hshortest other entry hentry).1
    · rintro (hall | ⟨hnone, -⟩)
      · intro other entry hentry
        exact ⟨hleast other entry hentry (hall other entry hentry), fun hexpired =>
          absurd (hall other entry hentry) (not_lasting_of_expired hexpired)⟩
      · exact absurd hlasting (hnone victim old hold)
  | first hnone hfirst =>
    constructor
    · intro hshortest
      refine Or.inr ⟨hnone, ?_⟩
      by_cases hexpired : isExpired env.later old = true
      · exact Or.inl hexpired
      · right
        intro other entry hentry
        exact Bool.eq_false_iff.mpr fun hother => hexpired ((hshortest other entry hentry).2 hother)
    · rintro (hall | ⟨-, hexpired⟩)
      · exact absurd (hall victim old hold) (hnone victim old hold)
      · intro other entry hentry
        have hzero : remainingMs env.later old = 0 := Nat.eq_zero_of_not_pos (hnone victim old hold)
        refine ⟨by omega, fun hother => ?_⟩
        rcases hexpired with hold' | hfresh
        · exact hold'
        · rw [hfresh other entry hentry] at hother
          cases hother

theorem Victim.head_eq {env : Env} {cache : Cache} {victim : CacheKey} {old : CacheEntry}
    (h : Victim env cache victim old) (hold : cache.lookup victim = some old)
    (hnone : ∀ key entry, cache.lookup key = some entry → ¬Lasting env.later entry) :
    (env.order.order cache.entries).head? = some ⟨victim, old⟩ := by
  cases h with
  | lasting hlasting hleast => exact absurd hlasting (hnone victim old hold)
  | first _ hfirst => exact hfirst

theorem evictsShortest_evict_iff {env : Env} {cache : Cache} {key : CacheKey} {entry : CacheEntry}
    (hfull : maxCacheSize ≤ cache.entries.length) (hclock : Clocked env.later cache)
    (hexpired : ∀ own, cache.lookup key = some own → isExpired env.later own = true) :
    EvictsShortest env.later cache ((evict cache env).insert key entry) key entry ↔
      EvictsWell env cache key := by
  obtain ⟨victim, old, hold, hevict, hvictim⟩ := evict_of_full hfull hclock
  rw [hevict, evictsShortest_erase_iff hold, hvictim.shortest_iff hold]
  by_cases hmem : key ∈ cache
  · -- The key's own entry has expired, so the loop takes it only as the first.
    obtain ⟨own, hown⟩ := Option.isSome_iff_exists.mp (AList.lookup_isSome.mpr hmem)
    have hshort : ¬Lasting env.later own := not_lasting_of_expired (hexpired own hown)
    constructor
    · intro h
      have hkey : victim = key := h.1 hmem
      rw [hkey, hown, Option.some.injEq] at hold
      cases hvictim with
      | lasting hlasting hleast => exact absurd (hold ▸ hlasting) hshort
      | first hnone hfirst =>
        exact Or.inr ⟨hnone, _, hfirst, fun _ => hkey, fun habsent => absurd hmem habsent⟩
    · rintro (hall | ⟨hnone, first, hfirst, hkey, -⟩)
      · exact absurd (hall key own hown) hshort
      · rw [hvictim.head_eq hold hnone, Option.some.injEq] at hfirst
        rw [← hfirst] at hkey
        exact ⟨hkey, fun habsent => absurd hmem habsent⟩
  · constructor
    · intro h
      rcases h.2 hmem with hall | ⟨hnone, hfresh⟩
      · exact Or.inl hall
      · exact Or.inr ⟨hnone, _, hvictim.head_eq hold hnone, fun h => absurd h hmem, fun _ => hfresh⟩
    · rintro (hall | ⟨hnone, first, hfirst, -, hfresh⟩)
      · exact ⟨fun h => absurd h hmem, fun _ => Or.inl hall⟩
      · rw [hvictim.head_eq hold hnone, Option.some.injEq] at hfirst
        rw [← hfirst] at hfresh
        exact ⟨fun h => absurd h hmem, fun _ => Or.inr ⟨hnone, hfresh hmem⟩⟩

/-! ## Queries -/

/-- The entry of a key that a query misses has expired by the time of the store. -/
theorem isExpired_of_miss {s : CachingResolver} {env : Env} {key : CacheKey} {own : CacheEntry}
    (hmiss : s.probe env key = .miss) (htime : env.now ≤ env.later)
    (hown : s.cache.lookup key = some own) : isExpired env.later own = true := by
  obtain ⟨hle, -⟩ := (probe_eq_miss hmiss).2 own hown
  exact decide_eq_true (Int.le_trans hle htime)

/-- A query that stores a reply into a full map gives up an entry as it should exactly
when all entries have a millisecond left, or none has and the loop starts well. -/
theorem evictsShortest_iff {s : CachingResolver} {env : Env} {req u : DnsMessage} {q : DnsQuestion}
    (allowFanOut : Bool) (hfull : s.cache.entries.length = maxCacheSize)
    (hclock : Clocked env.later s.cache) (htime : env.now ≤ env.later)
    (hq : req.questions = [q]) (hmiss : s.probe env q.key = .miss)
    (hback : env.back req env.fanOutEnabled = .ok (some u)) (hcache : shouldCache q u = true) :
    EvictsShortest env.later s.cache (s.query env req allowFanOut).1.cache q.key
        (entryOf env u (storeTTL env u)) ↔
      EvictsWell env s.cache q.key := by
  obtain ⟨-, hstore⟩ := query_store allowFanOut hq hmiss hback hcache
  rw [hstore]
  exact evictsShortest_evict_iff (Nat.le_of_eq hfull.symm) hclock fun own hown =>
    isExpired_of_miss hmiss htime hown

/-! A full map with a key for each type below its capacity. -/

def rootEntry (expiresAt : Int) : CacheEntry := { msg := {}, ttl := 60, expiresAt }

def rootCache (n : Nat) (hn : n ≤ 65536) (expiresAt : Nat → Int) : Cache where
  entries := (List.range n).map fun i => ⟨rootKey i, rootEntry (expiresAt i)⟩
  nodupKeys := by
    show (((List.range n).map _).map Sigma.fst).Nodup
    rw [List.map_map]
    exact nodup_rootKeys hn

theorem lookup_rootCache {n : Nat} (hn : n ≤ 65536) {expiresAt : Nat → Int} {key : CacheKey}
    {entry : CacheEntry} :
    (rootCache n hn expiresAt).lookup key = some entry ↔
      ∃ i < n, key = rootKey i ∧ entry = rootEntry (expiresAt i) := by
  rw [← Option.mem_def, AList.mem_lookup_iff]
  simp only [rootCache, List.mem_map, List.mem_range]
  constructor
  · rintro ⟨i, hi, hitem⟩
    cases hitem
    exact ⟨i, hi, rfl, rfl⟩
  · rintro ⟨i, hi, rfl, rfl⟩
    exact ⟨i, hi, rfl⟩

theorem length_rootCache {n : Nat} (hn : n ≤ 65536) (expiresAt : Nat → Int) :
    (rootCache n hn expiresAt).entries.length = n := by
  rw [rootCache, List.length_map, List.length_range]

theorem clocked_rootCache {n : Nat} (hn : n ≤ 65536) {expiresAt : Nat → Int}
    (hle : ∀ i, expiresAt i ≤ seconds 60) :
    Clocked denyingEnv.later (rootCache n hn expiresAt) := by
  intro key entry hentry
  obtain ⟨i, -, -, rfl⟩ := (lookup_rootCache hn).mp hentry
  have hi : expiresAt i ≤ 60 * 1000000000 := hle i
  show expiresAt i - 0 < 2 ^ 63
  omega

/-- The map has keys for the root only. -/
theorem probe_rootCache {n : Nat} (hn : n ≤ 65536) (expiresAt : Nat → Int) {key : CacheKey}
    (hkey : key.name ≠ []) :
    ({ cache := rootCache n hn expiresAt } : CachingResolver).probe denyingEnv key = .miss := by
  have hlookup : (rootCache n hn expiresAt).lookup key = none := by
    rw [Option.eq_none_iff_forall_ne_some]
    intro entry hentry
    obtain ⟨i, -, rfl, -⟩ := (lookup_rootCache hn).mp hentry
    exact hkey rfl
  rw [probe, turboLookup_emptyTurbo]
  simp only [hlookup]

def newKey : CacheKey := { name := [0x61], type := 1, qclass := 1 }

theorem maxCacheSize_le : maxCacheSize ≤ 65536 := by decide

def rootState (expiresAt : Nat → Int) : CachingResolver :=
  { cache := rootCache maxCacheSize maxCacheSize_le expiresAt }

theorem length_rootState (expiresAt : Nat → Int) :
    (rootState expiresAt).cache.entries.length = maxCacheSize :=
  length_rootCache maxCacheSize_le expiresAt

theorem probe_rootState (expiresAt : Nat → Int) :
    (rootState expiresAt).probe denyingEnv newKey = .miss :=
  probe_rootCache maxCacheSize_le expiresAt (by decide)

theorem lookup_rootState (expiresAt : Nat → Int) {i : Nat} (hi : i < maxCacheSize) :
    (rootState expiresAt).cache.lookup (rootKey i) = some (rootEntry (expiresAt i)) :=
  (lookup_rootCache maxCacheSize_le).mpr ⟨i, hi, rfl, rfl⟩

/-- All entries have a minute left. -/
theorem freshRoots_evictsShortest :
    EvictsShortest denyingEnv.later (rootState fun _ => seconds 60).cache
      ((rootState fun _ => seconds 60).query denyingEnv
        (DnsMessage.createQuery newKey.name newKey.type newKey.qclass) true).1.cache newKey
      (entryOf denyingEnv (deniedReply newKey) (storeTTL denyingEnv (deniedReply newKey))) := by
  have hclock : Clocked denyingEnv.later (rootState fun _ => seconds 60).cache :=
    clocked_rootCache maxCacheSize_le fun _ => Int.le_refl _
  refine (evictsShortest_iff true (length_rootState _) hclock (Int.le_refl _)
    (questions_createQuery newKey) (probe_rootState _) (back_denyingEnv newKey)
    (shouldCache_deniedReply newKey)).mpr (Or.inl fun other entry hentry => ?_)
  obtain ⟨i, -, -, rfl⟩ := (lookup_rootCache maxCacheSize_le).mp hentry
  show 0 < remainingMs 0 (rootEntry (seconds 60))
  decide

/-- The first entry has expired, and the others have a minute left. -/
def mixedExpiry (i : Nat) : Int := if i = 0 then 0 else seconds 60

/-- A live entry goes, and the expired one stays. -/
theorem mixedRoots_not_evictsShortest :
    ¬EvictsShortest denyingEnv.later (rootState mixedExpiry).cache
      ((rootState mixedExpiry).query denyingEnv
        (DnsMessage.createQuery newKey.name newKey.type newKey.qclass) true).1.cache newKey
      (entryOf denyingEnv (deniedReply newKey) (storeTTL denyingEnv (deniedReply newKey))) := by
  have hclock : Clocked denyingEnv.later (rootState mixedExpiry).cache := by
    refine clocked_rootCache maxCacheSize_le fun i => ?_
    unfold mixedExpiry
    split
    · decide
    · exact Int.le_refl _
  obtain ⟨-, hstore⟩ := query_store true (questions_createQuery newKey)
    (probe_rootState mixedExpiry) (back_denyingEnv newKey) (shouldCache_deniedReply newKey)
  intro h
  rw [hstore] at h
  rcases (evictsShortest_evict_iff (Nat.le_of_eq (length_rootState _).symm) hclock
    fun own hown => isExpired_of_miss (probe_rootState _) (Int.le_refl _) hown).mp h with
    hall | ⟨hnone, -⟩
  · have hlasting := hall _ _ (lookup_rootState mixedExpiry (i := 0) (by decide))
    exact absurd hlasting (by unfold Lasting; decide)
  · have hshort := hnone _ _ (lookup_rootState mixedExpiry (i := 1) (by decide))
    exact hshort (by unfold Lasting; decide)

end CachingResolver
end Dnss
