/-
The thread that refreshes entries before they expire.

A pass looks at all entries and notes those whose remaining time is below a percentage of their
lifetime; then it asks the resolver behind for one after the other.  Other calls go on in between.
An entry with a lifetime below the tuned minimum is passed over, which is what happens to most
negative replies.

`query_of_refreshed` says when this is enough.  Let each scan begin at most `D` after the one
before, and let the refreshes of a pass end within `r`.  When `D + r` is less than the part of the
least lifetime in which an entry is due, an entry whose refreshes succeed never expires: in every
run its queries are answered here.

The scan reads the clock for each entry; here it does so once.
-/
import Dnss.Cache.Shelter

namespace Dnss

open Machine CachingResolver

/-- The cache and the refresh thread. -/
structure RefreshThread where
  resolver : CachingResolver
  toRefresh : List (CacheKey × DnsQuestion) := []
  /-- When the last scan was made. -/
  scannedAt : Int

namespace RefreshThread

/-- `remainingPct < threshold`. -/
def needsRefresh (now threshold : Int) (entry : CacheEntry) : Bool :=
  if isExpired now entry then false
  else
    let remaining := (entry.expiresAt - now).tdiv 1000000000
    let total := entry.ttl
    if total ≤ 0 then false
    else decide ((remaining * 100).tdiv total < threshold)

/-- The scan takes the entry. -/
def due (env : Env) (threshold : Int) (entry : CacheEntry) : Bool :=
  needsRefresh env.now threshold entry && decide (entry.ttl ≥ env.minTTL.toInt)

/-- What a scan notes for the pass. -/
def collect (cache : Cache) (env : Env) (threshold : Int) : List (CacheKey × DnsQuestion) :=
  ((env.order.order cache.entries).filter fun item => due env threshold item.2).map fun item =>
    (item.1, { qname := item.1.name, qtype := item.1.type, qclass := item.1.qclass })

inductive Action where
  /-- A call of another thread. -/
  | call (op : Op)
  | scan (env : Env) (threshold : Int)
  | refreshNext (env : Env)

def step (s : RefreshThread) : Action → RefreshThread
  | .call op => { s with resolver := CachingResolver.step s.resolver op }
  | .scan env threshold =>
    match s.toRefresh with
    | [] =>
      { s with toRefresh := collect s.resolver.cache env threshold, scannedAt := env.now }
    | _ :: _ => s
  | .refreshNext env =>
    match s.toRefresh with
    | [] => s
    -- An exception is logged, and the next key has its turn.
    | (key, question) :: rest =>
      { s with resolver := (s.resolver.refreshEntry env key question).1, toRefresh := rest }

/-- The pass will come to the key. -/
def Pending (s : RefreshThread) (key : CacheKey) : Prop := ∃ question, (key, question) ∈ s.toRefresh

/-! ## When an entry is due -/

theorem mem_collect {cache : Cache} {env : Env} {threshold : Int} {key : CacheKey}
    {entry : CacheEntry} (hentry : cache.lookup key = some entry) :
    (∃ question, (key, question) ∈ collect cache env threshold) ↔ due env threshold entry = true := by
  unfold collect
  simp only [List.mem_map, List.mem_filter, Prod.mk.injEq, mem_order_iff]
  constructor
  · rintro ⟨question, item, ⟨hitem, hdue⟩, hkey, -⟩
    subst hkey
    rw [hentry, Option.some.injEq] at hitem
    rw [hitem]
    exact hdue
  · intro hdue
    exact ⟨_, ⟨key, entry⟩, ⟨hentry, hdue⟩, rfl, rfl⟩

/-- An entry that is not due has its part of the lifetime left. -/
theorem remaining_of_not_due {env : Env} {threshold pct m : Int} {entry : CacheEntry}
    (hm : 0 < m) (httl : m ≤ entry.ttl) (hmin : env.minTTL.toInt ≤ m) (hpct : pct ≤ threshold)
    (hpos : 0 ≤ pct) (hlive : env.now < entry.expiresAt) (h : due env threshold entry = false) :
    env.now + pct * m * 10000000 ≤ entry.expiresAt := by
  have hfresh : isExpired env.now entry = false := decide_eq_false (Int.not_le.mpr hlive)
  have hcounted : ¬ ((entry.expiresAt - env.now).tdiv 1000000000 * 100).tdiv entry.ttl <
      threshold := by
    intro hless
    have hdue : due env threshold entry = true := by
      unfold due needsRefresh
      simp only [hfresh, Bool.false_eq_true, if_false, if_neg (show ¬ entry.ttl ≤ 0 by omega),
        Bool.and_eq_true, decide_eq_true_eq]
      exact ⟨hless, by omega⟩
    rw [hdue] at h
    cases h
  have hremaining : (entry.expiresAt - env.now).tdiv 1000000000 =
      (entry.expiresAt - env.now) / 1000000000 := Int.tdiv_eq_ediv_of_nonneg (by omega)
  have hnonneg : 0 ≤ (entry.expiresAt - env.now) / 1000000000 * 100 := by omega
  rw [hremaining, Int.tdiv_eq_ediv_of_nonneg hnonneg, Int.not_lt,
    Int.le_ediv_iff_mul_le (by omega)] at hcounted
  have hlow : pct * m ≤ threshold * entry.ttl := by
    calc pct * m ≤ pct * entry.ttl := Int.mul_le_mul_of_nonneg_left httl hpos
      _ ≤ threshold * entry.ttl := Int.mul_le_mul_of_nonneg_right hpct (by omega)
  generalize pct * m = part at *
  generalize threshold * entry.ttl = whole at *
  omega

/-! ## What a refresh stores -/

theorem le_computeCacheTTL {minTTL : Int32} {m : Int} (hmin : m ≤ minTTL.toInt)
    (hmax : m ≤ maxTTL) (reply : DnsMessage) : m ≤ computeCacheTTL minTTL reply := by
  have hclamp : ∀ ttl : Int, m ≤ (if maxTTL < (if ttl < minTTL.toInt then minTTL.toInt else ttl)
      then maxTTL else if ttl < minTTL.toInt then minTTL.toInt else ttl) := by
    intro ttl
    split <;> split <;> omega
  exact hclamp _

/-- The resolver behind has a positive reply to the refresh, and the tuned minimum is at least
`m`. -/
structure Answers (env : Env) (question : DnsQuestion) (m : Int) : Prop where
  reply : ∃ u, env.back (refreshQuery question) true = .ok (some u) ∧
    shouldCache question u = true ∧ u.header.rcode = DnsRcode.NoError
  minTTL : m ≤ env.minTTL.toInt

theorem lookup_refreshEntry_of_answers {s : CachingResolver} {env : Env} {key : CacheKey}
    {question : DnsQuestion} {old : CacheEntry} {m : Int} (hmax : m ≤ maxTTL)
    (hold : s.cache.lookup key = some old) (h : Answers env question m) :
    ∃ entry, (s.refreshEntry env key question).1.cache.lookup key = some entry ∧ m ≤ entry.ttl ∧
      entry.expiresAt = env.later + seconds entry.ttl := by
  obtain ⟨u, hback, hcache, hrcode⟩ := h.reply
  have hstore : storeTTL env u = computeCacheTTL env.minTTL u := by
    rw [storeTTL, if_neg (by rw [hrcode]; decide)]
  refine ⟨entryOf env u (storeTTL env u), ?_, ?_, rfl⟩
  · unfold refreshEntry
    simp only [hback, hcache, if_true, hold]
    exact AList.lookup_insert _
  · show m ≤ storeTTL env u
    rw [hstore]
    exact le_computeCacheTTL h.minTTL hmax u

/-! ## A run -/

/-- The bounds of a run: `pct` of the least lifetime `m` is more than what a scan and its
refreshes take. -/
structure Bounds where
  pct : Int
  m : Int
  D : Int
  r : Int
  pct_range : 0 ≤ pct ∧ pct ≤ 100
  m_range : 0 < m ∧ m ≤ maxTTL
  D_nonneg : 0 ≤ D
  r_nonneg : 0 ≤ r
  enough : D + r < pct * m * 10000000

theorem Bounds.lt_lifetime (b : Bounds) {ttl : Int} (h : b.m ≤ ttl) : b.D + b.r < seconds ttl := by
  have henough := b.enough
  have hm := b.m_range.1
  have hpart : b.pct * b.m ≤ 100 * b.m := Int.mul_le_mul_of_nonneg_right b.pct_range.2 (Int.le_of_lt hm)
  unfold seconds
  omega

/-- What a run keeps to, for the sake of one key. -/
def Timely (b : Bounds) (key : CacheKey) (s : RefreshThread) : Action → Prop
  | .call op =>
    op.Before (s.scannedAt + if s.toRefresh = [] then b.D else b.r) ∧ op.Leaves key ∧
      s.resolver.cache.entries.length < maxCacheSize
  | .scan env threshold =>
    s.toRefresh = [] ∧ env.now ≤ s.scannedAt + b.D ∧ b.pct ≤ threshold ∧ env.minTTL.toInt ≤ b.m
  | .refreshNext env =>
    s.scannedAt ≤ env.later ∧ env.later ≤ s.scannedAt + b.r ∧
      ∀ question, s.toRefresh.head? = some (key, question) → Answers env question b.m

/-- The key has an entry that outlives the pass if it is due in it, and else the next one too. -/
def Kept (b : Bounds) (key : CacheKey) (s : RefreshThread) : Prop :=
  ∃ entry, s.resolver.cache.lookup key = some entry ∧ b.m ≤ entry.ttl ∧
    s.scannedAt + b.r < entry.expiresAt ∧
    (¬ s.Pending key → s.scannedAt + b.D + b.r < entry.expiresAt)

theorem not_pending_of_nil {s : RefreshThread} {key : CacheKey} (h : s.toRefresh = []) :
    ¬ s.Pending key := by
  rintro ⟨question, hmem⟩
  rw [h] at hmem
  cases hmem

theorem before_mono {op : Op} {t t' : Int} (h : op.Before t) (hle : t ≤ t') : op.Before t' := by
  cases op with
  | query env req allowFanOut => exact Int.lt_of_lt_of_le h hle
  | peekCache env req => exact Int.lt_of_lt_of_le h hle
  | peekCacheRaw env data => exact Int.lt_of_lt_of_le h hle
  | gcCache env => exact Int.lt_of_lt_of_le h hle
  | refreshEntry env key question => trivial
  | flushCache => trivial
  | loadCache now file => trivial

/-- A call of another thread comes before the expiry. -/
theorem before_of_kept {b : Bounds} {key : CacheKey} {s : RefreshThread} {entry : CacheEntry}
    (hsoon : s.scannedAt + b.r < entry.expiresAt)
    (hlater : ¬ s.Pending key → s.scannedAt + b.D + b.r < entry.expiresAt) {op : Op}
    (h : op.Before (s.scannedAt + if s.toRefresh = [] then b.D else b.r)) :
    op.Before entry.expiresAt := by
  have hr := b.r_nonneg
  refine before_mono h ?_
  split
  · rename_i hnil
    have hidle := hlater (not_pending_of_nil hnil)
    omega
  · omega

theorem kept_call {b : Bounds} {key : CacheKey} {s : RefreshThread} {op : Op}
    (h : Kept b key s) (ht : Timely b key s (.call op)) : Kept b key (s.step (.call op)) := by
  obtain ⟨entry, hentry, httl, hsoon, hlater⟩ := h
  obtain ⟨hbefore, hleaves, hroom⟩ := ht
  exact ⟨entry, lookup_kept_step hentry (before_of_kept hsoon hlater hbefore) hleaves hroom, httl,
    hsoon, hlater⟩

theorem kept_scan {b : Bounds} {key : CacheKey} {s : RefreshThread} {env : Env} {threshold : Int}
    (h : Kept b key s) (ht : Timely b key s (.scan env threshold)) :
    Kept b key (s.step (.scan env threshold)) := by
  obtain ⟨entry, hentry, httl, hsoon, hlater⟩ := h
  obtain ⟨hnil, hnow, hpct, hmin⟩ := ht
  have hidle := hlater (not_pending_of_nil hnil)
  have hr := b.r_nonneg
  have hstep : s.step (.scan env threshold) =
      { s with toRefresh := collect s.resolver.cache env threshold, scannedAt := env.now } := by
    simp only [step, hnil]
  rw [hstep]
  refine ⟨entry, hentry, httl, ?_, fun hpending => ?_⟩
  · show env.now + b.r < entry.expiresAt
    omega
  · have hdue : due env threshold entry = false := by
      rw [← Bool.not_eq_true]
      exact fun hdue => hpending ((mem_collect hentry).mpr hdue)
    have hremaining := remaining_of_not_due b.m_range.1 httl hmin hpct b.pct_range.1
      (by omega) hdue
    have henough := b.enough
    show env.now + b.D + b.r < entry.expiresAt
    omega

theorem kept_refreshNext {b : Bounds} {key : CacheKey} {s : RefreshThread} {env : Env}
    (h : Kept b key s) (ht : Timely b key s (.refreshNext env)) :
    Kept b key (s.step (.refreshNext env)) := by
  obtain ⟨entry, hentry, httl, hsoon, hlater⟩ := h
  obtain ⟨hfrom, -, hanswers⟩ := ht
  cases hwork : s.toRefresh with
  | nil =>
    have hstep : s.step (.refreshNext env) = s := by simp only [step, hwork]
    rw [hstep]
    exact ⟨entry, hentry, httl, hsoon, hlater⟩
  | cons work rest =>
    obtain ⟨key', question⟩ := work
    have hstep : s.step (.refreshNext env) =
        { s with
          resolver := (s.resolver.refreshEntry env key' question).1, toRefresh := rest } := by
      simp only [step, hwork]
    rw [hstep]
    by_cases hkey : key' = key
    · subst hkey
      obtain ⟨new, hnew, hnewTtl, hexpires⟩ := lookup_refreshEntry_of_answers b.m_range.2 hentry
        (hanswers question (by rw [hwork]; rfl))
      have hlifetime := b.lt_lifetime hnewTtl
      have hD := b.D_nonneg
      refine ⟨new, hnew, hnewTtl, ?_, fun _ => ?_⟩
      · show s.scannedAt + b.r < new.expiresAt
        omega
      · show s.scannedAt + b.D + b.r < new.expiresAt
        omega
    · refine ⟨entry, lookup_refreshEntry_of_ne hentry hkey, httl, hsoon, fun hpending => ?_⟩
      refine hlater fun ⟨question', hmem⟩ => hpending ⟨question', ?_⟩
      rw [hwork, List.mem_cons] at hmem
      rcases hmem with heq | hmem
      · exact absurd (congrArg Prod.fst heq).symm hkey
      · exact hmem

theorem kept_step {b : Bounds} {key : CacheKey} {s : RefreshThread} {action : Action}
    (h : Kept b key s) (ht : Timely b key s action) : Kept b key (s.step action) := by
  cases action with
  | call op => exact kept_call h ht
  | scan env threshold => exact kept_scan h ht
  | refreshNext env => exact kept_refreshNext h ht

theorem kept_of_visits {b : Bounds} {key : CacheKey} {s s' : RefreshThread}
    {actions : List Action} {action : Action} (h : Kept b key s)
    (ht : ∀ s' action, Visits step s actions s' action → Timely b key s' action)
    (hvisit : Visits step s actions s' action) : Kept b key s' := by
  obtain ⟨done, rest, rfl, rfl⟩ := hvisit
  refine run_invariant_of_visits h fun t before hvisit hkept => kept_step hkept (ht t before ?_)
  exact hvisit.append (action :: rest)

/-- In every run that keeps to the bounds, no query for the key reaches the resolver behind: the
entry is refreshed in time, again and again. -/
theorem query_of_refreshed {b : Bounds} {s s' : RefreshThread} {actions : List Action}
    {q : DnsQuestion} (h : Kept b q.key s)
    (ht : ∀ s' action, Visits step s actions s' action → Timely b q.key s' action)
    {env : Env} {req : DnsMessage} {allowFanOut : Bool} (hq : req.questions = [q])
    (hvisit : Visits step s actions s' (.call (.query env req allowFanOut))) :
    ∃ reply, ∀ back allowFanOut,
      (s'.resolver.query { env with back := back } req allowFanOut).2 = .ok (some reply) := by
  obtain ⟨entry, hentry, -, hsoon, hlater⟩ := kept_of_visits h ht hvisit
  have hbefore : (Op.query env req allowFanOut).Before entry.expiresAt :=
    before_of_kept hsoon hlater (ht _ _ hvisit).1
  exact query_of_fresh hq hentry hbefore

/-! ## One refresh -/

/-- Five percent of ten minutes are more than fourteen seconds. -/
def addressBounds : Bounds where
  pct := 5
  m := 600
  D := seconds 12
  r := seconds 2
  pct_range := by decide
  m_range := by decide
  D_nonneg := by decide
  r_nonneg := by decide
  enough := by decide

def addressKey : CacheKey := { name := [0x61], type := 1, qclass := 1 }

/-- The address is in the cache until 3600 seconds, and the last scan found it not due. -/
def addressKept : RefreshThread :=
  { resolver := run CachingResolver.step {} [addressAsked], scannedAt := seconds 3410 }

theorem lookup_addressKept : addressKept.resolver.cache.lookup addressKey =
    some { msg := addressReply, ttl := 3600, expiresAt := seconds 3600 } := by
  decide +kernel

/-- A scan notes it and it is asked for again; a client asks after the next scan. -/
def addressRefreshed : List Action :=
  [.scan (addressEnv (seconds 3421)) 5, .refreshNext (addressEnv (seconds 3422)),
    .scan (addressEnv (seconds 3433)) 5]

theorem answers_addressEnv (now : Int) :
    Answers (addressEnv now) { qname := [0x61], qtype := 1, qclass := 1 } 600 where
  reply := ⟨addressReply, rfl, by decide +kernel, by decide +kernel⟩
  minTTL := by
    show (600 : Int) ≤ (600 : Int32).toInt
    decide

def addressClient : Op :=
  .query (addressEnv (seconds 3444)) (DnsMessage.createQuery [0x61] 1) true

theorem addressRefreshed_query : ∃ reply, ∀ back allowFanOut,
    ((run step addressKept addressRefreshed).resolver.query
      { addressEnv (seconds 3444) with back := back } (DnsMessage.createQuery [0x61] 1)
        allowFanOut).2 = .ok (some reply) := by
  have hkept : Kept addressBounds addressKey addressKept :=
    ⟨_, lookup_addressKept, by decide, by decide, fun _ => by decide⟩
  have hasked : Visits step addressKept (addressRefreshed ++ [.call addressClient])
      (run step addressKept addressRefreshed) (.call addressClient) :=
    ⟨addressRefreshed, [], rfl, rfl⟩
  refine query_of_refreshed (q := { qname := [0x61], qtype := 1, qclass := 1 }) hkept
    (fun s' action hvisit => ?_) rfl hasked
  rcases visits_cons_iff.mp hvisit with ⟨rfl, rfl⟩ | hvisit
  · exact ⟨rfl, by decide, by decide, by decide⟩
  rcases visits_cons_iff.mp hvisit with ⟨rfl, rfl⟩ | hvisit
  · refine ⟨by decide, by decide, fun question hhead => ?_⟩
    have hwork : (step addressKept (.scan (addressEnv (seconds 3421)) 5)).toRefresh =
        [(addressKey, { qname := [0x61], qtype := 1, qclass := 1 })] := by
      decide +kernel
    rw [hwork] at hhead
    cases hhead
    exact answers_addressEnv _
  rcases visits_cons_iff.mp hvisit with ⟨rfl, rfl⟩ | hvisit
  · exact ⟨by decide +kernel, by decide, by decide, by decide⟩
  rcases visits_cons_iff.mp hvisit with ⟨rfl, rfl⟩ | hvisit
  · refine ⟨?_, trivial, by decide +kernel⟩
    show seconds 3444 < _
    decide +kernel
  · exact absurd hvisit (not_visits_nil _ _)

end RefreshThread
end Dnss
