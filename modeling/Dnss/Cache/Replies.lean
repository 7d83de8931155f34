/-
The replies that are made of cached messages.

`query` and `peekCache` build them with `buildCachedReply`.  `peekCacheRaw` has three
replies of its own, one for each place a message can be found, and the one for a stale
entry leaves two sections out.  `reply_eq_cachedReply` collects the six cases, and
`sameRecords_iff` says when the three calls give the same records.
-/
import Dnss.Cache.Runs

namespace Dnss
namespace CachingResolver

theorem requestKey_eq_some_iff {req : DnsMessage} {key : CacheKey} :
    requestKey req = some key ↔ ∃ q, req.questions = [q] ∧ q.key = key := by
  unfold requestKey
  split
  · rename_i q hq
    simp [hq]
  · rename_i hne
    refine ⟨fun h => absurd h (by simp), fun h => ?_⟩
    obtain ⟨q, hq, -⟩ := h
    exact absurd hq (hne q)

/-- What a call replies to a probe that found something. -/
def Op.cachedReply : Op → Probe → Option DnsMessage
  | .query _ req _, p => p.msg.map (buildCachedReply req)
  | .peekCache _ req, p => p.msg.map (buildCachedReply req)
  | .peekCacheRaw _ data, .turbo msg => some (rawReply data msg)
  | .peekCacheRaw _ data, .fresh entry => some (rawReply data entry.msg)
  | .peekCacheRaw _ data, .stale entry => some (rawStaleReply data entry.msg)
  | _, _ => none

theorem query_reply_of_hit {s : CachingResolver} {env : Env} {req msg : DnsMessage}
    {q : DnsQuestion} (allowFanOut : Bool) (hq : req.questions = [q])
    (hmsg : (s.probe env q.key).msg = some msg) :
    (s.query env req allowFanOut).2 = .ok (some (buildCachedReply req msg)) ∧
      (s.query env req allowFanOut).1.cacheMisses = s.cacheMisses := by
  have henqueue : ∀ (s : CachingResolver) (key : CacheKey),
      (s.enqueueStaleRefresh key).cacheMisses = s.cacheMisses := by
    intro s key
    unfold enqueueStaleRefresh
    split <;> rfl
  simp only [query, hq, probe_track]
  cases hp : s.probe env q.key with
  | turbo m =>
    rw [hp, Probe.msg, Option.some.injEq] at hmsg
    rw [← hmsg]
    exact ⟨rfl, rfl⟩
  | fresh entry =>
    rw [hp, Probe.msg, Option.some.injEq] at hmsg
    rw [← hmsg]
    exact ⟨rfl, rfl⟩
  | stale entry =>
    rw [hp, Probe.msg, Option.some.injEq] at hmsg
    rw [← hmsg]
    exact ⟨rfl, henqueue _ _⟩
  | miss =>
    rw [hp] at hmsg
    cases hmsg

/-- A query that misses returns a local SERVFAIL, or what the resolver behind replied, with
the lifetime it is stored for if it is stored. -/
theorem query_reply_of_miss {s : CachingResolver} {env : Env} {req : DnsMessage}
    {q : DnsQuestion} (allowFanOut : Bool) (hq : req.questions = [q])
    (hmiss : s.probe env q.key = .miss) :
    (s.query env req allowFanOut).2 =
      match env.back req env.fanOutEnabled with
      | .error e => .error e
      | .ok none =>
        .ok (some (clobberTTL (DnsMessage.createError req DnsRcode.ServFail) (failureTTL env)))
      | .ok (some u) =>
        .ok (some (if shouldCache q u then clobberTTL u (storeTTL env u) else u)) := by
  simp only [query, hq, probe_track, hmiss]
  cases env.back req env.fanOutEnabled with
  | error e => rfl
  | ok r =>
    cases r with
    | none =>
      simp only [storeFailure]
      split <;> rfl
    | some u =>
      simp only [storeReply]
      split <;> rfl

/-- A query that stores a reply returns what it stores. -/
theorem query_reply_of_store {s : CachingResolver} {env : Env} {req u : DnsMessage}
    {q : DnsQuestion} (allowFanOut : Bool) (hq : req.questions = [q])
    (hmiss : s.probe env q.key = .miss) (hback : env.back req env.fanOutEnabled = .ok (some u))
    (hcache : shouldCache q u = true) :
    (s.query env req allowFanOut).2 = .ok (some (clobberTTL u (storeTTL env u))) := by
  rw [query_reply_of_miss allowFanOut hq hmiss, hback]
  simp only [hcache, if_true]

theorem peekCache_reply {s : CachingResolver} {env : Env} {req : DnsMessage} {q : DnsQuestion}
    (hq : req.questions = [q]) :
    (s.peekCache env req).2 = (s.probe env q.key).msg.map (buildCachedReply req) := by
  simp only [peekCache, hq]
  cases s.probe env q.key with
  | turbo m => rfl
  | fresh entry => rfl
  | stale entry => rfl
  | miss => rfl

/-- The reply of `peekCache` depends on the state through its probes only. -/
theorem peekCache_reply_congr {s s' : CachingResolver} {env : Env}
    (h : ∀ key, s'.probe env key = s.probe env key) (req : DnsMessage) :
    (s'.peekCache env req).2 = (s.peekCache env req).2 := by
  by_cases hone : ∃ q, req.questions = [q]
  · obtain ⟨q, hq⟩ := hone
    rw [peekCache_reply hq, peekCache_reply hq, h]
  · have hnone : ∀ s : CachingResolver, (s.peekCache env req).2 = none := by
      intro s
      unfold peekCache
      split
      · rename_i q hq
        exact absurd ⟨q, hq⟩ hone
      · rfl
    rw [hnone, hnone]

theorem peekCacheRaw_reply {s : CachingResolver} {env : Env} {data : Bytes} {key : CacheKey}
    (hkey : rawKey data = some key) :
    (s.peekCacheRaw env data).2 = (Op.peekCacheRaw env data).cachedReply (s.probe env key) := by
  simp only [peekCacheRaw, hkey]
  cases s.probe env key with
  | turbo m => rfl
  | fresh entry => rfl
  | stale entry => rfl
  | miss => rfl

/-- A call that finds its key replies with what it found. -/
theorem reply_eq_cachedReply {s : CachingResolver} {op : Op} {env : Env} {key : CacheKey}
    {msg : DnsMessage} (hlookup : op.lookup = some (env, key))
    (hmsg : (s.probe env key).msg = some msg) :
    op.reply s = op.cachedReply (s.probe env key) := by
  cases op with
  | query env' req allowFanOut =>
    simp only [Op.lookup, Option.map_eq_some_iff, Prod.mk.injEq] at hlookup
    obtain ⟨_, hkey, rfl, rfl⟩ := hlookup
    obtain ⟨q, hq, rfl⟩ := requestKey_eq_some_iff.mp hkey
    rw [Op.reply, (query_reply_of_hit allowFanOut hq hmsg).1, Op.cachedReply, hmsg]
    rfl
  | peekCache env' req =>
    simp only [Op.lookup, Option.map_eq_some_iff, Prod.mk.injEq] at hlookup
    obtain ⟨_, hkey, rfl, rfl⟩ := hlookup
    obtain ⟨q, hq, rfl⟩ := requestKey_eq_some_iff.mp hkey
    exact peekCache_reply hq
  | peekCacheRaw env' data =>
    simp only [Op.lookup, Option.map_eq_some_iff, Prod.mk.injEq] at hlookup
    obtain ⟨_, hkey, rfl, rfl⟩ := hlookup
    exact peekCacheRaw_reply hkey
  | refreshEntry env' key' question => cases hlookup
  | gcCache env' => cases hlookup
  | flushCache => cases hlookup
  | loadCache now file => cases hlookup

/-! ## The same records on every path -/

/-- `query` answers from the cache when it counts no miss. -/
def AnswersFromCache (s : CachingResolver) (env : Env) (req : DnsMessage) (allowFanOut : Bool) :
    Prop :=
  (s.query env req allowFanOut).1.cacheMisses = s.cacheMisses

def SameSections (r r' : DnsMessage) : Prop :=
  r.answers = r'.answers ∧ r.authorities = r'.authorities ∧ r.additionals = r'.additionals

/-- The header counts of the three record sections are their sizes. -/
def Counted (r : DnsMessage) : Prop :=
  r.header.ancount.toNat = r.answers.length ∧ r.header.nscount.toNat = r.authorities.length ∧
    r.header.arcount.toNat = r.additionals.length

/-- The three calls decide alike, and when they find the key their replies carry the
same records under counts that fit. -/
structure SameRecords (s : CachingResolver) (env : Env) (req : DnsMessage) (allowFanOut : Bool)
    (data : Bytes) : Prop where
  peek : (s.peekCache env req).2.isSome = true ↔ s.AnswersFromCache env req allowFanOut
  raw : (s.peekCacheRaw env data).2.isSome = true ↔ s.AnswersFromCache env req allowFanOut
  records : s.AnswersFromCache env req allowFanOut →
    ∃ r₁ r₂ r₃, (s.query env req allowFanOut).2 = .ok (some r₁) ∧
      (s.peekCache env req).2 = some r₂ ∧ (s.peekCacheRaw env data).2 = some r₃ ∧
      SameSections r₁ r₂ ∧ SameSections r₁ r₃ ∧ Counted r₁ ∧ Counted r₂ ∧ Counted r₃

/-- Each section has a size that a 16-bit count can hold. -/
def Countable (msg : DnsMessage) : Prop :=
  msg.answers.length < 65536 ∧ msg.authorities.length < 65536 ∧ msg.additionals.length < 65536

theorem toNat_ofNat_eq_iff (n : Nat) : (UInt16.ofNat n).toNat = n ↔ n < 65536 := by
  rw [UInt16.toNat_ofNat']
  constructor
  · intro h
    rw [← h]
    exact Nat.mod_lt _ (by decide)
  · exact Nat.mod_eq_of_lt

theorem counted_buildCachedReply_iff (req msg : DnsMessage) :
    Counted (buildCachedReply req msg) ↔ Countable msg := by
  simp only [Counted, buildCachedReply, toNat_ofNat_eq_iff]
  exact Iff.rfl

theorem counted_rawReply_iff (data : Bytes) (msg : DnsMessage) :
    Counted (rawReply data msg) ↔ Countable msg := by
  simp only [Counted, rawReply, toNat_ofNat_eq_iff]
  exact Iff.rfl

@[simp] theorem cacheMisses_storeFailure (s : CachingResolver) (env : Env) (key : CacheKey)
    (req : DnsMessage) : (s.storeFailure env key req).1.cacheMisses = s.cacheMisses := by
  unfold storeFailure
  split <;> rfl

@[simp] theorem cacheMisses_storeReply (s : CachingResolver) (env : Env) (key : CacheKey)
    (reply : DnsMessage) : (s.storeReply env key reply).1.cacheMisses = s.cacheMisses := rfl

/-- A miss is counted, whatever the resolver behind does. -/
theorem not_answersFromCache_of_miss {s : CachingResolver} {env : Env} {req : DnsMessage}
    {q : DnsQuestion} (allowFanOut : Bool) (hq : req.questions = [q])
    (hmiss : s.probe env q.key = .miss) : ¬s.AnswersFromCache env req allowFanOut := by
  have hcount : (s.query env req allowFanOut).1.cacheMisses = s.cacheMisses + 1 := by
    simp only [query, hq, probe_track, hmiss]
    cases env.back req env.fanOutEnabled with
    | error e => rfl
    | ok r =>
      cases r with
      | none => exact cacheMisses_storeFailure _ _ _ _
      | some reply =>
        by_cases hcache : shouldCache q reply = true
        · simp only [hcache, if_true]
          exact cacheMisses_storeReply _ _ _ _
        · simp only [hcache]
          rfl
  rw [AnswersFromCache, hcount]
  omega

/-- What the raw reply to a stale entry has lost. -/
theorem sameSections_rawStaleReply_iff (req : DnsMessage) (data : Bytes) (msg : DnsMessage) :
    SameSections (buildCachedReply req msg) (rawStaleReply data msg) ↔
      msg.authorities = [] ∧ msg.additionals = [] := by
  constructor
  · intro h
    exact ⟨h.2.1, h.2.2⟩
  · intro h
    exact ⟨rfl, h.1, h.2⟩

theorem counted_rawStaleReply {data : Bytes} {msg : DnsMessage} (h : Countable msg) :
    Counted (rawStaleReply data msg) :=
  ⟨(toNat_ofNat_eq_iff _).mpr h.1, rfl, rfl⟩

/-- What the probe found can be served alike on every path: the counts can hold its
sections, and if it is stale it has no records outside the answer section. -/
structure ServedAlike (s : CachingResolver) (env : Env) (key : CacheKey) : Prop where
  countable : ∀ msg, (s.probe env key).msg = some msg → Countable msg
  stale : ∀ entry, s.probe env key = .stale entry →
    entry.msg.authorities = [] ∧ entry.msg.additionals = []

theorem sameRecords_of_miss {s : CachingResolver} {env : Env} {req : DnsMessage}
    {q : DnsQuestion} {data : Bytes} (allowFanOut : Bool) (hq : req.questions = [q])
    (hraw : rawKey data = some q.key) (hmiss : s.probe env q.key = .miss) :
    s.SameRecords env req allowFanOut data := by
  have hquery := not_answersFromCache_of_miss allowFanOut hq hmiss
  refine ⟨?_, ?_, fun h => absurd h hquery⟩
  · rw [peekCache_reply hq, hmiss]
    exact iff_of_false Bool.false_ne_true hquery
  · rw [peekCacheRaw_reply hraw, hmiss]
    exact iff_of_false Bool.false_ne_true hquery

/-- With the key in the cache the three calls agree up to what their replies carry. -/
theorem sameRecords_of_hit_iff {s : CachingResolver} {env : Env} {req msg r : DnsMessage}
    {q : DnsQuestion} {data : Bytes} (allowFanOut : Bool) (hq : req.questions = [q])
    (hraw : rawKey data = some q.key) (hmsg : (s.probe env q.key).msg = some msg)
    (hreply : (Op.peekCacheRaw env data).cachedReply (s.probe env q.key) = some r) :
    s.SameRecords env req allowFanOut data ↔
      Countable msg ∧ SameSections (buildCachedReply req msg) r ∧ Counted r := by
  obtain ⟨hquery, hcount⟩ := query_reply_of_hit allowFanOut hq hmsg
  have hpeek : (s.peekCache env req).2 = some (buildCachedReply req msg) := by
    rw [peekCache_reply hq, hmsg]
    rfl
  have hpeekRaw : (s.peekCacheRaw env data).2 = some r := (peekCacheRaw_reply hraw).trans hreply
  constructor
  · intro h
    obtain ⟨r₁, r₂, r₃, h₁, h₂, h₃, -, hsame, hcounted, -, hcounted'⟩ := h.records hcount
    rw [hquery, Except.ok.injEq, Option.some.injEq] at h₁
    rw [hpeekRaw, Option.some.injEq] at h₃
    rw [← h₁] at hsame hcounted
    rw [← h₃] at hsame hcounted'
    exact ⟨(counted_buildCachedReply_iff req msg).mp hcounted, hsame, hcounted'⟩
  · intro h
    obtain ⟨hcountable, hsame, hcounted⟩ := h
    have hbuilt := (counted_buildCachedReply_iff req msg).mpr hcountable
    refine ⟨?_, ?_, fun _ => ⟨_, _, _, hquery, hpeek, hpeekRaw, ⟨rfl, rfl, rfl⟩, hsame, hbuilt,
      hbuilt, hcounted⟩⟩
    · rw [hpeek]
      exact iff_of_true rfl hcount
    · rw [hpeekRaw]
      exact iff_of_true rfl hcount

theorem servedAlike_iff_of_hit {s : CachingResolver} {env : Env} {key : CacheKey}
    {msg : DnsMessage} (hmsg : (s.probe env key).msg = some msg) :
    s.ServedAlike env key ↔ Countable msg ∧ ∀ entry, s.probe env key = .stale entry →
      entry.msg.authorities = [] ∧ entry.msg.additionals = [] := by
  constructor
  · intro h
    exact ⟨h.countable msg hmsg, h.stale⟩
  · intro h
    refine ⟨fun m hm => ?_, h.2⟩
    rw [hmsg, Option.some.injEq] at hm
    rw [← hm]
    exact h.1

/-- What `peekCacheRaw` finds fresh it serves with all sections. -/
theorem sameRecords_iff_of_rawReply {s : CachingResolver} {env : Env} {req msg : DnsMessage}
    {q : DnsQuestion} {data : Bytes} (allowFanOut : Bool) (hq : req.questions = [q])
    (hraw : rawKey data = some q.key) (hmsg : (s.probe env q.key).msg = some msg)
    (hreply : (Op.peekCacheRaw env data).cachedReply (s.probe env q.key) =
      some (rawReply data msg)) (hfresh : ∀ entry, s.probe env q.key ≠ .stale entry) :
    s.SameRecords env req allowFanOut data ↔ s.ServedAlike env q.key := by
  rw [sameRecords_of_hit_iff allowFanOut hq hraw hmsg hreply, servedAlike_iff_of_hit hmsg,
    counted_rawReply_iff]
  constructor
  · intro h
    exact ⟨h.1, fun entry he => absurd he (hfresh entry)⟩
  · intro h
    exact ⟨h.1, ⟨rfl, rfl, rfl⟩, h.1⟩

/-- The three calls serve the same records exactly when what they find can be served
alike. -/
theorem sameRecords_iff {s : CachingResolver} {env : Env} {req : DnsMessage} {q : DnsQuestion}
    {data : Bytes} (allowFanOut : Bool) (hq : req.questions = [q])
    (hraw : rawKey data = some q.key) :
    s.SameRecords env req allowFanOut data ↔ s.ServedAlike env q.key := by
  cases hp : s.probe env q.key with
  | turbo msg =>
    have hmsg : (s.probe env q.key).msg = some msg := congrArg Probe.msg hp
    refine sameRecords_iff_of_rawReply allowFanOut hq hraw hmsg (congrArg _ hp) fun entry he => ?_
    rw [hp] at he
    cases he
  | fresh entry =>
    have hmsg : (s.probe env q.key).msg = some entry.msg := congrArg Probe.msg hp
    refine sameRecords_iff_of_rawReply allowFanOut hq hraw hmsg (congrArg _ hp) fun _ he => ?_
    rw [hp] at he
    cases he
  | stale entry =>
    have hmsg : (s.probe env q.key).msg = some entry.msg := congrArg Probe.msg hp
    rw [sameRecords_of_hit_iff allowFanOut hq hraw hmsg (congrArg _ hp),
      servedAlike_iff_of_hit hmsg, sameSections_rawStaleReply_iff, hp]
    constructor
    · intro h
      refine ⟨h.1, fun entry' he => ?_⟩
      cases he
      exact h.2.1
    · intro h
      exact ⟨h.1, h.2 entry rfl, counted_rawStaleReply h.1⟩
  | miss =>
    refine iff_of_true (sameRecords_of_miss allowFanOut hq hraw hp) ⟨?_, ?_⟩
    · intro m hm
      rw [hp] at hm
      cases hm
    · intro entry he
      rw [hp] at he
      cases he

/-- A query for the name `a`, type A, and a cache that answers it with a delegation. -/
def delegatedQuery : Bytes :=
  [0, 0, 1, 0, 0, 1, 0, 0, 0, 0, 0, 0, 1, 0x61, 0, 0, 1, 0, 1]

def delegatedQuestion : DnsQuestion := { qname := [0x61], qtype := DnsType.A, qclass := 1 }

def delegation : DnsMessage :=
  { header := { flags := 0x8180, qdcount := 1, nscount := 1 },
    questions := [delegatedQuestion],
    authorities := [{ name := [0x61], type := DnsType.NS, rclass := 1, ttl := 600,
                      rdata := [1, 0x62, 0] }] }

def delegationCache (expiresAt : Int) : CachingResolver :=
  { cache := (∅ : Cache).insert delegatedQuestion.key { msg := delegation, ttl := 600, expiresAt } }

theorem rawKey_delegatedQuery : rawKey delegatedQuery = some delegatedQuestion.key := by
  decide +kernel

/-- Before its expiry the delegation is the same on every path. -/
theorem freshDelegation_sameRecords :
    (delegationCache (seconds 600)).SameRecords denyingEnv (DnsMessage.createQuery [0x61] 1) true
      delegatedQuery := by
  have hfresh : (delegationCache (seconds 600)).probe denyingEnv delegatedQuestion.key =
      .fresh { msg := delegation, ttl := 600, expiresAt := seconds 600 } := rfl
  refine (sameRecords_iff (q := delegatedQuestion) true rfl rawKey_delegatedQuery).mpr ?_
  refine (servedAlike_iff_of_hit (congrArg Probe.msg hfresh)).mpr ⟨?_, fun entry he => ?_⟩
  · exact ⟨by decide, by decide, by decide⟩
  · rw [hfresh] at he
    cases he

/-- After it, the raw path leaves the delegation out. -/
theorem staleDelegation_not_sameRecords :
    ¬(delegationCache 0).SameRecords denyingEnv (DnsMessage.createQuery [0x61] 1) true
      delegatedQuery := by
  intro h
  have hcount : (delegationCache 0).AnswersFromCache denyingEnv (DnsMessage.createQuery [0x61] 1)
      true := by
    show _ = _
    decide +kernel
  obtain ⟨r₁, r₂, r₃, h₁, -, h₃, -, hsame, -⟩ := h.records hcount
  have hquery : ((delegationCache 0).query denyingEnv (DnsMessage.createQuery [0x61] 1) true).2 =
      .ok (some (buildCachedReply (DnsMessage.createQuery [0x61] 1) delegation)) := by
    decide +kernel
  have hraw : ((delegationCache 0).peekCacheRaw denyingEnv delegatedQuery).2 =
      some (rawStaleReply delegatedQuery delegation) := by
    decide +kernel
  rw [hquery, Except.ok.injEq, Option.some.injEq] at h₁
  rw [hraw, Option.some.injEq] at h₃
  rw [← h₁, ← h₃] at hsame
  cases hsame.2.1

end CachingResolver
end Dnss
