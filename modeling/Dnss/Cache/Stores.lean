/-
What enters L2.

A reply is stored when `shouldCache` admits it.  `shouldCache_eq_true_iff` reads the
test as two conditions: the reply echoes the question, and it has one of the four
outcomes.  Two things do not count: the class of the echoed question, and whether the
outcome is worth keeping.

`failedRefresh_keeps_iff` and `staysKeyCoherent_iff` say what follows.  A refresh that
fails with an error message replaces a good answer by it; and a message lies under
its own key exactly as long as the upstreams echo the class they were asked for.
-/
import Dnss.Cache.Runs
import Dnss.Upstream.SystemResolver

namespace Dnss
namespace CachingResolver

open Machine

/-! ## Admission -/

/-- The reply answers the question, as far as `shouldCache` compares the two. -/
structure Echoes (question : DnsQuestion) (reply : DnsMessage) : Prop where
  response : reply.header.qr = true
  standard : reply.header.opcode = 0
  complete : reply.header.tc = false
  question : ∃ q, reply.questions = [q] ∧ q.qname = question.qname ∧ q.qtype = question.qtype

/-- One of the outcomes that are kept: an error, or an answer that says something. -/
def Keepable (reply : DnsMessage) : Prop :=
  reply.header.rcode = DnsRcode.NXDomain ∨ reply.header.rcode = DnsRcode.ServFail ∨
    reply.header.rcode = DnsRcode.Refused ∨
    (reply.header.rcode = DnsRcode.NoError ∧ (reply.answers ≠ [] ∨ reply.authorities ≠ []))

theorem shouldCache_eq_true_iff {question : DnsQuestion} {reply : DnsMessage} :
    shouldCache question reply = true ↔ Echoes question reply ∧ Keepable reply := by
  unfold shouldCache Keepable
  constructor
  · intro h
    rw [Bool.and_eq_true, Bool.and_eq_true] at h
    obtain ⟨⟨hqr, hopcode⟩, hrest⟩ := h
    split at hrest
    · rename_i q hq
      simp only [Bool.and_eq_true, Bool.or_eq_true, Bool.not_eq_true', beq_iff_eq,
        List.isEmpty_eq_false_iff, or_assoc] at hrest
      obtain ⟨⟨⟨htc, hname⟩, htype⟩, houtcome⟩ := hrest
      exact ⟨⟨hqr, beq_iff_eq.mp hopcode, htc, q, hq, hname, htype⟩, houtcome⟩
    · cases hrest
  · intro h
    obtain ⟨⟨hqr, hopcode, htc, q, hq, hname, htype⟩, houtcome⟩ := h
    simp only [hqr, hopcode, htc, hq, hname, htype, Bool.and_eq_true, Bool.or_eq_true,
      Bool.not_eq_true', beq_iff_eq, List.isEmpty_eq_false_iff, or_assoc]
    exact ⟨⟨trivial, trivial⟩, ⟨⟨trivial, trivial⟩, trivial⟩, houtcome⟩

/-! ## Refreshes that fail -/

/-- The upstream has no answer: the attempt came back empty, or with a failure for a
reply. -/
inductive UpstreamFailed : Except Thrown (Option DnsMessage) → Prop where
  | null : UpstreamFailed (.ok none)
  | servFail {u : DnsMessage} (h : u.header.rcode = DnsRcode.ServFail) :
      UpstreamFailed (.ok (some u))
  | refused {u : DnsMessage} (h : u.header.rcode = DnsRcode.Refused) : UpstreamFailed (.ok (some u))

theorem UpstreamFailed.keepable {u : DnsMessage} (h : UpstreamFailed (.ok (some u))) :
    Keepable u ∧ u.header.rcode ≠ DnsRcode.NoError := by
  cases h with
  | servFail h =>
    refine ⟨Or.inr (Or.inl h), ?_⟩
    rw [h]
    decide
  | refused h =>
    refine ⟨Or.inr (Or.inr (Or.inl h)), ?_⟩
    rw [h]
    decide

theorem cache_refreshEntry_of_not_shouldCache {s : CachingResolver} {env : Env}
    {question : DnsQuestion} (key : CacheKey)
    (h : ∀ u, env.back (refreshQuery question) true = .ok (some u) →
      shouldCache question u = false) :
    (s.refreshEntry env key question).1.cache = s.cache := by
  unfold refreshEntry
  cases hback : env.back (refreshQuery question) true with
  | error e => rfl
  | ok r =>
    cases r with
    | none => rfl
    | some u => simp [h u hback]

/-- A failed refresh keeps a positive entry exactly when the failure does not come as
a reply that echoes the question. -/
theorem failedRefresh_keeps_iff {s : CachingResolver} {env : Env} {key : CacheKey}
    {question : DnsQuestion} {entry : CacheEntry} (hentry : s.cache.lookup key = some entry)
    (hpositive : entry.msg.header.rcode = DnsRcode.NoError)
    (hfailed : UpstreamFailed (env.back (refreshQuery question) true)) :
    (s.refreshEntry env key question).1.cache.lookup key = some entry ↔
      ∀ u, env.back (refreshQuery question) true = .ok (some u) → ¬Echoes question u := by
  constructor
  · intro hkept u hback hechoes
    rw [hback] at hfailed
    obtain ⟨hkeepable, hrcode⟩ := hfailed.keepable
    have hfetched : Fetched s (.refreshEntry env key question) key u
        (entryOf env u (storeTTL env u)) :=
      .refresh hback (shouldCache_eq_true_iff.mpr ⟨hechoes, hkeepable⟩) hentry
    have hnew : (s.refreshEntry env key question).1.cache.lookup key =
        some (entryOf env u (storeTTL env u)) := lookup_of_fetched hfetched
    rw [hkept, Option.some.injEq] at hnew
    -- The entry that was kept would have the RCODE of the failure.
    rw [hnew] at hpositive
    exact hrcode hpositive
  · intro hsilent
    rw [cache_refreshEntry_of_not_shouldCache]
    · exact hentry
    · intro u hback
      rw [Bool.eq_false_iff, ne_eq, shouldCache_eq_true_iff]
      exact fun h => hsilent u hback h.1

/-- A cache that knows the address of `a`. -/
def addressQuestion : DnsQuestion := { qname := [0x61], qtype := DnsType.A, qclass := 1 }

def addressEntry : CacheEntry :=
  { msg :=
      { header := { flags := 0x8180, qdcount := 1, ancount := 1 },
        questions := [addressQuestion],
        answers := [{ name := [0x61], type := DnsType.A, rclass := 1, ttl := 600,
                      rdata := [10, 0, 0, 1] }] },
    ttl := 600, expiresAt := seconds 600 }

def addressCache : CachingResolver :=
  { cache := (∅ : Cache).insert addressQuestion.key addressEntry }

theorem lookup_addressCache :
    addressCache.cache.lookup addressQuestion.key = some addressEntry :=
  AList.lookup_insert _

/-- Nothing outside the process answers. -/
def offlineNetwork : Network :=
  { getaddrinfo := fun _ => none, udp := fun _ _ => none, doh := fun _ _ => none,
    udpWorksLater := false }

/-- A system resolver with one name server and one DoH service. -/
def offlineResolver : SystemResolver :=
  { servers := [([0x31, 0x2E, 0x31, 0x2E, 0x31, 0x2E, 0x31], 53)], dohUrls := [[0x64]] }

def offlineEnv : Env := { denyingEnv with back := offlineResolver.asBack offlineNetwork }

/-- A null reply leaves the entry alone. -/
theorem nullRefresh_keeps :
    (addressCache.refreshEntry { denyingEnv with back := fun _ _ => .ok none } addressQuestion.key
      addressQuestion).1.cache.lookup addressQuestion.key = some addressEntry :=
  (failedRefresh_keeps_iff lookup_addressCache (by decide) .null).mpr
    (fun _ hback => by cases hback)

/-- A SERVFAIL that the system resolver made up replaces it. -/
theorem offlineRefresh_not_keeps :
    addressCache.cache.lookup addressQuestion.key = some addressEntry ∧
      addressEntry.msg.header.rcode = DnsRcode.NoError ∧
      UpstreamFailed (offlineEnv.back (refreshQuery addressQuestion) true) ∧
      (addressCache.refreshEntry offlineEnv addressQuestion.key
        addressQuestion).1.cache.lookup addressQuestion.key ≠ some addressEntry := by
  have hback : offlineEnv.back (refreshQuery addressQuestion) true =
      .ok (some (DnsMessage.createError (refreshQuery addressQuestion) DnsRcode.ServFail)) := by
    decide +kernel
  refine ⟨lookup_addressCache, by decide, ?_, by decide +kernel⟩
  rw [hback]
  exact .servFail (by decide)

/-! ## Messages under their own keys -/

/-- Every entry has one question, and its key is made of that question. -/
def KeyCoherent (cache : Cache) : Prop :=
  ∀ key entry, cache.lookup key = some entry → ∃ q, entry.msg.questions = [q] ∧ q.key = key

/-- Every state that the run reaches is coherent. -/
def StaysKeyCoherent (ops : List Op) : Prop :=
  ∀ before after, ops = before ++ after → KeyCoherent (run step {} before).cache

/-- A call that stores nothing but what the resolver behind sends.  A refresh asks the
question of its key, as the two threads that call it do. -/
def Op.FromUpstream : Op → Prop
  | .refreshEntry _ key question => question.key = key
  | .loadCache _ _ => False
  | _ => True

/-- Whatever the run stores has the class of the key it is stored under. -/
def ClassEchoed (ops : List Op) : Prop :=
  ∀ s op, Visits step {} ops s op → ∀ key u entry, Fetched s op key u entry →
    ∀ q ∈ u.questions, q.qclass = key.qclass

theorem Fetched.questions_eq {s : CachingResolver} {op : Op} {key : CacheKey} {u : DnsMessage}
    {entry : CacheEntry} (h : Fetched s op key u entry) : entry.msg.questions = u.questions := by
  cases h with
  | reply hq hmiss hback hcache => rfl
  | failure hq hmiss hback hroom => rfl
  | refresh hback hcache hold => rfl

theorem Echoes.exists_key {question : DnsQuestion} {reply : DnsMessage}
    (h : Echoes question reply)
    (hclass : ∀ q ∈ reply.questions, q.qclass = question.qclass) :
    ∃ q, reply.questions = [q] ∧ q.key = question.key := by
  obtain ⟨q, hq, hname, htype⟩ := h.question
  refine ⟨q, hq, ?_⟩
  have hc : q.qclass = question.qclass := hclass q (by rw [hq]; exact List.mem_singleton_self q)
  rw [DnsQuestion.key, DnsQuestion.key, hname, htype, hc]

/-- Name, type, and number of questions are those of the key by admission; only the
class is left to the upstream. -/
theorem Fetched.exists_key {s : CachingResolver} {op : Op} {key : CacheKey} {u : DnsMessage}
    {entry : CacheEntry} (h : Fetched s op key u entry) (hop : op.FromUpstream)
    (hclass : ∀ q ∈ u.questions, q.qclass = key.qclass) :
    ∃ q, entry.msg.questions = [q] ∧ q.key = key := by
  rw [h.questions_eq]
  cases h with
  | reply hq hmiss hback hcache =>
    exact (shouldCache_eq_true_iff.mp hcache).1.exists_key hclass
  | @failure env req allowFanOut q hq hmiss hback hroom =>
    exact ⟨q, hq, rfl⟩
  | @refresh env key question u old hback hcache hold =>
    have hkey : question.key = key := hop
    rw [← hkey] at hclass ⊢
    exact (shouldCache_eq_true_iff.mp hcache).1.exists_key hclass

theorem keyCoherent_step {s : CachingResolver} {op : Op} (hop : op.FromUpstream)
    (hclass : ∀ key u entry, Fetched s op key u entry → ∀ q ∈ u.questions, q.qclass = key.qclass)
    (h : KeyCoherent s.cache) : KeyCoherent (step s op).cache := by
  intro key entry hlookup
  rcases lookup_step hlookup with hold | ⟨u, hfetched⟩ | ⟨now, file, hload, -⟩
  · exact h key entry hold
  · exact hfetched.exists_key hop (hclass key u entry hfetched)
  · rw [hload] at hop
    exact hop.elim

theorem ClassEchoed.of_append {before after : List Op} (h : ClassEchoed (before ++ after)) :
    ClassEchoed before := by
  intro s op hvisit
  obtain ⟨first, rest, rfl, rfl⟩ := hvisit
  exact h _ op ⟨first, rest ++ after, by simp, rfl⟩

theorem keyCoherent_run {ops : List Op} (hops : ∀ op ∈ ops, op.FromUpstream)
    (hclass : ClassEchoed ops) : KeyCoherent (run step {} ops).cache := by
  refine run_past (P := fun as (s : CachingResolver) => (∀ op ∈ as, op.FromUpstream) →
    ClassEchoed as → KeyCoherent s.cache) ?_ ?_ ops hops hclass
  · intro _ _ key entry hlookup
    cases hlookup
  · intro as op ih hops hclass
    rw [List.forall_mem_append, List.forall_mem_singleton] at hops
    exact keyCoherent_step hops.2 (hclass _ op (visits_snoc as op)) (ih hops.1 hclass.of_append)

/-- Every entry stays under its own key throughout a run exactly when every reply that
the run stores echoes the class it was asked for. -/
theorem staysKeyCoherent_iff {ops : List Op} (hops : ∀ op ∈ ops, op.FromUpstream) :
    StaysKeyCoherent ops ↔ ClassEchoed ops := by
  constructor
  · intro h s op hvisit key u entry hfetched q hq
    obtain ⟨before, after, hops', rfl⟩ := hvisit
    have hcoherent := h (before ++ [op]) after (by simp [hops'])
    rw [run_snoc] at hcoherent
    obtain ⟨q', hquestions, hkey⟩ := hcoherent key entry (lookup_of_fetched hfetched)
    rw [← hfetched.questions_eq, hquestions, List.mem_singleton] at hq
    rw [hq, ← hkey]
    rfl
  · intro hclass before after hsplit
    rw [hsplit] at hops hclass
    rw [List.forall_mem_append] at hops
    exact keyCoherent_run hops.1 hclass.of_append

/-- A denial repeats the question it was asked. -/
theorem classEchoed_denyingQuery (key : CacheKey) : ClassEchoed [denyingQuery key] := by
  intro s op hvisit key' u entry hfetched q hq
  rw [List.mem_singleton.mp hvisit.mem, denyingQuery] at hfetched
  cases hfetched with
  | reply hquestion hmiss hback hcache =>
    rw [back_denyingEnv, Except.ok.injEq, Option.some.injEq] at hback
    rw [← hback] at hq
    rw [questions_createQuery, List.cons.injEq] at hquestion
    rw [← hquestion.1, List.mem_singleton.mp hq]
    rfl
  | failure hquestion hmiss hback hroom => cases hback

theorem denyingQuery_staysKeyCoherent :
    StaysKeyCoherent [denyingQuery { name := [0x61], type := 1, qclass := 1 }] :=
  (staysKeyCoherent_iff (fun op hop => by rw [List.mem_singleton.mp hop]; trivial)).mpr
    (classEchoed_denyingQuery _)

/-- An upstream that answers every question of class IN as one of class CH. -/
def chaosEnv : Env :=
  { denyingEnv with
    back := fun _ _ =>
      .ok (some (DnsMessage.createError (DnsMessage.createQuery [0x61] 1 3) DnsRcode.NXDomain)) }

def chaosQuery : List Op := [.query chaosEnv (DnsMessage.createQuery [0x61] 1) true]

theorem chaosQuery_not_staysKeyCoherent : ¬StaysKeyCoherent chaosQuery := by
  intro h
  have hlookup : (run step {} chaosQuery).cache.lookup { name := [0x61], type := 1, qclass := 1 } =
      some (entryOf chaosEnv (DnsMessage.createError (DnsMessage.createQuery [0x61] 1 3)
        DnsRcode.NXDomain) 300) := by
    decide +kernel
  obtain ⟨q, hq, hkey⟩ := h chaosQuery [] (by simp) _ _ hlookup
  have hclass : q.qclass = 3 := (congrArg DnsQuestion.qclass (List.head_eq_of_cons_eq hq)).symm
  have hclass' : q.qclass = 1 := congrArg CacheKey.qclass hkey
  rw [hclass] at hclass'
  cases hclass'

end CachingResolver
end Dnss
