/-
How long a failure is remembered.

`query` keeps a failed exchange for 30 to 60 seconds, and knows one by the null reply
of the resolver behind.  The system resolver has no null reply: when nothing answers
it makes a SERVFAIL, which the cache takes for an answer and keeps for the negative
TTL.  The tuner never gives a negative TTL below 300 seconds, so `failuresBrief_iff`
is short: failures are remembered briefly in the runs that store none.
-/
import Dnss.Cache.Stores
import Dnss.Tuning.Ttls

namespace Dnss
namespace CachingResolver

open Machine

/-- What a call asks the resolver behind, if it comes to that. -/
def Op.request : Op → Option (Env × DnsMessage)
  | .query env req _ => some (env, req)
  | .refreshEntry env _ question => some (env, refreshQuery question)
  | _ => none

/-- The resolver behind is a system resolver, and none of its strategies has a reply to
the call's request. -/
def Op.Unanswered (op : Op) (env : Env) (req : DnsMessage) : Prop :=
  op.request = some (env, req) ∧
    ∃ (r : SystemResolver) (net : Network), r.Behind net env.back ∧ r.NoReply net req

/-- A tier holds `msg` under the hash `h` until `e`. -/
def HeldUntil (s : CachingResolver) (h : UInt64) (msg : DnsMessage) (e : Int) : Prop :=
  (∃ key entry, s.cache.lookup key = some entry ∧ turboHash key = h ∧ entry.msg = msg ∧
    entry.expiresAt = e) ∨ HoldsUntil s.turbo h msg e

/-- After a call that stored a failure, both tiers hold it for at most 60 seconds from the call,
up to the moment at which the same message is stored under its hash once more. -/
def FailuresBrief (ops : List Op) : Prop :=
  ∀ before op mid rest, ops = before ++ op :: (mid ++ rest) → ∀ env req, op.Unanswered env req →
    ∀ key u entry, Fetched (run step {} before) op key u entry →
      (∀ s op', Visits step (run step {} (before ++ [op])) mid s op' → ∀ key' entry',
        Enters s op' key' entry' → turboHash key' = turboHash key → entry'.msg ≠ entry.msg) →
      ∀ e, HeldUntil (run step {} (before ++ op :: mid)) (turboHash key) entry.msg e →
        e ≤ env.later + seconds 60

/-- A value that the tuner gives to `negativeTTL` at some time, the default included. -/
def TunerGives (negativeTTL : Int32) : Prop :=
  ∃ cycles, (AutoTuner.after cycles).negativeTTL = negativeTTL.toInt

/-- The calls of the run find values of the tuner. -/
def FindsTunerValues (ops : List Op) : Prop :=
  ∀ op ∈ ops, ∀ env req, op.request = some (env, req) → TunerGives env.negativeTTL

/-- The call stores an error that echoes its request: a query that misses, with a
plain request, or a refresh of a key that is in L2. -/
def Op.KeepsError (s : CachingResolver) : Op → Prop
  | .query env req _ =>
    req.header.opcode = 0 ∧ req.header.tc = false ∧
      ∃ q, req.questions = [q] ∧ s.probe env q.key = .miss
  | .refreshEntry _ key _ => ∃ old, s.cache.lookup key = some old
  | _ => False

/-! ## What is stored of a failure -/

theorem echoes_createError_iff {q : DnsQuestion} {req : DnsMessage} {rcode : UInt8}
    (hq : req.questions = [q]) :
    Echoes q (DnsMessage.createError req rcode) ↔
      req.header.opcode = 0 ∧ req.header.tc = false := by
  obtain ⟨hqr, hopcode, htc⟩ := DnsMessage.flags_createError req rcode
  constructor
  · intro h
    exact ⟨hopcode ▸ h.standard, htc ▸ h.complete⟩
  · intro h
    exact ⟨hqr, hopcode.trans h.1, htc.trans h.2, q, hq, rfl, rfl⟩

theorem rcode_servFail (req : DnsMessage) :
    (DnsMessage.createError req DnsRcode.ServFail).header.rcode = DnsRcode.ServFail := by
  rw [DnsMessage.rcode_createError]
  decide

theorem shouldCache_servFail_iff {q : DnsQuestion} {req : DnsMessage} (hq : req.questions = [q]) :
    shouldCache q (DnsMessage.createError req DnsRcode.ServFail) = true ↔
      req.header.opcode = 0 ∧ req.header.tc = false := by
  rw [shouldCache_eq_true_iff, echoes_createError_iff hq]
  exact and_iff_left (Or.inr (Or.inl (rcode_servFail req)))

theorem storeTTL_servFail (env : Env) (req : DnsMessage) :
    storeTTL env (DnsMessage.createError req DnsRcode.ServFail) = env.negativeTTL.toInt := by
  rw [storeTTL, if_pos (Or.inr (Or.inl (rcode_servFail req)))]

/-- The reply of a system resolver that has none. -/
theorem back_of_noReply {r : SystemResolver} {net : Network} {env : Env} {req : DnsMessage}
    (hbehind : r.Behind net env.back) (hnone : r.NoReply net req) (hquestions : req.questions ≠ [])
    (allowFanOut : Bool) :
    env.back req allowFanOut =
      .ok (some (DnsMessage.createError req DnsRcode.ServFail)) := by
  refine (hbehind req allowFanOut).1 _ ?_
  rw [hnone.query_eq_servFail hquestions]

/-- A call that keeps errors stores a failure, with the negative TTL for its lifetime. -/
theorem exists_fetched_of_keepsError {s : CachingResolver} {op : Op} {env : Env} {req : DnsMessage}
    (h : op.Unanswered env req) (hkeeps : op.KeepsError s) :
    ∃ key u, Fetched s op key u (entryOf env u env.negativeTTL.toInt) := by
  obtain ⟨hrequest, r, net, hbehind, hnone⟩ := h
  cases op with
  | query env' req' allowFanOut =>
    cases hrequest
    obtain ⟨hopcode, htc, q, hq, hmiss⟩ := hkeeps
    have hback := back_of_noReply hbehind hnone (by rw [hq]; exact List.cons_ne_nil q [])
      env.fanOutEnabled
    have hcache := (shouldCache_servFail_iff hq).mpr ⟨hopcode, htc⟩
    rw [← storeTTL_servFail env req]
    exact ⟨q.key, _, .reply hq hmiss hback hcache⟩
  | refreshEntry env' key question =>
    cases hrequest
    obtain ⟨old, hold⟩ := hkeeps
    have hback := back_of_noReply hbehind hnone (List.cons_ne_nil _ []) true
    have hquestions : (refreshQuery question).questions = [question] := rfl
    -- The header is the same for every question.
    have hheader : (refreshQuery question).header = (refreshQuery addressQuestion).header := rfl
    have hflags : (refreshQuery question).header.opcode = 0 ∧
        (refreshQuery question).header.tc = false := by
      rw [hheader]
      decide
    have hcache := (shouldCache_servFail_iff hquestions).mpr hflags
    rw [← storeTTL_servFail env (refreshQuery question)]
    exact ⟨key, _, .refresh hback hcache hold⟩
  | peekCache env' req' => cases hrequest
  | peekCacheRaw env' data => cases hrequest
  | gcCache env' => cases hrequest
  | flushCache => cases hrequest
  | loadCache now file => cases hrequest

/-- No other call stores one. -/
theorem keepsError_of_fetched {s : CachingResolver} {op : Op} {env : Env} {req : DnsMessage}
    {key : CacheKey} {u : DnsMessage} {entry : CacheEntry} (h : op.Unanswered env req)
    (hfetched : Fetched s op key u entry) :
    op.KeepsError s ∧ entry.expiresAt = env.later + seconds env.negativeTTL.toInt := by
  obtain ⟨hrequest, r, net, hbehind, hnone⟩ := h
  cases hfetched with
  | @reply env' req' _ allowFanOut q hq hmiss hback hcache =>
    cases hrequest
    rw [back_of_noReply hbehind hnone (by rw [hq]; exact List.cons_ne_nil q []), Except.ok.injEq,
      Option.some.injEq] at hback
    rw [← hback] at hcache ⊢
    obtain ⟨hopcode, htc⟩ := (shouldCache_servFail_iff hq).mp hcache
    refine ⟨⟨hopcode, htc, q, hq, hmiss⟩, ?_⟩
    rw [entryOf, storeTTL_servFail]
  | @failure env' req' allowFanOut q hq hmiss hback hroom =>
    cases hrequest
    rw [back_of_noReply hbehind hnone (by rw [hq]; exact List.cons_ne_nil q [])] at hback
    cases hback
  | @refresh env' key question u old hback hcache hold =>
    cases hrequest
    rw [back_of_noReply hbehind hnone (List.cons_ne_nil _ []), Except.ok.injEq,
      Option.some.injEq] at hback
    refine ⟨⟨old, hold⟩, ?_⟩
    rw [← hback, entryOf, storeTTL_servFail]

/-! ## Runs -/

theorem TunerGives.bounds {n : Int32} (h : TunerGives n) : 300 ≤ n.toInt ∧ n.toInt ≤ 3600 := by
  obtain ⟨cycles, hcycles⟩ := h
  rw [← hcycles]
  exact AutoTuner.negativeKept_after cycles

/-- What a call stores is in L2 after it. -/
theorem heldUntil_of_fetched {s : CachingResolver} {op : Op} {key : CacheKey} {u : DnsMessage}
    {entry : CacheEntry} (h : Fetched s op key u entry) :
    HeldUntil (step s op) (turboHash key) entry.msg entry.expiresAt :=
  Or.inl ⟨key, entry, lookup_of_fetched h, rfl, rfl, rfl⟩

/-- A failure that is stored is held too long at once. -/
theorem not_failuresBrief_of_keepsError {ops : List Op} (htuned : FindsTunerValues ops)
    {s : CachingResolver} {op : Op} (hvisit : Visits step {} ops s op) {env : Env} {req : DnsMessage}
    (h : op.Unanswered env req) (hkeeps : op.KeepsError s) : ¬FailuresBrief ops := by
  intro hbrief
  have hbounds := (htuned op hvisit.mem env req h.1).bounds
  obtain ⟨key, u, hfetched⟩ := exists_fetched_of_keepsError h hkeeps
  have hheld := heldUntil_of_fetched hfetched
  obtain ⟨before, after, rfl, rfl⟩ := hvisit
  have hnothing : ∀ s op', Visits step (run step {} (before ++ [op])) [] s op' → ∀ key' entry',
      Enters s op' key' entry' → turboHash key' = turboHash key →
        entry'.msg ≠ (entryOf env u env.negativeTTL.toInt).msg :=
    fun s op' hvisit => absurd hvisit (not_visits_nil s op')
  have hle := hbrief before op [] after rfl env req h key u _ hfetched hnothing
    (entryOf env u env.negativeTTL.toInt).expiresAt (by rw [run_snoc]; exact hheld)
  unfold entryOf seconds at hle
  dsimp only at hle
  omega

/-- In the runs with a negative TTL of the tuner, failures are held briefly exactly when none is
stored. -/
theorem failuresBrief_iff {ops : List Op} (htuned : FindsTunerValues ops) :
    FailuresBrief ops ↔
      ∀ s op, Visits step {} ops s op → ∀ env req, op.Unanswered env req → ¬op.KeepsError s := by
  constructor
  · intro hbrief s op hvisit env req h hkeeps
    exact not_failuresBrief_of_keepsError htuned hvisit h hkeeps hbrief
  · intro hnone before op mid rest hsplit env req h key u entry hfetched
    have hkeeps := (keepsError_of_fetched h hfetched).1
    exact absurd hkeeps (hnone _ op ⟨before, mid ++ rest, hsplit, rfl⟩ env req h)

/-- A query while nothing answers. -/
def offlineQuery (env : Env) : Op := .query env (refreshQuery addressQuestion) true

theorem unanswered_offlineQuery :
    (offlineQuery offlineEnv).Unanswered offlineEnv (refreshQuery addressQuestion) := by
  refine ⟨rfl, offlineResolver, offlineNetwork, SystemResolver.behind_asBack _ _, ?_⟩
  refine ⟨fun _ q qs _ => rfl, fun _ => ?_, ?_⟩
  · decide +kernel
  · decide +kernel

theorem tunerGives_default : TunerGives 300 := ⟨[], by decide⟩

theorem findsTunerValues_of_default {ops : List Op}
    (h : ∀ op ∈ ops, ∀ env req, op.request = some (env, req) → env.negativeTTL = 300) :
    FindsTunerValues ops := by
  intro op hop env req hrequest
  rw [h op hop env req hrequest]
  exact tunerGives_default

/-- A question is answered once and asked again while nothing answers. -/
def deniedThenOffline : List Op := [denyingQuery addressQuestion.key, offlineQuery offlineEnv]

theorem not_miss_offlineQuery :
    (step {} (denyingQuery addressQuestion.key)).probe offlineEnv addressQuestion.key ≠ .miss := by
  intro hmiss
  have hlookup := (probe_eq_miss hmiss).1
  rw [turbo_denyingQuery, turboLookup_turboInsert_self (by decide)] at hlookup
  cases hlookup

/-- The second query fails, and finds the answer of the first. -/
theorem deniedThenOffline_failuresBrief : FailuresBrief deniedThenOffline := by
  have htuned : FindsTunerValues deniedThenOffline := by
    refine findsTunerValues_of_default fun op hop env req hrequest => ?_
    rcases List.mem_pair.mp hop with rfl | rfl <;> (cases hrequest; rfl)
  refine (failuresBrief_iff htuned).mpr fun s op hvisit env req hunanswered hkeeps => ?_
  rcases visits_cons_iff.mp hvisit with ⟨rfl, rfl⟩ | hsecond
  · -- The first query is answered.
    obtain ⟨hrequest, r, net, hbehind, hnone⟩ := hunanswered
    cases hrequest
    have hback := back_of_noReply hbehind hnone (by decide) true
    cases hback
  · rcases visits_cons_iff.mp hsecond with ⟨rfl, rfl⟩ | hnil
    · have hrequest := hunanswered.1
      cases hrequest
      obtain ⟨-, -, q, hq, hmiss⟩ := hkeeps
      rw [← (List.cons.inj hq).1] at hmiss
      exact not_miss_offlineQuery hmiss
    · exact not_visits_nil s op hnil

/-- With the default of 300 seconds the failure stays for five minutes. -/
theorem offlineQuery_not_failuresBrief : ¬FailuresBrief [offlineQuery offlineEnv] := by
  refine not_failuresBrief_of_keepsError ?_ ⟨[], [], rfl, rfl⟩ unanswered_offlineQuery ?_
  · refine findsTunerValues_of_default fun op hop env req hrequest => ?_
    rw [List.mem_singleton.mp hop] at hrequest
    cases hrequest
    rfl
  · exact ⟨by decide, by decide, addressQuestion, rfl, probe_empty _ _⟩

end CachingResolver
end Dnss
