/-
The UDP receive loops of the server.

`udpWorkerBody` is one pass of the `while` loop of `udpWorker`, and `onUdpReceive`
the completion handler of the main socket.  They are two copies of one routine with
three branches: a hit in the cache is packed and sent, a miss is given to the
thread pool, and when the pool is full the request is resolved inline.  The calls
in them that throw are `parse`, `query`, and `pack`.

The copies differ in what stands inside a `try`.  The worker has none around the
inline `parse` and `pack`, the handler has one; neither has one around the `pack` of
a cached message.  `udpSurvives_iff` says for every datagram, cache, pool, and
resolver when both come to their end.
-/
import Dnss.Cache.Runs
import Dnss.Protocol.PackGrammar
import Dnss.Protocol.ParseSafety

namespace Dnss

/-- The calls of `resolver.hpp` that a receive loop makes. -/
structure Resolver where
  peekCacheRaw : Bytes → Option DnsMessage
  query : DnsMessage → Bool → Except Thrown (Option DnsMessage)

/-- A caching resolver in a given state, as the server sees it. -/
def CachingResolver.asResolver (s : CachingResolver) (env : Env) : Resolver :=
  { peekCacheRaw := fun data => (s.peekCacheRaw env data).2,
    query := fun req allowFanOut => (s.query env req allowFanOut).2 }

namespace DnsServer

/-! ## The receive loops -/

/-- What a receive loop finds: the result of the receive call, the decision of the
rate limiter, and the number of tasks waiting in the pool. -/
structure Arrival where
  error : Bool := false
  running : Bool := true
  data : Bytes
  allowed : Bool := true
  pending : Nat := 0

/-- How a pass ends: it comes to its end, an exception leaves it, or it reads
outside its buffer. -/
inductive Ending where
  | done
  | escapes (e : Thrown)
  | undefined
  deriving DecidableEq

structure Handled where
  ending : Ending := .done
  sent : Option Bytes := none
  enqueued : Bool := false
  queries : Nat := 0
  errors : Nat := 0
  deriving DecidableEq

def backpressureLimit : Nat := 300

def tryEnqueue (pending : Nat) : Bool := pending < backpressureLimit

/-- The inline resolution under backpressure: every exception of the resolver is
caught and becomes a SERVFAIL. -/
def inlineReply (res : Resolver) (req : DnsMessage) : DnsMessage :=
  match res.query req false with
  | .ok (some reply) => reply
  | _ => DnsMessage.createError req DnsRcode.ServFail

/-- Pack a reply and send it; `recordError` follows the send. -/
def sendReply (reply : DnsMessage) (h : Handled) : Handled :=
  match DnsMessage.pack reply with
  | .error e => { h with ending := .escapes (.runtimeError e) }
  | .ok wire =>
    { h with
      sent := some wire,
      errors := if reply.header.rcode = DnsRcode.NoError then h.errors else h.errors + 1 }

/-- Send a message found in the cache. -/
def sendCached (cached : DnsMessage) (h : Handled) : Handled :=
  match DnsMessage.pack cached with
  | .error e => { h with ending := .escapes (.runtimeError e) }
  | .ok wire => { h with sent := some wire }

/-- The backpressure branch, without its `try`. -/
def resolveInline (res : Resolver) (data : Bytes) (h : Handled) : Handled :=
  match DnsMessage.parse data with
  | .error (.thrown e) => { h with ending := .escapes (.runtimeError e) }
  | .error .outOfRange => { h with ending := .undefined }
  | .ok req => sendReply (inlineReply res req) h

/-- `catch (const std::exception&) {}`. -/
def catchStd (h : Handled) : Handled :=
  match h.ending with
  | .escapes (.runtimeError _) => { h with ending := .done }
  | .escapes .stdException => { h with ending := .done }
  | _ => h

/-- One pass of the loop of `udpWorker`. -/
def udpWorkerBody (res : Resolver) (a : Arrival) : Handled :=
  if a.error then {}
  else if a.data.length < 12 then {}
  else if !a.allowed then {}
  else
    match res.peekCacheRaw a.data with
    | some cached => sendCached cached {}
    | none =>
      if tryEnqueue a.pending then { enqueued := true, queries := 1 }
      else resolveInline res a.data { queries := 1 }

/-- One call of `onUdpReceive`, up to the `startUdpReceive` that ends it. -/
def onUdpReceive (res : Resolver) (a : Arrival) : Handled :=
  if a.error then {}
  else if !a.allowed then {}
  else
    match res.peekCacheRaw a.data with
    | some cached => sendCached cached { queries := 1 }
    | none =>
      if tryEnqueue a.pending then { enqueued := true, queries := 1 }
      else catchStd (resolveInline res a.data { queries := 1 })

/-- `startUdpReceive` is called: always at the end of the handler, except after an
error of a server that is stopping. -/
def armed (res : Resolver) (a : Arrival) : Bool :=
  (onUdpReceive res a).ending = .done && (!a.error || a.running)

/-! ## When they survive -/

theorem sendCached_ending_iff {cached : DnsMessage} {h : Handled} (hdone : h.ending = .done) :
    (sendCached cached h).ending = .done ↔ cached.Packable := by
  rw [← DnsMessage.exists_pack_iff, sendCached]
  cases DnsMessage.pack cached with
  | error e => simp
  | ok wire => simp [hdone]

theorem sendReply_ending_iff {reply : DnsMessage} {h : Handled} (hdone : h.ending = .done) :
    (sendReply reply h).ending = .done ↔ reply.Packable := by
  rw [← DnsMessage.exists_pack_iff, sendReply]
  cases DnsMessage.pack reply with
  | error e => simp
  | ok wire => simp [hdone]

/-- The inline reply to the message `w` can be packed: the resolver's reply, or the
SERVFAIL that repeats the questions of `w`. -/
def InlinePackable (res : Resolver) (w : Wire.Message) : Prop :=
  match res.query w.flatten false with
  | .ok (some reply) => reply.Packable
  | _ => ∀ q ∈ w.questions, Wire.Encodable q.labels

theorem packable_createError_flatten_iff {w : Wire.Message} {rcode : UInt8} :
    (DnsMessage.createError w.flatten rcode).Packable ↔
      ∀ q ∈ w.questions, Wire.Encodable q.labels := by
  have hrecords : (DnsMessage.createError w.flatten rcode).records = [] := rfl
  have hquestions : (DnsMessage.createError w.flatten rcode).questions =
      w.questions.map Wire.Question.flatten := rfl
  rw [DnsMessage.Packable, hrecords, hquestions, List.forall_mem_map]
  simp only [Wire.Question.flatten, DnsMessage.packableName_dotted_iff]
  simp

theorem packable_inlineReply_iff {res : Resolver} {w : Wire.Message} :
    (inlineReply res w.flatten).Packable ↔ InlinePackable res w := by
  unfold inlineReply InlinePackable
  cases res.query w.flatten false with
  | error e => exact packable_createError_flatten_iff
  | ok reply =>
    cases reply with
    | none => exact packable_createError_flatten_iff
    | some reply => exact Iff.rfl

theorem resolveInline_ending_iff {res : Resolver} {data : Bytes} {h : Handled}
    (hdone : h.ending = .done) :
    (resolveInline res data h).ending = .done ↔
      ∃ w, Wire.MessageAt data w ∧ InlinePackable res w := by
  unfold resolveInline
  cases hparse : DnsMessage.parse data with
  | error f =>
    have hnone : ¬∃ w, Wire.MessageAt data w ∧ InlinePackable res w := by
      intro hex
      obtain ⟨w, hw, -⟩ := hex
      rw [DnsMessage.parse_eq_ok_iff.mpr ⟨w, hw, rfl⟩] at hparse
      cases hparse
    cases f with
    | thrown e => simpa using hnone
    | outOfRange => simpa using hnone
  | ok req =>
    obtain ⟨w, hw, rfl⟩ := DnsMessage.parse_eq_ok_iff.mp hparse
    rw [sendReply_ending_iff hdone, packable_inlineReply_iff]
    refine ⟨fun hpack => ⟨w, hw, hpack⟩, fun hex => ?_⟩
    obtain ⟨w', hw', hpack⟩ := hex
    rwa [hw.functional hw']

/-- No record that `parse` reaches leads it outside the buffer. -/
def NoOverread (data : Bytes) : Prop :=
  ∀ p, DnsMessage.RecordReached data p → ¬DnsMessage.RecordOverread data p

theorem parse_ne_outOfRange_iff {data : Bytes} :
    DnsMessage.parse data ≠ .error .outOfRange ↔ NoOverread data := by
  rw [ne_eq, DnsMessage.parse_eq_outOfRange_iff]
  refine ⟨fun h p hp hover => h ⟨p, hp, hover⟩, fun h hex => ?_⟩
  obtain ⟨p, hp, hover⟩ := hex
  exact h p hp hover

/-- The handler's `try` turns everything but a read outside the buffer into a normal
end. -/
theorem catchStd_resolveInline_ending_iff {res : Resolver} {data : Bytes} {h : Handled}
    (hdone : h.ending = .done) :
    (catchStd (resolveInline res data h)).ending = .done ↔ NoOverread data := by
  rw [← parse_ne_outOfRange_iff]
  unfold resolveInline
  cases DnsMessage.parse data with
  | error f =>
    cases f with
    | thrown e => simp [catchStd]
    | outOfRange => simp [catchStd]
  | ok req =>
    simp only [sendReply]
    cases DnsMessage.pack (inlineReply res req) with
    | error e => simp [catchStd]
    | ok wire => simp [catchStd, hdone]

/-- One pass of the worker and one call of the handler come to their end on this
arrival, and the handler arms the next receive unless the server is stopping. -/
def UdpSurvives (res : Resolver) (a : Arrival) : Prop :=
  (udpWorkerBody res a).ending = .done ∧ (onUdpReceive res a).ending = .done ∧
    (a.running = true → armed res a = true)

/-- The condition for it.  A cached message must be packable.  With the pool full, a
datagram of at least twelve bytes must be a message whose inline reply is packable,
and no datagram may lead `parse` outside its buffer. -/
structure UdpSafe (res : Resolver) (a : Arrival) : Prop where
  cached : ∀ m, res.peekCacheRaw a.data = some m → m.Packable
  noOverread : res.peekCacheRaw a.data = none → backpressureLimit ≤ a.pending → NoOverread a.data
  message : res.peekCacheRaw a.data = none → backpressureLimit ≤ a.pending → 12 ≤ a.data.length →
    ∃ w, Wire.MessageAt a.data w ∧ InlinePackable res w

theorem udpWorkerBody_ending_iff {res : Resolver} {a : Arrival} (herror : a.error = false)
    (hallowed : a.allowed = true) :
    (udpWorkerBody res a).ending = .done ↔ (12 ≤ a.data.length →
      (∀ m, res.peekCacheRaw a.data = some m → m.Packable) ∧
        (res.peekCacheRaw a.data = none → backpressureLimit ≤ a.pending →
          ∃ w, Wire.MessageAt a.data w ∧ InlinePackable res w)) := by
  by_cases hlen : a.data.length < 12
  · have hshort : ¬12 ≤ a.data.length := by omega
    simp [udpWorkerBody, herror, hlen, hshort]
  · have hlong : 12 ≤ a.data.length := by omega
    simp only [udpWorkerBody, herror, hallowed, hlen, hlong]
    cases hpeek : res.peekCacheRaw a.data with
    | some m => simp [sendCached_ending_iff]
    | none =>
      by_cases hfull : a.pending < backpressureLimit
      · have hroom : ¬backpressureLimit ≤ a.pending := by omega
        simp [tryEnqueue, hfull, hroom]
      · have hle : backpressureLimit ≤ a.pending := by omega
        simp [tryEnqueue, hfull, hle, resolveInline_ending_iff]

theorem onUdpReceive_ending_iff {res : Resolver} {a : Arrival} (herror : a.error = false)
    (hallowed : a.allowed = true) :
    (onUdpReceive res a).ending = .done ↔
      (∀ m, res.peekCacheRaw a.data = some m → m.Packable) ∧
        (res.peekCacheRaw a.data = none → backpressureLimit ≤ a.pending →
          NoOverread a.data) := by
  simp only [onUdpReceive, herror, hallowed]
  cases hpeek : res.peekCacheRaw a.data with
  | some m => simp [sendCached_ending_iff]
  | none =>
    by_cases hfull : a.pending < backpressureLimit
    · have hroom : ¬backpressureLimit ≤ a.pending := by omega
      simp [tryEnqueue, hfull, hroom]
    · have hle : backpressureLimit ≤ a.pending := by omega
      simp [tryEnqueue, hfull, hle, catchStd_resolveInline_ending_iff]

/-- Both receivers survive an arrival exactly when the receive failed, the client is
over its limit, or the arrival is safe. -/
theorem udpSurvives_iff (res : Resolver) (a : Arrival) :
    UdpSurvives res a ↔ (a.error = false → a.allowed = true → UdpSafe res a) := by
  by_cases herror : a.error = true
  · simp [UdpSurvives, armed, udpWorkerBody, onUdpReceive, herror]
  · by_cases hallowed : a.allowed = true
    · rw [Bool.not_eq_true] at herror
      have harmed : (onUdpReceive res a).ending = .done → a.running = true →
          armed res a = true := by
        intro hdone _
        simp [armed, hdone, herror]
      rw [UdpSurvives, udpWorkerBody_ending_iff herror hallowed]
      constructor
      · intro h _ _
        obtain ⟨hworker, hhandler, -⟩ := h
        obtain ⟨hcached, hover⟩ := (onUdpReceive_ending_iff herror hallowed).mp hhandler
        exact ⟨hcached, hover, fun hpeek hfull hlen => (hworker hlen).2 hpeek hfull⟩
      · intro h
        have hsafe := h herror hallowed
        have hhandler := (onUdpReceive_ending_iff herror hallowed).mpr
          ⟨hsafe.cached, hsafe.noOverread⟩
        refine ⟨fun hlen => ⟨hsafe.cached, fun hpeek hfull => ?_⟩, hhandler, harmed hhandler⟩
        exact hsafe.message hpeek hfull hlen
    · simp [UdpSurvives, armed, udpWorkerBody, onUdpReceive, herror, hallowed]

/-- Twelve bytes that announce a question, received while 300 tasks wait. -/
def truncatedArrival : Arrival :=
  { data := [0, 7, 1, 0, 0, 1, 0, 0, 0, 0, 0, 0], pending := 300 }

theorem truncatedArrival_not_udpSurvives :
    ¬UdpSurvives (CachingResolver.asResolver {} CachingResolver.denyingEnv) truncatedArrival := by
  intro h
  have hescapes : (udpWorkerBody (CachingResolver.asResolver {} CachingResolver.denyingEnv)
      truncatedArrival).ending = .escapes (.runtimeError .truncatedName) := by
    decide +kernel
  rw [UdpSurvives, hescapes] at h
  cases h.1

end DnsServer
end Dnss
