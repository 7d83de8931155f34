/-
Where the server sends a request.

`handleQuery` is the task that the UDP loops give to the thread pool: it answers
`.local` names itself, sends names that an override covers to that server and
unqualified names to their own upstream, and everything else to the resolver.  The
inline resolution of the two UDP loops and the TCP task call the resolver at once.

A `Served` is a `Handled` together with the destination that was chosen.
`routesAlike_iff` says for every configuration and request when the choice does not
depend on the transport or on the load: exactly when `handleQuery` has no use for
its rules.
-/
import Dnss.Server.DomainMap
import Dnss.Server.Udp

namespace Dnss
namespace DnsServer

inductive Destination where
  | localNXDomain
  | override (addr : Bytes)
  | unqualified (addr : Bytes)
  | resolver
  deriving DecidableEq

structure Served extends Handled where
  destination : Option Destination := none
  deriving DecidableEq

/-- The configured server and the network around it: `net host port wire` is the
datagram that comes back within the time limit, if one does. -/
structure Server where
  res : Resolver
  overrides : DomainMap
  unqUpstream : Bytes
  net : Bytes → Bytes → Bytes → Option Bytes

/-! ## The pool task -/

def colon : UInt8 := 0x3A

/-- Host and port of an address; the port is 53 when there is no colon. -/
def splitAddr (addr : Bytes) : Bytes × Bytes :=
  match addr.idxOf? colon with
  | some i => (addr.take i, addr.drop (i + 1))
  | none => (addr, [0x35, 0x33])

/-- A datagram is cut to the receive buffer of 4096 bytes. -/
def udpQueryRaw (net : Bytes → Bytes → Bytes → Option Bytes) (host port wire : Bytes)
    (origId : UInt16) : Except Fault (Option DnsMessage) :=
  match net host port wire with
  | none => .ok none
  | some resp =>
    let resp := resp.take 4096
    if resp.length < 12 then .ok none
    else
      match DnsMessage.parse resp with
      | .error f => .error f
      | .ok reply => .ok (some { reply with header := { reply.header with id := origId } })

/-- `.local`. -/
def localSuffix : Bytes := [0x2E, 0x6C, 0x6F, 0x63, 0x61, 0x6C]

def isLocal (qname : Bytes) : Bool :=
  localSuffix.length ≤ qname.length &&
    qname.drop (qname.length - localSuffix.length) == localSuffix

/-- A name with at most one dot, or whose first dot is its last byte. -/
def isUnq (qname : Bytes) : Bool :=
  match qname.idxOf? dot with
  | none => true
  | some i => (qname.drop (i + 1)).idxOf? dot == none || i == qname.length - 1

/-- The end of `handleQuery`: an exception of `pack` is caught and logged. -/
def post (reply : DnsMessage) (s : Served) : Served :=
  match DnsMessage.pack reply with
  | .error _ => s
  | .ok wire => { s with sent := some wire }

/-- Send the request on to the server at `addr`; a failure is a SERVFAIL. -/
def forward (srv : Server) (addr : Bytes) (req : DnsMessage) (s : Served) : Served :=
  let failed := post (DnsMessage.createError req DnsRcode.ServFail) { s with errors := s.errors + 1 }
  match DnsMessage.pack req with
  | .error _ => failed
  | .ok wire =>
    match udpQueryRaw srv.net (splitAddr addr).1 (splitAddr addr).2 wire req.header.id with
    | .error (.thrown _) => failed
    | .error .outOfRange => { s with ending := .undefined }
    | .ok none => failed
    | .ok (some reply) => post reply s

/-- Ask the resolver; an exception is caught and logged. -/
def resolve (res : Resolver) (req : DnsMessage) (s : Served) : Served :=
  match res.query req true with
  | .error _ => s
  | .ok none => post (DnsMessage.createError req DnsRcode.ServFail) s
  | .ok (some reply) => post reply s

def handleQuery (srv : Server) (data : Bytes) : Served :=
  match DnsMessage.parse data with
  | .error (.thrown _) => {}
  | .error .outOfRange => { ending := .undefined }
  | .ok req =>
    match req.questions with
    | [] => {}
    | q :: _ =>
      if isLocal q.qname then
        post (DnsMessage.createError req DnsRcode.NXDomain) { destination := some .localNXDomain }
      else
        match srv.overrides.getMostSpecific q.qname with
        | some addr => forward srv addr req { destination := some (.override addr) }
        | none =>
          if srv.unqUpstream ≠ [] then
            if isUnq q.qname then
              forward srv srv.unqUpstream req { destination := some (.unqualified srv.unqUpstream) }
            else resolve srv.res req { destination := some .resolver }
          else resolve srv.res req { destination := some .resolver }

/-! ## The other paths -/

/-- `resolveInline` with its destination. -/
def resolveInlineServed (res : Resolver) (data : Bytes) (h : Handled) : Served :=
  { toHandled := resolveInline res data h,
    destination :=
      match DnsMessage.parse data with
      | .error _ => none
      | .ok _ => some .resolver }

/-- One pass of `udpWorker`, together with the task it may queue. -/
def udpWorkerServed (srv : Server) (a : Arrival) : Served :=
  if a.error then {}
  else if a.data.length < 12 then {}
  else if !a.allowed then {}
  else
    match srv.res.peekCacheRaw a.data with
    | some cached => { toHandled := sendCached cached {} }
    | none =>
      if tryEnqueue a.pending then
        { enqueued := true, queries := 1, destination := (handleQuery srv a.data).destination }
      else resolveInlineServed srv.res a.data { queries := 1 }

/-- One call of `onUdpReceive`, together with the task it may queue. -/
def onUdpReceiveServed (srv : Server) (a : Arrival) : Served :=
  if a.error then {}
  else if !a.allowed then {}
  else
    match srv.res.peekCacheRaw a.data with
    | some cached => { toHandled := sendCached cached { queries := 1 } }
    | none =>
      if tryEnqueue a.pending then
        { enqueued := true, queries := 1, destination := (handleQuery srv a.data).destination }
      else
        let s := resolveInlineServed srv.res a.data { queries := 1 }
        { s with toHandled := catchStd s.toHandled }

def tcpBackpressureLimit : Nat := 512

/-- The two length bytes and the message. -/
def tcpFrame (wire : Bytes) : Bytes := writeU16 (UInt16.ofNat wire.length) ++ wire

/-- The SERVFAIL of the TCP path; no exception leaves it. -/
def tcpServFail (req : DnsMessage) (s : Served) : Served :=
  match DnsMessage.pack (DnsMessage.createError req DnsRcode.ServFail) with
  | .error _ => s
  | .ok wire => { s with sent := some (tcpFrame wire) }

def tcpSend (req reply : DnsMessage) (s : Served) : Served :=
  match DnsMessage.pack reply with
  | .error _ => tcpServFail req s
  | .ok wire => { s with sent := some (tcpFrame wire) }

/-- The task that `tcpAcceptLoop` gives to its pool. -/
def tcpTask (res : Resolver) (req : DnsMessage) (data : Bytes) (s : Served) : Served :=
  match res.peekCacheRaw data with
  | some cached => tcpSend req cached s
  | none =>
    let s := { s with destination := some .resolver }
    match res.query req true with
    | .error .other => { s with ending := .escapes .other }
    | .error _ => tcpServFail req s
    | .ok none => tcpSend req (DnsMessage.createError req DnsRcode.ServFail) s
    | .ok (some reply) => tcpSend req reply s

/-- One connection of `tcpAcceptLoop`, together with its task.  The length is a 16-bit
number, so the test for more than 65535 bytes never fails. -/
def tcpServed (srv : Server) (data : Bytes) (pending : Nat) : Served :=
  if data.length < 12 then {}
  else
    match DnsMessage.parse data with
    | .error (.thrown _) => {}
    | .error .outOfRange => { ending := .undefined }
    | .ok req =>
      if !req.hasQuestions then {}
      else if pending < tcpBackpressureLimit then
        tcpTask srv.res req data { enqueued := true }
      else tcpServFail req {}

/-! ## The choice of `handleQuery` -/

/-- The rules of `handleQuery`. -/
def route (srv : Server) (qname : Bytes) : Destination :=
  if isLocal qname then .localNXDomain
  else
    match srv.overrides.getMostSpecific qname with
    | some addr => .override addr
    | none =>
      if srv.unqUpstream ≠ [] ∧ isUnq qname then .unqualified srv.unqUpstream else .resolver

/-- None of the rules applies to the name. -/
structure Unrouted (srv : Server) (qname : Bytes) : Prop where
  notLocal : isLocal qname = false
  uncovered : ∀ key ∈ srv.overrides.map, isSubDomain (canonicalize qname) key = false
  qualified : srv.unqUpstream = [] ∨ isUnq qname = false

theorem route_eq_resolver_iff {srv : Server} {qname : Bytes} :
    route srv qname = .resolver ↔ Unrouted srv qname := by
  unfold route
  by_cases hlocal : isLocal qname = true
  · rw [if_pos hlocal]
    constructor
    · intro h
      cases h
    · intro h
      rw [h.notLocal] at hlocal
      cases hlocal
  · rw [if_neg hlocal]
    rw [Bool.not_eq_true] at hlocal
    cases hover : srv.overrides.getMostSpecific qname with
    | some addr =>
      constructor
      · intro h
        cases h
      · intro h
        rw [DomainMap.getMostSpecific_eq_none_iff.mpr h.uncovered] at hover
        cases hover
    | none =>
      have huncovered := DomainMap.getMostSpecific_eq_none_iff.mp hover
      by_cases hunq : srv.unqUpstream ≠ [] ∧ isUnq qname = true
      · simp only [if_pos hunq]
        constructor
        · intro h
          cases h
        · intro h
          rcases h.qualified with hempty | hqualified
          · exact absurd hempty hunq.1
          · rw [hunq.2] at hqualified
            cases hqualified
      · simp only [if_neg hunq]
        refine ⟨fun _ => ⟨hlocal, huncovered, ?_⟩, fun _ => trivial⟩
        by_cases hempty : srv.unqUpstream = []
        · exact Or.inl hempty
        · exact Or.inr (Bool.eq_false_iff.mpr fun hu => hunq ⟨hempty, hu⟩)

@[simp] theorem destination_post (reply : DnsMessage) (s : Served) :
    (post reply s).destination = s.destination := by
  unfold post
  split <;> rfl

@[simp] theorem destination_forward (srv : Server) (addr : Bytes) (req : DnsMessage)
    (s : Served) : (forward srv addr req s).destination = s.destination := by
  unfold forward
  split
  · exact destination_post _ _
  · split
    · exact destination_post _ _
    · rfl
    · exact destination_post _ _
    · exact destination_post _ _

@[simp] theorem destination_resolve (res : Resolver) (req : DnsMessage) (s : Served) :
    (resolve res req s).destination = s.destination := by
  unfold resolve
  split
  · rfl
  · exact destination_post _ _
  · exact destination_post _ _

@[simp] theorem destination_tcpServFail (req : DnsMessage) (s : Served) :
    (tcpServFail req s).destination = s.destination := by
  unfold tcpServFail
  split <;> rfl

@[simp] theorem destination_tcpSend (req reply : DnsMessage) (s : Served) :
    (tcpSend req reply s).destination = s.destination := by
  unfold tcpSend
  split
  · exact destination_tcpServFail req s
  · rfl

theorem destination_tcpTask {res : Resolver} {data : Bytes} (req : DnsMessage) (s : Served)
    (hmiss : res.peekCacheRaw data = none) :
    (tcpTask res req data s).destination = some .resolver := by
  simp only [tcpTask, hmiss]
  split
  · rfl
  · exact destination_tcpServFail _ _
  · exact destination_tcpSend _ _ _
  · exact destination_tcpSend _ _ _

theorem destination_handleQuery {srv : Server} {data : Bytes} {req : DnsMessage}
    {q : DnsQuestion} {qs : List DnsQuestion} (hparse : DnsMessage.parse data = .ok req)
    (hq : req.questions = q :: qs) :
    (handleQuery srv data).destination = some (route srv q.qname) := by
  simp only [handleQuery, hparse, hq, route]
  by_cases hlocal : isLocal q.qname = true
  · simp [hlocal]
  · rw [if_neg hlocal, if_neg hlocal]
    cases srv.overrides.getMostSpecific q.qname with
    | some addr => simp
    | none =>
      by_cases hempty : srv.unqUpstream = []
      · simp [hempty]
      · by_cases hunq : isUnq q.qname = true
        · simp [hempty, hunq]
        · simp [hempty, hunq]

/-! ## Every path -/

/-- The instrumented loops are the loops. -/
theorem toHandled_udpWorkerServed (srv : Server) (a : Arrival) :
    (udpWorkerServed srv a).toHandled = udpWorkerBody srv.res a := by
  unfold udpWorkerServed udpWorkerBody
  split
  · rfl
  · split
    · rfl
    · split
      · rfl
      · cases srv.res.peekCacheRaw a.data with
        | some cached => rfl
        | none =>
          by_cases hroom : tryEnqueue a.pending = true
          · simp only [if_pos hroom]
          · simp only [if_neg hroom]
            rfl

theorem toHandled_onUdpReceiveServed (srv : Server) (a : Arrival) :
    (onUdpReceiveServed srv a).toHandled = onUdpReceive srv.res a := by
  unfold onUdpReceiveServed onUdpReceive
  split
  · rfl
  · split
    · rfl
    · cases srv.res.peekCacheRaw a.data with
      | some cached => rfl
      | none =>
        by_cases hroom : tryEnqueue a.pending = true
        · simp only [if_pos hroom]
        · simp only [if_neg hroom]
          rfl

/-- How a request comes in, and how many tasks wait in the pool it meets. -/
inductive Path where
  | udpWorker (pending : Nat)
  | onUdpReceive (pending : Nat)
  | tcp (pending : Nat)

/-- A full TCP pool turns the request away before any choice is made. -/
def Path.Admits : Path → Prop
  | .tcp pending => pending < tcpBackpressureLimit
  | _ => True

def Path.destination (srv : Server) (data : Bytes) : Path → Option Destination
  | .udpWorker pending => (udpWorkerServed srv { data, pending }).destination
  | .onUdpReceive pending => (onUdpReceiveServed srv { data, pending }).destination
  | .tcp pending => (tcpServed srv data pending).destination

/-- One destination for all paths, and never the resolver for a name that an override
covers. -/
structure RoutesAlike (srv : Server) (data qname : Bytes) : Prop where
  same : ∃ d, ∀ path : Path, path.Admits → path.destination srv data = some d
  covered : ∀ addr, srv.overrides.getMostSpecific qname = some addr →
    ∀ path : Path, path.destination srv data ≠ some .resolver

section Request

variable {srv : Server} {data : Bytes} {req : DnsMessage} {q : DnsQuestion}

theorem length_of_parse (hparse : DnsMessage.parse data = .ok req) : 12 ≤ data.length := by
  obtain ⟨w, ⟨h, -, hseg, -⟩, -⟩ := DnsMessage.parse_eq_ok_iff.mp hparse
  have hle := hseg.length_le (by simp [Wire.headerBytes, Word.be16Bytes])
  have hlen : (Wire.headerBytes h).length = 12 := rfl
  omega

/-- A request that both UDP loops give to the pool is routed, and one they resolve
themselves goes to the resolver. -/
theorem destination_udp (hparse : DnsMessage.parse data = .ok req) (hq : req.questions = [q])
    (hmiss : srv.res.peekCacheRaw data = none) (pending : Nat) :
    (Path.udpWorker pending).destination srv data =
        some (if tryEnqueue pending then route srv q.qname else .resolver) ∧
      (Path.onUdpReceive pending).destination srv data =
        some (if tryEnqueue pending then route srv q.qname else .resolver) := by
  have hlen : ¬data.length < 12 := Nat.not_lt.mpr (length_of_parse hparse)
  have hroute : (handleQuery srv data).destination = some (route srv q.qname) :=
    destination_handleQuery hparse hq
  have hinline : (resolveInlineServed srv.res data { queries := 1 }).destination =
      some .resolver := by
    simp only [resolveInlineServed, hparse]
  simp only [Path.destination, udpWorkerServed, onUdpReceiveServed, hlen, hmiss]
  by_cases hroom : tryEnqueue pending = true
  · simp [hroom, hroute]
  · simp [hroom, hinline]

/-- The TCP task goes to the resolver. -/
theorem destination_tcp (hparse : DnsMessage.parse data = .ok req) (hq : req.questions = [q])
    (hmiss : srv.res.peekCacheRaw data = none) {pending : Nat}
    (hroom : pending < tcpBackpressureLimit) :
    (Path.tcp pending).destination srv data = some .resolver := by
  have hlen : ¬data.length < 12 := Nat.not_lt.mpr (length_of_parse hparse)
  have hquestions : req.hasQuestions = true := by simp [DnsMessage.hasQuestions, hq]
  simp only [Path.destination, tcpServed, hlen, hparse, hquestions, hroom]
  exact destination_tcpTask req _ hmiss

/-- All paths choose the same destination exactly for the names to which no rule of
`handleQuery` applies. -/
theorem routesAlike_iff (hparse : DnsMessage.parse data = .ok req) (hq : req.questions = [q])
    (hmiss : srv.res.peekCacheRaw data = none) :
    RoutesAlike srv data q.qname ↔ Unrouted srv q.qname := by
  rw [← route_eq_resolver_iff]
  constructor
  · intro h
    obtain ⟨d, hd⟩ := h.same
    -- One path with room in the pool, and one without.
    have hpool := (destination_udp hparse hq hmiss 0).1
    have hinline := (destination_udp hparse hq hmiss backpressureLimit).1
    rw [hd (.udpWorker 0) trivial, if_pos (by decide), Option.some.injEq] at hpool
    rw [hd (.udpWorker backpressureLimit) trivial, if_neg (by decide), Option.some.injEq] at hinline
    rw [← hpool, hinline]
  · intro hroute
    constructor
    · refine ⟨.resolver, fun path hadmits => ?_⟩
      cases path with
      | udpWorker pending =>
        rw [(destination_udp hparse hq hmiss pending).1, hroute, ite_self]
      | onUdpReceive pending =>
        rw [(destination_udp hparse hq hmiss pending).2, hroute, ite_self]
      | tcp pending => exact destination_tcp hparse hq hmiss hadmits
    · intro addr haddr
      have huncovered := (route_eq_resolver_iff.mp hroute).uncovered
      rw [DomainMap.getMostSpecific_eq_none_iff.mpr huncovered] at haddr
      cases haddr

end Request

/-- A query for the name `a`, type A. -/
def singleLabelQuery : Bytes :=
  [0, 0, 1, 0, 0, 1, 0, 0, 0, 0, 0, 0, 1, 0x61, 0, 0, 1, 0, 1]

/-- A server with an empty cache and one override, for the domain `domain`. -/
def overriddenServer (domain : Bytes) : Server :=
  { res := CachingResolver.asResolver {} CachingResolver.denyingEnv,
    overrides := DomainMap.empty.set domain [0x31, 0x30, 0x2E, 0x30, 0x2E, 0x30, 0x2E, 0x31],
    unqUpstream := [], net := fun _ _ _ => none }

/-- The name `a` is outside the domain `b`, so its path does not matter. -/
theorem singleLabelQuery_routesAlike :
    RoutesAlike (overriddenServer [0x62]) singleLabelQuery [0x61] := by
  have hparse : DnsMessage.parse singleLabelQuery = .ok (DnsMessage.createQuery [0x61] 1) := by
    decide +kernel
  have hmiss : (overriddenServer [0x62]).res.peekCacheRaw singleLabelQuery = none := by
    decide +kernel
  have huncovered : (overriddenServer [0x62]).overrides.getMostSpecific [0x61] = none := by
    decide +kernel
  exact (routesAlike_iff (q := ⟨[0x61], 1, 1⟩) hparse rfl hmiss).mpr
    ⟨by decide, DomainMap.getMostSpecific_eq_none_iff.mp huncovered, Or.inl rfl⟩

theorem singleLabelQuery_not_routesAlike :
    ¬RoutesAlike (overriddenServer [0x61]) singleLabelQuery [0x61] := by
  intro h
  have hpath : (Path.tcp 0).destination (overriddenServer [0x61]) singleLabelQuery =
      some .resolver := by
    decide +kernel
  exact h.covered [0x31, 0x30, 0x2E, 0x30, 0x2E, 0x30, 0x2E, 0x31] (by decide +kernel) _ hpath

end DnsServer
end Dnss
