/-
`SystemResolver`: the resolver behind the cache when no DoH upstream is configured.

A query tries `getaddrinfo`, the name servers of the system over UDP, and three DoH
services over HTTPS, and takes the first reply.  It never returns null: when no
strategy gives a reply it makes a SERVFAIL of its own, which is
`query_eq_servFail`.  `Behind` says that the resolver behind a cache is one of
these.
-/
import Dnss.Cache.Resolver

namespace Dnss

/-- An address that `getaddrinfo` returns. -/
inductive SockAddr where
  | inet (addr : Bytes)
  | inet6 (addr : Bytes)
  | other

/-- What a query meets outside the process.  `udp` is the datagram a name server
sends back within the time limit and `doh` the body of a successful POST, if there is
one.  `udpWorksLater` is what `udpWorks_` holds when it is read a second time: the
probe thread writes it. -/
structure Network where
  getaddrinfo : Bytes → Option (List SockAddr)
  udp : Bytes × UInt16 → Bytes → Option Bytes
  doh : Bytes → Bytes → Option Bytes
  udpWorksLater : Bool

structure SystemResolver where
  servers : List (Bytes × UInt16)
  dohUrls : List Bytes
  udpWorks : Bool := false
  getaddrinfoWorks : Bool := false
  getaddrinfoTested : Bool := false

namespace SystemResolver

/-! ## The strategies -/

/-- The record made of an address, if it is of the type asked for. -/
def addressRecord (q : DnsQuestion) : SockAddr → Option DnsResourceRecord
  | .inet addr =>
    if q.qtype = DnsType.A then
      some { name := q.qname, type := DnsType.A, rclass := 1, ttl := 300, rdata := addr }
    else none
  | .inet6 addr =>
    if q.qtype = DnsType.AAAA then
      some { name := q.qname, type := DnsType.AAAA, rclass := 1, ttl := 300, rdata := addr }
    else none
  | .other => none

def queryGetaddrinfo (net : Network) (req : DnsMessage) (q : DnsQuestion) : DnsMessage :=
  let reply := DnsMessage.createReply req
  match net.getaddrinfo q.qname with
  | none => reply
  | some result =>
    let answers := result.filterMap (addressRecord q)
    { reply with
      header := if answers.isEmpty then reply.header.setRcode DnsRcode.NXDomain else reply.header,
      answers }

/-- The loop over servers or services: the first response that parses is the reply.
Every exception of `parse` is caught. -/
def firstReply {α : Type} (ask : α → Option Bytes) (id : UInt16) :
    List α → Except Fault (Option DnsMessage)
  | [] => .ok none
  | target :: targets =>
    match ask target with
    | none => firstReply ask id targets
    | some resp =>
      if resp.length < 12 then firstReply ask id targets
      else
        match DnsMessage.parse resp with
        | .error (.thrown _) => firstReply ask id targets
        | .error .outOfRange => .error .outOfRange
        | .ok reply => .ok (some { reply with header := { reply.header with id } })

/-- A datagram is cut to the receive buffer of 4096 bytes. -/
def queryUdp (r : SystemResolver) (net : Network) (req : DnsMessage) :
    Except Fault (Option DnsMessage) :=
  if r.servers.isEmpty then .ok none
  else
    match DnsMessage.pack req with
    | .error e => .error (.thrown e)
    | .ok wire =>
      firstReply (fun server => (net.udp server wire).map (·.take 4096)) req.header.id r.servers

def queryDoh (r : SystemResolver) (net : Network) (req : DnsMessage) :
    Except Fault (Option DnsMessage) :=
  match DnsMessage.pack req with
  | .error e => .error (.thrown e)
  | .ok wire => firstReply (fun url => net.doh url wire) req.header.id r.dohUrls

/-! ## The query -/

/-- From the third strategy on. -/
def queryDohThenUdp (r : SystemResolver) (net : Network) (req : DnsMessage) :
    Except Fault DnsMessage := do
  match ← r.queryDoh net req with
  | some reply => .ok reply
  | none =>
    if !net.udpWorksLater then
      match ← r.queryUdp net req with
      | some reply => .ok reply
      | none => .ok (DnsMessage.createError req DnsRcode.ServFail)
    else .ok (DnsMessage.createError req DnsRcode.ServFail)

/-- From the second strategy on. -/
def queryNetwork (r : SystemResolver) (net : Network) (req : DnsMessage) :
    Except Fault DnsMessage := do
  if r.udpWorks then
    match ← r.queryUdp net req with
    | some reply =>
      if reply.header.rcode ≠ DnsRcode.ServFail then .ok reply else r.queryDohThenUdp net req
    | none => r.queryDohThenUdp net req
  else r.queryDohThenUdp net req

def query (r : SystemResolver) (net : Network) (req : DnsMessage) :
    SystemResolver × Except Fault DnsMessage :=
  match req.questions with
  | [] => (r, .ok (DnsMessage.createError req DnsRcode.FormErr))
  | q :: _ =>
    if q.qtype = DnsType.A ∨ q.qtype = DnsType.AAAA then
      if !r.getaddrinfoTested then
        let result := queryGetaddrinfo net req q
        if !result.answers.isEmpty then
          ({ r with getaddrinfoWorks := true, getaddrinfoTested := true }, .ok result)
        else (r, r.queryNetwork net req)
      else if r.getaddrinfoWorks then
        let result := queryGetaddrinfo net req q
        if !result.answers.isEmpty then (r, .ok result) else (r, r.queryNetwork net req)
      else (r, r.queryNetwork net req)
    else (r, r.queryNetwork net req)

/-! ## When every strategy fails -/

/-- No strategy that is tried has a reply to the request. -/
structure NoReply (r : SystemResolver) (net : Network) (req : DnsMessage) : Prop where
  getaddrinfo : r.getaddrinfoTested = false ∨ r.getaddrinfoWorks = true →
    ∀ q qs, req.questions = q :: qs → (queryGetaddrinfo net req q).answers = []
  udp : r.udpWorks = true ∨ net.udpWorksLater = false → r.queryUdp net req = .ok none
  doh : r.queryDoh net req = .ok none

theorem NoReply.queryDohThenUdp_eq {r : SystemResolver} {net : Network} {req : DnsMessage}
    (h : NoReply r net req) :
    r.queryDohThenUdp net req = .ok (DnsMessage.createError req DnsRcode.ServFail) := by
  rw [queryDohThenUdp, h.doh]
  by_cases hlater : net.udpWorksLater = true
  · rw [hlater]
    rfl
  · rw [Bool.not_eq_true] at hlater
    rw [hlater, h.udp (Or.inr hlater)]
    rfl

theorem NoReply.queryNetwork_eq {r : SystemResolver} {net : Network} {req : DnsMessage}
    (h : NoReply r net req) :
    r.queryNetwork net req = .ok (DnsMessage.createError req DnsRcode.ServFail) := by
  unfold queryNetwork
  by_cases hworks : r.udpWorks = true
  · rw [if_pos hworks, h.udp (Or.inl hworks)]
    exact h.queryDohThenUdp_eq
  · rw [if_neg hworks]
    exact h.queryDohThenUdp_eq

/-- The reply of last resort: a SERVFAIL that no upstream sent. -/
theorem NoReply.query_eq_servFail {r : SystemResolver} {net : Network} {req : DnsMessage}
    (h : NoReply r net req) (hquestions : req.questions ≠ []) :
    r.query net req = (r, .ok (DnsMessage.createError req DnsRcode.ServFail)) := by
  unfold query
  split
  · rename_i hnil
    exact absurd hnil hquestions
  · rename_i q qs hq
    rw [h.queryNetwork_eq]
    split
    · by_cases htested : r.getaddrinfoTested = true
      · by_cases hworks : r.getaddrinfoWorks = true
        · simp [htested, hworks, h.getaddrinfo (Or.inr hworks) q qs hq]
        · simp [htested, hworks]
      · rw [Bool.not_eq_true] at htested
        simp [htested, h.getaddrinfo (Or.inl htested) q qs hq]
    · rfl

/-! ## Behind a cache -/

/-- `back` answers as the system resolver does.  After a read outside a buffer it may
do anything. -/
def Behind (r : SystemResolver) (net : Network)
    (back : DnsMessage → Bool → Except Thrown (Option DnsMessage)) : Prop :=
  ∀ req allowFanOut,
    (∀ reply, (r.query net req).2 = .ok reply → back req allowFanOut = .ok (some reply)) ∧
    (∀ e, (r.query net req).2 = .error (.thrown e) →
      back req allowFanOut = .error (.runtimeError e))

/-- The system resolver in a given state, as the cache calls it. -/
def asBack (r : SystemResolver) (net : Network) (req : DnsMessage) (_allowFanOut : Bool) :
    Except Thrown (Option DnsMessage) :=
  match (r.query net req).2 with
  | .ok reply => .ok (some reply)
  | .error (.thrown e) => .error (.runtimeError e)
  | .error .outOfRange => .error .other

theorem behind_asBack (r : SystemResolver) (net : Network) : r.Behind net (r.asBack net) := by
  intro req allowFanOut
  constructor
  · intro reply hreply
    rw [asBack, hreply]
  · intro e he
    rw [asBack, he]

end SystemResolver
end Dnss
