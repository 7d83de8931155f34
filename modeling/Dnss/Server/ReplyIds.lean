/-
The transaction identifiers of the replies.

A reply is made in one of many places: from a cached message, from what an upstream
sent, or from the request itself.  The first two bytes on the wire are the identifier
of the header, on the way in and on the way out, so it is enough that every place
puts the identifier of the request into the header.  `Resolver.KeepsIds` says so for
the resolver, and `keepsIds_overSystem` proves it for the cache over the system
resolver.

`repliesKeepIds` is the result for every path of the server.
-/
import Dnss.Cache.Replies
import Dnss.Server.Routing
import Dnss.Upstream.SystemResolver

namespace Dnss

open Cursor

/-- A caching resolver over the system resolver, as the server sees it.  The cache may
have changed between the fast path and the query. -/
def CachingResolver.overSystem (s s' : CachingResolver) (env env' : Env) (system : SystemResolver)
    (net : Network) : Resolver :=
  { peekCacheRaw := fun data => (s.peekCacheRaw env data).2,
    query := fun req allowFanOut =>
      (s'.query { env' with back := system.asBack net } req allowFanOut).2 }

/-! ## Identifiers on the wire -/

/-- The message starts with the identifier `id`. -/
def StartsWith (id : UInt16) (wire : Bytes) : Prop := wire.take 2 = Word.be16Bytes id

/-- Both messages start with the same identifier. -/
def SameId (data wire : Bytes) : Prop := ∃ id, StartsWith id data ∧ StartsWith id wire

namespace DnsMessage

theorem startsWith_of_pack {m : DnsMessage} {wire : Bytes} (h : pack m = .ok wire) :
    StartsWith m.header.id wire := by
  obtain ⟨-, rfl⟩ := pack_eq_ok_iff.mp h
  rfl

theorem startsWith_of_parse {data : Bytes} {m : DnsMessage} (h : parse data = .ok m) :
    StartsWith m.header.id data := by
  obtain ⟨w, ⟨hd, hof, hseg, -⟩, rfl⟩ := parse_eq_ok_iff.mp h
  simp only [Wire.headerBytes, segAt_append_iff, and_assoc] at hseg
  have hid : hd.id = w.flatten.header.id := hof.id
  have hprefix : Word.be16Bytes hd.id <+: data := hseg.1
  rw [← hid]
  exact (List.prefix_iff_eq_take.mp hprefix).symm

@[simp] theorem id_createError (query : DnsMessage) (rcode : UInt8) :
    (createError query rcode).header.id = query.header.id := rfl

end DnsMessage

namespace CachingResolver

theorem startsWith_of_rawKey {data : Bytes} {key : CacheKey} (h : rawKey data = some key) :
    StartsWith (rawU16 data 0) data := by
  match data, h with
  | hi :: lo :: rest, h => exact (Word.be16Bytes_be16 hi lo).symm

end CachingResolver

/-! ## The resolver -/

/-- The replies of a resolver carry the identifier of what they reply to. -/
structure Resolver.KeepsIds (res : Resolver) : Prop where
  peekCacheRaw : ∀ data reply, res.peekCacheRaw data = some reply →
    StartsWith reply.header.id data
  query : ∀ req allowFanOut reply, res.query req allowFanOut = .ok (some reply) →
    reply.header.id = req.header.id

namespace SystemResolver

theorem id_firstReply {α : Type} {ask : α → Option Bytes} {id : UInt16} {targets : List α}
    {reply : DnsMessage} (h : firstReply ask id targets = .ok (some reply)) :
    reply.header.id = id := by
  induction targets with
  | nil => cases h
  | cons target targets ih =>
    unfold firstReply at h
    split at h
    · exact ih h
    · split at h
      · exact ih h
      · split at h
        · exact ih h
        · cases h
        · cases h
          rfl

theorem id_queryUdp {r : SystemResolver} {net : Network} {req reply : DnsMessage}
    (h : r.queryUdp net req = .ok (some reply)) : reply.header.id = req.header.id := by
  unfold queryUdp at h
  split at h
  · cases h
  · split at h
    · cases h
    · exact id_firstReply h

theorem id_queryDoh {r : SystemResolver} {net : Network} {req reply : DnsMessage}
    (h : r.queryDoh net req = .ok (some reply)) : reply.header.id = req.header.id := by
  unfold queryDoh at h
  split at h
  · cases h
  · exact id_firstReply h

theorem id_queryDohThenUdp {r : SystemResolver} {net : Network} {req reply : DnsMessage}
    (h : r.queryDohThenUdp net req = .ok reply) : reply.header.id = req.header.id := by
  obtain ⟨doh, hdoh, h⟩ := bind_eq_ok_iff.mp h
  cases doh with
  | some reply' =>
    cases h
    exact id_queryDoh hdoh
  | none =>
    by_cases hlater : net.udpWorksLater = true
    · simp only [hlater] at h
      cases h
      rfl
    · simp only [hlater] at h
      obtain ⟨udp, hudp, h⟩ := bind_eq_ok_iff.mp h
      cases udp with
      | some reply' =>
        cases h
        exact id_queryUdp hudp
      | none =>
        cases h
        rfl

theorem id_queryNetwork {r : SystemResolver} {net : Network} {req reply : DnsMessage}
    (h : r.queryNetwork net req = .ok reply) : reply.header.id = req.header.id := by
  unfold queryNetwork at h
  by_cases hworks : r.udpWorks = true
  · rw [if_pos hworks] at h
    obtain ⟨udp, hudp, h⟩ := bind_eq_ok_iff.mp h
    cases udp with
    | some reply' =>
      simp only at h
      split at h
      · cases h
        exact id_queryUdp hudp
      · exact id_queryDohThenUdp h
    | none => exact id_queryDohThenUdp h
  · rw [if_neg hworks] at h
    exact id_queryDohThenUdp h

theorem id_queryGetaddrinfo (net : Network) (req : DnsMessage) (q : DnsQuestion) :
    (queryGetaddrinfo net req q).header.id = req.header.id := by
  unfold queryGetaddrinfo
  split
  · rfl
  · simp only
    split <;> rfl

/-- Every strategy puts the identifier of the request into its reply. -/
theorem id_query {r : SystemResolver} {net : Network} {req reply : DnsMessage}
    (h : (r.query net req).2 = .ok reply) : reply.header.id = req.header.id := by
  unfold query at h
  split at h
  · cases h
    rfl
  · rename_i q qs hq
    have haddr := id_queryGetaddrinfo net req q
    split at h
    · split at h
      · simp only at h
        split at h
        · cases h
          exact haddr
        · exact id_queryNetwork h
      · split at h
        · simp only at h
          split at h
          · cases h
            exact haddr
          · exact id_queryNetwork h
        · exact id_queryNetwork h
    · exact id_queryNetwork h

theorem id_asBack {r : SystemResolver} {net : Network} {req reply : DnsMessage}
    (allowFanOut : Bool) (h : r.asBack net req allowFanOut = .ok (some reply)) :
    reply.header.id = req.header.id := by
  unfold asBack at h
  split at h
  · rename_i reply' hreply
    cases h
    exact id_query hreply
  · cases h
  · cases h

end SystemResolver

namespace CachingResolver

theorem startsWith_peekCacheRaw {s : CachingResolver} {env : Env} {data : Bytes}
    {reply : DnsMessage} (h : (s.peekCacheRaw env data).2 = some reply) :
    StartsWith reply.header.id data := by
  unfold peekCacheRaw at h
  cases hkey : rawKey data with
  | none =>
    rw [hkey] at h
    cases h
  | some key =>
    have hid : reply.header.id = rawU16 data 0 := by
      simp only [hkey] at h
      cases hprobe : s.probe env key with
      | turbo msg =>
        rw [hprobe] at h
        cases h
        rfl
      | fresh entry =>
        rw [hprobe] at h
        cases h
        rfl
      | stale entry =>
        rw [hprobe] at h
        cases h
        rfl
      | miss =>
        rw [hprobe] at h
        cases h
    rw [hid]
    exact startsWith_of_rawKey hkey

/-- A hit is answered with the identifier of the request, and a miss with what the
resolver behind has put there. -/
theorem id_query {s : CachingResolver} {env : Env} {req reply : DnsMessage} {allowFanOut : Bool}
    (hback : ∀ fanOut reply, env.back req fanOut = .ok (some reply) →
      reply.header.id = req.header.id)
    (h : (s.query env req allowFanOut).2 = .ok (some reply)) :
    reply.header.id = req.header.id := by
  by_cases hone : ∃ q, req.questions = [q]
  · obtain ⟨q, hq⟩ := hone
    cases hmsg : (s.probe env q.key).msg with
    | some msg =>
      rw [(query_reply_of_hit allowFanOut hq hmsg).1] at h
      cases h
      rfl
    | none =>
      rw [query_reply_of_miss allowFanOut hq (Probe.msg_eq_none_iff.mp hmsg)] at h
      cases hreply : env.back req env.fanOutEnabled with
      | error e =>
        rw [hreply] at h
        cases h
      | ok r =>
        cases r with
        | none =>
          rw [hreply] at h
          cases h
          rfl
        | some u =>
          rw [hreply] at h
          cases h
          split
          · exact hback env.fanOutEnabled u hreply
          · exact hback env.fanOutEnabled u hreply
  · unfold query at h
    split at h
    · rename_i q hq
      exact absurd ⟨q, hq⟩ hone
    · exact hback allowFanOut reply h

theorem keepsIds_overSystem (s s' : CachingResolver) (env env' : Env) (system : SystemResolver)
    (net : Network) : (overSystem s s' env env' system net).KeepsIds where
  peekCacheRaw := fun _ _ h => startsWith_peekCacheRaw h
  query := fun _ _ _ h => id_query (fun fanOut _ hback => SystemResolver.id_asBack fanOut hback) h

end CachingResolver

/-! ## The paths of the server -/

namespace DnsServer

/-- What the pass sends, if it sends anything, satisfies `P`. -/
def Handled.Sends (P : Bytes → Prop) (h : Handled) : Prop := ∀ wire, h.sent = some wire → P wire

variable {P : Bytes → Prop}

theorem Handled.sends_of_none {h : Handled} (hnone : h.sent = none) : h.Sends P := by
  intro wire hsent
  rw [hnone] at hsent
  cases hsent

theorem sends_sendReply {reply : DnsMessage} {h : Handled}
    (hwire : ∀ wire, DnsMessage.pack reply = .ok wire → P wire) (hh : h.Sends P) :
    (sendReply reply h).Sends P := by
  unfold sendReply
  split
  · exact hh
  · rename_i wire hpack
    intro wire' hsent
    cases hsent
    exact hwire wire hpack

theorem sends_sendCached {cached : DnsMessage} {h : Handled}
    (hwire : ∀ wire, DnsMessage.pack cached = .ok wire → P wire) (hh : h.Sends P) :
    (sendCached cached h).Sends P := by
  unfold sendCached
  split
  · exact hh
  · rename_i wire hpack
    intro wire' hsent
    cases hsent
    exact hwire wire hpack

theorem sends_post {reply : DnsMessage} {s : Served}
    (hwire : ∀ wire, DnsMessage.pack reply = .ok wire → P wire) (hs : s.toHandled.Sends P) :
    (post reply s).toHandled.Sends P := by
  unfold post
  split
  · exact hs
  · rename_i wire hpack
    intro wire' hsent
    cases hsent
    exact hwire wire hpack

theorem sends_catchStd {h : Handled} (hh : h.Sends P) : (catchStd h).Sends P := by
  unfold catchStd
  split
  · exact hh
  · exact hh
  · exact hh

theorem sends_tcpServFail_iff {req : DnsMessage} {s : Served} (hs : s.sent = none) :
    (tcpServFail req s).toHandled.Sends P ↔
      ∀ wire, DnsMessage.pack (DnsMessage.createError req DnsRcode.ServFail) = .ok wire →
        P (tcpFrame wire) := by
  unfold tcpServFail
  cases DnsMessage.pack (DnsMessage.createError req DnsRcode.ServFail) with
  | error e => simp [Handled.Sends, hs]
  | ok wire => simp [Handled.Sends]

theorem sends_tcpSend_iff {req reply : DnsMessage} {s : Served} :
    (tcpSend req reply s).toHandled.Sends P ↔
      (∀ wire, DnsMessage.pack reply = .ok wire → P (tcpFrame wire)) ∧
        (¬reply.Packable → (tcpServFail req s).toHandled.Sends P) := by
  rw [← DnsMessage.exists_pack_iff]
  unfold tcpSend
  cases DnsMessage.pack reply with
  | error e => simp
  | ok wire => simp [Handled.Sends]

theorem sameId_of_pack {data wire : Bytes} {id : UInt16} {reply : DnsMessage}
    (hid : StartsWith id data) (hreply : reply.header.id = id)
    (hpack : DnsMessage.pack reply = .ok wire) : SameId data wire :=
  ⟨id, hid, hreply ▸ DnsMessage.startsWith_of_pack hpack⟩

section Paths

variable {srv : Server} {data : Bytes} {req : DnsMessage}

theorem id_inlineReply {res : Resolver} (hres : res.KeepsIds) (req : DnsMessage) :
    (inlineReply res req).header.id = req.header.id := by
  unfold inlineReply
  split
  · rename_i reply hreply
    exact hres.query req false reply hreply
  · rfl

theorem sends_resolveInline {res : Resolver} (hres : res.KeepsIds) {h : Handled}
    (hh : h.Sends (SameId data)) : (resolveInline res data h).Sends (SameId data) := by
  unfold resolveInline
  split
  · exact hh
  · exact hh
  · rename_i req hparse
    refine sends_sendReply (fun wire hpack => ?_) hh
    exact sameId_of_pack (DnsMessage.startsWith_of_parse hparse) (id_inlineReply hres req) hpack

/-- What the fast path finds carries the identifier of the datagram. -/
theorem sends_cachedReply {res : Resolver} (hres : res.KeepsIds) {cached : DnsMessage} {h : Handled}
    (hpeek : res.peekCacheRaw data = some cached) (hh : h.Sends (SameId data)) :
    (sendCached cached h).Sends (SameId data) := by
  refine sends_sendCached (fun wire hpack => ?_) hh
  exact sameId_of_pack (hres.peekCacheRaw data cached hpeek) rfl hpack

theorem sends_udpWorkerBody {res : Resolver} (hres : res.KeepsIds) (a : Arrival) :
    (udpWorkerBody res a).Sends (SameId a.data) := by
  unfold udpWorkerBody
  split
  · exact Handled.sends_of_none rfl
  · split
    · exact Handled.sends_of_none rfl
    · split
      · exact Handled.sends_of_none rfl
      · split
        · rename_i cached hpeek
          exact sends_cachedReply hres hpeek (Handled.sends_of_none rfl)
        · split
          · exact Handled.sends_of_none rfl
          · exact sends_resolveInline hres (Handled.sends_of_none rfl)

theorem sends_onUdpReceive {res : Resolver} (hres : res.KeepsIds) (a : Arrival) :
    (onUdpReceive res a).Sends (SameId a.data) := by
  unfold onUdpReceive
  split
  · exact Handled.sends_of_none rfl
  · split
    · exact Handled.sends_of_none rfl
    · split
      · rename_i cached hpeek
        exact sends_cachedReply hres hpeek (Handled.sends_of_none rfl)
      · split
        · exact Handled.sends_of_none rfl
        · exact sends_catchStd (sends_resolveInline hres (Handled.sends_of_none rfl))

theorem id_udpQueryRaw {net : Bytes → Bytes → Bytes → Option Bytes} {host port wire : Bytes}
    {origId : UInt16} {reply : DnsMessage}
    (h : udpQueryRaw net host port wire origId = .ok (some reply)) : reply.header.id = origId := by
  unfold udpQueryRaw at h
  split at h
  · cases h
  · simp only at h
    split at h
    · cases h
    · split at h
      · cases h
      · cases h
        rfl

/-- A reply made from the request or from what the upstream sent to it. -/
theorem sends_forward {addr : Bytes} {s : Served} (hid : StartsWith req.header.id data)
    (hs : s.sent = none) : (forward srv addr req s).toHandled.Sends (SameId data) := by
  have hfailed : (post (DnsMessage.createError req DnsRcode.ServFail)
      { s with errors := s.errors + 1 }).toHandled.Sends (SameId data) :=
    sends_post (fun wire hpack => sameId_of_pack hid (DnsMessage.id_createError req _) hpack)
      (Handled.sends_of_none hs)
  unfold forward
  split
  · exact hfailed
  · split
    · exact hfailed
    · exact Handled.sends_of_none hs
    · exact hfailed
    · rename_i reply hreply
      refine sends_post (fun wire hpack => ?_) (Handled.sends_of_none hs)
      exact sameId_of_pack hid (id_udpQueryRaw hreply) hpack

theorem sends_resolve {res : Resolver} (hres : res.KeepsIds) {s : Served}
    (hid : StartsWith req.header.id data) (hs : s.sent = none) :
    (resolve res req s).toHandled.Sends (SameId data) := by
  unfold resolve
  split
  · exact Handled.sends_of_none hs
  · refine sends_post (fun wire hpack => ?_) (Handled.sends_of_none hs)
    exact sameId_of_pack hid (DnsMessage.id_createError req _) hpack
  · rename_i reply hreply
    refine sends_post (fun wire hpack => ?_) (Handled.sends_of_none hs)
    exact sameId_of_pack hid (hres.query req true reply hreply) hpack

theorem sends_handleQuery (hres : srv.res.KeepsIds) (data : Bytes) :
    (handleQuery srv data).toHandled.Sends (SameId data) := by
  unfold handleQuery
  split
  · exact Handled.sends_of_none rfl
  · exact Handled.sends_of_none rfl
  · rename_i req hparse
    have hid := DnsMessage.startsWith_of_parse hparse
    split
    · exact Handled.sends_of_none rfl
    · split
      · refine sends_post (fun wire hpack => ?_) (Handled.sends_of_none rfl)
        exact sameId_of_pack hid (DnsMessage.id_createError req _) hpack
      · split
        · exact sends_forward hid rfl
        · split
          · split
            · exact sends_forward hid rfl
            · exact sends_resolve hres hid rfl
          · exact sends_resolve hres hid rfl

/-- A frame whose message carries the identifier of the request. -/
def FramedSameId (data frame : Bytes) : Prop := ∃ wire, frame = tcpFrame wire ∧ SameId data wire

theorem framedSameId_of_pack {wire : Bytes} {id : UInt16} {reply : DnsMessage}
    (hid : StartsWith id data) (hreply : reply.header.id = id)
    (hpack : DnsMessage.pack reply = .ok wire) : FramedSameId data (tcpFrame wire) :=
  ⟨wire, rfl, sameId_of_pack hid hreply hpack⟩

theorem sends_tcpTask {res : Resolver} (hres : res.KeepsIds) {s : Served}
    (hid : StartsWith req.header.id data) (hs : s.sent = none) :
    (tcpTask res req data s).toHandled.Sends (FramedSameId data) := by
  have hfail : ∀ s : Served, s.sent = none →
      (tcpServFail req s).toHandled.Sends (FramedSameId data) := fun s hs =>
    (sends_tcpServFail_iff hs).mpr fun wire hpack =>
      framedSameId_of_pack hid (DnsMessage.id_createError req _) hpack
  unfold tcpTask
  split
  · rename_i cached hpeek
    refine sends_tcpSend_iff.mpr ⟨fun wire hpack => ?_, fun _ => hfail _ hs⟩
    exact framedSameId_of_pack (hres.peekCacheRaw data cached hpeek) rfl hpack
  · simp only
    split
    · exact Handled.sends_of_none hs
    · exact hfail _ hs
    · refine sends_tcpSend_iff.mpr ⟨fun wire hpack => ?_, fun _ => hfail _ hs⟩
      exact framedSameId_of_pack hid (DnsMessage.id_createError req _) hpack
    · rename_i reply hreply
      refine sends_tcpSend_iff.mpr ⟨fun wire hpack => ?_, fun _ => hfail _ hs⟩
      exact framedSameId_of_pack hid (hres.query req true reply hreply) hpack

theorem sends_tcpServed (hres : srv.res.KeepsIds) (data : Bytes) (pending : Nat) :
    (tcpServed srv data pending).toHandled.Sends (FramedSameId data) := by
  unfold tcpServed
  split
  · exact Handled.sends_of_none rfl
  · split
    · exact Handled.sends_of_none rfl
    · exact Handled.sends_of_none rfl
    · rename_i req hparse
      have hid := DnsMessage.startsWith_of_parse hparse
      split
      · exact Handled.sends_of_none rfl
      · split
        · exact sends_tcpTask hres hid rfl
        · refine (sends_tcpServFail_iff rfl).mpr fun wire hpack => ?_
          exact framedSameId_of_pack hid (DnsMessage.id_createError req _) hpack

end Paths

/-- Whatever the server sends to a client starts with the identifier of the client's
request, on the UDP sockets, in the pool task, and over TCP behind the length. -/
structure RepliesKeepIds (srv : Server) : Prop where
  worker : ∀ a, (udpWorkerBody srv.res a).Sends (SameId a.data)
  handler : ∀ a, (onUdpReceive srv.res a).Sends (SameId a.data)
  task : ∀ data, (handleQuery srv data).toHandled.Sends (SameId data)
  tcp : ∀ data pending, (tcpServed srv data pending).toHandled.Sends (FramedSameId data)

/-- For every cache, every behaviour of the network, and every configuration. -/
theorem repliesKeepIds (s s' : CachingResolver) (env env' : Env)
    (system : SystemResolver) (net : Network) (overrides : DomainMap) (unqUpstream : Bytes)
    (upstream : Bytes → Bytes → Bytes → Option Bytes) :
    RepliesKeepIds
      { res := CachingResolver.overSystem s s' env env' system net, overrides, unqUpstream,
        net := upstream } := by
  have hres := CachingResolver.keepsIds_overSystem s s' env env' system net
  exact ⟨sends_udpWorkerBody hres, sends_onUdpReceive hres, sends_handleQuery hres,
    sends_tcpServed hres⟩

end DnsServer

end Dnss
