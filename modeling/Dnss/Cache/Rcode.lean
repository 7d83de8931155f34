/-
The RCODE of replies from the cache.

A cached reply takes its flags from the request in `query` and `peekCache`, and is
given the flags 0x8180 in `peekCacheRaw`; none of the six places where a cached
message is served reads the flags of that message.  A negative answer is stored
with its RCODE and comes back without it.  `rcodePreserved_iff` is the exact
account over whole runs: the RCODE survives at those hits where the request
already carried it, or where it is NOERROR on the raw path.
-/
import Dnss.Cache.Replies

namespace Dnss
namespace CachingResolver

open Machine

/-! ## Replies to a hit -/

/-- The call finds `msg` in the cache. -/
def Hits (s : CachingResolver) (op : Op) (key : CacheKey) (msg : DnsMessage) : Prop :=
  ∃ env, op.lookup = some (env, key) ∧ (s.probe env key).msg = some msg

/-- The RCODE bits of a request; a datagram on the raw path counts as NOERROR. -/
def Op.requestRcode : Op → UInt8
  | .query _ req _ => req.header.rcode
  | .peekCache _ req => req.header.rcode
  | _ => DnsRcode.NoError

theorem rcode_buildCachedReply (req cached : DnsMessage) :
    (buildCachedReply req cached).header.rcode = req.header.rcode :=
  DnsMessage.rcode_createReply req

/-- A call that finds its key replies, and the reply carries the RCODE bits of the
request. -/
theorem reply_of_hits {s : CachingResolver} {op : Op} {key : CacheKey} {msg : DnsMessage}
    (h : Hits s op key msg) :
    ∃ reply, op.reply s = some reply ∧ reply.header.rcode = op.requestRcode := by
  obtain ⟨env, hlookup, hmsg⟩ := h
  rw [reply_eq_cachedReply hlookup hmsg]
  cases op with
  | query env' req allowFanOut =>
    rw [Op.cachedReply, hmsg]
    exact ⟨_, rfl, rcode_buildCachedReply req msg⟩
  | peekCache env' req =>
    rw [Op.cachedReply, hmsg]
    exact ⟨_, rfl, rcode_buildCachedReply req msg⟩
  | peekCacheRaw env' data =>
    have hflags : ((0x8180 : UInt16) &&& 0xF).toUInt8 = DnsRcode.NoError := by decide
    cases hp : s.probe env key with
    | turbo m => exact ⟨_, rfl, hflags⟩
    | fresh entry => exact ⟨_, rfl, hflags⟩
    | stale entry => exact ⟨_, rfl, hflags⟩
    | miss =>
      rw [hp] at hmsg
      cases hmsg
  | refreshEntry env' key' question => cases hlookup
  | gcCache env' => cases hlookup
  | flushCache => cases hlookup
  | loadCache now file => cases hlookup

/-- A stored message keeps the RCODE of the message it was made of. -/
theorem Stored.rcode_eq {s : CachingResolver} {op : Op} {key : CacheKey} {u msg : DnsMessage}
    (h : Stored s op key u msg) : msg.header.rcode = u.header.rcode := by
  cases h with
  | fetched hfetched =>
    cases hfetched with
    | reply hq hmiss hback hcache => rfl
    | failure hq hmiss hback hroom => rfl
    | refresh hback hcache hold => rfl
  | loaded hop hwire hparse => rfl

/-! ## Runs -/

/-- The run stored `msg`, made of `u`, under a key with the hash of `key`. -/
def StoredFor (ops : List Op) (key : CacheKey) (u msg : DnsMessage) : Prop :=
  Happened step {}
    (fun s op => ∃ key', Stored s op key' u msg ∧ turboHash key' = turboHash key) ops

/-- Every reply from the cache carries the RCODE of the message that was stored for
it earlier in the run. -/
def RcodePreserved (ops : List Op) : Prop :=
  ∀ before op after, ops = before ++ op :: after →
    ∀ key msg, Hits (run step {} before) op key msg →
      ∃ reply u, op.reply (run step {} before) = some reply ∧ StoredFor before key u msg ∧
        reply.header.rcode = u.header.rcode

/-- At every hit of the run the cached message has the RCODE bits of the request. -/
def RcodeAgrees (ops : List Op) : Prop :=
  ∀ before op after, ops = before ++ op :: after →
    ∀ key msg, Hits (run step {} before) op key msg → msg.header.rcode = op.requestRcode

theorem exists_storedFor_of_hits {ops : List Op} {op : Op} {key : CacheKey} {msg : DnsMessage}
    (h : Hits (run step {} ops) op key msg) : ∃ u, StoredFor ops key u msg := by
  obtain ⟨env, -, hmsg⟩ := h
  obtain ⟨s, op', hvisit, key', u, hstored, hhash⟩ := stored_of_holds (holds_of_probe hmsg)
  exact ⟨u, s, op', hvisit, key', hstored, hhash⟩

theorem StoredFor.rcode_eq {ops : List Op} {key : CacheKey} {u msg : DnsMessage}
    (h : StoredFor ops key u msg) : msg.header.rcode = u.header.rcode := by
  obtain ⟨s, op, -, key', hstored, -⟩ := h
  exact hstored.rcode_eq

/-- A run preserves the RCODE of every cached answer exactly when at each of its
hits the cached message has the RCODE bits of the request. -/
theorem rcodePreserved_iff (ops : List Op) : RcodePreserved ops ↔ RcodeAgrees ops := by
  refine ⟨fun h before op after hops key msg hhits => ?_,
    fun h before op after hops key msg hhits => ?_⟩
  · obtain ⟨reply, u, hreply, hstored, hrcode⟩ := h before op after hops key msg hhits
    obtain ⟨reply', hreply', hrequest⟩ := reply_of_hits hhits
    rw [hreply, Option.some.injEq] at hreply'
    rw [hstored.rcode_eq, ← hrcode, hreply', hrequest]
  · obtain ⟨reply, hreply, hrequest⟩ := reply_of_hits hhits
    obtain ⟨u, hstored⟩ := exists_storedFor_of_hits hhits
    refine ⟨reply, u, hreply, hstored, ?_⟩
    rw [hrequest, ← hstored.rcode_eq, h before op after hops key msg hhits]

/-- The same name asked twice, where the resolver behind says NXDOMAIN: the second
answer comes from L1 as NOERROR. -/
def repeatedQuery : List Op :=
  let op := denyingQuery { name := [0x61], type := 1, qclass := 1 }
  [op, op]

theorem repeatedQuery_not_rcodePreserved : ¬RcodePreserved repeatedQuery := by
  intro h
  have hhits : Hits (run step {} [denyingQuery { name := [0x61], type := 1, qclass := 1 }])
      (denyingQuery { name := [0x61], type := 1, qclass := 1 })
      { name := [0x61], type := 1, qclass := 1 }
      (DnsMessage.createError (DnsMessage.createQuery [0x61] 1) DnsRcode.NXDomain) :=
    ⟨denyingEnv, rfl, by decide +kernel⟩
  obtain ⟨reply, u, hreply, hstored, hrcode⟩ := h [_] _ [] rfl _ _ hhits
  obtain ⟨reply', hreply', hrequest⟩ := reply_of_hits hhits
  rw [hreply, Option.some.injEq] at hreply'
  rw [← hstored.rcode_eq, hreply', hrequest] at hrcode
  exact absurd hrcode (by decide)

end CachingResolver
end Dnss
