/-
The length in front of a TCP reply.

The server writes the length of a reply as a 16-bit number.  A reply is packed without
compression, and the names in it may have been compressed when it came, so it can be
longer than the message it came in, and longer than the number can say.

`framesWell_iff` says for every resolver and every request when the number is the
length of the message behind it.
-/
import Dnss.Server.ReplyIds
import Dnss.Protocol.RoundTrip
import Mathlib.Algebra.GroupWithZero.Nat

namespace Dnss

open Cursor Separated

/-! ## The size of a reply -/

namespace DnsMessage

/-- The bytes of a name without compression. -/
def nameSize (name : Bytes) : Nat :=
  ((splitWords dot name).map fun word => word.length + 1).sum + 1

/-- The bytes of a message without compression. -/
def wireSize (m : DnsMessage) : Nat :=
  12 + (m.questions.map fun q => nameSize q.qname + 4).sum +
    (m.records.map fun rr => nameSize rr.name + 10 + rr.rdata.length).sum

theorem length_encodeLabels (ls : List Bytes) :
    (Wire.encodeLabels ls).length = (ls.map fun l => l.length + 1).sum + 1 := by
  rw [Wire.encodeLabels, List.length_append, List.length_flatMap]
  rfl

theorem length_packed (m : DnsMessage) : m.packed.length = m.wireSize := by
  have hquestion : ∀ q, (packedQuestion q).length = nameSize q.qname + 4 := by
    intro q
    rw [packedQuestion, List.length_append, length_encodeLabels]
    rfl
  have hrecord : ∀ rr, (packedRecord rr).length = nameSize rr.name + 10 + rr.rdata.length := by
    intro rr
    rw [packedRecord, List.length_append, List.length_append, length_encodeLabels]
    rfl
  have hheader : (packHeader m).length = 12 := rfl
  rw [packed, List.length_append, List.length_append, List.length_flatMap, List.length_flatMap,
    hheader]
  simp only [hquestion, hrecord, wireSize, Nat.add_assoc]

end DnsMessage

namespace DnsServer

/-! ## Frames -/

/-- The first two bytes are the number of the bytes behind them. -/
def Framed (frame : Bytes) : Prop :=
  ∃ hi lo body, frame = hi :: lo :: body ∧ (Word.be16 hi lo).toNat = body.length

theorem framed_tcpFrame_iff (wire : Bytes) : Framed (tcpFrame wire) ↔ wire.length ≤ 65535 := by
  have hlen := CachingResolver.toNat_ofNat_eq_iff wire.length
  have hword := Word.be16_be16Bytes (UInt16.ofNat wire.length)
  have hframe : tcpFrame wire = (UInt16.ofNat wire.length >>> 8).toUInt8 ::
      (UInt16.ofNat wire.length).toUInt8 :: wire := rfl
  constructor
  · intro h
    obtain ⟨hi, lo, body, heq, hcount⟩ := h
    rw [hframe, List.cons.injEq, List.cons.injEq] at heq
    obtain ⟨rfl, rfl, rfl⟩ := heq
    rw [hword, hlen] at hcount
    omega
  · intro h
    refine ⟨_, _, wire, hframe, ?_⟩
    rw [hword, hlen]
    omega

/-- The message is within the 16-bit length, if it can be packed at all. -/
def Fits (m : DnsMessage) : Prop := m.Packable → m.wireSize ≤ 65535

theorem forall_framed_iff (m : DnsMessage) :
    (∀ wire, DnsMessage.pack m = .ok wire → Framed (tcpFrame wire)) ↔ Fits m := by
  simp only [framed_tcpFrame_iff, DnsMessage.pack_eq_ok_iff]
  rw [Fits, ← DnsMessage.length_packed]
  constructor
  · intro h hpack
    exact h m.packed ⟨hpack, rfl⟩
  · intro h wire hwire
    rw [hwire.2]
    exact h hwire.1

/-- The SERVFAIL for the request. -/
def FailFits (req : DnsMessage) : Prop := Fits (DnsMessage.createError req DnsRcode.ServFail)

/-- The reply fits, and so does the SERVFAIL that takes its place if it cannot be
packed. -/
def ReplyFits (req reply : DnsMessage) : Prop :=
  Fits reply ∧ (¬reply.Packable → FailFits req)

/-- What answers the request fits: the cached message, the reply of the resolver, or
the SERVFAIL. -/
def TcpFits (res : Resolver) (req : DnsMessage) (data : Bytes) (pending : Nat) : Prop :=
  if pending < tcpBackpressureLimit then
    match res.peekCacheRaw data with
    | some cached => ReplyFits req cached
    | none =>
      match res.query req true with
      | .error .other => True
      | .error _ => FailFits req
      | .ok none => FailFits req
      | .ok (some reply) => ReplyFits req reply
  else FailFits req

/-- The lengths in front of the replies to a TCP request are right. -/
def FramesWell (srv : Server) (data : Bytes) (pending : Nat) : Prop :=
  (tcpServed srv data pending).toHandled.Sends Framed

theorem sends_framed_tcpServFail_iff {req : DnsMessage} {s : Served} (hs : s.sent = none) :
    (tcpServFail req s).toHandled.Sends Framed ↔ FailFits req := by
  rw [sends_tcpServFail_iff hs, forall_framed_iff]
  rfl

theorem sends_framed_tcpSend_iff (req reply : DnsMessage) {s : Served} (hs : s.sent = none) :
    (tcpSend req reply s).toHandled.Sends Framed ↔ ReplyFits req reply := by
  rw [sends_tcpSend_iff, forall_framed_iff, sends_framed_tcpServFail_iff hs]
  rfl

theorem sends_framed_tcpTask_iff {res : Resolver} {req : DnsMessage} {data : Bytes} {s : Served}
    (hs : s.sent = none) {pending : Nat} (hroom : pending < tcpBackpressureLimit) :
    (tcpTask res req data s).toHandled.Sends Framed ↔ TcpFits res req data pending := by
  rw [TcpFits, if_pos hroom, tcpTask]
  cases res.peekCacheRaw data with
  | some cached => exact sends_framed_tcpSend_iff _ _ hs
  | none =>
    simp only
    cases res.query req true with
    | error e =>
      cases e with
      | runtimeError e => exact sends_framed_tcpServFail_iff hs
      | stdException => exact sends_framed_tcpServFail_iff hs
      | other =>
        simp only [iff_true]
        exact Handled.sends_of_none hs
    | ok reply =>
      cases reply with
      | none =>
        have hsend := sends_framed_tcpSend_iff req (DnsMessage.createError req DnsRcode.ServFail)
          (s := { s with destination := some .resolver }) hs
        exact hsend.trans ⟨fun h => h.1, fun h => ⟨h, fun _ => h⟩⟩
      | some reply => exact sends_framed_tcpSend_iff _ _ hs

theorem framesWell_iff_tcpFits {srv : Server} {data : Bytes} {req : DnsMessage} (pending : Nat)
    (hparse : DnsMessage.parse data = .ok req) (hquestions : req.hasQuestions = true) :
    FramesWell srv data pending ↔ TcpFits srv.res req data pending := by
  have hlen : ¬data.length < 12 := Nat.not_lt.mpr (length_of_parse hparse)
  rw [FramesWell, tcpServed, hparse, if_neg hlen]
  by_cases hroom : pending < tcpBackpressureLimit
  · simp only [hquestions, hroom, if_true]
    exact sends_framed_tcpTask_iff rfl hroom
  · simp only [hquestions, hroom, if_false]
    rw [TcpFits, if_neg hroom]
    exact sends_framed_tcpServFail_iff rfl

/-- The lengths are right exactly when what answers the request fits. -/
theorem framesWell_iff (srv : Server) (data : Bytes) (pending : Nat) :
    FramesWell srv data pending ↔
      ∀ req, DnsMessage.parse data = .ok req → req.hasQuestions = true →
        TcpFits srv.res req data pending := by
  constructor
  · intro h req hparse hquestions
    exact (framesWell_iff_tcpFits pending hparse hquestions).mp h
  · intro h
    by_cases hreq : ∃ req, DnsMessage.parse data = .ok req ∧ req.hasQuestions = true
    · obtain ⟨req, hparse, hquestions⟩ := hreq
      exact (framesWell_iff_tcpFits pending hparse hquestions).mpr (h req hparse hquestions)
    · -- Nothing is sent to a request that does not parse or has no question.
      refine Handled.sends_of_none ?_
      unfold tcpServed
      split
      · rfl
      · split
        · rfl
        · rfl
        · rename_i req hparse
          have hnone : req.hasQuestions = false :=
            Bool.eq_false_iff.mpr fun hquestions => hreq ⟨req, hparse, hquestions⟩
          rw [hnone]
          rfl

/-! An upstream answers with two records for one long name, the second by a pointer. -/

def longLabels (n : Nat) : List Bytes := List.replicate n (List.replicate 63 0x61)

/-- A query for the name `a`, type TXT. -/
def textQuery : Bytes := [0, 0, 1, 0, 0, 1, 0, 0, 0, 0, 0, 0, 1, 0x61, 0, 0, 16, 0, 1]

def textHeader : DnsHeader := { flags := 0x8180, qdcount := 1, ancount := 2 }

def pointedReply (n : Nat) : Bytes :=
  Wire.headerBytes textHeader ++ (Wire.encodeLabels [[0x61]] ++ [0, 16, 0, 1] ++
    (Wire.encodeLabels (longLabels n) ++ (Wire.fixedFields 16 1 600 0 ++
      ([0xC0, 19] ++ Wire.fixedFields 16 1 600 0))))

def textRecord (n : Nat) : Wire.Record :=
  { owner := longLabels n, type := 16, rclass := 1, ttl := 600, rdlen := 0, rdata := .raw [] }

def pointedMessage (n : Nat) : Wire.Message :=
  { id := 0, flags := 0x8180, questions := [⟨[[0x61]], 16, 1⟩],
    answers := [textRecord n, textRecord n], authorities := [], additionals := [] }

theorem length_longLabels {n : Nat} : ∀ l ∈ longLabels n, 0 < l.length ∧ l.length ≤ 63 := by
  intro l hl
  rw [List.eq_of_mem_replicate hl, List.length_replicate]
  decide

theorem length_encode_longLabels (n : Nat) :
    (Wire.encodeLabels (longLabels n)).length = 64 * n + 1 := by
  rw [DnsMessage.length_encodeLabels, longLabels, List.map_replicate, List.sum_replicate_nat,
    List.length_replicate]
  omega

theorem length_pointedReply (n : Nat) : (pointedReply n).length = 64 * n + 42 := by
  simp only [pointedReply, List.length_append, length_encode_longLabels, Wire.fixedFields_length]
  rw [show (Wire.headerBytes textHeader).length = 12 from rfl,
    show (Wire.encodeLabels [[0x61]]).length = 3 from rfl]
  simp only [List.length_cons, List.length_nil]
  omega

theorem messageAt_pointedReply (n : Nat) : Wire.MessageAt (pointedReply n) (pointedMessage n) := by
  -- The parts of the reply, one after the other.
  have hlen := length_pointedReply n
  obtain ⟨hheader, hrest⟩ := segAt_append_iff.mp (segAt_self (pointedReply n))
  obtain ⟨hquestion, hrest⟩ := segAt_append_iff.mp hrest
  obtain ⟨hqname, hqfields⟩ := segAt_append_iff.mp hquestion
  obtain ⟨howner, hrest⟩ := segAt_append_iff.mp hrest
  obtain ⟨hfields, hrest⟩ := segAt_append_iff.mp hrest
  obtain ⟨hpointer, hfields'⟩ := segAt_append_iff.mp hrest
  rw [length_encode_longLabels] at hfields hpointer hfields'
  have howner' : Wire.NameAt (pointedReply n) 0 19 (longLabels n) (19 + (64 * n + 1)) := by
    have hname := Wire.nameAt_of_encodeLabels length_longLabels howner
    rw [length_encode_longLabels] at hname
    exact hname
  have hquestionAt : Wire.QuestionAt (pointedReply n) 12 ⟨[[0x61]], 16, 1⟩ 19 :=
    ⟨15, Wire.name_of_encodeLabels (by decide) hqname, hqfields, rfl⟩
  have hraw : Wire.RdataAt (pointedReply n) 16 (19 + (64 * n + 1) + 10) 0 (.raw []) :=
    ⟨by decide, by decide, by decide, rfl⟩
  have hraw' : Wire.RdataAt (pointedReply n) 16 (19 + (64 * n + 1) + 10 + 2 + 10) 0 (.raw []) :=
    ⟨by decide, by decide, by decide, rfl⟩
  have hrecord : Wire.RecordAt (pointedReply n) 19 (textRecord n) (19 + (64 * n + 1) + 10) := by
    refine ⟨19 + (64 * n + 1), ⟨0, by decide, howner'⟩, hfields, ?_, hraw, rfl⟩
    show 19 + (64 * n + 1) + 10 + 0 ≤ (pointedReply n).length
    omega
  have hpointed : Wire.RecordAt (pointedReply n) (19 + (64 * n + 1) + 10) (textRecord n)
      (19 + (64 * n + 1) + 10 + 2 + 10) := by
    rw [segAt_cons_iff, segAt_cons_iff] at hpointer
    obtain ⟨hhi, hlo, -⟩ := hpointer
    have hname : Wire.NameAt (pointedReply n) 1 (19 + (64 * n + 1) + 10) (longLabels n)
        (19 + (64 * n + 1) + 10 + 2) := .pointer hhi (by decide) hlo howner'
    refine ⟨19 + (64 * n + 1) + 10 + 2, ⟨1, by decide, hname⟩, hfields', ?_, hraw', rfl⟩
    show 19 + (64 * n + 1) + 10 + 2 + 10 + 0 ≤ (pointedReply n).length
    omega
  have hanswers : SeqAt (Wire.RecordAt (pointedReply n)) 19 [textRecord n, textRecord n]
      (19 + (64 * n + 1) + 10 + 2 + 10) := ⟨_, hrecord, _, hpointed, rfl⟩
  exact ⟨textHeader, ⟨rfl, rfl, rfl, rfl, rfl, rfl⟩, hheader, 19, _, _, _,
    ⟨19, hquestionAt, rfl⟩, hanswers, rfl, rfl⟩

def textUpstream (n : Nat) : Network :=
  { getaddrinfo := fun _ => none, udp := fun _ _ => none, doh := fun _ _ => some (pointedReply n),
    udpWorksLater := true }

def textServer (n : Nat) : Server :=
  { res := CachingResolver.overSystem {} {} CachingResolver.denyingEnv CachingResolver.denyingEnv
      { servers := [], dohUrls := [[]] } (textUpstream n),
    overrides := DomainMap.empty, unqUpstream := [], net := fun _ _ _ => none }

/-- What a query of that server meets. -/
def textEnv (n : Nat) : Env :=
  { CachingResolver.denyingEnv with
    back := SystemResolver.asBack { servers := [], dohUrls := [[]] } (textUpstream n) }

theorem asBack_textUpstream (n : Nat) :
    SystemResolver.asBack { servers := [], dohUrls := [[]] } (textUpstream n)
      (DnsMessage.createQuery [0x61] 16) true = .ok (some (pointedMessage n).flatten) := by
  have hparse : DnsMessage.parse (pointedReply n) = .ok (pointedMessage n).flatten :=
    DnsMessage.parse_eq_ok_iff.mpr ⟨_, messageAt_pointedReply n, rfl⟩
  have hlen : ¬(pointedReply n).length < 12 := by
    rw [length_pointedReply]
    omega
  have hpack : DnsMessage.pack (DnsMessage.createQuery [0x61] 16) = .ok textQuery := by
    decide +kernel
  have hdoh : SystemResolver.queryDoh { servers := [], dohUrls := [[]] } (textUpstream n)
      (DnsMessage.createQuery [0x61] 16) = .ok (some (pointedMessage n).flatten) := by
    simp only [SystemResolver.queryDoh, hpack, SystemResolver.firstReply, textUpstream, hlen,
      hparse]
    rfl
  have hquery : (SystemResolver.query { servers := [], dohUrls := [[]] } (textUpstream n)
      (DnsMessage.createQuery [0x61] 16)).2 = .ok (pointedMessage n).flatten := by
    show SystemResolver.queryDohThenUdp _ _ _ = _
    rw [SystemResolver.queryDohThenUdp, hdoh]
    rfl
  rw [SystemResolver.asBack, hquery]

theorem shouldCache_pointedMessage (n : Nat) :
    CachingResolver.shouldCache ⟨[0x61], 16, 1⟩ (pointedMessage n).flatten = true := by
  -- The decision does not look at the owners of the answers.
  have howners : CachingResolver.shouldCache ⟨[0x61], 16, 1⟩ (pointedMessage n).flatten =
      CachingResolver.shouldCache ⟨[0x61], 16, 1⟩ (pointedMessage 0).flatten := rfl
  rw [howners]
  decide +kernel

theorem query_textServer (n : Nat) :
    (textServer n).res.query (DnsMessage.createQuery [0x61] 16) true =
      .ok (some (pointedMessage n).flatten) := by
  have hquestions : (DnsMessage.createQuery [0x61] 16).questions = [⟨[0x61], 16, 1⟩] := rfl
  have hback : (textEnv n).back (DnsMessage.createQuery [0x61] 16) (textEnv n).fanOutEnabled =
    .ok (some (pointedMessage n).flatten) := asBack_textUpstream n
  have hreply := CachingResolver.query_reply_of_store true hquestions
    (CachingResolver.probe_empty (textEnv n) _) hback (shouldCache_pointedMessage n)
  -- The records come with the lifetime that the cache gives them.
  have hrecords : CachingResolver.storeTTL CachingResolver.denyingEnv (pointedMessage n).flatten =
    CachingResolver.storeTTL CachingResolver.denyingEnv (pointedMessage 0).flatten := rfl
  have httl : CachingResolver.storeTTL CachingResolver.denyingEnv (pointedMessage 0).flatten =
    600 := by decide +kernel
  have hword : UInt32.ofInt 600 = 600 := by decide
  have hclobber : CachingResolver.clobberTTL (pointedMessage n).flatten 600 =
      (pointedMessage n).flatten := by
    rw [CachingResolver.clobberTTL, hword]
    rfl
  rw [← hrecords] at httl
  refine hreply.trans ?_
  show Except.ok (some (CachingResolver.clobberTTL (pointedMessage n).flatten
    (CachingResolver.storeTTL CachingResolver.denyingEnv (pointedMessage n).flatten))) = _
  rw [httl, hclobber]

theorem redotted_longLabels (n : Nat) : Wire.redotted (longLabels n) = longLabels n := by
  have hplain : Wire.Plain (longLabels n) := by
    intro l hl
    rw [List.eq_of_mem_replicate hl]
    decide
  refine (Wire.redotted_eq_self_iff fun l hl => ?_).mpr hplain
  exact List.length_pos_iff.mp (length_longLabels l hl).1

theorem packable_pointedMessage (n : Nat) : (pointedMessage n).flatten.Packable := by
  have hlong : Wire.Encodable (longLabels n) := by
    intro piece hpiece
    rw [redotted_longLabels] at hpiece
    exact (length_longLabels piece hpiece).2
  have hshort : Wire.Encodable [[0x61]] := by
    unfold Wire.Encodable
    decide +kernel
  rw [DnsMessage.packable_flatten_iff]
  intro ls hls
  have howners : (pointedMessage n).owners = [[[0x61]], longLabels n, longLabels n] := rfl
  rw [howners] at hls
  simp only [List.mem_cons, List.not_mem_nil, or_false, or_self] at hls
  rcases hls with rfl | rfl
  · exact hshort
  · exact hlong

theorem wireSize_pointedMessage (n : Nat) : (pointedMessage n).flatten.wireSize = 128 * n + 41 := by
  have hrecord : ((textRecord n).recode.encode).length = 64 * n + 11 := by
    show ((Wire.encodeLabels (Wire.redotted (longLabels n)) ++ _) ++ _).length = _
    rw [redotted_longLabels, List.length_append, List.length_append, length_encode_longLabels,
      Wire.fixedFields_length]
    rfl
  have hencode : (pointedMessage n).recode.encode =
      Wire.headerBytes (pointedMessage n).recode.header ++
        ((Wire.Question.recode ⟨[[0x61]], 16, 1⟩).encode ++
          ((textRecord n).recode.encode ++ (textRecord n).recode.encode)) := by
    simp [Wire.Message.encode, Wire.Message.recode, pointedMessage]
  rw [← DnsMessage.length_packed, DnsMessage.packed_flatten, hencode]
  have hheader : ∀ h, (Wire.headerBytes h).length = 12 := fun _ => rfl
  have hquestion : (Wire.Question.recode ⟨[[0x61]], 16, 1⟩).encode.length = 7 := by decide +kernel
  simp only [List.length_append, hrecord, hheader, hquestion]
  omega

theorem not_framesWell_textServer {n : Nat} (hn : 512 ≤ n) :
    ¬FramesWell (textServer n) textQuery 0 := by
  have hparse : DnsMessage.parse textQuery = .ok (DnsMessage.createQuery [0x61] 16) := by
    decide +kernel
  have hmiss : (textServer n).res.peekCacheRaw textQuery = none := by
    show (CachingResolver.peekCacheRaw {} CachingResolver.denyingEnv textQuery).2 = none
    decide +kernel
  have hsize := wireSize_pointedMessage n
  intro h
  have hfits := (framesWell_iff_tcpFits 0 hparse rfl).mp h
  rw [TcpFits, if_pos (by decide), hmiss] at hfits
  simp only [query_textServer] at hfits
  have hle := hfits.1 (packable_pointedMessage n)
  omega

/-- A reply of 32810 bytes is sent on as one of 65577 bytes, with the length 41. -/
theorem textServer_not_framesWell :
    (pointedReply 512).length ≤ 65535 ∧ ¬FramesWell (textServer 512) textQuery 0 := by
  rw [length_pointedReply]
  exact ⟨by decide, not_framesWell_textServer (Nat.le_refl _)⟩

end DnsServer
end Dnss
