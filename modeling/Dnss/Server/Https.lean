/-
The DoH server: DNS messages that come in by HTTP and go out by UDP.

Each connection is served in a thread of its own.  The thread reads one request, sends the message
in its body to the upstream as it packs it, and takes the first datagram that comes to the socket
for the reply: it asks neither who sent it nor which question or identifier it is for.  What
throws on the way to the upstream becomes a SERVFAIL; what throws elsewhere closes the connection
without a response.  The receive call has no time limit.

`serve_message_iff` says for every request when a message is sent back, by what stands in the
body and in the datagram.  `serve_forwards` is the case in which all goes well: the reply is
what the upstream sent, under the identifier of the request.

HTTP itself is not in the source: a request is what has been read of it.
-/
import Dnss.Config.File
import Dnss.Protocol.RoundTrip
import Dnss.Server.ReplyIds

namespace Dnss
namespace HttpsServer

open ConfigFile (ascii)
open DnsServer (splitAddr)

/-! ## Requests and responses -/

inductive Verb where
  | get
  | post
  | other
  deriving DecidableEq

structure Request where
  method : Verb
  version : Nat := 11
  target : Bytes
  /-- The value of the field `Content-Type`, empty where there is none. -/
  contentType : Bytes
  body : Bytes

/-- The fields stand in the order in which they were set. -/
structure Response where
  result : Nat
  version : Nat
  fields : List (Bytes × Bytes)
  body : Bytes
  deriving DecidableEq

def dnsMessageType : Bytes := ascii "application/dns-message"

def decimalText (n : Nat) : Bytes := (Nat.toDigits 10 n).map fun c => c.toNat.toUInt8

/-- A response with its content type; `prepare_payload` sets the length after it. -/
def respond (req : Request) (result : Nat) (contentType body : Bytes) : Response :=
  { result := result
    version := req.version
    fields := [(ascii "Content-Type", contentType),
      (ascii "Content-Length", decimalText body.length)]
    body := body }

/-! ## The upstream -/

/-- What happens on the socket to the upstream: a call throws, or datagrams come in one after
the other, each with its sender. -/
inductive Exchange where
  | threw
  | arrivals (datagrams : List (Bytes × Bytes))
  deriving DecidableEq

/-- By host, port and datagram. -/
abbrev Net := Bytes → Bytes → Bytes → Exchange

inductive Forwarded where
  | reply (m : DnsMessage)
  | threw
  | waits
  | undefined
  deriving DecidableEq

/-- The first datagram is read into 4096 bytes, whoever has sent it. -/
def receiveReply (id : UInt16) : Exchange → Forwarded
  | .threw => .threw
  | .arrivals [] => .waits
  | .arrivals ((_, datagram) :: _) =>
    match DnsMessage.parse (datagram.take 4096) with
    | .error (.thrown _) => .threw
    | .error .outOfRange => .undefined
    | .ok reply => .reply { reply with header := { reply.header with id := id } }

/-- The message is sent to the host and the port of the upstream. -/
def ask (net : Net) (upstream wire : Bytes) : Exchange :=
  net (splitAddr upstream).1 (splitAddr upstream).2 wire

def forward (net : Net) (upstream : Bytes) (dnsReq : DnsMessage) : Forwarded :=
  match DnsMessage.pack dnsReq with
  | .error _ => .threw
  | .ok wire => receiveReply dnsReq.header.id (ask net upstream wire)

/-! ## A connection -/

/-- What the client sees: a response, the end of the connection without one, or nothing for as
long as it waits. -/
inductive Outcome where
  | response (resp : Response)
  | closed
  | waits
  | undefined
  deriving DecidableEq

def sendReply (req : Request) (reply : DnsMessage) : Outcome :=
  match DnsMessage.pack reply with
  | .error _ => .closed
  | .ok wire => .response (respond req 200 dnsMessageType wire)

/-- What has come of the forwarding goes back; an exception there has been caught. -/
def sendForwarded (req : Request) (dnsReq : DnsMessage) : Forwarded → Outcome
  | .reply reply => sendReply req reply
  | .threw => sendReply req (DnsMessage.createError dnsReq DnsRcode.ServFail)
  | .waits => .waits
  | .undefined => .undefined

/-- The innermost branch, which the TLS and the plain server have a copy of each. -/
def answer (net : Net) (upstream : Bytes) (req : Request) : Outcome :=
  match DnsMessage.parse req.body with
  | .error (.thrown _) => .closed
  | .error .outOfRange => .undefined
  | .ok dnsReq =>
    if dnsReq.hasQuestions then sendForwarded req dnsReq (forward net upstream dnsReq)
    else .response (respond req 400 (ascii "text/plain") (ascii "invalid DNS message"))

def serveTls (net : Net) (upstream : Bytes) (req : Request) : Outcome :=
  if req.method = .post ∧ req.contentType = dnsMessageType then answer net upstream req
  else .response (respond req 400 (ascii "text/plain") (ascii "unsupported request"))

def validPath (target : Bytes) : Prop := target = ascii "/dns-query" ∨ target = ascii "/resolve"

instance (target : Bytes) : Decidable (validPath target) :=
  inferInstanceAs (Decidable (_ ∨ _))

def servePlain (net : Net) (upstream : Bytes) (req : Request) : Outcome :=
  if validPath req.target ∧ req.method = .post ∧ req.contentType = dnsMessageType then
    answer net upstream req
  else if validPath req.target ∧ req.method = .get then
    .response (respond req 501 (ascii "text/plain") (ascii "GET method not yet implemented"))
  else .response (respond req 400 (ascii "text/plain") (ascii "unsupported request type"))

/-- The thread of a connection that `listenAndServe` accepts. -/
def serve (insecure : Bool) (net : Net) (upstream : Bytes) (req : Request) : Outcome :=
  if insecure then servePlain net upstream req else serveTls net upstream req

/-! ## When a message is sent back -/

/-- A request that is to be forwarded. -/
structure Asks (insecure : Bool) (req : Request) : Prop where
  post : req.method = .post
  contentType : req.contentType = dnsMessageType
  path : insecure = true → validPath req.target

/-- The outcome is a response with a DNS message. -/
def Outcome.Message (o : Outcome) (wire : Bytes) : Prop :=
  ∃ resp, o = .response resp ∧ resp.result = 200 ∧ resp.body = wire

section

variable {insecure : Bool} {net : Net} {upstream : Bytes} {req : Request} {wire : Bytes}

theorem serve_of_asks (h : Asks insecure req) :
    serve insecure net upstream req = answer net upstream req := by
  cases insecure with
  | false =>
    show serveTls net upstream req = _
    rw [serveTls, if_pos ⟨h.post, h.contentType⟩]
  | true =>
    show servePlain net upstream req = _
    rw [servePlain, if_pos ⟨h.path rfl, h.post, h.contentType⟩]

/-- The other responses have another status. -/
theorem asks_of_message (h : (serve insecure net upstream req).Message wire) :
    Asks insecure req := by
  obtain ⟨resp, hresp, hresult, -⟩ := h
  cases insecure with
  | false =>
    by_cases hpost : req.method = .post ∧ req.contentType = dnsMessageType
    · exact ⟨hpost.1, hpost.2, fun hcontra => by cases hcontra⟩
    · have hserve : serve false net upstream req =
          .response (respond req 400 (ascii "text/plain") (ascii "unsupported request")) :=
        if_neg hpost
      rw [hserve] at hresp
      cases hresp
      cases hresult
  | true =>
    by_cases hpost : validPath req.target ∧ req.method = .post ∧ req.contentType = dnsMessageType
    · exact ⟨hpost.2.1, hpost.2.2, fun _ => hpost.1⟩
    · have hserve : serve true net upstream req =
          if validPath req.target ∧ req.method = .get then
            .response (respond req 501 (ascii "text/plain")
              (ascii "GET method not yet implemented"))
          else .response (respond req 400 (ascii "text/plain")
            (ascii "unsupported request type")) := if_neg hpost
      rw [hserve] at hresp
      split at hresp
      · cases hresp
        cases hresult
      · cases hresp
        cases hresult

theorem sendReply_message_iff {reply : DnsMessage} :
    (sendReply req reply).Message wire ↔ DnsMessage.pack reply = .ok wire := by
  unfold sendReply
  cases hpack : DnsMessage.pack reply with
  | error e =>
    refine ⟨fun h => ?_, fun h => by cases h⟩
    obtain ⟨resp, hresp, -⟩ := h
    cases hresp
  | ok out =>
    constructor
    · intro h
      obtain ⟨resp, hresp, -, hbody⟩ := h
      cases hresp
      rw [← hbody]
      rfl
    · intro h
      rw [Except.ok.inj h]
      exact ⟨_, rfl, rfl, rfl⟩

end

/-- A datagram that `parse` reads without leaving it and that can be packed again if it is a
message. -/
structure Relayed (datagram : Bytes) : Prop where
  noOverread : DnsServer.NoOverread datagram
  encodable : ∀ w, Wire.MessageAt datagram w → ∀ ls ∈ w.owners, Wire.Encodable ls

/-- A call throws, or the first datagram can be sent back. -/
def Exchange.Replies : Exchange → Prop
  | .threw => True
  | .arrivals [] => False
  | .arrivals ((_, datagram) :: _) => Relayed (datagram.take 4096)

section

variable {insecure : Bool} {net : Net} {upstream : Bytes} {req : Request} {wire : Bytes}
  {w : Wire.Message}

theorem exists_sendReply_iff {reply : DnsMessage} :
    (∃ wire, (sendReply req reply).Message wire) ↔ reply.Packable := by
  rw [← DnsMessage.exists_pack_iff]
  exact exists_congr fun wire => sendReply_message_iff

theorem not_message {o : Outcome} (h : ∀ resp, o ≠ .response resp) :
    ¬ ∃ wire, o.Message wire := by
  intro hex
  obtain ⟨wire, resp, hresp, -⟩ := hex
  exact h resp hresp

/-- What the exchange with the upstream makes of a request whose questions can be packed. -/
theorem exists_sendForwarded_iff (hquestions : ∀ q ∈ w.questions, Wire.Encodable q.labels)
    (id : UInt16) (exchange : Exchange) :
    (∃ wire, (sendForwarded req w.flatten (receiveReply id exchange)).Message wire) ↔
      exchange.Replies := by
  have hthrew : ∃ wire, (sendForwarded req w.flatten .threw).Message wire :=
    exists_sendReply_iff.mpr (DnsServer.packable_createError_flatten_iff.mpr hquestions)
  match exchange with
  | .threw => exact ⟨fun _ => trivial, fun _ => hthrew⟩
  | .arrivals [] =>
    exact ⟨fun h => absurd h (not_message fun resp => by nofun), fun h => h.elim⟩
  | .arrivals ((sender, datagram) :: later) =>
    show (∃ wire, (sendForwarded req w.flatten (receiveReply id _)).Message wire) ↔
      Relayed (datagram.take 4096)
    cases hparse : DnsMessage.parse (datagram.take 4096) with
    | error f =>
      have hnone : ∀ w', ¬ Wire.MessageAt (datagram.take 4096) w' := by
        intro w' hw'
        rw [DnsMessage.parse_eq_ok_iff.mpr ⟨w', hw', rfl⟩] at hparse
        cases hparse
      cases f with
      | thrown e =>
        have hover : DnsServer.NoOverread (datagram.take 4096) := by
          rw [← DnsServer.parse_ne_outOfRange_iff, hparse]
          nofun
        simp only [receiveReply, hparse]
        exact ⟨fun _ => ⟨hover, fun w' hw' => absurd hw' (hnone w')⟩, fun _ => hthrew⟩
      | outOfRange =>
        simp only [receiveReply, hparse]
        refine ⟨fun h => absurd h (not_message fun resp => by nofun), fun h => ?_⟩
        exact absurd hparse (DnsServer.parse_ne_outOfRange_iff.mpr h.noOverread)
    | ok reply =>
      obtain ⟨w', hw', rfl⟩ := DnsMessage.parse_eq_ok_iff.mp hparse
      have hover : DnsServer.NoOverread (datagram.take 4096) := by
        rw [← DnsServer.parse_ne_outOfRange_iff, hparse]
        nofun
      simp only [receiveReply, hparse]
      -- The identifier is the only thing that changes on the way back.
      refine exists_sendReply_iff.trans (DnsMessage.packable_flatten_iff (w := w') |>.trans ?_)
      refine ⟨fun h => ⟨hover, fun v hv => ?_⟩, fun h => h.encodable w' hw'⟩
      rw [hv.functional hw']
      exact h

/-- A request that cannot be packed is not sent, and ends like one whose sending throws. -/
theorem exists_forward_iff (hquestions : ∀ q ∈ w.questions, Wire.Encodable q.labels) :
    (∃ wire, (sendForwarded req w.flatten (forward net upstream w.flatten)).Message wire) ↔
      ((∀ ls ∈ w.owners, Wire.Encodable ls) → (ask net upstream w.recode.encode).Replies) := by
  by_cases howners : ∀ ls ∈ w.owners, Wire.Encodable ls
  · have hpack := DnsMessage.pack_flatten_eq_ok_iff.mpr ⟨howners, rfl⟩
    have hforward : forward net upstream w.flatten =
        receiveReply w.flatten.header.id (ask net upstream w.recode.encode) := by
      rw [forward, hpack]
    rw [hforward, exists_sendForwarded_iff hquestions]
    exact ⟨fun h _ => h, fun h => h howners⟩
  · have hforward : forward net upstream w.flatten = .threw := by
      cases hpack : DnsMessage.pack w.flatten with
      | error e => rw [forward, hpack]
      | ok out => exact absurd (DnsMessage.pack_flatten_eq_ok_iff.mp hpack).1 howners
    rw [hforward]
    refine ⟨fun _ h => absurd h howners, fun _ => ?_⟩
    exact (exists_sendForwarded_iff hquestions 0 .threw).mpr trivial

/-- The questions are repeated in every reply that the server makes itself. -/
theorem questions_of_forward
    (h : ∃ wire, (sendForwarded req w.flatten (forward net upstream w.flatten)).Message wire) :
    ∀ q ∈ w.questions, Wire.Encodable q.labels := by
  cases hpack : DnsMessage.pack w.flatten with
  | ok out =>
    have howners := (DnsMessage.pack_flatten_eq_ok_iff.mp hpack).1
    intro q hq
    exact howners _ (List.mem_append_left _ (List.mem_map_of_mem hq))
  | error e =>
    have hforward : forward net upstream w.flatten = .threw := by rw [forward, hpack]
    rw [hforward] at h
    exact DnsServer.packable_createError_flatten_iff.mp (exists_sendReply_iff.mp h)

theorem id_of_forwarded {dnsReq : DnsMessage}
    (h : (sendForwarded req dnsReq (forward net upstream dnsReq)).Message wire) :
    StartsWith dnsReq.header.id wire := by
  have hreply : ∀ reply : DnsMessage, reply.header.id = dnsReq.header.id →
      (sendReply req reply).Message wire → StartsWith dnsReq.header.id wire := by
    intro reply hid hmessage
    rw [← hid]
    exact DnsMessage.startsWith_of_pack (sendReply_message_iff.mp hmessage)
  cases hforward : forward net upstream dnsReq with
  | threw =>
    rw [hforward] at h
    exact hreply (DnsMessage.createError dnsReq DnsRcode.ServFail) rfl h
  | waits =>
    rw [hforward] at h
    exact absurd ⟨wire, h⟩ (not_message fun resp => by nofun)
  | undefined =>
    rw [hforward] at h
    exact absurd ⟨wire, h⟩ (not_message fun resp => by nofun)
  | reply m =>
    rw [hforward] at h
    refine hreply m ?_ h
    unfold forward at hforward
    split at hforward
    · cases hforward
    · unfold receiveReply at hforward
      split at hforward
      · cases hforward
      · cases hforward
      · split at hforward
        · cases hforward
        · cases hforward
        · cases hforward
          rfl

/-- There is a message with a question in the body, its questions can be packed, and, if all of it
can be packed, the upstream replies with something that can be packed. -/
def Answerable (net : Net) (upstream body : Bytes) : Prop :=
  ∃ w, Wire.MessageAt body w ∧ w.questions ≠ [] ∧
    (∀ q ∈ w.questions, Wire.Encodable q.labels) ∧
    ((∀ ls ∈ w.owners, Wire.Encodable ls) → (ask net upstream w.recode.encode).Replies)

theorem exists_answer_iff :
    (∃ wire, (answer net upstream req).Message wire) ↔ Answerable net upstream req.body := by
  unfold answer
  cases hparse : DnsMessage.parse req.body with
  | error f =>
    have hnone : ¬ Answerable net upstream req.body := by
      intro h
      obtain ⟨w, hw, -⟩ := h
      rw [DnsMessage.parse_eq_ok_iff.mpr ⟨w, hw, rfl⟩] at hparse
      cases hparse
    cases f with
    | thrown e => exact ⟨fun h => absurd h (not_message fun resp => by nofun), hnone.elim⟩
    | outOfRange => exact ⟨fun h => absurd h (not_message fun resp => by nofun), hnone.elim⟩
  | ok dnsReq =>
    obtain ⟨w, hw, rfl⟩ := DnsMessage.parse_eq_ok_iff.mp hparse
    have hhas : w.flatten.hasQuestions = true ↔ w.questions ≠ [] := by
      show (!(w.questions.map Wire.Question.flatten).isEmpty) = true ↔ _
      simp
    by_cases hquestions : w.questions ≠ []
    · simp only [hhas.mpr hquestions, if_true]
      constructor
      · intro h
        have hencodable := questions_of_forward h
        exact ⟨w, hw, hquestions, hencodable, (exists_forward_iff hencodable).mp h⟩
      · intro h
        obtain ⟨v, hv, -, hencodable, hreplies⟩ := h
        rw [hv.functional hw] at hencodable hreplies
        exact (exists_forward_iff hencodable).mpr hreplies
    · have hno : w.flatten.hasQuestions = false := by
        rw [← Bool.not_eq_true, hhas]
        exact hquestions
      simp only [hno, Bool.false_eq_true, if_false]
      constructor
      · intro h
        obtain ⟨wire, resp, hresp, hresult, -⟩ := h
        cases hresp
        cases hresult
      · intro h
        obtain ⟨v, hv, hne, -⟩ := h
        rw [hv.functional hw] at hne
        exact absurd hne hquestions

theorem sameId_of_answer (h : (answer net upstream req).Message wire) : SameId req.body wire := by
  unfold answer at h
  split at h
  · exact absurd ⟨wire, h⟩ (not_message fun resp => by nofun)
  · exact absurd ⟨wire, h⟩ (not_message fun resp => by nofun)
  · next dnsReq hparse =>
    split at h
    · exact ⟨_, DnsMessage.startsWith_of_parse hparse, id_of_forwarded h⟩
    · obtain ⟨resp, hresp, hresult, -⟩ := h
      cases hresp
      cases hresult

/-- A message is sent back exactly when the request is to be forwarded and can be answered, and it
has the identifier of the message in the request.  A datagram that `parse` reads past its end
counts as unanswerable: what stands behind it in the buffer is not determined, and the program may
well send a message made of it. -/
theorem serve_message_iff (insecure : Bool) (net : Net) (upstream : Bytes) (req : Request) :
    ((∃ wire, (serve insecure net upstream req).Message wire) ↔
      Asks insecure req ∧ Answerable net upstream req.body) ∧
      ∀ wire, (serve insecure net upstream req).Message wire → SameId req.body wire := by
  by_cases hasks : Asks insecure req
  · rw [serve_of_asks hasks, exists_answer_iff]
    exact ⟨⟨fun h => ⟨hasks, h⟩, fun h => h.2⟩, fun wire h => sameId_of_answer h⟩
  · have hnone : ∀ wire, ¬ (serve insecure net upstream req).Message wire :=
      fun wire h => hasks (asks_of_message h)
    refine ⟨⟨fun h => ?_, fun h => absurd h.1 hasks⟩, fun wire h => absurd h (hnone wire)⟩
    obtain ⟨wire, h⟩ := h
    exact absurd h (hnone wire)

/-! ## What is sent back -/

/-- The reply of the upstream under another identifier. -/
def withId (m : DnsMessage) (id : UInt16) : DnsMessage :=
  { m with header := { m.header with id := id } }

theorem wellFormed_withId {m : DnsMessage} (h : m.WellFormed) (id : UInt16) :
    (withId m id).WellFormed :=
  ⟨h.qdcount, h.ancount, h.nscount, h.arcount, h.questions, h.records⟩

theorem serve_of_reply (hasks : Asks insecure req) {q m : DnsMessage}
    (hparse : DnsMessage.parse req.body = .ok q) (hq : q.WellFormed) (hquestions : q.questions ≠ [])
    {sender datagram : Bytes} {later : List (Bytes × Bytes)}
    (hnet : ask net upstream q.packed = .arrivals ((sender, datagram) :: later))
    (hreply : DnsMessage.parse (datagram.take 4096) = .ok m) (hm : m.WellFormed) :
    serve insecure net upstream req =
      .response (respond req 200 dnsMessageType (withId m q.header.id).packed) := by
  have hhas : q.hasQuestions = true := by
    show (!q.questions.isEmpty) = true
    simpa using hquestions
  have hpack : DnsMessage.pack q = .ok q.packed :=
    DnsMessage.pack_eq_ok_iff.mpr ⟨hq.parse_packed.1, rfl⟩
  have hback : DnsMessage.pack (withId m q.header.id) = .ok (withId m q.header.id).packed :=
    DnsMessage.pack_eq_ok_iff.mpr ⟨(wellFormed_withId hm q.header.id).parse_packed.1, rfl⟩
  have hforward : forward net upstream q = .reply (withId m q.header.id) := by
    rw [forward, hpack]
    show receiveReply q.header.id (ask net upstream q.packed) = _
    rw [hnet, receiveReply, hreply]
    rfl
  rw [serve_of_asks hasks, answer, hparse]
  simp only [hhas, if_true, hforward, sendForwarded, sendReply, hback]

/-- The client reads what the upstream has sent, under its own identifier: whoever sent the
datagram, and whatever question and identifier it is for. -/
theorem serve_forwards (hasks : Asks insecure req) {q m : DnsMessage}
    (hparse : DnsMessage.parse req.body = .ok q) (hq : q.WellFormed) (hquestions : q.questions ≠ [])
    {sender datagram : Bytes} {later : List (Bytes × Bytes)}
    (hnet : ask net upstream q.packed = .arrivals ((sender, datagram) :: later))
    (hreply : DnsMessage.parse (datagram.take 4096) = .ok m) (hm : m.WellFormed) :
    ∃ wire, (serve insecure net upstream req).Message wire ∧
      DnsMessage.parse wire = .ok (withId m q.header.id) := by
  have hserve := serve_of_reply hasks hparse hq hquestions hnet hreply hm
  exact ⟨_, ⟨_, hserve, rfl, rfl⟩, (wellFormed_withId hm q.header.id).parse_packed.2⟩

end

/-- A reply of another name server, which came first, for the message of the same identifier. -/
def twoReplies : Net := fun _ _ _ =>
  .arrivals [(ascii "192.0.2.1", (withId DnsMessage.mxReply 9).packed), (ascii "8.8.8.8", [])]

def postRequest : Request :=
  { method := .post, target := ascii "/dns-query", contentType := dnsMessageType,
    body := DnsMessage.mxReply.packed }

theorem serve_twoReplies :
    ∃ wire, (serve true twoReplies (ascii "8.8.8.8:53") postRequest).Message wire ∧
      DnsMessage.parse wire = .ok DnsMessage.mxReply := by
  have hm := wellFormed_withId DnsMessage.mxReply_wellFormed 9
  have hcut : ∀ data : Bytes, data.length ≤ 4096 → data.take 4096 = data :=
    fun data h => List.take_of_length_le h
  refine serve_forwards ⟨rfl, rfl, fun _ => .inl rfl⟩ DnsMessage.mxReply_wellFormed.parse_packed.2
    DnsMessage.mxReply_wellFormed (by decide) rfl ?_ hm
  rw [hcut _ (by decide +kernel)]
  exact hm.parse_packed.2

end HttpsServer
end Dnss
