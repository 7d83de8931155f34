/-
The DoH client of this program behind its own DoH server.

The server sets the content type of a response and then, in `prepare_payload`, the length, so the
length stands in the last line of the header.  There the client does not find it: it looks for a
line end behind the number in a header that it has cut off before its last line end.  Without a
length it stops with the read in which the header ends, and takes for the body what that read has
brought of it.

`reads_iff_inOneRead` says what that comes to, from the query of the client to the reply it has: it
has the reply of the upstream when the whole body came with the read that completed the header, and
none at all otherwise.

The HTTP library of the server is a parameter: how it reads the request, and that it writes a
response as its parts, one after the other.
-/
import Dnss.Protocol.Prefix
import Dnss.Server.Https
import Dnss.Upstream.HttpBody

namespace Dnss
namespace HttpResolver

open ConfigFile (ascii)
open HttpsServer (decimalText dnsMessageType)
open Occurrence

/-! ## The request -/

def buildHeaderPrefix (host target : Bytes) : Bytes :=
  ascii "POST " ++ target ++ ascii " HTTP/1.1" ++ crlf ++
    ascii "Host: " ++ host ++ crlf ++
    ascii "User-Agent: lynx/0.2" ++ crlf ++
    ascii "Content-Type: application/dns-message" ++ crlf ++
    ascii "Accept: application/dns-message" ++ crlf

/-- What `snprintf` leaves of the last lines in a buffer of 64 bytes. -/
def contentLengthPart (n : Nat) : Bytes :=
  (ascii "Content-Length: " ++ decimalText n ++ crlf ++
    ascii "Connection: keep-alive" ++ crlf ++ crlf).take 63

/-- What `exchange` writes. -/
def requestBytes (host target wire : Bytes) : Bytes :=
  buildHeaderPrefix host target ++ contentLengthPart wire.length ++ wire

/-! ## The response -/

/-- The HTTP library of the server. -/
structure Http where
  read : Bytes → Option HttpsServer.Request
  write : HttpsServer.Response → Bytes

def fieldLine (field : Bytes × Bytes) : Bytes := field.1 ++ ascii ": " ++ field.2 ++ crlf

/-- A response with status 200 as its parts: the fields in the order in which they were set. -/
def okBytes (resp : HttpsServer.Response) : Bytes :=
  ascii "HTTP/1.1 200 OK" ++ crlf ++ resp.fields.flatMap fieldLine ++ crlf ++ resp.body

/-- The connection of the server to the client that has sent `request`. -/
def served (http : Http) (insecure : Bool) (net : HttpsServer.Net) (upstream request : Bytes) :
    Option Bytes :=
  match http.read request with
  | none => none
  | some req =>
    match HttpsServer.serve insecure net upstream req with
    | .response resp => some (http.write resp)
    | _ => none

/-- The header up to the number. -/
def okHeader : Bytes :=
  ascii "HTTP/1.1 200 OK" ++ crlf ++
    (ascii "Content-Type" ++ ascii ": " ++ dnsMessageType ++ crlf) ++
    (ascii "Content-Length" ++ ascii ": ")

theorem okBytes_respond (req : HttpsServer.Request) (body : Bytes) :
    okBytes (HttpsServer.respond req 200 dnsMessageType body) =
      okHeader ++ decimalText body.length ++ headerEndTag ++ body := by
  have hend : headerEndTag = crlf ++ crlf := rfl
  rw [hend]
  simp only [okBytes, HttpsServer.respond, okHeader, fieldLine, List.flatMap_cons,
    List.flatMap_nil, List.append_nil, List.append_assoc]

theorem decimalText_ne_nil (n : Nat) : decimalText n ≠ [] := by
  intro hnil
  exact Nat.toDigits_ne_nil (List.map_eq_nil_iff.mp hnil)

theorem isDigit_of_mem_decimalText {n : Nat} {d : UInt8} (h : d ∈ decimalText n) :
    isDigit d = true := by
  obtain ⟨c, hc, rfl⟩ := List.mem_map.mp h
  have hdigit := Nat.isDigit_of_mem_toDigits (by omega) (by omega) hc
  rw [Char.isDigit_iff_toNat] at hdigit
  obtain ⟨hlo, hhi⟩ := hdigit
  change 48 ≤ c.toNat at hlo
  change c.toNat ≤ 57 at hhi
  have hbyte : c.toNat.toUInt8.toNat = c.toNat := UInt8.toNat_ofNat_of_lt' (by
    show c.toNat < 256
    omega)
  have hboth : 0x30 ≤ c.toNat.toUInt8 ∧ c.toNat.toUInt8 ≤ 0x39 := by
    rw [UInt8.le_iff_toNat_le, UInt8.le_iff_toNat_le, hbyte]
    exact ⟨hlo, hhi⟩
  simpa [isDigit] using hboth

/-- The number has no letter and no line end of a tag in it. -/
theorem decimalText_disjoint {tag : Bytes} (htag : ∀ c ∈ tag, isDigit c = false) (n : Nat) :
    ∀ d ∈ decimalText n, d ∉ tag := by
  intro d hd hmem
  have hdigit := isDigit_of_mem_decimalText hd
  rw [htag d hmem] at hdigit
  cases hdigit

/-! ## What the client finds in the header -/

theorem find_headerEndTag_okHeader (n : Nat) (body : Bytes) :
    find headerEndTag (okHeader ++ decimalText n ++ headerEndTag ++ body) =
      some (okHeader ++ decimalText n).length :=
  (firstAt_append (decimalText_ne_nil n) (decimalText_disjoint (by decide +kernel) n)
    (by decide +kernel) body).find_eq

theorem isChunkedHeader_okHeader (n : Nat) :
    isChunkedHeader (okHeader ++ decimalText n) = false := by
  have hnone : find chunkedTag (okHeader ++ decimalText n) = none :=
    find_append_eq_none (decimalText_disjoint (by decide +kernel) n) (by decide +kernel)
  rw [isChunkedHeader, hnone]
  rfl

/-- The tag is there, but no line end behind it. -/
theorem contentLengthOf_okHeader (n : Nat) :
    contentLengthOf (okHeader ++ decimalText n) = .absent := by
  have htag : find clTag okHeader = some (okHeader.length - clTag.length) := by decide +kernel
  have hlong : okHeader.length - clTag.length + clTag.length = okHeader.length := by
    decide +kernel
  have hline : find crlf ([] ++ decimalText n) = none :=
    find_append_eq_none (decimalText_disjoint (by decide +kernel) n) (by decide)
  rw [List.nil_append] at hline
  rw [contentLengthOf, find_append htag]
  simp only [hlong, List.drop_left, hline]

theorem says200_okHeader (n : Nat) : Says200 (okHeader ++ decimalText n) := by
  have hstatus : statusLine (okHeader ++ decimalText n) = statusLine okHeader := by
    rw [statusLine, List.takeWhile_append, if_neg (by decide +kernel)]
    rfl
  rw [Says200, hstatus]
  decide +kernel

/-! ## Without a length -/

/-- No read ends at or behind the first `need` bytes, except the last one. -/
def InOneRead (chunks : List Bytes) (need : Nat) : Prop :=
  ∀ before after, chunks = before ++ after → need ≤ before.flatten.length → after = []

section

variable {stream : Bytes} {need : Nat} {chunks : List Bytes} {e : End}

/-- The loop stops with the read that completes the first `need` bytes. -/
theorem arrive_first (hstops : StopsAt stream need) (hneed : need ≤ stream.length) {buf : Bytes}
    (hsplit : stream = buf ++ chunks.flatten) (hbuf : buf.length < need) :
    ∃ before chunk after, chunks = before ++ chunk :: after ∧
      arrive e chunks buf = .done (buf ++ (before ++ [chunk]).flatten) ∧
      buf.length + before.flatten.length < need ∧
      need ≤ buf.length + (before ++ [chunk]).flatten.length := by
  induction chunks generalizing buf with
  | nil =>
    have hall : stream = buf := by simpa using hsplit
    rw [hall] at hneed
    omega
  | cons chunk chunks ih =>
    have hnext : stream = (buf ++ chunk) ++ chunks.flatten := by simpa using hsplit
    have hlength : (buf ++ chunk).length = buf.length + chunk.length := List.length_append
    rw [arrive, hstops _ _ hnext]
    by_cases henough : need ≤ (buf ++ chunk).length
    · rw [if_pos henough]
      refine ⟨[], chunk, chunks, rfl, by simp, by simpa using hbuf, ?_⟩
      rw [hlength] at henough
      simpa using henough
    · rw [if_neg henough]
      obtain ⟨before, last, after, hchunks, harrive, hlt, hle⟩ := ih hnext (by omega)
      refine ⟨chunk :: before, last, after, by rw [hchunks]; rfl, ?_, ?_, ?_⟩
      · rw [harrive]
        simp
      · rw [List.flatten_cons, List.length_append]
        omega
      · rw [List.cons_append, List.flatten_cons, List.length_append]
        omega

/-- Nothing is left to read behind the read that completes the first `need` bytes. -/
theorem inOneRead_iff {before after : List Bytes} {chunk : Bytes} (hsplit : Split chunks stream)
    (hchunks : chunks = before ++ chunk :: after) (hlt : before.flatten.length < need)
    (hle : need ≤ (before ++ [chunk]).flatten.length) :
    InOneRead chunks need ↔ after.flatten = [] := by
  have hparts : chunks = (before ++ [chunk]) ++ after := by
    rw [hchunks, List.append_assoc, List.singleton_append]
  constructor
  · intro hone
    rw [hone (before ++ [chunk]) after hparts hle]
    rfl
  · intro hnil before' after' hsame hlong
    have hafter : after = [] := by
      cases after with
      | nil => rfl
      | cons c cs =>
        have hsize := (hsplit.sizes c (by rw [hchunks]; simp)).1
        rw [List.flatten_cons] at hnil
        rw [(List.append_eq_nil_iff.mp hnil).1] at hsize
        cases hsize
    rw [hafter, hsame] at hchunks
    cases hcons : after' with
    | nil => rfl
    | cons c cs =>
      -- Fewer reads are part of `before`, which is too short.
      rw [hcons] at hchunks
      have hbefore : before' <+: before := by
        have hlen := congrArg List.length hchunks
        simp only [List.length_append, List.length_cons, List.length_nil] at hlen
        refine List.prefix_of_prefix_length_le ⟨c :: cs, hchunks⟩ (List.prefix_append _ _) ?_
        omega
      obtain ⟨more, hmore⟩ := hbefore
      rw [← hmore, List.flatten_append, List.length_append] at hlt
      omega

/-- The body is what came with the end of the header. -/
theorem exchange_of_absent {he : Nat} (hfind : find headerEndTag stream = some he)
    (habsent : contentLengthOf (stream.take he) = .absent)
    (hchunked : isChunkedHeader (stream.take he) = false) (hstatus : Says200 (stream.take he))
    (hsplit : Split chunks stream) :
    ∃ part rest, stream.drop (he + 4) = part ++ rest ∧
      (InOneRead chunks (he + 4) ↔ rest = []) ∧
      exchange chunks e = if part = [] then .null else .parse part part.length := by
  have hneed := length_le_of_find hfind
  rw [length_headerEndTag] at hneed
  have hvalid : contentLengthOf (stream.take he) ≠ .invalid := by
    rw [habsent]
    nofun
  have hzero : (contentLengthOf (stream.take he)).value = 0 := by
    rw [habsent]
    rfl
  obtain ⟨before, chunk, after, hchunks, harrive, hlt, hle⟩ :=
    arrive_first (e := e) (stopsAt_of_not_chunked hfind hvalid hzero hchunked) hneed hsplit.start
      (Nat.succ_pos _)
  rw [List.nil_append] at harrive
  rw [List.length_nil, Nat.zero_add] at hlt hle
  have hpart : stream = (before ++ [chunk]).flatten ++ after.flatten := by
    rw [← hsplit.flatten, hchunks, ← List.flatten_append, List.append_assoc, List.singleton_append]
  refine ⟨(before ++ [chunk]).flatten.drop (he + 4), after.flatten, ?_,
    inOneRead_iff hsplit hchunks hlt hle, ?_⟩
  · rw [hpart, List.drop_append_of_le_length hle]
  · rw [exchange_eq, harrive]
    show extractBody _ = _
    rw [extractBody_part hpart hfind hle, if_neg (says200_iff.mp hstatus), habsent]
    simp only [List.length_eq_zero_iff]

end

/-! ## Client and server -/

/-- The exchange calls `parse` on received bytes, and it returns `m`. -/
def Reads (chunks : List Bytes) (e : End) (m : DnsMessage) : Prop :=
  ∃ available length, exchange chunks e = .parse available length ∧ length ≤ available.length ∧
    DnsMessage.parse (available.take length) = .ok m

/-- A part of the packed message is not read, all of it is. -/
theorem reads_okBytes_iff {m m' : DnsMessage} (hm : m.WellFormed) {chunks : List Bytes} {e : End}
    (hsplit : Split chunks
      (okHeader ++ decimalText m.packed.length ++ headerEndTag ++ m.packed)) :
    Reads chunks e m' ↔
      InOneRead chunks ((okHeader ++ decimalText m.packed.length).length + 4) ∧ m' = m := by
  have hfind := find_headerEndTag_okHeader m.packed.length m.packed
  have htake : (okHeader ++ decimalText m.packed.length ++ headerEndTag ++ m.packed).take
      (okHeader ++ decimalText m.packed.length).length =
      okHeader ++ decimalText m.packed.length := by
    rw [List.append_assoc _ headerEndTag, List.take_left]
  have hdrop : (okHeader ++ decimalText m.packed.length ++ headerEndTag ++ m.packed).drop
      ((okHeader ++ decimalText m.packed.length).length + 4) = m.packed := by
    rw [← length_headerEndTag, ← List.length_append, List.drop_left]
  have hne : m.packed ≠ [] := by
    intro hnil
    have hparse := hm.parse_packed.2
    rw [hnil] at hparse
    cases hparse
  obtain ⟨part, rest, hbody, hone, hexchange⟩ := exchange_of_absent (e := e) hfind
    (by rw [htake]; exact contentLengthOf_okHeader _)
    (by rw [htake]; exact isChunkedHeader_okHeader _)
    (by rw [htake]; exact says200_okHeader _) hsplit
  rw [hdrop] at hbody
  rw [hone]
  constructor
  · intro hreads
    obtain ⟨available, length, hparse, -, hmessage⟩ := hreads
    rw [hexchange] at hparse
    by_cases hpart : part = []
    · rw [if_pos hpart] at hparse
      cases hparse
    · rw [if_neg hpart, Exchanged.parse.injEq] at hparse
      rw [← hparse.1, ← hparse.2, List.take_length] at hmessage
      have hall := DnsMessage.packed_prefix_of_parse hm ⟨rest, hbody.symm⟩ hmessage
      have hle := hall.length_le
      rw [hbody, List.length_append] at hle
      have hnone : rest = [] := List.length_eq_zero_iff.mp (by omega)
      rw [hnone, List.append_nil] at hbody
      rw [← hbody, hm.parse_packed.2] at hmessage
      exact ⟨hnone, (Except.ok.inj hmessage).symm⟩
  · intro h
    obtain ⟨hnone, rfl⟩ := h
    rw [hnone, List.append_nil] at hbody
    rw [← hbody, if_neg hne] at hexchange
    refine ⟨_, _, hexchange, Nat.le_refl _, ?_⟩
    rw [List.take_length]
    exact hm.parse_packed.2

/-- A client asks a well-formed question and the upstream of the server replies with a well-formed
message.  The client has this reply, under its own identifier, when no read ends between the end of
the header and the end of the response, and no reply otherwise. -/
theorem reads_iff_inOneRead {http : Http} {insecure : Bool} {net : HttpsServer.Net}
    {upstream host target : Bytes} {q m : DnsMessage} (hq : q.WellFormed)
    (hquestions : q.questions ≠ [])
    (hread : http.read (requestBytes host target q.packed) = some
      { method := .post, target := target, contentType := dnsMessageType, body := q.packed })
    (hwrite : ∀ resp, resp.result = 200 → resp.version = 11 → http.write resp = okBytes resp)
    (hpath : insecure = true → HttpsServer.validPath target)
    {sender datagram : Bytes} {later : List (Bytes × Bytes)}
    (hnet : HttpsServer.ask net upstream q.packed = .arrivals ((sender, datagram) :: later))
    (hreply : DnsMessage.parse (datagram.take 4096) = .ok m) (hm : m.WellFormed) :
    ∃ hdr body, FirstAt headerEndTag (hdr ++ headerEndTag ++ body) hdr body ∧
      served http insecure net upstream (requestBytes host target q.packed) =
        some (hdr ++ headerEndTag ++ body) ∧
      ∀ chunks e, Split chunks (hdr ++ headerEndTag ++ body) → ∀ m',
        (Reads chunks e m' ↔
          InOneRead chunks (hdr.length + 4) ∧ m' = HttpsServer.withId m q.header.id) := by
  have hwell := HttpsServer.wellFormed_withId hm q.header.id
  refine ⟨okHeader ++ decimalText (HttpsServer.withId m q.header.id).packed.length,
    (HttpsServer.withId m q.header.id).packed, ?_, ?_, ?_⟩
  · exact firstAt_append (decimalText_ne_nil _) (decimalText_disjoint (by decide +kernel) _)
      (by decide +kernel) _
  · have hasks : HttpsServer.Asks insecure
        { method := .post, target := target, contentType := dnsMessageType, body := q.packed } :=
      ⟨rfl, rfl, hpath⟩
    have hserve :=
      HttpsServer.serve_of_reply hasks hq.parse_packed.2 hq hquestions hnet hreply hm
    simp only [served, hread, hserve]
    rw [hwrite _ rfl rfl, okBytes_respond]
  · intro chunks e hsplit m'
    exact reads_okBytes_iff hwell hsplit

/-- A library that knows one request and writes as documented. -/
def knownHttp : Http :=
  { read := fun _ => some HttpsServer.postRequest, write := okBytes }

theorem reads_twoReplies :
    ∃ hdr body, FirstAt headerEndTag (hdr ++ headerEndTag ++ body) hdr body ∧
      served knownHttp true HttpsServer.twoReplies (ascii "8.8.8.8:53")
          (requestBytes (ascii "localhost") (ascii "/dns-query") DnsMessage.mxReply.packed) =
        some (hdr ++ headerEndTag ++ body) ∧
      ∀ chunks e, Split chunks (hdr ++ headerEndTag ++ body) → ∀ m',
        (Reads chunks e m' ↔ InOneRead chunks (hdr.length + 4) ∧ m' = DnsMessage.mxReply) := by
  have hm := HttpsServer.wellFormed_withId DnsMessage.mxReply_wellFormed 9
  have hsize : (HttpsServer.withId DnsMessage.mxReply 9).packed.length ≤ 4096 := by decide +kernel
  refine reads_iff_inOneRead DnsMessage.mxReply_wellFormed (by decide) rfl
    (fun resp _ _ => rfl) (fun _ => .inl rfl) rfl ?_ hm
  rw [List.take_of_length_le hsize]
  exact hm.parse_packed.2

end HttpResolver
end Dnss
