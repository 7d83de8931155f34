/-
`DnsMessage::parse` and `DnsMessage::pack`.

The three record loops of `parse` are copies of one another up to the section
they fill, and so are those of `pack`; `parseRecord` and `packRecord` are their
bodies.  As in `Dnss.Protocol.Name`, a guard and the read it protects are separate
steps, and a read that leaves the buffer is `Fault.outOfRange`.

`pack` writes into a buffer whose size it computed from the same names and
records, so the model concatenates the pieces it writes.
-/
import Dnss.Protocol.Name

namespace Dnss

open Cursor DnsHelpers

/-! ## Reading fixed fields -/

def readU16 (data : Bytes) (p : Nat) : Except Fault UInt16 := do
  let hi ← readAt .outOfRange data p
  let lo ← readAt .outOfRange data (p + 1)
  .ok (Word.be16 hi lo)

def readU32 (data : Bytes) (p : Nat) : Except Fault UInt32 := do
  let b₃ ← readAt .outOfRange data p
  let b₂ ← readAt .outOfRange data (p + 1)
  let b₁ ← readAt .outOfRange data (p + 2)
  let b₀ ← readAt .outOfRange data (p + 3)
  .ok (Word.be32 b₃ b₂ b₁ b₀)

def writeU16 (v : UInt16) : Bytes := Word.be16Bytes v

def writeU32 (v : UInt32) : Bytes := Word.be32Bytes v

/-- `if (c) throw std::runtime_error(e)`. -/
def throwIf (c : Bool) (e : RuntimeError) : Except Fault Unit :=
  if c then .error (.thrown e) else .ok ()

/-- `nameToWire` called inside `parse`. -/
def nameToWireIn (name : Bytes) : Except Fault Bytes :=
  match nameToWire name with
  | .error e => .error (.thrown e)
  | .ok wire => .ok wire

/-! ## Parsing -/

namespace DnsMessage

def parseQuestion (data : Bytes) (p : Nat) : Except Fault (DnsQuestion × Nat) := do
  let (qname, p) ← wireToName data p
  throwIf (data.length < p + 4) .truncatedQuestion
  let qtype ← readU16 data p
  let qclass ← readU16 data (p + 2)
  .ok ({ qname, qtype, qclass }, p + 4)

/-- Record data that is one name, read up to the end of the message whatever
RDLENGTH says. -/
def parseNameRdata (data : Bytes) (rdStart : Nat) : Except Fault Bytes := do
  let (name, _) ← wireToName data rdStart
  nameToWireIn name

def parseMxRdata (data : Bytes) (rdStart rdlen : Nat) : Except Fault Bytes := do
  throwIf (rdlen < 2) .truncatedMx
  let pref ← readU16 data rdStart
  let (name, _) ← wireToName data (rdStart + 2)
  let wireName ← nameToWireIn name
  .ok (writeU16 pref ++ wireName)

def parseSoaRdata (data : Bytes) (rdStart rdlen : Nat) : Except Fault Bytes := do
  let (mname, np) ← wireToName data rdStart
  let (rname, np) ← wireToName data np
  -- `rdlen - (np - rdStart)` is a `ptrdiff_t`, and `remaining` is a `size_t`.
  let remaining := Word.sizeT ((rdlen : Int) - ((np : Int) - (rdStart : Int)))
  throwIf (remaining < 20) .truncatedSoa
  let wireMname ← nameToWireIn mname
  let wireRname ← nameToWireIn rname
  let tail ← readSlice .outOfRange data np 20
  .ok (wireMname ++ wireRname ++ tail)

/-- The `switch` on the record's type.  Types with embedded names are
decompressed, because their pointers are offsets into the message. -/
def parseRdata (data : Bytes) (type : UInt16) (rdStart rdlen : Nat) : Except Fault Bytes :=
  if type = DnsType.CNAME ∨ type = DnsType.NS ∨ type = DnsType.PTR then
    parseNameRdata data rdStart
  else if type = DnsType.MX then parseMxRdata data rdStart rdlen
  else if type = DnsType.SOA then parseSoaRdata data rdStart rdlen
  else readSlice .outOfRange data rdStart rdlen

/-- One pass of the answer, authority, or additional loop. -/
def parseRecord (data : Bytes) (p : Nat) : Except Fault (DnsResourceRecord × Nat) := do
  let (name, p) ← wireToName data p
  throwIf (data.length < p + 10) .truncatedRR
  let type ← readU16 data p
  let rclass ← readU16 data (p + 2)
  let ttl ← readU32 data (p + 4)
  let rdlen ← readU16 data (p + 8)
  throwIf (data.length < p + 10 + rdlen.toNat) .truncatedRdlen
  let rdata ← parseRdata data type (p + 10) rdlen.toNat
  .ok ({ name, type, rclass, ttl, rdata }, p + 10 + rdlen.toNat)

def parseHeader (data : Bytes) : Except Fault DnsHeader := do
  throwIf (data.length < 12) .truncatedHeader
  let id ← readU16 data 0
  let flags ← readU16 data 2
  let qdcount ← readU16 data 4
  let ancount ← readU16 data 6
  let nscount ← readU16 data 8
  let arcount ← readU16 data 10
  .ok { id, flags, qdcount, ancount, nscount, arcount }

def parse (data : Bytes) : Except Fault DnsMessage := do
  let header ← parseHeader data
  let (questions, p) ← repeatAt (parseQuestion data) header.qdcount.toNat 12
  let (answers, p) ← repeatAt (parseRecord data) header.ancount.toNat p
  let (authorities, p) ← repeatAt (parseRecord data) header.nscount.toNat p
  let (additionals, _) ← repeatAt (parseRecord data) header.arcount.toNat p
  .ok { header, questions, answers, authorities, additionals }

/-! ## Packing -/

def packQuestion (q : DnsQuestion) : Except RuntimeError Bytes := do
  let wire ← nameToWire q.qname
  .ok (wire ++ writeU16 q.qtype ++ writeU16 q.qclass)

/-- `static_cast<uint16_t>(rr.rdata.size())`. -/
def rdlengthField (rr : DnsResourceRecord) : UInt16 := UInt16.ofNat rr.rdata.length

def packRecord (rr : DnsResourceRecord) : Except RuntimeError Bytes := do
  let wire ← nameToWire rr.name
  .ok (wire ++ writeU16 rr.type ++ writeU16 rr.rclass ++ writeU32 rr.ttl ++
    writeU16 (rdlengthField rr) ++ rr.rdata)

/-- A loop of `pack`: the pieces of one section, in order. -/
def packAll {α : Type} (packOne : α → Except RuntimeError Bytes) :
    List α → Except RuntimeError Bytes
  | [] => .ok []
  | x :: xs => do
    let first ← packOne x
    let rest ← packAll packOne xs
    .ok (first ++ rest)

def packHeader (m : DnsMessage) : Bytes :=
  writeU16 m.header.id ++ writeU16 m.header.flags ++
    writeU16 (UInt16.ofNat m.questions.length) ++ writeU16 (UInt16.ofNat m.answers.length) ++
    writeU16 (UInt16.ofNat m.authorities.length) ++ writeU16 (UInt16.ofNat m.additionals.length)

def pack (m : DnsMessage) : Except RuntimeError Bytes := do
  let questions ← packAll packQuestion m.questions
  let answers ← packAll packRecord m.answers
  let authorities ← packAll packRecord m.authorities
  let additionals ← packAll packRecord m.additionals
  .ok (packHeader m ++ questions ++ answers ++ authorities ++ additionals)

end DnsMessage
end Dnss
