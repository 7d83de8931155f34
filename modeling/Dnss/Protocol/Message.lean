/-
The DNS message as the program holds it in memory.

Names and record data are byte strings, and the integer fields have the widths
the source declares.  A `std::string` name is a `List UInt8`: it is the labels of
the wire name joined with `.`, and the source neither checks nor escapes the bytes
inside a label.  `DnsMessagePtr` is an `Option DnsMessage` where the source tests
for null and a plain `DnsMessage` elsewhere; no modelled function writes through a
pointer that another holder still reads.
-/
import Dnss.Library.Word

namespace Dnss

/-- A buffer or a `std::string`. -/
abbrev Bytes := List UInt8

/-- The byte `.`, which separates labels in a dotted name. -/
def dot : UInt8 := 0x2E

/-- `std::tolower` in the "C" locale. -/
def tolower (c : UInt8) : UInt8 := if 0x41 ≤ c ∧ c ≤ 0x5A then c + 0x20 else c

structure DnsHeader where
  id : UInt16 := 0
  flags : UInt16 := 0
  qdcount : UInt16 := 0
  ancount : UInt16 := 0
  nscount : UInt16 := 0
  arcount : UInt16 := 0
  deriving DecidableEq, Repr

structure DnsQuestion where
  qname : Bytes
  qtype : UInt16
  qclass : UInt16
  deriving DecidableEq, Repr

structure DnsResourceRecord where
  name : Bytes
  type : UInt16
  rclass : UInt16
  ttl : UInt32
  rdata : Bytes
  deriving DecidableEq, Repr

structure DnsMessage where
  header : DnsHeader := {}
  questions : List DnsQuestion := []
  answers : List DnsResourceRecord := []
  authorities : List DnsResourceRecord := []
  additionals : List DnsResourceRecord := []
  deriving DecidableEq, Repr

namespace DnsType

def A : UInt16 := 1
def NS : UInt16 := 2
def CNAME : UInt16 := 5
def SOA : UInt16 := 6
def PTR : UInt16 := 12
def MX : UInt16 := 15
def AAAA : UInt16 := 28

end DnsType

namespace DnsRcode

def NoError : UInt8 := 0
def FormErr : UInt8 := 1
def ServFail : UInt8 := 2
def NXDomain : UInt8 := 3
def Refused : UInt8 := 5

end DnsRcode

/-! ## Header flags -/

namespace DnsHeader

def qr (h : DnsHeader) : Bool := (h.flags >>> 15) &&& 1 == 1

def opcode (h : DnsHeader) : UInt8 := ((h.flags >>> 11) &&& 0xF).toUInt8

def tc (h : DnsHeader) : Bool := (h.flags >>> 9) &&& 1 == 1

def rcode (h : DnsHeader) : UInt8 := (h.flags &&& 0xF).toUInt8

def setQr (h : DnsHeader) (v : Bool) : DnsHeader :=
  { h with flags := (h.flags &&& ~~~(0x8000 : UInt16)) ||| (v.toUInt16 <<< 15) }

def setRd (h : DnsHeader) (v : Bool) : DnsHeader :=
  { h with flags := (h.flags &&& ~~~(0x0100 : UInt16)) ||| (v.toUInt16 <<< 8) }

def setRa (h : DnsHeader) (v : Bool) : DnsHeader :=
  { h with flags := (h.flags &&& ~~~(0x0080 : UInt16)) ||| (v.toUInt16 <<< 7) }

def setRcode (h : DnsHeader) (v : UInt8) : DnsHeader :=
  { h with flags := (h.flags &&& ~~~(0x000F : UInt16)) ||| (v.toUInt16 &&& 0xF) }

/-- The response and recursion bits lie outside the RCODE field. -/
@[simp] theorem rcode_setQr (h : DnsHeader) (v : Bool) : (h.setQr v).rcode = h.rcode := by
  apply congrArg UInt16.toUInt8
  apply Word.and_mask_of_disjoint
  · decide
  · cases v <;> decide

@[simp] theorem rcode_setRa (h : DnsHeader) (v : Bool) : (h.setRa v).rcode = h.rcode := by
  apply congrArg UInt16.toUInt8
  apply Word.and_mask_of_disjoint
  · decide
  · cases v <;> decide

/-- The RCODE field holds the low four bits of the code it was set to. -/
theorem rcode_setRcode (h : DnsHeader) (v : UInt8) :
    (h.setRcode v).rcode = (v.toUInt16 &&& 0xF).toUInt8 := by
  apply congrArg UInt16.toUInt8
  apply Word.and_mask_of_field
  · decide
  · rw [UInt16.and_assoc, UInt16.and_self]

theorem qr_setQr (h : DnsHeader) : (h.setQr true).qr = true := by
  apply beq_iff_eq.mpr
  exact Word.shift_and_mask_of_field (by decide) (by decide)

@[simp] theorem qr_setRa (h : DnsHeader) (v : Bool) : (h.setRa v).qr = h.qr := by
  apply congrArg (· == 1)
  apply Word.shift_and_mask_of_disjoint
  · decide
  · cases v <;> decide

@[simp] theorem opcode_setQr (h : DnsHeader) (v : Bool) : (h.setQr v).opcode = h.opcode := by
  apply congrArg UInt16.toUInt8
  apply Word.shift_and_mask_of_disjoint
  · decide
  · cases v <;> decide

@[simp] theorem opcode_setRa (h : DnsHeader) (v : Bool) : (h.setRa v).opcode = h.opcode := by
  apply congrArg UInt16.toUInt8
  apply Word.shift_and_mask_of_disjoint
  · decide
  · cases v <;> decide

@[simp] theorem tc_setQr (h : DnsHeader) (v : Bool) : (h.setQr v).tc = h.tc := by
  apply congrArg (· == 1)
  apply Word.shift_and_mask_of_disjoint
  · decide
  · cases v <;> decide

@[simp] theorem tc_setRa (h : DnsHeader) (v : Bool) : (h.setRa v).tc = h.tc := by
  apply congrArg (· == 1)
  apply Word.shift_and_mask_of_disjoint
  · decide
  · cases v <;> decide

/-- The RCODE field ends below the other fields. -/
theorem shift_rcode_eq_zero (v : UInt8) {k : UInt16} (hk : (0xF : UInt16) >>> k = 0)
    (mask : UInt16) : (v.toUInt16 &&& 0xF) >>> k &&& mask = 0 := by
  rw [UInt16.shiftRight_and, hk, UInt16.and_zero, UInt16.zero_and]

@[simp] theorem qr_setRcode (h : DnsHeader) (v : UInt8) : (h.setRcode v).qr = h.qr := by
  apply congrArg (· == 1)
  exact Word.shift_and_mask_of_disjoint (by decide) (shift_rcode_eq_zero v (by decide) 1)

@[simp] theorem opcode_setRcode (h : DnsHeader) (v : UInt8) :
    (h.setRcode v).opcode = h.opcode := by
  apply congrArg UInt16.toUInt8
  exact Word.shift_and_mask_of_disjoint (by decide) (shift_rcode_eq_zero v (by decide) 0xF)

@[simp] theorem tc_setRcode (h : DnsHeader) (v : UInt8) : (h.setRcode v).tc = h.tc := by
  apply congrArg (· == 1)
  exact Word.shift_and_mask_of_disjoint (by decide) (shift_rcode_eq_zero v (by decide) 1)

end DnsHeader

/-! ## Factories -/

namespace DnsMessage

def hasQuestions (m : DnsMessage) : Bool := !m.questions.isEmpty

/-- The records of the three sections, in order. -/
def records (m : DnsMessage) : List DnsResourceRecord :=
  m.answers ++ m.authorities ++ m.additionals

def createQuery (name : Bytes) (qtype : UInt16) (qclass : UInt16 := 1) : DnsMessage :=
  { header := { DnsHeader.setRd {} true with qdcount := 1 },
    questions := [{ qname := name, qtype := qtype, qclass := qclass }] }

/-- A copy of the query with the response bits set and no records.  Every other
flag bit of the query stays, its RCODE field included. -/
def createReply (query : DnsMessage) : DnsMessage :=
  { query with
    header := { (query.header.setQr true).setRa true with ancount := 0, nscount := 0, arcount := 0 },
    answers := [], authorities := [], additionals := [] }

def createError (query : DnsMessage) (rcode : UInt8) : DnsMessage :=
  { createReply query with header := (createReply query).header.setRcode rcode }

@[simp] theorem rcode_createReply (query : DnsMessage) :
    (createReply query).header.rcode = query.header.rcode := by
  show ((query.header.setQr true).setRa true).rcode = query.header.rcode
  rw [DnsHeader.rcode_setRa, DnsHeader.rcode_setQr]

theorem rcode_createError (query : DnsMessage) (rcode : UInt8) :
    (createError query rcode).header.rcode = (rcode.toUInt16 &&& 0xF).toUInt8 :=
  DnsHeader.rcode_setRcode _ rcode

/-- An error is a response, and has the opcode and the truncation bit of the query. -/
theorem flags_createError (query : DnsMessage) (rcode : UInt8) :
    (createError query rcode).header.qr = true ∧
      (createError query rcode).header.opcode = query.header.opcode ∧
      (createError query rcode).header.tc = query.header.tc := by
  refine ⟨?_, ?_, ?_⟩
  · show (((query.header.setQr true).setRa true).setRcode rcode).qr = true
    rw [DnsHeader.qr_setRcode, DnsHeader.qr_setRa, DnsHeader.qr_setQr]
  · show (((query.header.setQr true).setRa true).setRcode rcode).opcode = query.header.opcode
    rw [DnsHeader.opcode_setRcode, DnsHeader.opcode_setRa, DnsHeader.opcode_setQr]
  · show (((query.header.setQr true).setRa true).setRcode rcode).tc = query.header.tc
    rw [DnsHeader.tc_setRcode, DnsHeader.tc_setRa, DnsHeader.tc_setQr]

@[simp] theorem questions_createError (query : DnsMessage) (rcode : UInt8) :
    (createError query rcode).questions = query.questions := rfl

end DnsMessage

end Dnss
