/-
The wire format at the level of labels.

The program holds a name as one dotted string, which forgets where its labels
began.  The grammar here keeps the labels.  `NameAt data jumps p ls q` says that
the walk from offset `p` reads the labels `ls`, follows `jumps` compression
pointers, and leaves its in-place bytes at `q`.  `QuestionAt`, `RecordAt`, and
`MessageAt` place the rest of a message around it.

The grammar describes what a decoder reads and says nothing about how.  Pointers
may lead forwards, backwards, or into the header, and an embedded name may run
past its record's RDLENGTH window, because the program accepts both.
-/
import Dnss.Library.Cursor
import Dnss.Library.Separated
import Dnss.Protocol.Message

namespace Dnss
namespace Wire

open Cursor Separated

/-! ## Names -/

/-- The most compression pointers a walk may follow. -/
def maxJumps : Nat := 10

/-- The walk from `p` reads the labels `ls` through `jumps` pointers, and its
bytes in place end at `q`: after the zero byte, or after the first pointer. -/
inductive NameAt (data : Bytes) : Nat → Nat → List Bytes → Nat → Prop where
  | root {p : Nat} (hzero : data[p]? = some 0) : NameAt data 0 p [] (p + 1)
  | label {jumps p q : Nat} {len : UInt8} {label : Bytes} {ls : List Bytes}
      (hlen : data[p]? = some len) (hpos : 0 < len.toNat) (hlt : len.toNat < 192)
      (hlabel : label.length = len.toNat) (hseg : SegAt data (p + 1) label)
      (hrest : NameAt data jumps (p + 1 + len.toNat) ls q) :
      NameAt data jumps p (label :: ls) q
  | pointer {jumps p q : Nat} {hi lo : UInt8} {ls : List Bytes}
      (hhi : data[p]? = some hi) (hge : 192 ≤ hi.toNat) (hlo : data[p + 1]? = some lo)
      (hrest : NameAt data jumps ((hi.toNat - 192) * 256 + lo.toNat) ls q) :
      NameAt data (jumps + 1) p ls (p + 2)

/-- A name within the pointer limit. -/
def Name (data : Bytes) (p : Nat) (ls : List Bytes) (q : Nat) : Prop :=
  ∃ jumps, jumps ≤ maxJumps ∧ NameAt data jumps p ls q

theorem NameAt.label_ne_nil {data : Bytes} {jumps p q : Nat} {ls : List Bytes}
    (h : NameAt data jumps p ls q) : ∀ l ∈ ls, l ≠ [] := by
  induction h with
  | root => simp
  | label hlen hpos hlt hlabel hseg hrest ih =>
    intro l hl
    rcases List.mem_cons.mp hl with rfl | hmem
    · exact List.length_pos_iff.mp (by omega)
    · exact ih l hmem
  | pointer hhi hge hlo hrest ih => exact ih

theorem NameAt.lt {data : Bytes} {jumps p q : Nat} {ls : List Bytes}
    (h : NameAt data jumps p ls q) : p < q ∧ q ≤ data.length := by
  induction h with
  | root hzero =>
    obtain ⟨hp, -⟩ := List.getElem?_eq_some_iff.mp hzero
    omega
  | label hlen hpos hlt hlabel hseg hrest ih => omega
  | pointer hhi hge hlo hrest ih =>
    obtain ⟨hp, -⟩ := List.getElem?_eq_some_iff.mp hlo
    omega

theorem Name.label_ne_nil {data : Bytes} {p q : Nat} {ls : List Bytes} (h : Name data p ls q) :
    ∀ l ∈ ls, l ≠ [] := by
  obtain ⟨jumps, -, hname⟩ := h
  exact hname.label_ne_nil

theorem Name.lt {data : Bytes} {p q : Nat} {ls : List Bytes} (h : Name data p ls q) :
    p < q ∧ q ≤ data.length := by
  obtain ⟨jumps, -, hname⟩ := h
  exact hname.lt

/-! ## Encoded labels -/

/-- The uncompressed wire form of a list of labels. -/
def encodeLabels (ls : List Bytes) : Bytes :=
  ls.flatMap (fun l => UInt8.ofNat l.length :: l) ++ [0]

/-- The dotted form of a list of labels. -/
def dotted (ls : List Bytes) : Bytes :=
  [dot].intercalate ls

/-- The labels an encoder reads off the dotted form. -/
def redotted (ls : List Bytes) : List Bytes :=
  ls.flatMap (splitWords dot)

/-- No dot-free run of a label is longer than the 63 bytes a label may have. -/
def Encodable (ls : List Bytes) : Prop :=
  ∀ piece ∈ redotted ls, piece.length ≤ 63

theorem encodeLabels_cons (l : Bytes) (ls : List Bytes) :
    encodeLabels (l :: ls) = UInt8.ofNat l.length :: l ++ encodeLabels ls := by
  simp [encodeLabels]

/-- Labels of legal length, encoded at `p`, are a name at `p` without pointers. -/
theorem nameAt_of_encodeLabels {data : Bytes} {p : Nat} {ls : List Bytes}
    (hls : ∀ l ∈ ls, 0 < l.length ∧ l.length ≤ 63) (hseg : SegAt data p (encodeLabels ls)) :
    NameAt data 0 p ls (p + (encodeLabels ls).length) := by
  induction ls generalizing p with
  | nil =>
    rw [encodeLabels, List.flatMap_nil, List.nil_append, segAt_cons_iff] at hseg
    exact NameAt.root hseg.1
  | cons l ls ih =>
    obtain ⟨hpos, hle⟩ := hls l List.mem_cons_self
    have hlen : (UInt8.ofNat l.length).toNat = l.length := UInt8.toNat_ofNat_of_lt' (by
      show l.length < 256
      omega)
    rw [encodeLabels_cons, List.cons_append, segAt_cons_iff, segAt_append_iff] at hseg
    obtain ⟨hbyte, hlabel, hrest⟩ := hseg
    have hname := ih (fun m hm => hls m (List.mem_cons_of_mem l hm)) hrest
    have hend : p + (encodeLabels (l :: ls)).length =
        p + 1 + l.length + (encodeLabels ls).length := by
      rw [encodeLabels_cons]
      simp only [List.cons_append, List.length_cons, List.length_append]
      omega
    rw [hend]
    exact NameAt.label hbyte (by omega) (by omega) hlen.symm hlabel (by rw [hlen]; exact hname)

/-- A name reads the same labels from two positions that carry its encoding. -/
theorem name_of_encodeLabels {data : Bytes} {p : Nat} {ls : List Bytes}
    (hls : ∀ l ∈ ls, 0 < l.length ∧ l.length ≤ 63) (hseg : SegAt data p (encodeLabels ls)) :
    Name data p ls (p + (encodeLabels ls).length) :=
  ⟨0, Nat.zero_le _, nameAt_of_encodeLabels hls hseg⟩

/-! ## Messages -/

structure Question where
  labels : List Bytes
  qtype : UInt16
  qclass : UInt16

/-- Record data by the shape its type gives it. -/
inductive Rdata where
  | name (ls : List Bytes)
  | mx (pref : UInt16) (ls : List Bytes)
  | soa (mname rname : List Bytes) (tail : Bytes)
  | raw (bytes : Bytes)

structure Record where
  owner : List Bytes
  type : UInt16
  rclass : UInt16
  ttl : UInt32
  rdlen : UInt16
  rdata : Rdata

structure Message where
  id : UInt16
  flags : UInt16
  questions : List Question
  answers : List Record
  authorities : List Record
  additionals : List Record

/-- The types whose record data is one name. -/
def IsNameType (type : UInt16) : Prop :=
  type = DnsType.CNAME ∨ type = DnsType.NS ∨ type = DnsType.PTR

instance (type : UInt16) : Decidable (IsNameType type) :=
  inferInstanceAs (Decidable (_ ∨ _ ∨ _))

def QuestionAt (data : Bytes) (p : Nat) (q : Question) (r : Nat) : Prop :=
  ∃ e, Name data p q.labels e ∧
    SegAt data e (Word.be16Bytes q.qtype ++ Word.be16Bytes q.qclass) ∧ r = e + 4

/-- The length the program believes is left of an SOA record's window of `rdlen`
bytes at `s` after two names that end at `e`.  It wraps when the names end past
the window. -/
def soaRemaining (s rdlen e : Nat) : Nat :=
  Word.sizeT ((rdlen : Int) - ((e : Int) - (s : Int)))

theorem soaRemaining_of_le {s rdlen e : Nat} (hse : s ≤ e) (he : e ≤ s + rdlen)
    (hlen : rdlen < 2 ^ 64) : soaRemaining s rdlen e = s + rdlen - e := by
  rw [soaRemaining, Word.sizeT_of_nonneg (by omega) (by omega)]
  omega

def RdataAt (data : Bytes) (type : UInt16) (s rdlen : Nat) : Rdata → Prop
  | .name ls => IsNameType type ∧ (∃ e, Name data s ls e) ∧ Encodable ls
  | .mx pref ls =>
    type = DnsType.MX ∧ 2 ≤ rdlen ∧ SegAt data s (Word.be16Bytes pref) ∧
      (∃ e, Name data (s + 2) ls e) ∧ Encodable ls
  | .soa mname rname tail =>
    type = DnsType.SOA ∧ ∃ e₁ e₂, Name data s mname e₁ ∧ Name data e₁ rname e₂ ∧
      20 ≤ soaRemaining s rdlen e₂ ∧ Encodable mname ∧ Encodable rname ∧
        e₂ + 20 ≤ data.length ∧ tail = (data.drop e₂).take 20
  | .raw bytes =>
    ¬IsNameType type ∧ type ≠ DnsType.MX ∧ type ≠ DnsType.SOA ∧
      bytes = (data.drop s).take rdlen

/-- The ten bytes between an owner name and its record data. -/
def fixedFields (type rclass : UInt16) (ttl : UInt32) (rdlen : UInt16) : Bytes :=
  Word.be16Bytes type ++ Word.be16Bytes rclass ++ Word.be32Bytes ttl ++ Word.be16Bytes rdlen

def RecordAt (data : Bytes) (p : Nat) (rr : Record) (r : Nat) : Prop :=
  ∃ e, Name data p rr.owner e ∧
    SegAt data e (fixedFields rr.type rr.rclass rr.ttl rr.rdlen) ∧
      e + 10 + rr.rdlen.toNat ≤ data.length ∧
        RdataAt data rr.type (e + 10) rr.rdlen.toNat rr.rdata ∧ r = e + 10 + rr.rdlen.toNat

/-- The twelve header bytes. -/
def headerBytes (h : DnsHeader) : Bytes :=
  Word.be16Bytes h.id ++ Word.be16Bytes h.flags ++ Word.be16Bytes h.qdcount ++
    Word.be16Bytes h.ancount ++ Word.be16Bytes h.nscount ++ Word.be16Bytes h.arcount

/-- The header of a message whose counts are the lengths of its sections. -/
structure HeaderOf (h : DnsHeader) (m : Message) : Prop where
  id : h.id = m.id
  flags : h.flags = m.flags
  qdcount : h.qdcount.toNat = m.questions.length
  ancount : h.ancount.toNat = m.answers.length
  nscount : h.nscount.toNat = m.authorities.length
  arcount : h.arcount.toNat = m.additionals.length

def MessageAt (data : Bytes) (m : Message) : Prop :=
  ∃ h, HeaderOf h m ∧ SegAt data 0 (headerBytes h) ∧
    ∃ q₁ q₂ q₃ q₄, SeqAt (QuestionAt data) 12 m.questions q₁ ∧
      SeqAt (RecordAt data) q₁ m.answers q₂ ∧ SeqAt (RecordAt data) q₂ m.authorities q₃ ∧
        SeqAt (RecordAt data) q₃ m.additionals q₄

/-! ## Names of a message -/

def Rdata.names : Rdata → List (List Bytes)
  | .name ls => [ls]
  | .mx _ ls => [ls]
  | .soa mname rname _ => [mname, rname]
  | .raw _ => []

def Record.names (rr : Record) : List (List Bytes) :=
  rr.owner :: rr.rdata.names

def Message.records (m : Message) : List Record :=
  m.answers ++ m.authorities ++ m.additionals

/-- The label sequences of a message, in the order of the wire. -/
def Message.names (m : Message) : List (List Bytes) :=
  m.questions.map Question.labels ++ m.records.flatMap Record.names

/-- The names of questions and record owners, which an encoder writes again. -/
def Message.owners (m : Message) : List (List Bytes) :=
  m.questions.map Question.labels ++ m.records.map Record.owner

end Wire
end Dnss
