/-
Encoding a message, and reading the encoding.

`encode` writes a message with no compression.  `recode` is what the labels become
when they pass through a dotted string: every label is split at its dots, and
RDLENGTH is the length of the record data cut to sixteen bits.  The theorem this
file exists for is `messageAt_encode`: the encoding of a recoded message carries
that message, if every piece fits in a label and every record's data fits in
RDLENGTH.
-/
import Dnss.Wire.Grammar

namespace Dnss
namespace Wire

open Cursor Separated

/-! ## Labels through a dotted string -/

theorem redotted_redotted (ls : List Bytes) : redotted (redotted ls) = redotted ls := by
  refine (flatMap_splitWords_eq_self_iff fun l hl => ?_).mpr fun l hl => ?_
  · obtain ⟨m, -, hm⟩ := List.mem_flatMap.mp hl
    exact ne_nil_of_mem_splitWords hm
  · obtain ⟨m, -, hm⟩ := List.mem_flatMap.mp hl
    exact notMem_of_mem_splitWords hm

theorem Encodable.redotted {ls : List Bytes} (h : Encodable ls) : Encodable (redotted ls) := by
  rw [Encodable, redotted_redotted]
  exact h

/-- The pieces of encodable labels have the length of a label. -/
theorem Encodable.length_redotted {ls : List Bytes} (h : Encodable ls) :
    ∀ l ∈ Wire.redotted ls, 0 < l.length ∧ l.length ≤ 63 := by
  intro l hl
  refine ⟨?_, h l hl⟩
  obtain ⟨m, -, hm⟩ := List.mem_flatMap.mp hl
  exact List.length_pos_iff.mpr (ne_nil_of_mem_splitWords hm)

/-- Encodable labels, encoded from their pieces, are a name of those pieces. -/
theorem Encodable.name_redotted {data : Bytes} {p : Nat} {ls : List Bytes} (h : Encodable ls)
    (hseg : SegAt data p (encodeLabels (Wire.redotted ls))) :
    Name data p (Wire.redotted ls) (p + (encodeLabels (Wire.redotted ls)).length) :=
  name_of_encodeLabels h.length_redotted hseg

/-! ## Encoding -/

def Question.encode (q : Question) : Bytes :=
  encodeLabels q.labels ++ (Word.be16Bytes q.qtype ++ Word.be16Bytes q.qclass)

def Rdata.encode : Rdata → Bytes
  | .name ls => encodeLabels ls
  | .mx pref ls => Word.be16Bytes pref ++ encodeLabels ls
  | .soa mname rname tail => encodeLabels mname ++ encodeLabels rname ++ tail
  | .raw bytes => bytes

def Record.encode (rr : Record) : Bytes :=
  encodeLabels rr.owner ++ fixedFields rr.type rr.rclass rr.ttl rr.rdlen ++ rr.rdata.encode

/-- The header with the section sizes as its counts. -/
def Message.header (m : Message) : DnsHeader :=
  { id := m.id, flags := m.flags,
    qdcount := UInt16.ofNat m.questions.length, ancount := UInt16.ofNat m.answers.length,
    nscount := UInt16.ofNat m.authorities.length, arcount := UInt16.ofNat m.additionals.length }

def Message.encode (m : Message) : Bytes :=
  headerBytes m.header ++ (m.questions.flatMap Question.encode ++
    (m.answers.flatMap Record.encode ++ (m.authorities.flatMap Record.encode ++
      m.additionals.flatMap Record.encode)))

/-! ## Recoding -/

def Question.recode (q : Question) : Question :=
  { q with labels := redotted q.labels }

def Rdata.recode : Rdata → Rdata
  | .name ls => .name (redotted ls)
  | .mx pref ls => .mx pref (redotted ls)
  | .soa mname rname tail => .soa (redotted mname) (redotted rname) tail
  | .raw bytes => .raw bytes

def Record.recode (rr : Record) : Record :=
  { rr with
    owner := redotted rr.owner, rdata := rr.rdata.recode,
    rdlen := UInt16.ofNat rr.rdata.recode.encode.length }

def Message.recode (m : Message) : Message :=
  { m with
    questions := m.questions.map Question.recode, answers := m.answers.map Record.recode,
    authorities := m.authorities.map Record.recode,
    additionals := m.additionals.map Record.recode }

/-! ## What can be encoded -/

/-- The record data has the shape of its type, and its names can be encoded. -/
def Rdata.Fits (type : UInt16) : Rdata → Prop
  | .name ls => IsNameType type ∧ Encodable ls
  | .mx _ ls => type = DnsType.MX ∧ Encodable ls
  | .soa mname rname tail =>
    type = DnsType.SOA ∧ Encodable mname ∧ Encodable rname ∧ tail.length = 20
  | .raw _ => ¬IsNameType type ∧ type ≠ DnsType.MX ∧ type ≠ DnsType.SOA

/-- A record whose names can be encoded and whose data fits in RDLENGTH. -/
structure Record.Fits (rr : Record) : Prop where
  owner : Encodable rr.owner
  rdata : rr.rdata.Fits rr.type
  size : rr.rdata.recode.encode.length ≤ 65535

/-- A message whose names can be encoded, whose record data fits in RDLENGTH, and
whose sections fit in their counts. -/
structure Message.Fits (m : Message) : Prop where
  questions : ∀ q ∈ m.questions, Encodable q.labels
  records : ∀ rr ∈ m.records, rr.Fits
  qdcount : m.questions.length < 65536
  ancount : m.answers.length < 65536
  nscount : m.authorities.length < 65536
  arcount : m.additionals.length < 65536

theorem RdataAt.fits {data : Bytes} {type : UInt16} {s rdlen : Nat} {rd : Rdata}
    (h : RdataAt data type s rdlen rd) : rd.Fits type := by
  cases rd with
  | name ls => exact ⟨h.1, h.2.2⟩
  | mx pref ls => exact ⟨h.1, h.2.2.2.2⟩
  | soa mname rname tail =>
    obtain ⟨htype, e₁, e₂, -, -, -, hencm, hencr, hle, rfl⟩ := h
    refine ⟨htype, hencm, hencr, ?_⟩
    rw [List.length_take, List.length_drop]
    omega
  | raw bytes => exact ⟨h.1, h.2.1, h.2.2.1⟩

/-! ## Reading an encoding -/

theorem questionAt_encode {data : Bytes} {p : Nat} {q : Question} (hq : Encodable q.labels)
    (hseg : SegAt data p q.recode.encode) :
    QuestionAt data p q.recode (p + q.recode.encode.length) := by
  obtain ⟨hname, hfields⟩ := segAt_append_iff.mp hseg
  refine ⟨_, hq.name_redotted hname, hfields, ?_⟩
  simp only [Question.encode, Question.recode, List.length_append, Word.be16Bytes_length]
  omega

theorem rdataAt_encode {data : Bytes} {type : UInt16} {s : Nat} {rd : Rdata}
    (hrd : rd.Fits type) (hsize : rd.recode.encode.length ≤ 65535)
    (hseg : SegAt data s rd.recode.encode) :
    RdataAt data type s rd.recode.encode.length rd.recode := by
  cases rd with
  | name ls => exact ⟨hrd.1, ⟨_, hrd.2.name_redotted hseg⟩, hrd.2.redotted⟩
  | mx pref ls =>
    obtain ⟨hpref, hname⟩ := segAt_append_iff.mp hseg
    refine ⟨hrd.1, ?_, hpref, ⟨_, hrd.2.name_redotted hname⟩, hrd.2.redotted⟩
    simp only [Rdata.recode, Rdata.encode, List.length_append, Word.be16Bytes_length]
    omega
  | soa mname rname tail =>
    obtain ⟨htype, hencm, hencr, htail⟩ := hrd
    obtain ⟨hnames, htailseg⟩ := segAt_append_iff.mp hseg
    obtain ⟨hm, hr⟩ := segAt_append_iff.mp hnames
    rw [List.length_append, ← Nat.add_assoc] at htailseg
    have hmname := hencm.name_redotted hm
    have hrname := hencr.name_redotted hr
    have hmlt := hmname.lt
    have hrlt := hrname.lt
    have hend := htailseg.length_le (List.length_pos_iff.mp (by omega))
    have hlen : (Rdata.soa mname rname tail).recode.encode.length =
        (encodeLabels (redotted mname)).length + (encodeLabels (redotted rname)).length + 20 := by
      simp only [Rdata.recode, Rdata.encode, List.length_append, htail]
    refine ⟨htype, _, _, hmname, hrname, ?_, hencm.redotted, hencr.redotted, by omega, ?_⟩
    · rw [soaRemaining_of_le (by omega) (by omega) (by omega)]
      omega
    · rw [← htail]
      exact List.prefix_iff_eq_take.mp htailseg
  | raw bytes => exact ⟨hrd.1, hrd.2.1, hrd.2.2, List.prefix_iff_eq_take.mp hseg⟩

theorem toNat_ofNat_of_le {n : Nat} (h : n ≤ 65535) : (UInt16.ofNat n).toNat = n := by
  refine UInt16.toNat_ofNat_of_lt' ?_
  show n < 65536
  omega

theorem fixedFields_length (type rclass : UInt16) (ttl : UInt32) (rdlen : UInt16) :
    (fixedFields type rclass ttl rdlen).length = 10 := rfl

theorem recordAt_encode {data : Bytes} {p : Nat} {rr : Record} (hrr : rr.Fits)
    (hseg : SegAt data p rr.recode.encode) :
    RecordAt data p rr.recode (p + rr.recode.encode.length) := by
  obtain ⟨hhead, hrdata⟩ := segAt_append_iff.mp hseg
  obtain ⟨hname, hfields⟩ := segAt_append_iff.mp hhead
  rw [List.length_append, fixedFields_length, ← Nat.add_assoc] at hrdata
  have hrdlen : rr.recode.rdlen.toNat = rr.rdata.recode.encode.length := toNat_ofNat_of_le hrr.size
  have hfit : p + (encodeLabels rr.recode.owner).length + 10 ≤ data.length :=
    hfields.length_le (by simp [fixedFields, Word.be16Bytes])
  have hwindow : p + (encodeLabels rr.recode.owner).length + 10 + rr.rdata.recode.encode.length ≤
      data.length := by
    by_cases hempty : rr.rdata.recode.encode = []
    · rw [hempty]
      exact hfit
    · exact hrdata.length_le hempty
  refine ⟨_, hrr.owner.name_redotted hname, hfields, ?_, ?_, ?_⟩
  · rw [hrdlen]
    exact hwindow
  · rw [hrdlen]
    exact rdataAt_encode hrr.rdata hrr.size hrdata
  · rw [hrdlen, Record.encode, List.length_append, List.length_append, fixedFields_length]
    show _ = p + (encodeLabels rr.recode.owner).length + 10 + rr.rdata.recode.encode.length
    rw [show rr.recode.rdata = rr.rdata.recode from rfl]
    omega

theorem headerOf_header {m : Message} (hm : m.Fits) : HeaderOf m.header m :=
  ⟨rfl, rfl, toNat_ofNat_of_le (Nat.le_of_lt_succ hm.qdcount),
    toNat_ofNat_of_le (Nat.le_of_lt_succ hm.ancount),
    toNat_ofNat_of_le (Nat.le_of_lt_succ hm.nscount),
    toNat_ofNat_of_le (Nat.le_of_lt_succ hm.arcount)⟩

theorem header_recode (m : Message) : m.recode.header = m.header := by
  simp [Message.header, Message.recode]

theorem seqAt_records_encode {data : Bytes} {p : Nat} {rrs : List Record}
    (hrrs : ∀ rr ∈ rrs, rr.Fits)
    (hseg : SegAt data p ((rrs.map Record.recode).flatMap Record.encode)) :
    SeqAt (RecordAt data) p (rrs.map Record.recode)
      (p + ((rrs.map Record.recode).flatMap Record.encode).length) := by
  refine seqAt_of_segAt (fun rr hrr q hq => ?_) hseg
  obtain ⟨rr', hrr', rfl⟩ := List.mem_map.mp hrr
  exact recordAt_encode (hrrs rr' hrr') hq

/-- The encoding of a recoded message carries that message. -/
theorem messageAt_encode {m : Message} (hm : m.Fits) :
    MessageAt m.recode.encode m.recode := by
  -- The five parts of the encoding stand one after the other from offset zero.
  obtain ⟨hheader, hrest⟩ := segAt_append_iff.mp (segAt_self m.recode.encode)
  obtain ⟨hqs, hrest⟩ := segAt_append_iff.mp hrest
  obtain ⟨has, hrest⟩ := segAt_append_iff.mp hrest
  obtain ⟨hns, hrs⟩ := segAt_append_iff.mp hrest
  have hof : HeaderOf m.recode.header m.recode := by
    rw [header_recode]
    obtain ⟨hid, hflags, hqd, han, hnsc, har⟩ := headerOf_header hm
    exact ⟨hid, hflags, by simpa [Message.recode] using hqd, by simpa [Message.recode] using han,
      by simpa [Message.recode] using hnsc, by simpa [Message.recode] using har⟩
  have hquestions : SeqAt (QuestionAt m.recode.encode) 12 m.recode.questions
      (12 + (m.recode.questions.flatMap Question.encode).length) := by
    refine seqAt_of_segAt (fun q hq p hp => ?_) hqs
    obtain ⟨q', hq', rfl⟩ := List.mem_map.mp hq
    exact questionAt_encode (hm.questions q' hq') hp
  have hrecords : ∀ rr ∈ m.answers ++ m.authorities ++ m.additionals, rr.Fits := hm.records
  have hanswers := seqAt_records_encode (fun rr hrr => hrecords rr (by simp [hrr])) has
  have hauthorities := seqAt_records_encode (fun rr hrr => hrecords rr (by simp [hrr])) hns
  have hadditionals := seqAt_records_encode (fun rr hrr => hrecords rr (by simp [hrr])) hrs
  exact ⟨m.recode.header, hof, hheader, _, _, _, _, hquestions, hanswers, hauthorities,
    hadditionals⟩

end Wire
end Dnss
