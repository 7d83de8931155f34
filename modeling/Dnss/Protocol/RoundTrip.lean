/-
Round trips through the codec.

`parse_pack_of_wellFormed` starts from a message in memory: a well-formed message
packs, and parsing the result gives the message back.  `forwards_iff` starts from
the wire: a byte string that parses and packs again is forwarded faithfully
exactly when no label holds a dot and every record's expanded data fits in
RDLENGTH.  The first loses nothing because its names are joins of dot-free labels;
the second can lose label boundaries, because the parser joins whatever bytes the
labels hold.
-/
import Mathlib.Data.Set.List
import Dnss.Protocol.PackGrammar

namespace Dnss

open Cursor DnsHelpers Separated

/-! ## Faithful labels -/

namespace Wire

/-- Labels that come back from a dotted string as they went in. -/
def Plain (ls : List Bytes) : Prop :=
  ∀ l ∈ ls, dot ∉ l

theorem redotted_eq_self_iff {ls : List Bytes} (hls : ∀ l ∈ ls, l ≠ []) :
    redotted ls = ls ↔ Plain ls :=
  flatMap_splitWords_eq_self_iff hls

theorem Record.flatten_recode {rr : Record} (h : redotted rr.owner = rr.owner) :
    rr.recode.flatten = rr.flatten := by
  simp only [Record.flatten, Record.recode, h, Rdata.flatten_eq, Rdata.recode_recode]

theorem Question.flatten_recode {q : Question} (h : redotted q.labels = q.labels) :
    q.recode.flatten = q.flatten := by
  simp only [Question.flatten, Question.recode, h]

/-- Recoding does not change the flat form of a message whose question and owner
names are faithful. -/
theorem Message.flatten_recode {w : Message} (h : ∀ ls ∈ w.owners, redotted ls = ls) :
    w.recode.flatten = w.flatten := by
  obtain ⟨hq, ha, hn, hr⟩ := Message.forall_mem_owners.mp h
  have hrecords : ∀ rrs : List Record, (∀ rr ∈ rrs, redotted rr.owner = rr.owner) →
      (rrs.map Record.recode).map Record.flatten = rrs.map Record.flatten := by
    intro rrs hrrs
    rw [List.map_map]
    exact List.map_congr_left fun rr hrr => Record.flatten_recode (hrrs rr hrr)
  have hquestions : (w.questions.map Question.recode).map Question.flatten =
      w.questions.map Question.flatten := by
    rw [List.map_map]
    exact List.map_congr_left fun q hmem => Question.flatten_recode (hq q hmem)
  simp only [Message.flatten, Message.recode, List.length_map, hquestions, hrecords _ ha,
    hrecords _ hn, hrecords _ hr]

theorem Rdata.names_recode (rd : Rdata) : rd.recode.names = rd.names.map redotted := by
  cases rd with
  | name ls => rfl
  | mx pref ls => rfl
  | soa mname rname tail => rfl
  | raw bytes => rfl

theorem Message.records_recode (w : Message) : w.recode.records = w.records.map Record.recode := by
  simp only [Message.records, Message.recode, List.map_append]

theorem Message.names_recode (w : Message) : w.recode.names = w.names.map redotted := by
  have hrecord : ∀ rr : Record, rr.recode.names = rr.names.map redotted := by
    intro rr
    rw [Record.names, Record.names, List.map_cons]
    exact congrArg (redotted rr.owner :: ·) rr.rdata.names_recode
  rw [Message.names, Message.names, Message.records_recode, List.map_append, List.flatMap_map,
    List.map_flatMap, funext hrecord]
  simp only [Message.recode, List.map_map]
  rfl

theorem Rdata.recode_eq_self {rd : Rdata} (h : ∀ ls ∈ rd.names, redotted ls = ls) :
    rd.recode = rd := by
  cases rd with
  | name ls => rw [Rdata.recode, h ls (by simp [Rdata.names])]
  | mx pref ls => rw [Rdata.recode, h ls (by simp [Rdata.names])]
  | soa mname rname tail =>
    rw [Rdata.recode, h mname (by simp [Rdata.names]), h rname (by simp [Rdata.names])]
  | raw bytes => rfl

theorem Message.mem_names_of_mem_owners {w : Message} {ls : List Bytes} (h : ls ∈ w.owners) :
    ls ∈ w.names := by
  rw [Message.owners, List.mem_append] at h
  rw [Message.names, List.mem_append]
  rcases h with h | h
  · exact Or.inl h
  · obtain ⟨rr, hrr, rfl⟩ := List.mem_map.mp h
    exact Or.inr (List.mem_flatMap.mpr ⟨rr, hrr, List.mem_cons_self⟩)

theorem Message.mem_names_of_mem_rdata {w : Message} {rr : Record} (hrr : rr ∈ w.records)
    {ls : List Bytes} (h : ls ∈ rr.rdata.names) : ls ∈ w.names := by
  rw [Message.names, List.mem_append]
  exact Or.inr (List.mem_flatMap.mpr ⟨rr, hrr, List.mem_cons_of_mem _ h⟩)

/-! ## Messages on the wire -/

theorem RdataAt.label_ne_nil {data : Bytes} {type : UInt16} {s rdlen : Nat} {rd : Rdata}
    (h : RdataAt data type s rdlen rd) : ∀ ls ∈ rd.names, ∀ l ∈ ls, l ≠ [] := by
  intro ls hls
  cases rd with
  | name ms =>
    obtain ⟨-, ⟨e, hname⟩, -⟩ := h
    rw [List.mem_singleton.mp hls]
    exact hname.label_ne_nil
  | mx pref ms =>
    obtain ⟨-, -, -, ⟨e, hname⟩, -⟩ := h
    rw [List.mem_singleton.mp hls]
    exact hname.label_ne_nil
  | soa mname rname tail =>
    obtain ⟨-, e₁, e₂, hm, hr, -⟩ := h
    rcases List.mem_cons.mp hls with rfl | hls
    · exact hm.label_ne_nil
    · rw [List.mem_singleton.mp hls]
      exact hr.label_ne_nil
  | raw bytes => cases hls

theorem MessageAt.recordAt {data : Bytes} {w : Message} (h : MessageAt data w) {rr : Record}
    (hrr : rr ∈ w.records) : ∃ p r, RecordAt data p rr r := by
  obtain ⟨hd, -, -, q₁, q₂, q₃, q₄, -, has, hns, hrs⟩ := h
  rw [Message.records, List.mem_append, List.mem_append] at hrr
  rcases hrr with (hrr | hrr) | hrr
  · exact has.exists_of_mem hrr
  · exact hns.exists_of_mem hrr
  · exact hrs.exists_of_mem hrr

theorem MessageAt.label_ne_nil {data : Bytes} {w : Message} (h : MessageAt data w) :
    ∀ ls ∈ w.names, ∀ l ∈ ls, l ≠ [] := by
  intro ls hls
  rw [Message.names, List.mem_append] at hls
  rcases hls with hls | hls
  · obtain ⟨q, hq, rfl⟩ := List.mem_map.mp hls
    obtain ⟨hd, -, -, q₁, q₂, q₃, q₄, hqs, -⟩ := h
    obtain ⟨p, r, e, hname, -⟩ := hqs.exists_of_mem hq
    exact hname.label_ne_nil
  · obtain ⟨rr, hrr, hmem⟩ := List.mem_flatMap.mp hls
    obtain ⟨p, r, e, hname, -, -, hrd, -⟩ := h.recordAt hrr
    rcases List.mem_cons.mp hmem with rfl | hmem
    · exact hname.label_ne_nil
    · exact hrd.label_ne_nil ls hmem

/-- A message on the wire fits an encoder if its question and owner names and the
sizes of its record data do: the parser has checked the rest. -/
theorem MessageAt.fits {data : Bytes} {w : Message} (h : MessageAt data w)
    (howners : ∀ ls ∈ w.owners, Encodable ls)
    (hsize : ∀ rr ∈ w.records, rr.rdata.recode.encode.length ≤ 65535) : w.Fits := by
  refine ⟨(Message.forall_mem_owners.mp howners).1, fun rr hrr => ?_, ?_, ?_, ?_, ?_⟩
  · obtain ⟨p, r, e, -, -, -, hrd, -⟩ := h.recordAt hrr
    refine ⟨howners _ ?_, hrd.fits, hsize rr hrr⟩
    exact List.mem_append_right _ (List.mem_map_of_mem hrr)
  all_goals obtain ⟨hd, hof, -⟩ := h
  · exact hof.qdcount ▸ hd.qdcount.toNat_lt
  · exact hof.ancount ▸ hd.ancount.toNat_lt
  · exact hof.nscount ▸ hd.nscount.toNat_lt
  · exact hof.arcount ▸ hd.arcount.toNat_lt

end Wire

namespace DnsMessage

/-! ## From memory -/

/-- The empty name, or labels of 1 to 63 bytes without a dot, joined with dots. -/
def IsName (name : Bytes) : Prop :=
  ∃ ls, (∀ l ∈ ls, 0 < l.length ∧ l.length ≤ 63 ∧ dot ∉ l) ∧ name = [dot].intercalate ls

def IsWireName (wire : Bytes) : Prop :=
  ∃ name, IsName name ∧ nameToWire name = .ok wire

structure WellFormedRecord (rr : DnsResourceRecord) : Prop where
  name : IsName rr.name
  size : rr.rdata.length ≤ 65535
  nameRdata : rr.type = DnsType.NS ∨ rr.type = DnsType.CNAME ∨ rr.type = DnsType.PTR →
    IsWireName rr.rdata
  mxRdata : rr.type = DnsType.MX →
    ∃ hi lo wire, IsWireName wire ∧ rr.rdata = hi :: lo :: wire
  soaRdata : rr.type = DnsType.SOA →
    ∃ mname rname tail, IsWireName mname ∧ IsWireName rname ∧ tail.length = 20 ∧
      rr.rdata = mname ++ rname ++ tail

structure WellFormed (m : DnsMessage) : Prop where
  qdcount : m.header.qdcount.toNat = m.questions.length
  ancount : m.header.ancount.toNat = m.answers.length
  nscount : m.header.nscount.toNat = m.authorities.length
  arcount : m.header.arcount.toNat = m.additionals.length
  questions : ∀ q ∈ m.questions, IsName q.qname
  records : ∀ rr ∈ m.records, WellFormedRecord rr

theorem IsName.exists_labels {name : Bytes} (h : IsName name) :
    ∃ ls, name = Wire.dotted ls ∧ Wire.redotted ls = ls ∧ Wire.Encodable ls := by
  obtain ⟨ls, hls, hname⟩ := h
  have hredotted : Wire.redotted ls = ls :=
    (Wire.redotted_eq_self_iff fun l hl => List.length_pos_iff.mp (hls l hl).1).mpr
      fun l hl => (hls l hl).2.2
  refine ⟨ls, hname, hredotted, ?_⟩
  rw [Wire.Encodable, hredotted]
  exact fun l hl => (hls l hl).2.1

theorem IsWireName.exists_labels {wire : Bytes} (h : IsWireName wire) :
    ∃ ls, Wire.Encodable ls ∧ wire = Wire.encodeLabels (Wire.redotted ls) := by
  obtain ⟨name, hname, hwire⟩ := h
  obtain ⟨ls, rfl, -, -⟩ := hname.exists_labels
  exact ⟨ls, nameToWire_dotted_eq_ok_iff.mp hwire⟩

/-- Well-formed record data is the flat form of data that fits its type. -/
theorem WellFormedRecord.exists_rdata {rr : DnsResourceRecord} (h : WellFormedRecord rr) :
    ∃ rd : Wire.Rdata, rd.Fits rr.type ∧ rd.flatten = rr.rdata := by
  by_cases hname : Wire.IsNameType rr.type
  · obtain ⟨ls, henc, hrd⟩ := (h.nameRdata (or_left_comm.mp hname)).exists_labels
    exact ⟨.name ls, ⟨hname, henc⟩, hrd.symm⟩
  · by_cases hmx : rr.type = DnsType.MX
    · obtain ⟨hi, lo, wire, hwire, hrd⟩ := h.mxRdata hmx
      obtain ⟨ls, henc, rfl⟩ := hwire.exists_labels
      refine ⟨.mx (Word.be16 hi lo) ls, ⟨hmx, henc⟩, ?_⟩
      rw [hrd, Wire.Rdata.flatten, Word.be16Bytes_be16]
      rfl
    · by_cases hsoa : rr.type = DnsType.SOA
      · obtain ⟨mwire, rwire, tail, hm, hr, htail, hrd⟩ := h.soaRdata hsoa
        obtain ⟨mname, hencm, rfl⟩ := hm.exists_labels
        obtain ⟨rname, hencr, rfl⟩ := hr.exists_labels
        exact ⟨.soa mname rname tail, ⟨hsoa, hencm, hencr, htail⟩, hrd.symm⟩
      · exact ⟨.raw rr.rdata, ⟨hname, hmx, hsoa⟩, rfl⟩

theorem WellFormedRecord.exists_record {rr : DnsResourceRecord} (h : WellFormedRecord rr) :
    ∃ w : Wire.Record, (w.Fits ∧ Wire.redotted w.owner = w.owner) ∧ w.flatten = rr := by
  obtain ⟨owner, hname, hredotted, henc⟩ := h.name.exists_labels
  obtain ⟨rd, hfits, hrd⟩ := h.exists_rdata
  refine ⟨⟨owner, rr.type, rr.rclass, rr.ttl, 0, rd⟩, ⟨⟨henc, hfits, ?_⟩, hredotted⟩, ?_⟩
  · rw [← Wire.Rdata.flatten_eq, hrd]
    exact h.size
  · simp only [Wire.Record.flatten, hrd, ← hname]

theorem exists_map_of_forall_mem {α β : Type} {f : α → β} {P : α → Prop} {ys : List β}
    (h : ∀ y ∈ ys, ∃ x, P x ∧ f x = y) : ∃ xs : List α, (∀ x ∈ xs, P x) ∧ xs.map f = ys := by
  have hrange : ys ∈ Set.range (List.map fun x : { x // P x } => f x.1) := by
    rw [Set.range_list_map]
    intro y hy
    obtain ⟨x, hx, hxy⟩ := h y hy
    exact ⟨⟨x, hx⟩, hxy⟩
  obtain ⟨xs, hxs⟩ := hrange
  refine ⟨xs.map Subtype.val, ?_, by rw [List.map_map]; exact hxs⟩
  intro x hx
  obtain ⟨x', -, rfl⟩ := List.mem_map.mp hx
  exact x'.2

theorem exists_records {rrs : List DnsResourceRecord} (h : ∀ rr ∈ rrs, WellFormedRecord rr) :
    ∃ ws : List Wire.Record, (∀ w ∈ ws, w.Fits ∧ Wire.redotted w.owner = w.owner) ∧
      ws.map Wire.Record.flatten = rrs :=
  exists_map_of_forall_mem fun rr hrr => (h rr hrr).exists_record

/-- A well-formed message is the flat form of a message that can be encoded and
whose question and owner names are faithful. -/
theorem WellFormed.exists_message {m : DnsMessage} (h : m.WellFormed) :
    ∃ w : Wire.Message, w.Fits ∧ (∀ ls ∈ w.owners, Wire.redotted ls = ls) ∧ w.flatten = m := by
  obtain ⟨qs, hqs, hqm⟩ : ∃ qs : List Wire.Question,
      (∀ q ∈ qs, Wire.Encodable q.labels ∧ Wire.redotted q.labels = q.labels) ∧
        qs.map Wire.Question.flatten = m.questions := by
    refine exists_map_of_forall_mem fun q hq => ?_
    obtain ⟨ls, hname, hredotted, henc⟩ := (h.questions q hq).exists_labels
    refine ⟨⟨ls, q.qtype, q.qclass⟩, ⟨henc, hredotted⟩, ?_⟩
    simp only [Wire.Question.flatten, ← hname]
  have hrecords := h.records
  simp only [DnsMessage.records, List.forall_mem_append] at hrecords
  obtain ⟨as, has, ham⟩ := exists_records hrecords.1.1
  obtain ⟨ns, hns, hnm⟩ := exists_records hrecords.1.2
  obtain ⟨rs, hrs, hrm⟩ := exists_records hrecords.2
  have hqd := h.qdcount
  have han := h.ancount
  have hnsc := h.nscount
  have har := h.arcount
  rw [← hqm, List.length_map] at hqd
  rw [← ham, List.length_map] at han
  rw [← hnm, List.length_map] at hnsc
  rw [← hrm, List.length_map] at har
  refine ⟨⟨m.header.id, m.header.flags, qs, as, ns, rs⟩, ?_, ?_, ?_⟩
  · refine ⟨fun q hq => (hqs q hq).1, fun rr hrr => ?_, ?_, ?_, ?_, ?_⟩
    · simp only [Wire.Message.records, List.mem_append] at hrr
      rcases hrr with (hrr | hrr) | hrr
      · exact (has rr hrr).1
      · exact (hns rr hrr).1
      · exact (hrs rr hrr).1
    · exact hqd ▸ m.header.qdcount.toNat_lt
    · exact han ▸ m.header.ancount.toNat_lt
    · exact hnsc ▸ m.header.nscount.toNat_lt
    · exact har ▸ m.header.arcount.toNat_lt
  · exact Wire.Message.forall_mem_owners.mpr ⟨fun q hq => (hqs q hq).2,
      fun rr hrr => (has rr hrr).2, fun rr hrr => (hns rr hrr).2, fun rr hrr => (hrs rr hrr).2⟩
  · simp only [Wire.Message.flatten, hqm, ham, hnm, hrm, ofNat_length_of_toNat_eq hqd,
      ofNat_length_of_toNat_eq han, ofNat_length_of_toNat_eq hnsc, ofNat_length_of_toNat_eq har]

/-! The converse: a flat form with faithful names and data that fits is well formed. -/

theorem isName_dotted {ls : List Bytes} (henc : Wire.Encodable ls)
    (hself : Wire.redotted ls = ls) : IsName (Wire.dotted ls) := by
  refine ⟨ls, fun l hl => ?_, rfl⟩
  rw [← hself] at hl
  obtain ⟨hpos, hle⟩ := henc.length_redotted l hl
  obtain ⟨word, -, hword⟩ := List.mem_flatMap.mp hl
  exact ⟨hpos, hle, notMem_of_mem_splitWords hword⟩

theorem isWireName_encodeLabels {ls : List Bytes} (henc : Wire.Encodable ls) :
    IsWireName (Wire.encodeLabels (Wire.redotted ls)) := by
  refine ⟨Wire.dotted (Wire.redotted ls),
    isName_dotted henc.redotted (Wire.redotted_redotted ls), ?_⟩
  exact nameToWire_dotted_eq_ok_iff.mpr ⟨henc.redotted, by rw [Wire.redotted_redotted]⟩

theorem wellFormedRecord_flatten {rr : Wire.Record} (h : rr.Fits)
    (hself : Wire.redotted rr.owner = rr.owner) : WellFormedRecord rr.flatten := by
  have hname := isName_dotted h.owner hself
  have hsize : rr.rdata.flatten.length ≤ 65535 := by
    rw [Wire.Rdata.flatten_eq]
    exact h.size
  have hfits := h.rdata
  obtain ⟨owner, type, rclass, ttl, rdlen, rdata⟩ := rr
  -- Each shape of data belongs to its own types.
  cases rdata with
  | name ls =>
    obtain ⟨htype, henc⟩ := hfits
    refine ⟨hname, hsize, fun _ => isWireName_encodeLabels henc, fun hmx => ?_, fun hsoa => ?_⟩
    · exact absurd (show Wire.IsNameType DnsType.MX from hmx ▸ htype) (by decide)
    · exact absurd (show Wire.IsNameType DnsType.SOA from hsoa ▸ htype) (by decide)
  | mx pref ls =>
    obtain ⟨htype, henc⟩ := hfits
    refine ⟨hname, hsize, fun hnt => ?_, fun _ => ?_, fun hsoa => ?_⟩
    · exact absurd (show Wire.IsNameType DnsType.MX from htype ▸ or_left_comm.mp hnt) (by decide)
    · exact ⟨_, _, _, isWireName_encodeLabels henc, rfl⟩
    · exact absurd (htype.symm.trans hsoa) (by decide)
  | soa mname rname tail =>
    obtain ⟨htype, hencm, hencr, htail⟩ := hfits
    refine ⟨hname, hsize, fun hnt => ?_, fun hmx => ?_, fun _ => ?_⟩
    · exact absurd (show Wire.IsNameType DnsType.SOA from htype ▸ or_left_comm.mp hnt) (by decide)
    · exact absurd (htype.symm.trans hmx) (by decide)
    · exact ⟨_, _, tail, isWireName_encodeLabels hencm, isWireName_encodeLabels hencr, htail, rfl⟩
  | raw bytes =>
    obtain ⟨hnt, hmx, hsoa⟩ := hfits
    exact ⟨hname, hsize, fun h => absurd (or_left_comm.mp h) hnt, fun h => absurd h hmx,
      fun h => absurd h hsoa⟩

theorem wellFormed_flatten {w : Wire.Message} (h : w.Fits)
    (hself : ∀ ls ∈ w.owners, Wire.redotted ls = ls) : w.flatten.WellFormed := by
  have hcount : ∀ {n m : Nat}, n < 65536 → n = m → (UInt16.ofNat n).toNat = m := by
    intro n m hn hnm
    rw [Wire.toNat_ofNat_of_le (Nat.le_of_lt_succ hn), hnm]
  refine ⟨hcount h.qdcount (List.length_map _).symm, hcount h.ancount (List.length_map _).symm,
    hcount h.nscount (List.length_map _).symm, hcount h.arcount (List.length_map _).symm,
    fun q hq => ?_, fun rr hrr => ?_⟩
  · obtain ⟨q', hq', rfl⟩ := List.mem_map.mp hq
    exact isName_dotted (h.questions q' hq') ((Wire.Message.forall_mem_owners.mp hself).1 q' hq')
  · rw [records_flatten] at hrr
    obtain ⟨rr', hrr', rfl⟩ := List.mem_map.mp hrr
    exact wellFormedRecord_flatten (h.records rr' hrr')
      (hself _ (List.mem_append_right _ (List.mem_map_of_mem hrr')))

/-- The encoding of a message that fits parses to its recoded flat form. -/
theorem parse_encode_recode {w : Wire.Message} (h : w.Fits) :
    parse w.recode.encode = .ok w.recode.flatten :=
  parse_eq_ok_iff.mpr ⟨w.recode, Wire.messageAt_encode h, rfl⟩

/-- A well-formed message packs, and the bytes `pack` writes parse to it. -/
theorem WellFormed.parse_packed {m : DnsMessage} (h : m.WellFormed) :
    m.Packable ∧ parse m.packed = .ok m := by
  obtain ⟨w, hfits, hplain, rfl⟩ := h.exists_message
  have howners : ∀ ls ∈ w.owners, Wire.Encodable ls := by
    have hrecords := hfits.records
    simp only [Wire.Message.records, List.forall_mem_append] at hrecords
    exact Wire.Message.forall_mem_owners.mpr ⟨hfits.questions,
      fun rr hrr => (hrecords.1.1 rr hrr).owner, fun rr hrr => (hrecords.1.2 rr hrr).owner,
      fun rr hrr => (hrecords.2 rr hrr).owner⟩
  refine ⟨packable_flatten_iff.mpr howners, ?_⟩
  rw [packed_flatten, parse_encode_recode hfits, Wire.Message.flatten_recode hplain]

/-- A well-formed message packs, and parsing the bytes gives it back. -/
theorem parse_pack_of_wellFormed {m : DnsMessage} (h : m.WellFormed) :
    ∃ wire, pack m = .ok wire ∧ parse wire = .ok m :=
  ⟨m.packed, pack_eq_ok_iff.mpr ⟨h.parse_packed.1, rfl⟩, h.parse_packed.2⟩

/-- A reply about `ab.c` with an MX answer and an SOA record in its authority section. -/
def mxReply : DnsMessage :=
  { header := { id := 7, flags := 0x8180, qdcount := 1, ancount := 1, nscount := 1 },
    questions := [{ qname := [0x61, 0x62, 0x2E, 0x63], qtype := DnsType.MX, qclass := 1 }],
    answers :=
      [{ name := [0x61, 0x62, 0x2E, 0x63], type := DnsType.MX, rclass := 1, ttl := 300,
         rdata := [0, 10, 1, 0x6D, 2, 0x61, 0x62, 0] }],
    authorities :=
      [{ name := [0x63], type := DnsType.SOA, rclass := 1, ttl := 60,
         rdata := [1, 0x63, 0] ++ [0] ++ List.replicate 20 9 }] }

theorem mxReply_wellFormed : mxReply.WellFormed := by
  have hroot : IsWireName [0] := ⟨[], ⟨[], by decide, by decide⟩, by decide⟩
  refine ⟨by decide, by decide, by decide, by decide, fun q hq => ?_, fun rr hrr => ?_⟩
  · rw [List.mem_singleton.mp hq]
    exact ⟨[[0x61, 0x62], [0x63]], by decide, by decide⟩
  · rcases List.mem_cons.mp hrr with rfl | hrr
    · refine ⟨⟨[[0x61, 0x62], [0x63]], by decide, by decide⟩, by decide, fun h => ?_, fun _ => ?_,
        fun h => ?_⟩
      · exact absurd h (by decide)
      · exact ⟨0, 10, _, ⟨_, ⟨[[0x6D], [0x61, 0x62]], by decide, rfl⟩, by decide⟩, rfl⟩
      · exact absurd h (by decide)
    · rw [List.mem_singleton.mp hrr]
      refine ⟨⟨[[0x63]], by decide, by decide⟩, by decide, fun h => ?_, fun h => ?_, fun _ => ?_⟩
      · exact absurd h (by decide)
      · exact absurd h (by decide)
      · exact ⟨[1, 0x63, 0], [0], _, ⟨_, ⟨[[0x63]], by decide, rfl⟩, by decide⟩, hroot, by decide,
          rfl⟩

theorem mxReply_parse_pack :
    mxReply.WellFormed ∧ ∃ wire, pack mxReply = .ok wire ∧ parse wire = .ok mxReply :=
  ⟨mxReply_wellFormed, parse_pack_of_wellFormed mxReply_wellFormed⟩

/-! ## From the wire -/

/-- A byte string that parses and packs again comes back as the same message, with
the same labels in every name and RDLENGTH fields that describe their data. -/
def Forwards (b : Bytes) : Prop :=
  ∀ m out, parse b = .ok m → pack m = .ok out →
    parse out = .ok m ∧
      (∃ w w', Wire.MessageAt b w ∧ Wire.MessageAt out w' ∧ w'.names = w.names) ∧
        ∀ rr ∈ m.records, (rdlengthField rr).toNat = rr.rdata.length

theorem rdlengthField_toNat_eq_iff (rr : DnsResourceRecord) :
    (rdlengthField rr).toNat = rr.rdata.length ↔ rr.rdata.length ≤ 65535 := by
  refine ⟨fun h => ?_, fun h => Wire.toNat_ofNat_of_le h⟩
  rw [← h]
  exact Nat.le_of_lt_succ (rdlengthField rr).toNat_lt

/-- A byte string whose question and owner names can be encoded is forwarded
faithfully exactly when no label of any name holds a dot and no record's data grows
past 65535 bytes when its names are expanded. -/
theorem forwards_iff (b : Bytes) :
    Forwards b ↔ ∀ w, Wire.MessageAt b w → (∀ ls ∈ w.owners, Wire.Encodable ls) →
      (∀ ls ∈ w.names, Wire.Plain ls) ∧ ∀ rr ∈ w.records, rr.rdata.encode.length ≤ 65535 := by
  constructor
  · intro h w hw howners
    obtain ⟨-, ⟨w₁, w₂, hw₁, hw₂, hnames⟩, hrdlen⟩ := h w.flatten w.recode.encode
      (parse_eq_ok_iff.mpr ⟨w, hw, rfl⟩) (pack_flatten_eq_ok_iff.mpr ⟨howners, rfl⟩)
    have hsize : ∀ rr ∈ w.records, rr.rdata.recode.encode.length ≤ 65535 := by
      intro rr hrr
      rw [← Wire.Rdata.flatten_eq]
      refine (rdlengthField_toNat_eq_iff rr.flatten).mp (hrdlen rr.flatten ?_)
      rw [records_flatten]
      exact List.mem_map_of_mem hrr
    -- The bytes written carry the recoded message, so its names are those of `w`.
    have hrecoded := Wire.messageAt_encode (hw.fits howners hsize)
    rw [hw₁.functional hw, hw₂.functional hrecoded, Wire.Message.names_recode] at hnames
    have hself : ∀ ls ∈ w.names, Wire.redotted ls = ls :=
      List.map_inj_left.mp (hnames.trans (List.map_id _).symm)
    constructor
    · intro ls hls
      exact (Wire.redotted_eq_self_iff (hw.label_ne_nil ls hls)).mp (hself ls hls)
    · intro rr hrr
      have hrd := Wire.Rdata.recode_eq_self fun ls hls =>
        hself ls (Wire.Message.mem_names_of_mem_rdata hrr hls)
      rw [← hrd]
      exact hsize rr hrr
  · intro h m out hparse hpack
    obtain ⟨w, hw, rfl⟩ := parse_eq_ok_iff.mp hparse
    obtain ⟨howners, rfl⟩ := pack_flatten_eq_ok_iff.mp hpack
    obtain ⟨hplain, hsize⟩ := h w hw howners
    have hself : ∀ ls ∈ w.names, Wire.redotted ls = ls := fun ls hls =>
      (Wire.redotted_eq_self_iff (hw.label_ne_nil ls hls)).mpr (hplain ls hls)
    have hsize' : ∀ rr ∈ w.records, rr.rdata.recode.encode.length ≤ 65535 := by
      intro rr hrr
      rw [Wire.Rdata.recode_eq_self fun ls hls =>
        hself ls (Wire.Message.mem_names_of_mem_rdata hrr hls)]
      exact hsize rr hrr
    have hfits := hw.fits howners hsize'
    refine ⟨?_, ⟨w, w.recode, hw, Wire.messageAt_encode hfits, ?_⟩, fun rr hrr => ?_⟩
    · rw [parse_encode_recode hfits, Wire.Message.flatten_recode fun ls hls =>
        hself ls (Wire.Message.mem_names_of_mem_owners hls)]
    · rw [Wire.Message.names_recode]
      exact (List.map_congr_left hself).trans (List.map_id _)
    · rw [records_flatten] at hrr
      obtain ⟨rr', hrr', rfl⟩ := List.mem_map.mp hrr
      rw [rdlengthField_toNat_eq_iff]
      show rr'.rdata.flatten.length ≤ 65535
      rw [Wire.Rdata.flatten_eq]
      exact hsize' rr' hrr'

/-- A query for the one label `a.`, whose second byte is a dot. -/
def dottedLabelQuery : Bytes :=
  [0, 0, 1, 0, 0, 1, 0, 0, 0, 0, 0, 0] ++ [2, 0x61, 0x2E, 0, 0, 1, 0, 1]

theorem dottedLabelQuery_not_forwards : ¬Forwards dottedLabelQuery := by
  intro h
  have hparse : parse dottedLabelQuery = .ok (createQuery [0x61, 0x2E] 1) := by decide +kernel
  have hpack : pack (createQuery [0x61, 0x2E] 1) =
      .ok [0, 0, 1, 0, 0, 1, 0, 0, 0, 0, 0, 0, 1, 0x61, 0, 0, 1, 0, 1] := by decide +kernel
  have hback : parse [0, 0, 1, 0, 0, 1, 0, 0, 0, 0, 0, 0, 1, 0x61, 0, 0, 1, 0, 1] =
      .ok (createQuery [0x61] 1) := by decide +kernel
  obtain ⟨hsame, -⟩ := h _ _ hparse hpack
  rw [hback, Except.ok.injEq] at hsame
  exact absurd hsame (by decide)

end DnsMessage
end Dnss
