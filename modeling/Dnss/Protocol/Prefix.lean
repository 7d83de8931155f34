/-
Messages in a stream of bytes.

A message says how long it is: its header counts the records, and each record has its length.  So a
reader needs no other mark for its end.  What the parser has read does not change when more bytes
come (`MessageAt.append`), and a message that was packed ends with its last byte (`encode_ends`).

`parse_eq_ok_iff_arrived` puts both together: in a stream that carries a packed message, `parse`
reads this message once it is there and nothing before.
-/
import Dnss.Protocol.RoundTrip

namespace Dnss

open Cursor

namespace Wire

/-! ## More bytes -/

theorem getElem?_append {data : Bytes} {p : Nat} {b : UInt8} (h : data[p]? = some b)
    (rest : Bytes) : (data ++ rest)[p]? = some b := by
  obtain ⟨hp, -⟩ := List.getElem?_eq_some_iff.mp h
  rw [List.getElem?_append_left hp, h]

theorem NameAt.append {data : Bytes} {jumps p q : Nat} {ls : List Bytes}
    (h : NameAt data jumps p ls q) (rest : Bytes) : NameAt (data ++ rest) jumps p ls q := by
  induction h with
  | root hzero => exact .root (getElem?_append hzero rest)
  | label hlen hpos hlt hlabel hseg hrest ih =>
    exact .label (getElem?_append hlen rest) hpos hlt hlabel (hseg.append rest) ih
  | pointer hhi hge hlo hrest ih =>
    exact .pointer (getElem?_append hhi rest) hge (getElem?_append hlo rest) ih

theorem Name.append {data : Bytes} {p q : Nat} {ls : List Bytes} (h : Name data p ls q)
    (rest : Bytes) : Name (data ++ rest) p ls q := by
  obtain ⟨jumps, hle, hname⟩ := h
  exact ⟨jumps, hle, hname.append rest⟩

theorem QuestionAt.append {data : Bytes} {p r : Nat} {q : Question} (h : QuestionAt data p q r)
    (rest : Bytes) : QuestionAt (data ++ rest) p q r := by
  obtain ⟨e, hname, hseg, hr⟩ := h
  exact ⟨e, hname.append rest, hseg.append rest, hr⟩

theorem take_drop_append {data : Bytes} {s n : Nat} (h : s + n ≤ data.length) (rest : Bytes) :
    ((data ++ rest).drop s).take n = (data.drop s).take n := by
  rw [List.drop_append_of_le_length (by omega), List.take_append_of_le_length]
  rw [List.length_drop]
  omega

/-- The window of the record must be there in full: the plain record types take what there is. -/
theorem RdataAt.append {data : Bytes} {type : UInt16} {s rdlen : Nat} {rd : Rdata}
    (h : RdataAt data type s rdlen rd) (hwindow : s + rdlen ≤ data.length) (rest : Bytes) :
    RdataAt (data ++ rest) type s rdlen rd := by
  cases rd with
  | name ls =>
    obtain ⟨htype, ⟨e, hname⟩, henc⟩ := h
    exact ⟨htype, ⟨e, hname.append rest⟩, henc⟩
  | mx pref ls =>
    obtain ⟨htype, hle, hpref, ⟨e, hname⟩, henc⟩ := h
    exact ⟨htype, hle, hpref.append rest, ⟨e, hname.append rest⟩, henc⟩
  | soa mname rname tail =>
    obtain ⟨htype, e₁, e₂, hm, hr, hremain, hencm, hencr, hle, htail⟩ := h
    refine ⟨htype, e₁, e₂, hm.append rest, hr.append rest, hremain, hencm, hencr, ?_, ?_⟩
    · rw [List.length_append]
      omega
    · rw [take_drop_append hle rest]
      exact htail
  | raw bytes =>
    obtain ⟨hname, hmx, hsoa, hbytes⟩ := h
    refine ⟨hname, hmx, hsoa, ?_⟩
    rw [take_drop_append hwindow rest]
    exact hbytes

theorem RecordAt.append {data : Bytes} {p r : Nat} {rr : Record} (h : RecordAt data p rr r)
    (rest : Bytes) : RecordAt (data ++ rest) p rr r := by
  obtain ⟨e, hname, hseg, hwindow, hrd, hr⟩ := h
  refine ⟨e, hname.append rest, hseg.append rest, ?_, hrd.append hwindow rest, hr⟩
  rw [List.length_append]
  omega

/-! ## The end of a message -/

/-- `MessageAt` with the offset at which the message ends. -/
def MessageEnds (data : Bytes) (m : Message) (q₄ : Nat) : Prop :=
  ∃ h, HeaderOf h m ∧ SegAt data 0 (headerBytes h) ∧
    ∃ q₁ q₂ q₃, SeqAt (QuestionAt data) 12 m.questions q₁ ∧
      SeqAt (RecordAt data) q₁ m.answers q₂ ∧ SeqAt (RecordAt data) q₂ m.authorities q₃ ∧
        SeqAt (RecordAt data) q₃ m.additionals q₄

theorem messageAt_iff_ends {data : Bytes} {m : Message} :
    MessageAt data m ↔ ∃ q, MessageEnds data m q := by
  constructor
  · intro h
    obtain ⟨hd, hof, hseg, q₁, q₂, q₃, q₄, hqs, has, hns, hrs⟩ := h
    exact ⟨q₄, hd, hof, hseg, q₁, q₂, q₃, hqs, has, hns, hrs⟩
  · intro h
    obtain ⟨q₄, hd, hof, hseg, q₁, q₂, q₃, hqs, has, hns, hrs⟩ := h
    exact ⟨hd, hof, hseg, q₁, q₂, q₃, q₄, hqs, has, hns, hrs⟩

theorem MessageEnds.append {data : Bytes} {m : Message} {q : Nat} (h : MessageEnds data m q)
    (rest : Bytes) : MessageEnds (data ++ rest) m q := by
  obtain ⟨hd, hof, hseg, q₁, q₂, q₃, hqs, has, hns, hrs⟩ := h
  have hrecords : ∀ p x r, RecordAt data p x r → RecordAt (data ++ rest) p x r :=
    fun p x r hx => hx.append rest
  exact ⟨hd, hof, hseg.append rest, q₁, q₂, q₃, hqs.mono fun p x r hx => hx.append rest,
    has.mono hrecords, hns.mono hrecords, hrs.mono hrecords⟩

/-- A message ends inside the data. -/
theorem MessageEnds.le_length {data : Bytes} {m : Message} {q : Nat} (h : MessageEnds data m q) :
    q ≤ data.length := by
  obtain ⟨hd, hof, hseg, q₁, q₂, q₃, hqs, has, hns, hrs⟩ := h
  have hheader : 12 ≤ data.length := by
    have hle := hseg.length_le (by simp [headerBytes, Word.be16Bytes])
    have hlen : (headerBytes hd).length = 12 := rfl
    omega
  have hquestion : ∀ p x r, QuestionAt data p x r → r ≤ data.length := by
    intro p x r hx
    obtain ⟨e, -, hfields, rfl⟩ := hx
    exact hfields.length_le (by simp [Word.be16Bytes])
  have hrecord : ∀ p x r, RecordAt data p x r → r ≤ data.length := by
    intro p x r hx
    obtain ⟨e, -, -, hwindow, -, rfl⟩ := hx
    exact hwindow
  exact hrs.le hrecord (hns.le hrecord (has.le hrecord (hqs.le hquestion hheader)))

theorem MessageEnds.functional {data : Bytes} {m : Message} {q q' : Nat}
    (h : MessageEnds data m q) (h' : MessageEnds data m q') : q = q' := by
  obtain ⟨hd, -, -, q₁, q₂, q₃, hqs, has, hns, hrs⟩ := h
  obtain ⟨hd', -, -, q₁', q₂', q₃', hqs', has', hns', hrs'⟩ := h'
  have hQ : ∀ p x q y r, QuestionAt data p x q → QuestionAt data p y r → x = y ∧ q = r :=
    fun _ _ _ _ _ hx hy => hx.functional hy
  have hR : ∀ p x q y r, RecordAt data p x q → RecordAt data p y r → x = y ∧ q = r :=
    fun _ _ _ _ _ hx hy => hx.functional hy
  obtain ⟨-, rfl⟩ := hqs.eq_of_functional hQ hqs' rfl
  obtain ⟨-, rfl⟩ := has.eq_of_functional hR has' rfl
  obtain ⟨-, rfl⟩ := hns.eq_of_functional hR hns' rfl
  exact (hrs.eq_of_functional hR hrs' rfl).2

/-- The encoding of a recoded message ends with its last byte. -/
theorem encode_ends {m : Message} (hm : m.Fits) :
    MessageEnds m.recode.encode m.recode m.recode.encode.length := by
  obtain ⟨hd, hof, hheader, -⟩ := messageAt_encode hm
  obtain ⟨-, hrest⟩ := segAt_append_iff.mp (segAt_self m.recode.encode)
  obtain ⟨hqs, hrest⟩ := segAt_append_iff.mp hrest
  obtain ⟨has, hrest⟩ := segAt_append_iff.mp hrest
  obtain ⟨hns, hrs⟩ := segAt_append_iff.mp hrest
  have hquestions := seqAt_of_segAt (R := QuestionAt m.recode.encode) (fun q hq p hp => by
    obtain ⟨q', hq', rfl⟩ := List.mem_map.mp hq
    exact questionAt_encode (hm.questions q' hq') hp) hqs
  have hrecords : ∀ rr ∈ m.answers ++ m.authorities ++ m.additionals, rr.Fits := hm.records
  have hanswers := seqAt_records_encode (fun rr hrr => hrecords rr (by simp [hrr])) has
  have hauthorities := seqAt_records_encode (fun rr hrr => hrecords rr (by simp [hrr])) hns
  have hadditionals := seqAt_records_encode (fun rr hrr => hrecords rr (by simp [hrr])) hrs
  refine ⟨hd, hof, hheader, _, _, _, hquestions, hanswers, hauthorities, ?_⟩
  have hlength : (headerBytes m.recode.header).length = 12 := rfl
  have hend : m.recode.encode.length = 0 + (headerBytes m.recode.header).length +
      (m.recode.questions.flatMap Question.encode).length +
      (m.recode.answers.flatMap Record.encode).length +
      (m.recode.authorities.flatMap Record.encode).length +
      (m.recode.additionals.flatMap Record.encode).length := by
    simp only [Message.encode, List.length_append]
    omega
  rw [hend]
  exact hadditionals

end Wire

namespace DnsMessage

/-! ## Parsing while the bytes arrive -/

/-- A message that is there stays what it is, whatever follows it. -/
theorem parse_append {data : Bytes} {m : DnsMessage} (h : parse data = .ok m) (rest : Bytes) :
    parse (data ++ rest) = .ok m := by
  obtain ⟨w, hw, rfl⟩ := parse_eq_ok_iff.mp h
  obtain ⟨q, hends⟩ := Wire.messageAt_iff_ends.mp hw
  exact parse_eq_ok_iff.mpr ⟨w, Wire.messageAt_iff_ends.mpr ⟨q, hends.append rest⟩, rfl⟩

/-- Nothing is read from a part of a packed message. -/
theorem packed_prefix_of_parse {m m' : DnsMessage} (hm : m.WellFormed) {data : Bytes}
    (hpart : data <+: m.packed) (h : parse data = .ok m') : m.packed <+: data := by
  obtain ⟨w, hfits, hplain, rfl⟩ := hm.exists_message
  obtain ⟨v, hv, -⟩ := parse_eq_ok_iff.mp h
  obtain ⟨q, hends⟩ := Wire.messageAt_iff_ends.mp hv
  obtain ⟨rest, hrest⟩ := hpart
  rw [packed_flatten] at hrest ⊢
  have hfull := hends.append rest
  rw [hrest] at hfull
  have hencode := Wire.encode_ends hfits
  have hsame : v = w.recode := (Wire.messageAt_iff_ends.mpr ⟨q, hfull⟩).functional
    (Wire.messageAt_iff_ends.mpr ⟨_, hencode⟩)
  rw [hsame] at hfull
  have hend := hfull.functional hencode
  have hle := hends.le_length
  -- The message ends where the data does, so nothing is missing.
  have hnone : rest = [] := by
    have hlength := congrArg List.length hrest
    rw [List.length_append] at hlength
    exact List.length_eq_zero_iff.mp (by omega)
  rw [hnone, List.append_nil] at hrest
  exact ⟨[], by rw [List.append_nil, hrest]⟩

/-- In a stream that carries a packed message, as far as it has arrived: `parse` reads this message
when all of it is there, whatever follows, and nothing before. -/
theorem parse_eq_ok_iff_arrived {m m' : DnsMessage} (hm : m.WellFormed) {data : Bytes}
    (hdata : data <+: m.packed ∨ m.packed <+: data) :
    parse data = .ok m' ↔ m.packed <+: data ∧ m' = m := by
  have hread : ∀ {data' : Bytes}, m.packed <+: data' → parse data' = .ok m := by
    intro data' harrived
    obtain ⟨rest, rfl⟩ := harrived
    exact parse_append hm.parse_packed.2 rest
  constructor
  · intro h
    have harrived : m.packed <+: data := by
      cases hdata with
      | inl hpart => exact packed_prefix_of_parse hm hpart h
      | inr harrived => exact harrived
    have hm' := hread harrived
    rw [h] at hm'
    exact ⟨harrived, Except.ok.inj hm'⟩
  · intro h
    rw [h.2]
    exact hread h.1

/-- The first 60 bytes of a packed message, and the message followed by another one. -/
theorem mxReply_arrives :
    (∀ m, parse (mxReply.packed.take 60) ≠ .ok m) ∧
      parse (mxReply.packed ++ longLabelQuery) = .ok mxReply := by
  have hlong : 60 < mxReply.packed.length := by decide +kernel
  constructor
  · intro m h
    have harrived :=
      ((parse_eq_ok_iff_arrived mxReply_wellFormed (.inl (List.take_prefix _ _))).mp h).1
    have hle := harrived.length_le
    rw [List.length_take] at hle
    omega
  · exact (parse_eq_ok_iff_arrived mxReply_wellFormed (.inr (List.prefix_append _ _))).mpr
      ⟨List.prefix_append _ _, rfl⟩

end DnsMessage
end Dnss
