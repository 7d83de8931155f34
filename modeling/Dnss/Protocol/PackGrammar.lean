/-
`pack` on what `parse` returns.

A parsed message is the flat form of a message of the grammar.  Packing it writes
the encoding of the recoded message: owner and question names are split at their
dots again, and record data is copied as the parser stored it.  The only way to
fail is a piece of more than 63 bytes, and the parser accepts such pieces, because
its length bytes run up to 191.
-/
import Dnss.Protocol.ParseGrammar
import Dnss.Wire.Encode
import Dnss.Wire.Functional

namespace Dnss

open Cursor DnsHelpers

/-! ## Flat forms and encodings -/

namespace Wire

theorem Rdata.flatten_eq (rd : Rdata) : rd.flatten = rd.recode.encode := by
  cases rd with
  | name ls => rfl
  | mx pref ls => rfl
  | soa mname rname tail => rfl
  | raw bytes => rfl

theorem Rdata.recode_recode (rd : Rdata) : rd.recode.recode = rd.recode := by
  cases rd with
  | name ls => simp only [Rdata.recode, redotted_redotted]
  | mx pref ls => simp only [Rdata.recode, redotted_redotted]
  | soa mname rname tail => simp only [Rdata.recode, redotted_redotted]
  | raw bytes => rfl

theorem Message.forall_mem_owners {m : Message} {P : List Bytes → Prop} :
    (∀ ls ∈ m.owners, P ls) ↔
      (∀ q ∈ m.questions, P q.labels) ∧ (∀ rr ∈ m.answers, P rr.owner) ∧
        (∀ rr ∈ m.authorities, P rr.owner) ∧ ∀ rr ∈ m.additionals, P rr.owner := by
  simp only [Message.owners, Message.records, List.map_append, List.forall_mem_append,
    List.forall_mem_map, and_assoc]

end Wire

/-! ## Packing -/

namespace DnsMessage

open Separated

/-- A name whose pieces between dots all fit in a label. -/
def PackableName (name : Bytes) : Prop :=
  ∀ piece ∈ splitWords dot name, piece.length ≤ 63

/-- The question and owner names of a message are the ones `pack` encodes. -/
def Packable (m : DnsMessage) : Prop :=
  (∀ q ∈ m.questions, PackableName q.qname) ∧ ∀ rr ∈ m.records, PackableName rr.name

def packedQuestion (q : DnsQuestion) : Bytes :=
  Wire.encodeLabels (splitWords dot q.qname) ++ (Word.be16Bytes q.qtype ++ Word.be16Bytes q.qclass)

def packedRecord (rr : DnsResourceRecord) : Bytes :=
  Wire.encodeLabels (splitWords dot rr.name) ++
    Wire.fixedFields rr.type rr.rclass rr.ttl (rdlengthField rr) ++ rr.rdata

/-- What `pack` writes when it does not throw. -/
def packed (m : DnsMessage) : Bytes :=
  packHeader m ++ (m.questions.flatMap packedQuestion ++ m.records.flatMap packedRecord)

theorem nameToWire_eq_ok_iff {name wire : Bytes} :
    nameToWire name = .ok wire ↔
      PackableName name ∧ wire = Wire.encodeLabels (splitWords dot name) :=
  nameToWire_eq_ok_iff_words

theorem packQuestion_eq_ok_iff {q : DnsQuestion} {out : Bytes} :
    packQuestion q = .ok out ↔ PackableName q.qname ∧ out = packedQuestion q := by
  simp only [packQuestion, bind_eq_ok_iff, nameToWire_eq_ok_iff, Except.ok.injEq]
  constructor
  · intro h
    obtain ⟨_, ⟨hname, rfl⟩, rfl⟩ := h
    exact ⟨hname, List.append_assoc _ _ _⟩
  · intro h
    obtain ⟨hname, rfl⟩ := h
    exact ⟨_, ⟨hname, rfl⟩, List.append_assoc _ _ _⟩

theorem packRecord_eq_ok_iff {rr : DnsResourceRecord} {out : Bytes} :
    packRecord rr = .ok out ↔ PackableName rr.name ∧ out = packedRecord rr := by
  have hbytes : Wire.encodeLabels (splitWords dot rr.name) ++ writeU16 rr.type ++
      writeU16 rr.rclass ++ writeU32 rr.ttl ++ writeU16 (rdlengthField rr) ++ rr.rdata =
        packedRecord rr := by
    simp only [packedRecord, Wire.fixedFields, writeU16, writeU32, List.append_assoc]
  simp only [packRecord, bind_eq_ok_iff, nameToWire_eq_ok_iff, Except.ok.injEq]
  constructor
  · intro h
    obtain ⟨_, ⟨hname, rfl⟩, rfl⟩ := h
    exact ⟨hname, hbytes⟩
  · intro h
    obtain ⟨hname, rfl⟩ := h
    exact ⟨_, ⟨hname, rfl⟩, hbytes⟩

/-- A loop of `pack` succeeds when each of its passes does, and concatenates what
they write. -/
theorem packAll_eq_ok_iff {α : Type} {packOne : α → Except RuntimeError Bytes} {P : α → Prop}
    {enc : α → Bytes} (hone : ∀ x out, packOne x = .ok out ↔ P x ∧ out = enc x) {xs : List α}
    {out : Bytes} :
    packAll packOne xs = .ok out ↔ (∀ x ∈ xs, P x) ∧ out = xs.flatMap enc := by
  induction xs generalizing out with
  | nil =>
    rw [packAll, Except.ok.injEq]
    exact ⟨fun h => ⟨by simp, h.symm⟩, fun h => h.2.symm⟩
  | cons x xs ih =>
    rw [packAll, bind_eq_ok_iff, List.forall_mem_cons, List.flatMap_cons]
    constructor
    · intro h
      obtain ⟨first, hfirst, h⟩ := h
      obtain ⟨rest, hrest, hout⟩ := bind_eq_ok_iff.mp h
      obtain ⟨hx, rfl⟩ := (hone x first).mp hfirst
      obtain ⟨hxs, rfl⟩ := ih.mp hrest
      exact ⟨⟨hx, hxs⟩, (Except.ok.inj hout).symm⟩
    · intro h
      obtain ⟨⟨hx, hxs⟩, rfl⟩ := h
      refine ⟨enc x, (hone x _).mpr ⟨hx, rfl⟩, ?_⟩
      exact bind_eq_ok_iff.mpr ⟨xs.flatMap enc, ih.mpr ⟨hxs, rfl⟩, rfl⟩

/-- `pack` succeeds exactly when the names it encodes have no piece of more than 63
bytes. -/
theorem pack_eq_ok_iff {m : DnsMessage} {out : Bytes} :
    pack m = .ok out ↔ m.Packable ∧ out = m.packed := by
  simp only [pack, bind_eq_ok_iff, packAll_eq_ok_iff fun _ _ => packQuestion_eq_ok_iff,
    packAll_eq_ok_iff fun _ _ => packRecord_eq_ok_iff, Except.ok.injEq, Packable, records,
    List.forall_mem_append]
  constructor
  · intro h
    obtain ⟨_, ⟨hq, rfl⟩, _, ⟨ha, rfl⟩, _, ⟨hn, rfl⟩, _, ⟨hr, rfl⟩, rfl⟩ := h
    refine ⟨⟨hq, ⟨ha, hn⟩, hr⟩, ?_⟩
    simp only [packed, records, List.flatMap_append, List.append_assoc]
  · intro h
    obtain ⟨⟨hq, ⟨ha, hn⟩, hr⟩, rfl⟩ := h
    refine ⟨_, ⟨hq, rfl⟩, _, ⟨ha, rfl⟩, _, ⟨hn, rfl⟩, _, ⟨hr, rfl⟩, ?_⟩
    simp only [packed, records, List.flatMap_append, List.append_assoc]

theorem exists_pack_iff {m : DnsMessage} : (∃ out, pack m = .ok out) ↔ m.Packable := by
  refine ⟨fun h => ?_, fun h => ⟨m.packed, pack_eq_ok_iff.mpr ⟨h, rfl⟩⟩⟩
  obtain ⟨out, hout⟩ := h
  exact (pack_eq_ok_iff.mp hout).1

/-! ## Packing a flat form -/

theorem packableName_dotted_iff {ls : List Bytes} :
    PackableName (Wire.dotted ls) ↔ Wire.Encodable ls := by
  rw [PackableName, Wire.dotted, splitWords_intercalate]
  rfl

theorem packedQuestion_flatten (q : Wire.Question) :
    packedQuestion q.flatten = q.recode.encode := by
  show Wire.encodeLabels (splitWords dot (Wire.dotted q.labels)) ++ _ = _
  rw [Wire.dotted, splitWords_intercalate]
  rfl

theorem packedRecord_flatten (rr : Wire.Record) : packedRecord rr.flatten = rr.recode.encode := by
  show Wire.encodeLabels (splitWords dot (Wire.dotted rr.owner)) ++ Wire.fixedFields rr.type
    rr.rclass rr.ttl (UInt16.ofNat rr.rdata.flatten.length) ++ rr.rdata.flatten = _
  rw [Wire.dotted, splitWords_intercalate, Wire.Rdata.flatten_eq]
  rfl

theorem records_flatten (w : Wire.Message) :
    w.flatten.records = w.records.map Wire.Record.flatten := by
  simp only [records, Wire.Message.flatten, Wire.Message.records, List.map_append]

theorem packable_flatten_iff {w : Wire.Message} :
    w.flatten.Packable ↔ ∀ ls ∈ w.owners, Wire.Encodable ls := by
  rw [Packable, records_flatten, Wire.Message.owners, List.forall_mem_append]
  simp only [Wire.Message.flatten, List.forall_mem_map]
  simp only [Wire.Question.flatten, Wire.Record.flatten, packableName_dotted_iff]

theorem packed_flatten (w : Wire.Message) : w.flatten.packed = w.recode.encode := by
  have hheader : packHeader w.flatten = Wire.headerBytes w.recode.header := by
    rw [Wire.header_recode]
    simp only [packHeader, Wire.headerBytes, Wire.Message.flatten, Wire.Message.header, writeU16,
      List.length_map]
  rw [packed, hheader, records_flatten]
  simp only [Wire.Message.encode, Wire.Message.recode, Wire.Message.records, Wire.Message.flatten,
    List.flatMap_map, List.flatMap_append, packedQuestion_flatten, packedRecord_flatten,
    List.append_assoc, List.map_append]

/-- `pack` succeeds on a flat form exactly when its question and owner names can be
encoded, and writes the encoding of the recoded message. -/
theorem pack_flatten_eq_ok_iff {w : Wire.Message} {out : Bytes} :
    pack w.flatten = .ok out ↔
      (∀ ls ∈ w.owners, Wire.Encodable ls) ∧ out = w.recode.encode := by
  rw [pack_eq_ok_iff, packable_flatten_iff, packed_flatten]

/-! ## Packing what was parsed -/

/-- What `parse` returns on `b`, if it returns, can be packed. -/
def Repacks (b : Bytes) : Prop :=
  ∀ m, parse b = .ok m → ∃ out, pack m = .ok out

/-- A parsed message can be packed exactly when no question or owner name of the
wire has a dot-free run of more than 63 bytes inside a label. -/
theorem repacks_iff (b : Bytes) :
    Repacks b ↔ ∀ w, Wire.MessageAt b w → ∀ ls ∈ w.owners, Wire.Encodable ls := by
  constructor
  · intro h w hw
    obtain ⟨out, hout⟩ := h w.flatten (parse_eq_ok_iff.mpr ⟨w, hw, rfl⟩)
    exact (pack_flatten_eq_ok_iff.mp hout).1
  · intro h m hm
    obtain ⟨w, hw, rfl⟩ := parse_eq_ok_iff.mp hm
    exact ⟨_, pack_flatten_eq_ok_iff.mpr ⟨h w hw, rfl⟩⟩

/-- A query for one label of 64 bytes, on the wire and as `parse` returns it. -/
def longLabelQuery : Bytes :=
  [0, 0, 1, 0, 0, 1, 0, 0, 0, 0, 0, 0] ++ (64 :: List.replicate 64 0x61) ++ [0, 0, 1, 0, 1]

def longLabelMessage : DnsMessage :=
  createQuery (List.replicate 64 0x61) 1

theorem longLabelQuery_not_repacks : ¬Repacks longLabelQuery := by
  intro h
  have hparse : parse longLabelQuery = .ok longLabelMessage := by decide +kernel
  have hpack : pack longLabelMessage = .error .labelTooLong := by decide +kernel
  obtain ⟨out, hout⟩ := h longLabelMessage hparse
  rw [hpack] at hout
  cases hout

end DnsMessage
end Dnss
