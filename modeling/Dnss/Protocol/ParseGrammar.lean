/-
`parse` accepts the messages of the grammar, and what it returns is their flat form.

A result is *settled* when it is not an exception: it is a value or a read outside
the buffer.  Every fallible call in the parser that cannot leave the buffer then
inverts in one way for both, so each function of the parser gets one theorem
saying what its settled results are.  The only one with an out-of-range result is
the SOA branch of `parseRdata`.
-/
import Dnss.Protocol.Codec
import Dnss.Protocol.NameWalk

namespace Dnss

open Cursor DnsHelpers

/-! ## Flat forms -/

namespace Wire

def Question.flatten (q : Question) : DnsQuestion :=
  { qname := dotted q.labels, qtype := q.qtype, qclass := q.qclass }

/-- The record data the parser stores: embedded names expanded and encoded again. -/
def Rdata.flatten : Rdata → Bytes
  | .name ls => encodeLabels (redotted ls)
  | .mx pref ls => Word.be16Bytes pref ++ encodeLabels (redotted ls)
  | .soa mname rname tail => encodeLabels (redotted mname) ++ encodeLabels (redotted rname) ++ tail
  | .raw bytes => bytes

def Record.flatten (rr : Record) : DnsResourceRecord :=
  { name := dotted rr.owner, type := rr.type, rclass := rr.rclass, ttl := rr.ttl,
    rdata := rr.rdata.flatten }

def Message.flatten (m : Message) : DnsMessage :=
  { header :=
      { id := m.id, flags := m.flags,
        qdcount := UInt16.ofNat m.questions.length, ancount := UInt16.ofNat m.answers.length,
        nscount := UInt16.ofNat m.authorities.length,
        arcount := UInt16.ofNat m.additionals.length },
    questions := m.questions.map Question.flatten,
    answers := m.answers.map Record.flatten,
    authorities := m.authorities.map Record.flatten,
    additionals := m.additionals.map Record.flatten }

end Wire

/-! ## Settled results -/

/-- A value or a read outside the buffer, and not an exception. -/
def Settled {α : Type} (res : Except Fault α) : Prop :=
  ∀ e, res ≠ .error (.thrown e)

theorem settled_ok {α : Type} (a : α) : Settled (.ok a : Except Fault α) := by
  intro e h
  cases h

theorem settled_outOfRange {α : Type} : Settled (.error .outOfRange : Except Fault α) := by
  intro e h
  cases h

variable {α β : Type}

theorem bind_eq_settled_iff {x : Except Fault α} (hx : x ≠ .error .outOfRange)
    {f : α → Except Fault β} {res : Except Fault β} (hres : Settled res) :
    (x >>= f) = res ↔ ∃ a, x = .ok a ∧ f a = res := by
  cases x with
  | ok a => simp
  | error e =>
    cases e with
    | outOfRange => exact absurd rfl hx
    | thrown e =>
      refine ⟨fun h => absurd h.symm (hres e), fun h => ?_⟩
      obtain ⟨a, ha, -⟩ := h
      cases ha

theorem throwIf_bind_eq_settled_iff {c : Bool} {e : RuntimeError} {f : Unit → Except Fault β}
    {res : Except Fault β} (hres : Settled res) :
    (throwIf c e >>= f) = res ↔ c = false ∧ f () = res := by
  cases c with
  | false => simp [throwIf]
  | true =>
    refine ⟨fun h => absurd h.symm (hres e), fun h => ?_⟩
    exact absurd h.1 (by decide)

theorem wireToName_bind_eq_settled_iff {data : Bytes} {p : Nat}
    {f : Bytes × Nat → Except Fault β} {res : Except Fault β} (hres : Settled res) :
    (wireToName data p >>= f) = res ↔
      ∃ ls e, Wire.Name data p ls e ∧ f (Wire.dotted ls, e) = res := by
  rw [bind_eq_settled_iff (wireToName_ne_outOfRange data p) hres]
  constructor
  · intro h
    obtain ⟨⟨name, e⟩, hname, hf⟩ := h
    obtain ⟨ls, hls, rfl⟩ := wireToName_eq_ok_iff.mp hname
    exact ⟨ls, e, hls, hf⟩
  · intro h
    obtain ⟨ls, e, hls, hf⟩ := h
    exact ⟨(Wire.dotted ls, e), wireToName_eq_ok_iff.mpr ⟨ls, hls, rfl⟩, hf⟩

theorem nameToWireIn_dotted_eq_settled_iff {ls : List Bytes} {res : Except Fault Bytes}
    (hres : Settled res) :
    nameToWireIn (Wire.dotted ls) = res ↔
      Wire.Encodable ls ∧ res = .ok (Wire.encodeLabels (Wire.redotted ls)) := by
  rw [nameToWireIn]
  cases h : nameToWire (Wire.dotted ls) with
  | error e =>
    refine ⟨fun he => absurd he.symm (hres e), fun he => ?_⟩
    rw [nameToWire_dotted_eq_ok_iff.mpr ⟨he.1, rfl⟩] at h
    cases h
  | ok wire =>
    obtain ⟨hfit, rfl⟩ := nameToWire_dotted_eq_ok_iff.mp h
    exact ⟨fun he => ⟨hfit, he.symm⟩, fun he => he.2.symm⟩

theorem nameToWireIn_dotted_bind_eq_settled_iff {ls : List Bytes} {f : Bytes → Except Fault β}
    {res : Except Fault β} (hres : Settled res) :
    (nameToWireIn (Wire.dotted ls) >>= f) = res ↔
      Wire.Encodable ls ∧ f (Wire.encodeLabels (Wire.redotted ls)) = res := by
  have hne : nameToWireIn (Wire.dotted ls) ≠ .error .outOfRange := by
    intro h
    have := (nameToWireIn_dotted_eq_settled_iff settled_outOfRange).mp h
    cases this.2
  rw [bind_eq_settled_iff hne hres]
  constructor
  · intro h
    obtain ⟨wire, hwire, hf⟩ := h
    obtain ⟨hfit, heq⟩ := (nameToWireIn_dotted_eq_settled_iff (settled_ok wire)).mp hwire
    rw [Except.ok.inj heq] at hf
    exact ⟨hfit, hf⟩
  · intro h
    exact ⟨_, (nameToWireIn_dotted_eq_settled_iff (settled_ok _)).mpr ⟨h.1, rfl⟩, h.2⟩

/-! ## Fixed fields -/

theorem readU16_eq_ok_iff {data : Bytes} {p : Nat} {v : UInt16} :
    readU16 data p = .ok v ↔ SegAt data p (Word.be16Bytes v) := by
  rw [readU16, Word.be16Bytes, segAt_cons_iff, segAt_cons_iff, bind_eq_ok_iff]
  constructor
  · intro h
    obtain ⟨hi, hhi, hrest⟩ := h
    obtain ⟨lo, hlo, hv⟩ := bind_eq_ok_iff.mp hrest
    have hbytes := Word.be16Bytes_be16 hi lo
    rw [Except.ok.inj hv, Word.be16Bytes, List.cons.injEq, List.cons.injEq] at hbytes
    rw [hbytes.1, hbytes.2.1]
    exact ⟨readAt_eq_ok_iff.mp hhi, readAt_eq_ok_iff.mp hlo, List.nil_prefix⟩
  · intro h
    refine ⟨_, readAt_eq_ok_iff.mpr h.1, ?_⟩
    refine bind_eq_ok_iff.mpr ⟨_, readAt_eq_ok_iff.mpr h.2.1, ?_⟩
    rw [Word.be16_be16Bytes]

theorem readU16_of_le {data : Bytes} {p : Nat} (h : p + 2 ≤ data.length) :
    readU16 data p ≠ .error .outOfRange := by
  rw [readU16, readAt_of_lt (by omega), ok_bind, readAt_of_lt (by omega), ok_bind]
  simp

theorem readU16_bind_eq_settled_iff {data : Bytes} {p : Nat} (hp : p + 2 ≤ data.length)
    {f : UInt16 → Except Fault β} {res : Except Fault β} (hres : Settled res) :
    (readU16 data p >>= f) = res ↔ ∃ v, SegAt data p (Word.be16Bytes v) ∧ f v = res := by
  rw [bind_eq_settled_iff (readU16_of_le hp) hres]
  simp only [readU16_eq_ok_iff]

theorem readU32_eq_ok_iff {data : Bytes} {p : Nat} {v : UInt32} :
    readU32 data p = .ok v ↔ SegAt data p (Word.be32Bytes v) := by
  rw [readU32, Word.be32Bytes, segAt_cons_iff, segAt_cons_iff, segAt_cons_iff, segAt_cons_iff,
    bind_eq_ok_iff]
  constructor
  · intro h
    obtain ⟨b₃, h₃, hrest⟩ := h
    obtain ⟨b₂, h₂, hrest⟩ := bind_eq_ok_iff.mp hrest
    obtain ⟨b₁, h₁, hrest⟩ := bind_eq_ok_iff.mp hrest
    obtain ⟨b₀, h₀, hv⟩ := bind_eq_ok_iff.mp hrest
    have hbytes := Word.be32Bytes_be32 b₃ b₂ b₁ b₀
    rw [Except.ok.inj hv, Word.be32Bytes] at hbytes
    simp only [List.cons.injEq, and_true] at hbytes
    rw [hbytes.1, hbytes.2.1, hbytes.2.2.1, hbytes.2.2.2]
    exact ⟨readAt_eq_ok_iff.mp h₃, readAt_eq_ok_iff.mp h₂, readAt_eq_ok_iff.mp h₁,
      readAt_eq_ok_iff.mp h₀, List.nil_prefix⟩
  · intro h
    refine ⟨_, readAt_eq_ok_iff.mpr h.1, ?_⟩
    refine bind_eq_ok_iff.mpr ⟨_, readAt_eq_ok_iff.mpr h.2.1, ?_⟩
    refine bind_eq_ok_iff.mpr ⟨_, readAt_eq_ok_iff.mpr h.2.2.1, ?_⟩
    refine bind_eq_ok_iff.mpr ⟨_, readAt_eq_ok_iff.mpr h.2.2.2.1, ?_⟩
    rw [Word.be32_be32Bytes]

theorem readU32_bind_eq_settled_iff {data : Bytes} {p : Nat} (hp : p + 4 ≤ data.length)
    {f : UInt32 → Except Fault β} {res : Except Fault β} (hres : Settled res) :
    (readU32 data p >>= f) = res ↔ ∃ v, SegAt data p (Word.be32Bytes v) ∧ f v = res := by
  have hne : readU32 data p ≠ .error .outOfRange := by
    rw [readU32, readAt_of_lt (by omega), ok_bind, readAt_of_lt (by omega), ok_bind,
      readAt_of_lt (by omega), ok_bind, readAt_of_lt (by omega), ok_bind]
    simp
  rw [bind_eq_settled_iff hne hres]
  simp only [readU32_eq_ok_iff]

namespace DnsMessage

/-! ## Questions -/

theorem parseQuestion_eq_settled_iff {data : Bytes} {p : Nat}
    {res : Except Fault (DnsQuestion × Nat)} (hres : Settled res) :
    parseQuestion data p = res ↔
      ∃ w r, Wire.QuestionAt data p w r ∧ res = .ok (w.flatten, r) := by
  rw [parseQuestion, wireToName_bind_eq_settled_iff hres]
  constructor
  · intro h
    obtain ⟨ls, e, hname, h⟩ := h
    obtain ⟨hfit, h⟩ := (throwIf_bind_eq_settled_iff hres).mp h
    have hfit : e + 4 ≤ data.length := by simpa using hfit
    obtain ⟨qtype, hqtype, h⟩ := (readU16_bind_eq_settled_iff (by omega) hres).mp h
    obtain ⟨qclass, hqclass, h⟩ := (readU16_bind_eq_settled_iff (by omega) hres).mp h
    refine ⟨⟨ls, qtype, qclass⟩, e + 4, ⟨e, hname, ?_, rfl⟩, h.symm⟩
    exact segAt_append_iff.mpr ⟨hqtype, hqclass⟩
  · intro h
    obtain ⟨⟨ls, qtype, qclass⟩, r, ⟨e, hname, hseg, rfl⟩, rfl⟩ := h
    have hfit : e + 4 ≤ data.length := hseg.length_le (by simp [Word.be16Bytes])
    obtain ⟨hqtype, hqclass⟩ := segAt_append_iff.mp hseg
    refine ⟨ls, e, hname, (throwIf_bind_eq_settled_iff hres).mpr ⟨by simpa using hfit, ?_⟩⟩
    refine (readU16_bind_eq_settled_iff (by omega) hres).mpr ⟨qtype, hqtype, ?_⟩
    exact (readU16_bind_eq_settled_iff (by omega) hres).mpr ⟨qclass, hqclass, rfl⟩

theorem parseQuestion_eq_ok_iff {data : Bytes} {p r : Nat} {q : DnsQuestion} :
    parseQuestion data p = .ok (q, r) ↔ ∃ w, Wire.QuestionAt data p w r ∧ q = w.flatten := by
  rw [parseQuestion_eq_settled_iff (settled_ok _)]
  constructor
  · intro h
    obtain ⟨w, r', hw, heq⟩ := h
    obtain ⟨rfl, rfl⟩ := Prod.mk.inj (Except.ok.inj heq)
    exact ⟨w, hw, rfl⟩
  · intro h
    obtain ⟨w, hw, rfl⟩ := h
    exact ⟨w, r, hw, rfl⟩

theorem parseQuestion_ne_outOfRange (data : Bytes) (p : Nat) :
    parseQuestion data p ≠ .error .outOfRange := by
  intro h
  obtain ⟨w, r, -, heq⟩ := (parseQuestion_eq_settled_iff settled_outOfRange).mp h
  cases heq

/-! ## Record data -/

/-- The SOA branch copies twenty bytes from the end of the two names after a
length test that wraps. -/
def SoaOverread (data : Bytes) (s rdlen : Nat) : Prop :=
  ∃ mname e₁ rname e₂, Wire.Name data s mname e₁ ∧ Wire.Name data e₁ rname e₂ ∧
    20 ≤ Wire.soaRemaining s rdlen e₂ ∧ Wire.Encodable mname ∧ Wire.Encodable rname ∧
      data.length < e₂ + 20

theorem parseNameRdata_eq_settled_iff {data : Bytes} {s : Nat} {res : Except Fault Bytes}
    (hres : Settled res) :
    parseNameRdata data s = res ↔
      ∃ ls e, Wire.Name data s ls e ∧ Wire.Encodable ls ∧
        res = .ok (Wire.encodeLabels (Wire.redotted ls)) := by
  rw [parseNameRdata, wireToName_bind_eq_settled_iff hres]
  simp only [nameToWireIn_dotted_eq_settled_iff hres]

theorem parseMxRdata_eq_settled_iff {data : Bytes} {s rdlen : Nat}
    (hfit : s + rdlen ≤ data.length) {res : Except Fault Bytes} (hres : Settled res) :
    parseMxRdata data s rdlen = res ↔
      ∃ pref ls e, 2 ≤ rdlen ∧ SegAt data s (Word.be16Bytes pref) ∧ Wire.Name data (s + 2) ls e ∧
        Wire.Encodable ls ∧
          res = .ok (Word.be16Bytes pref ++ Wire.encodeLabels (Wire.redotted ls)) := by
  rw [parseMxRdata, throwIf_bind_eq_settled_iff hres]
  constructor
  · intro h
    obtain ⟨hlen, h⟩ := h
    have hlen : 2 ≤ rdlen := Nat.not_lt.mp (of_decide_eq_false hlen)
    obtain ⟨pref, hpref, h⟩ := (readU16_bind_eq_settled_iff (by omega) hres).mp h
    obtain ⟨ls, e, hls, h⟩ := (wireToName_bind_eq_settled_iff hres).mp h
    obtain ⟨henc, h⟩ := (nameToWireIn_dotted_bind_eq_settled_iff hres).mp h
    exact ⟨pref, ls, e, hlen, hpref, hls, henc, h.symm⟩
  · intro h
    obtain ⟨pref, ls, e, hlen, hpref, hls, henc, rfl⟩ := h
    refine ⟨decide_eq_false (Nat.not_lt.mpr hlen), ?_⟩
    refine (readU16_bind_eq_settled_iff (by omega) hres).mpr ⟨pref, hpref, ?_⟩
    refine (wireToName_bind_eq_settled_iff hres).mpr ⟨ls, e, hls, ?_⟩
    exact (nameToWireIn_dotted_bind_eq_settled_iff hres).mpr ⟨henc, rfl⟩

/-- The SOA branch reaches its copy exactly after two encodable names and a length
test that passes; the copy stays inside the message or it does not. -/
theorem parseSoaRdata_eq_settled_iff {data : Bytes} {s rdlen : Nat} {res : Except Fault Bytes}
    (hres : Settled res) :
    parseSoaRdata data s rdlen = res ↔
      ∃ mname e₁ rname e₂, Wire.Name data s mname e₁ ∧ Wire.Name data e₁ rname e₂ ∧
        20 ≤ Wire.soaRemaining s rdlen e₂ ∧ Wire.Encodable mname ∧ Wire.Encodable rname ∧
          res = (do
            let tail ← readSlice .outOfRange data e₂ 20
            .ok (Wire.encodeLabels (Wire.redotted mname) ++
              Wire.encodeLabels (Wire.redotted rname) ++ tail)) := by
  rw [parseSoaRdata, wireToName_bind_eq_settled_iff hres]
  constructor
  · intro h
    obtain ⟨mname, e₁, hm, h⟩ := h
    obtain ⟨rname, e₂, hr, h⟩ := (wireToName_bind_eq_settled_iff hres).mp h
    obtain ⟨hrem, h⟩ := (throwIf_bind_eq_settled_iff hres).mp h
    obtain ⟨hencm, h⟩ := (nameToWireIn_dotted_bind_eq_settled_iff hres).mp h
    obtain ⟨hencr, h⟩ := (nameToWireIn_dotted_bind_eq_settled_iff hres).mp h
    exact ⟨mname, e₁, rname, e₂, hm, hr, by simpa [Wire.soaRemaining] using hrem, hencm, hencr,
      h.symm⟩
  · intro h
    obtain ⟨mname, e₁, rname, e₂, hm, hr, hrem, hencm, hencr, heq⟩ := h
    refine ⟨mname, e₁, hm, (wireToName_bind_eq_settled_iff hres).mpr ⟨rname, e₂, hr, ?_⟩⟩
    refine (throwIf_bind_eq_settled_iff hres).mpr
      ⟨by simpa [Wire.soaRemaining] using hrem, ?_⟩
    refine (nameToWireIn_dotted_bind_eq_settled_iff hres).mpr ⟨hencm, ?_⟩
    exact (nameToWireIn_dotted_bind_eq_settled_iff hres).mpr ⟨hencr, heq.symm⟩

theorem parseRdata_eq_ok_iff {data : Bytes} {type : UInt16} {s rdlen : Nat}
    (hfit : s + rdlen ≤ data.length) {bytes : Bytes} :
    parseRdata data type s rdlen = .ok bytes ↔
      ∃ rd, Wire.RdataAt data type s rdlen rd ∧ bytes = rd.flatten := by
  have hok := settled_ok bytes
  constructor
  · intro h
    rw [parseRdata] at h
    by_cases hname : type = DnsType.CNAME ∨ type = DnsType.NS ∨ type = DnsType.PTR
    · rw [if_pos hname] at h
      obtain ⟨ls, e, hls, henc, heq⟩ := (parseNameRdata_eq_settled_iff hok).mp h
      exact ⟨.name ls, ⟨hname, ⟨e, hls⟩, henc⟩, Except.ok.inj heq⟩
    rw [if_neg hname] at h
    by_cases hmx : type = DnsType.MX
    · rw [if_pos hmx] at h
      obtain ⟨pref, ls, e, hlen, hpref, hls, henc, heq⟩ :=
        (parseMxRdata_eq_settled_iff hfit hok).mp h
      exact ⟨.mx pref ls, ⟨hmx, hlen, hpref, ⟨e, hls⟩, henc⟩, Except.ok.inj heq⟩
    rw [if_neg hmx] at h
    by_cases hsoa : type = DnsType.SOA
    · rw [if_pos hsoa] at h
      obtain ⟨mname, e₁, rname, e₂, hm, hr, hrem, hencm, hencr, heq⟩ :=
        (parseSoaRdata_eq_settled_iff hok).mp h
      obtain ⟨tail, htail, heq⟩ := bind_eq_ok_iff.mp heq.symm
      obtain ⟨hle, rfl⟩ := readSlice_eq_ok_iff.mp htail
      exact ⟨.soa mname rname _, ⟨hsoa, e₁, e₂, hm, hr, hrem, hencm, hencr, hle, rfl⟩,
        (Except.ok.inj heq).symm⟩
    rw [if_neg hsoa] at h
    exact ⟨.raw bytes, ⟨hname, hmx, hsoa, (readSlice_eq_ok_iff.mp h).2⟩, rfl⟩
  · intro h
    obtain ⟨rd, hrd, rfl⟩ := h
    rw [parseRdata]
    cases rd with
    | name ls =>
      obtain ⟨hname, ⟨e, hls⟩, henc⟩ := hrd
      rw [Wire.IsNameType] at hname
      rw [if_pos hname]
      exact (parseNameRdata_eq_settled_iff hok).mpr ⟨ls, e, hls, henc, rfl⟩
    | mx pref ls =>
      obtain ⟨rfl, hlen, hpref, ⟨e, hls⟩, henc⟩ := hrd
      rw [if_neg (by decide), if_pos rfl]
      exact (parseMxRdata_eq_settled_iff hfit hok).mpr ⟨pref, ls, e, hlen, hpref, hls, henc, rfl⟩
    | soa mname rname tail =>
      obtain ⟨rfl, e₁, e₂, hm, hr, hrem, hencm, hencr, hle, rfl⟩ := hrd
      rw [if_neg (by decide), if_neg (by decide), if_pos rfl]
      refine (parseSoaRdata_eq_settled_iff hok).mpr
        ⟨mname, e₁, rname, e₂, hm, hr, hrem, hencm, hencr, ?_⟩
      rw [readSlice_of_le hle]
      rfl
    | raw bytes =>
      obtain ⟨hname, hmx, hsoa, rfl⟩ := hrd
      rw [Wire.IsNameType] at hname
      rw [if_neg hname, if_neg hmx, if_neg hsoa, readSlice_of_le hfit]
      rfl

/-- Only the SOA branch can read outside the message. -/
theorem parseRdata_eq_outOfRange_iff {data : Bytes} {type : UInt16} {s rdlen : Nat}
    (hfit : s + rdlen ≤ data.length) :
    parseRdata data type s rdlen = .error .outOfRange ↔
      type = DnsType.SOA ∧ SoaOverread data s rdlen := by
  have hoob := @settled_outOfRange Bytes
  rw [parseRdata]
  by_cases hname : type = DnsType.CNAME ∨ type = DnsType.NS ∨ type = DnsType.PTR
  · rw [if_pos hname]
    constructor
    · intro h
      obtain ⟨ls, e, -, -, heq⟩ := (parseNameRdata_eq_settled_iff hoob).mp h
      cases heq
    · intro h
      rw [h.1] at hname
      exact absurd hname (by decide)
  rw [if_neg hname]
  by_cases hmx : type = DnsType.MX
  · rw [if_pos hmx]
    constructor
    · intro h
      obtain ⟨pref, ls, e, -, -, -, -, heq⟩ := (parseMxRdata_eq_settled_iff hfit hoob).mp h
      cases heq
    · intro h
      exact absurd (hmx.symm.trans h.1) (by decide)
  rw [if_neg hmx]
  by_cases hsoa : type = DnsType.SOA
  · rw [if_pos hsoa, parseSoaRdata_eq_settled_iff hoob]
    constructor
    · intro h
      obtain ⟨mname, e₁, rname, e₂, hm, hr, hrem, hencm, hencr, heq⟩ := h
      refine ⟨hsoa, mname, e₁, rname, e₂, hm, hr, hrem, hencm, hencr, ?_⟩
      by_contra hle
      rw [readSlice_of_le (by omega)] at heq
      cases heq
    · intro h
      obtain ⟨-, mname, e₁, rname, e₂, hm, hr, hrem, hencm, hencr, hlt⟩ := h
      refine ⟨mname, e₁, rname, e₂, hm, hr, hrem, hencm, hencr, ?_⟩
      rw [readSlice, if_neg (by omega)]
      rfl
  · rw [if_neg hsoa, readSlice_of_le hfit]
    refine ⟨fun h => ?_, fun h => absurd h.1 hsoa⟩
    cases h

/-! ## Records -/

/-- The fields before the record data, and the data after them. -/
theorem parseRecord_eq_settled_iff {data : Bytes} {p : Nat}
    {res : Except Fault (DnsResourceRecord × Nat)} (hres : Settled res) :
    parseRecord data p = res ↔
      ∃ ls e type rclass ttl rdlen, Wire.Name data p ls e ∧
        SegAt data e (Wire.fixedFields type rclass ttl rdlen) ∧
          e + 10 + rdlen.toNat ≤ data.length ∧
            (do
              let rdata ← parseRdata data type (e + 10) rdlen.toNat
              .ok ({ name := Wire.dotted ls, type, rclass, ttl, rdata },
                e + 10 + rdlen.toNat)) = res := by
  rw [parseRecord, wireToName_bind_eq_settled_iff hres]
  constructor
  · intro h
    obtain ⟨ls, e, hname, h⟩ := h
    obtain ⟨hfit, h⟩ := (throwIf_bind_eq_settled_iff hres).mp h
    have hfit : e + 10 ≤ data.length := by simpa using hfit
    obtain ⟨type, htype, h⟩ := (readU16_bind_eq_settled_iff (by omega) hres).mp h
    obtain ⟨rclass, hrclass, h⟩ := (readU16_bind_eq_settled_iff (by omega) hres).mp h
    obtain ⟨ttl, httl, h⟩ := (readU32_bind_eq_settled_iff (by omega) hres).mp h
    obtain ⟨rdlen, hrdlen, h⟩ := (readU16_bind_eq_settled_iff (by omega) hres).mp h
    obtain ⟨hwindow, h⟩ := (throwIf_bind_eq_settled_iff hres).mp h
    refine ⟨ls, e, type, rclass, ttl, rdlen, hname, ?_, by simpa using hwindow, h⟩
    simp only [Wire.fixedFields, segAt_append_iff]
    exact ⟨⟨⟨htype, hrclass⟩, httl⟩, hrdlen⟩
  · intro h
    obtain ⟨ls, e, type, rclass, ttl, rdlen, hname, hseg, hwindow, h⟩ := h
    simp only [Wire.fixedFields, segAt_append_iff] at hseg
    obtain ⟨⟨⟨htype, hrclass⟩, httl⟩, hrdlen⟩ := hseg
    refine ⟨ls, e, hname, (throwIf_bind_eq_settled_iff hres).mpr ⟨by simp; omega, ?_⟩⟩
    refine (readU16_bind_eq_settled_iff (by omega) hres).mpr ⟨type, htype, ?_⟩
    refine (readU16_bind_eq_settled_iff (by omega) hres).mpr ⟨rclass, hrclass, ?_⟩
    refine (readU32_bind_eq_settled_iff (by omega) hres).mpr ⟨ttl, httl, ?_⟩
    refine (readU16_bind_eq_settled_iff (by omega) hres).mpr ⟨rdlen, hrdlen, ?_⟩
    exact (throwIf_bind_eq_settled_iff hres).mpr ⟨by simpa using hwindow, h⟩

theorem parseRecord_eq_ok_iff {data : Bytes} {p r : Nat} {rr : DnsResourceRecord} :
    parseRecord data p = .ok (rr, r) ↔ ∃ w, Wire.RecordAt data p w r ∧ rr = w.flatten := by
  rw [parseRecord_eq_settled_iff (settled_ok _)]
  constructor
  · intro h
    obtain ⟨ls, e, type, rclass, ttl, rdlen, hname, hseg, hwindow, h⟩ := h
    obtain ⟨rdata, hrdata, h⟩ := bind_eq_ok_iff.mp h
    obtain ⟨rd, hrd, rfl⟩ := (parseRdata_eq_ok_iff hwindow).mp hrdata
    obtain ⟨rfl, rfl⟩ := Prod.mk.inj (Except.ok.inj h)
    exact ⟨⟨ls, type, rclass, ttl, rdlen, rd⟩, ⟨e, hname, hseg, hwindow, hrd, rfl⟩, rfl⟩
  · intro h
    obtain ⟨⟨ls, type, rclass, ttl, rdlen, rd⟩, ⟨e, hname, hseg, hwindow, hrd, rfl⟩, rfl⟩ := h
    refine ⟨ls, e, type, rclass, ttl, rdlen, hname, hseg, hwindow, ?_⟩
    exact bind_eq_ok_iff.mpr ⟨rd.flatten, (parseRdata_eq_ok_iff hwindow).mpr ⟨rd, hrd, rfl⟩, rfl⟩

/-- The record at `p` is an SOA record whose copy leaves the message. -/
def RecordOverread (data : Bytes) (p : Nat) : Prop :=
  ∃ ls e rclass ttl, ∃ rdlen : UInt16, Wire.Name data p ls e ∧
    SegAt data e (Wire.fixedFields DnsType.SOA rclass ttl rdlen) ∧
      e + 10 + rdlen.toNat ≤ data.length ∧ SoaOverread data (e + 10) rdlen.toNat

theorem parseRecord_eq_outOfRange_iff {data : Bytes} {p : Nat} :
    parseRecord data p = .error .outOfRange ↔ RecordOverread data p := by
  rw [parseRecord_eq_settled_iff settled_outOfRange]
  constructor
  · intro h
    obtain ⟨ls, e, type, rclass, ttl, rdlen, hname, hseg, hwindow, h⟩ := h
    rcases bind_eq_error_iff.mp h with hrdata | ⟨rdata, -, hret⟩
    · obtain ⟨rfl, hover⟩ := (parseRdata_eq_outOfRange_iff hwindow).mp hrdata
      exact ⟨ls, e, rclass, ttl, rdlen, hname, hseg, hwindow, hover⟩
    · cases hret
  · intro h
    obtain ⟨ls, e, rclass, ttl, rdlen, hname, hseg, hwindow, hover⟩ := h
    refine ⟨ls, e, DnsType.SOA, rclass, ttl, rdlen, hname, hseg, hwindow, ?_⟩
    exact bind_eq_error_iff.mpr (Or.inl ((parseRdata_eq_outOfRange_iff hwindow).mpr ⟨rfl, hover⟩))

/-! ## Messages -/

theorem parseHeader_eq_settled_iff {data : Bytes} {res : Except Fault DnsHeader}
    (hres : Settled res) :
    parseHeader data = res ↔ ∃ h, SegAt data 0 (Wire.headerBytes h) ∧ res = .ok h := by
  rw [parseHeader, throwIf_bind_eq_settled_iff hres]
  constructor
  · intro h
    obtain ⟨hfit, h⟩ := h
    have hfit : 12 ≤ data.length := by simpa using hfit
    obtain ⟨id, hid, h⟩ := (readU16_bind_eq_settled_iff (by omega) hres).mp h
    obtain ⟨flags, hflags, h⟩ := (readU16_bind_eq_settled_iff (by omega) hres).mp h
    obtain ⟨qdcount, hqd, h⟩ := (readU16_bind_eq_settled_iff (by omega) hres).mp h
    obtain ⟨ancount, han, h⟩ := (readU16_bind_eq_settled_iff (by omega) hres).mp h
    obtain ⟨nscount, hns, h⟩ := (readU16_bind_eq_settled_iff (by omega) hres).mp h
    obtain ⟨arcount, har, h⟩ := (readU16_bind_eq_settled_iff (by omega) hres).mp h
    refine ⟨⟨id, flags, qdcount, ancount, nscount, arcount⟩, ?_, h.symm⟩
    simp only [Wire.headerBytes, segAt_append_iff]
    exact ⟨⟨⟨⟨⟨hid, hflags⟩, hqd⟩, han⟩, hns⟩, har⟩
  · intro h
    obtain ⟨⟨id, flags, qdcount, ancount, nscount, arcount⟩, hseg, rfl⟩ := h
    have hfit : 0 + 12 ≤ data.length := hseg.length_le (by simp [Wire.headerBytes, Word.be16Bytes])
    simp only [Wire.headerBytes, segAt_append_iff] at hseg
    obtain ⟨⟨⟨⟨⟨hid, hflags⟩, hqd⟩, han⟩, hns⟩, har⟩ := hseg
    refine ⟨by simpa using hfit, ?_⟩
    refine (readU16_bind_eq_settled_iff (by omega) hres).mpr ⟨id, hid, ?_⟩
    refine (readU16_bind_eq_settled_iff (by omega) hres).mpr ⟨flags, hflags, ?_⟩
    refine (readU16_bind_eq_settled_iff (by omega) hres).mpr ⟨qdcount, hqd, ?_⟩
    refine (readU16_bind_eq_settled_iff (by omega) hres).mpr ⟨ancount, han, ?_⟩
    refine (readU16_bind_eq_settled_iff (by omega) hres).mpr ⟨nscount, hns, ?_⟩
    exact (readU16_bind_eq_settled_iff (by omega) hres).mpr ⟨arcount, har, rfl⟩

theorem parseHeader_eq_ok_iff {data : Bytes} {h : DnsHeader} :
    parseHeader data = .ok h ↔ SegAt data 0 (Wire.headerBytes h) := by
  rw [parseHeader_eq_settled_iff (settled_ok _)]
  refine ⟨fun hh => ?_, fun hseg => ⟨h, hseg, rfl⟩⟩
  obtain ⟨h', hseg, heq⟩ := hh
  rwa [Except.ok.inj heq]

/-- A question loop returns the flat forms of a sequence of questions. -/
theorem repeatAt_parseQuestion_eq_ok_iff {data : Bytes} {n p r : Nat} {qs : List DnsQuestion} :
    repeatAt (parseQuestion data) n p = .ok (qs, r) ↔
      ∃ ws, ws.length = n ∧ SeqAt (Wire.QuestionAt data) p ws r ∧
        qs = ws.map Wire.Question.flatten :=
  repeatAt_eq_ok_iff_map fun _ _ _ => parseQuestion_eq_ok_iff

theorem repeatAt_parseRecord_eq_ok_iff {data : Bytes} {n p r : Nat}
    {rrs : List DnsResourceRecord} :
    repeatAt (parseRecord data) n p = .ok (rrs, r) ↔
      ∃ ws, ws.length = n ∧ SeqAt (Wire.RecordAt data) p ws r ∧
        rrs = ws.map Wire.Record.flatten :=
  repeatAt_eq_ok_iff_map fun _ _ _ => parseRecord_eq_ok_iff

theorem ofNat_length_of_toNat_eq {n : UInt16} {k : Nat} (h : n.toNat = k) :
    UInt16.ofNat k = n := by
  rw [← h, UInt16.ofNat_toNat]

/-- `parse` succeeds exactly on the messages of the grammar and returns their flat
form. -/
theorem parse_eq_ok_iff {data : Bytes} {m : DnsMessage} :
    parse data = .ok m ↔ ∃ w, Wire.MessageAt data w ∧ m = w.flatten := by
  rw [parse, bind_eq_ok_iff]
  constructor
  · intro h
    obtain ⟨header, hheader, h⟩ := h
    obtain ⟨⟨questions, q₁⟩, hquestions, h⟩ := bind_eq_ok_iff.mp h
    obtain ⟨⟨answers, q₂⟩, hanswers, h⟩ := bind_eq_ok_iff.mp h
    obtain ⟨⟨authorities, q₃⟩, hauthorities, h⟩ := bind_eq_ok_iff.mp h
    obtain ⟨⟨additionals, q₄⟩, hadditionals, h⟩ := bind_eq_ok_iff.mp h
    obtain ⟨qs, hqd, hqs, rfl⟩ := repeatAt_parseQuestion_eq_ok_iff.mp hquestions
    obtain ⟨as, han, has, rfl⟩ := repeatAt_parseRecord_eq_ok_iff.mp hanswers
    obtain ⟨ns, hns, hnss, rfl⟩ := repeatAt_parseRecord_eq_ok_iff.mp hauthorities
    obtain ⟨rs, har, hrs, rfl⟩ := repeatAt_parseRecord_eq_ok_iff.mp hadditionals
    refine ⟨⟨header.id, header.flags, qs, as, ns, rs⟩, ⟨header, ?_, ?_⟩, ?_⟩
    · exact ⟨rfl, rfl, hqd.symm, han.symm, hns.symm, har.symm⟩
    · exact ⟨parseHeader_eq_ok_iff.mp hheader, q₁, q₂, q₃, q₄, hqs, has, hnss, hrs⟩
    · rw [← Except.ok.inj h, Wire.Message.flatten, ofNat_length_of_toNat_eq hqd.symm,
        ofNat_length_of_toNat_eq han.symm, ofNat_length_of_toNat_eq hns.symm,
        ofNat_length_of_toNat_eq har.symm]
  · intro h
    obtain ⟨w, ⟨header, hof, hseg, q₁, q₂, q₃, q₄, hqs, has, hns, hrs⟩, rfl⟩ := h
    refine ⟨header, parseHeader_eq_ok_iff.mpr hseg, ?_⟩
    refine bind_eq_ok_iff.mpr ⟨(_, q₁),
      repeatAt_parseQuestion_eq_ok_iff.mpr ⟨_, hof.qdcount.symm, hqs, rfl⟩, ?_⟩
    refine bind_eq_ok_iff.mpr ⟨(_, q₂),
      repeatAt_parseRecord_eq_ok_iff.mpr ⟨_, hof.ancount.symm, has, rfl⟩, ?_⟩
    refine bind_eq_ok_iff.mpr ⟨(_, q₃),
      repeatAt_parseRecord_eq_ok_iff.mpr ⟨_, hof.nscount.symm, hns, rfl⟩, ?_⟩
    refine bind_eq_ok_iff.mpr ⟨(_, q₄),
      repeatAt_parseRecord_eq_ok_iff.mpr ⟨_, hof.arcount.symm, hrs, rfl⟩, ?_⟩
    rw [Wire.Message.flatten, ofNat_length_of_toNat_eq hof.qdcount,
      ofNat_length_of_toNat_eq hof.ancount, ofNat_length_of_toNat_eq hof.nscount,
      ofNat_length_of_toNat_eq hof.arcount, ← hof.id, ← hof.flags]

end DnsMessage

end Dnss
