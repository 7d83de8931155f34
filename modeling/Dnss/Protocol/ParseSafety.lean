/-
Where `parse` reads.

Every read of the parser is guarded except one.  The SOA branch computes the bytes
left of the record's window as an unsigned number, and when the two embedded names
end past the window the number wraps, the test passes, and twenty bytes are copied
from wherever the names ended.  `parse_eq_outOfRange_iff` says that this copy is
the only way out of the buffer, and `parse_inRange_iff` states the inputs on which
`parse` returns or throws.

The parser stops at the first exception, so the condition is about the records it
reaches: those that follow a sequence of records it accepts.
-/
import Dnss.Protocol.ParseGrammar

namespace Dnss
namespace DnsMessage

open Cursor

/-! ## Records the parser reaches -/

/-- One of the record loops arrives at cursor `p`: the header is there, all
questions decode, and the records before `p` decode and are fewer than the header
counts. -/
def RecordReached (data : Bytes) (p : Nat) : Prop :=
  ∃ h qs q₁ rs, SegAt data 0 (Wire.headerBytes h) ∧ qs.length = h.qdcount.toNat ∧
    SeqAt (Wire.QuestionAt data) 12 qs q₁ ∧
      rs.length < h.ancount.toNat + (h.nscount.toNat + h.arcount.toNat) ∧
        SeqAt (Wire.RecordAt data) q₁ rs p

theorem repeatAt_parseQuestion_ne_outOfRange (data : Bytes) (n p : Nat) :
    repeatAt (parseQuestion data) n p ≠ .error .outOfRange := by
  intro h
  obtain ⟨qs, q, -, -, herr⟩ := repeatAt_eq_error_iff.mp h
  exact parseQuestion_ne_outOfRange data q herr

theorem repeatAt_parseRecord_eq_outOfRange_iff {data : Bytes} {n p : Nat} :
    repeatAt (parseRecord data) n p = .error .outOfRange ↔
      ∃ rs q, rs.length < n ∧ SeqAt (Wire.RecordAt data) p rs q ∧ RecordOverread data q := by
  rw [repeatAt_eq_error_iff]
  constructor
  · intro h
    obtain ⟨rrs, q, hlen, hseq, herr⟩ := h
    rw [seqAt_congr (fun _ _ _ => parseRecord_eq_ok_iff), seqAt_map_iff] at hseq
    obtain ⟨rs, hrs, rfl⟩ := hseq
    exact ⟨rs, q, by simpa using hlen, hrs, parseRecord_eq_outOfRange_iff.mp herr⟩
  · intro h
    obtain ⟨rs, q, hlen, hseq, hover⟩ := h
    refine ⟨rs.map Wire.Record.flatten, q, by simpa using hlen, ?_,
      parseRecord_eq_outOfRange_iff.mpr hover⟩
    rw [seqAt_congr (fun _ _ _ => parseRecord_eq_ok_iff), seqAt_map_iff]
    exact ⟨rs, hseq, rfl⟩

/-- `parse` reads outside its buffer exactly at an SOA record it reaches whose copy
leaves the message. -/
theorem parse_eq_outOfRange_iff {data : Bytes} :
    parse data = .error .outOfRange ↔ ∃ p, RecordReached data p ∧ RecordOverread data p := by
  have hheader : parseHeader data ≠ .error .outOfRange := by
    intro h
    obtain ⟨_, -, heq⟩ := (parseHeader_eq_settled_iff settled_outOfRange).mp h
    cases heq
  -- The three loops fail as one loop over all records does.
  have hloops : ∀ (h : DnsHeader) (qs : List DnsQuestion) (q : Nat),
      (do
        let answers ← repeatAt (parseRecord data) h.ancount.toNat q
        let authorities ← repeatAt (parseRecord data) h.nscount.toNat answers.2
        let additionals ← repeatAt (parseRecord data) h.arcount.toNat authorities.2
        (.ok { header := h, questions := qs, answers := answers.1, authorities := authorities.1,
               additionals := additionals.1 } : Except Fault DnsMessage)) = .error .outOfRange ↔
      repeatAt (parseRecord data) (h.ancount.toNat + (h.nscount.toNat + h.arcount.toNat)) q =
        .error .outOfRange := by
    intro h qs q
    refine repeatAt_bind_eq_error_iff fun x => ?_
    refine repeatAt_bind_eq_error_iff fun y => ?_
    rw [bind_eq_error_iff]
    refine ⟨fun hor => ?_, Or.inl⟩
    rcases hor with herr | ⟨z, -, hret⟩
    · exact herr
    · cases hret
  rw [parse, bind_eq_settled_iff hheader settled_outOfRange]
  constructor
  · intro h
    obtain ⟨header, hh, h⟩ := h
    obtain ⟨⟨questions, q₁⟩, hquestions, h⟩ :=
      (bind_eq_settled_iff (repeatAt_parseQuestion_ne_outOfRange data _ _)
        settled_outOfRange).mp h
    obtain ⟨qs, hqd, hqs, -⟩ := repeatAt_parseQuestion_eq_ok_iff.mp hquestions
    obtain ⟨rs, p, hlen, hrs, hover⟩ :=
      repeatAt_parseRecord_eq_outOfRange_iff.mp ((hloops header questions q₁).mp h)
    exact ⟨p, ⟨header, qs, q₁, rs, parseHeader_eq_ok_iff.mp hh, hqd, hqs, hlen, hrs⟩, hover⟩
  · intro h
    obtain ⟨p, ⟨header, qs, q₁, rs, hseg, hqd, hqs, hlen, hrs⟩, hover⟩ := h
    refine ⟨header, parseHeader_eq_ok_iff.mpr hseg, ?_⟩
    refine (bind_eq_settled_iff (repeatAt_parseQuestion_ne_outOfRange data _ _)
      settled_outOfRange).mpr
      ⟨(_, q₁), repeatAt_parseQuestion_eq_ok_iff.mpr ⟨qs, hqd, hqs, rfl⟩, ?_⟩
    exact (hloops header _ q₁).mpr
      (repeatAt_parseRecord_eq_outOfRange_iff.mpr ⟨rs, p, hlen, hrs, hover⟩)

/-- `parse` returns a message or throws one of its own errors. -/
def InRange (data : Bytes) : Prop :=
  (∃ m, parse data = .ok m) ∨ ∃ e, parse data = .error (.thrown e)

/-- Every read of `parse` is inside the buffer exactly when no SOA record it
reaches is followed by too few bytes for the copy its wrapped length allows. -/
theorem parse_inRange_iff (data : Bytes) :
    InRange data ↔ ∀ p, RecordReached data p → ¬RecordOverread data p := by
  have hcases : InRange data ↔ parse data ≠ .error .outOfRange := by
    rw [InRange]
    cases parse data with
    | ok m => simp
    | error e => cases e <;> simp
  rw [hcases, ne_eq, parse_eq_outOfRange_iff]
  refine ⟨fun h p hp hover => h ⟨p, hp, hover⟩, fun h hex => ?_⟩
  obtain ⟨p, hp, hover⟩ := hex
  exact h p hp hover

/-- One answer: an SOA record owned by the root, with RDLENGTH zero, and two root
names after it. -/
def shortSoaReply : Bytes :=
  [0, 0, 0, 0, 0, 0, 0, 1, 0, 0, 0, 0] ++ [0, 0, 6, 0, 1, 0, 0, 0, 0, 0, 0] ++ [0, 0]

theorem shortSoaReply_not_inRange : ¬InRange shortSoaReply := by
  have hparse : parse shortSoaReply = .error .outOfRange := by decide +kernel
  rw [InRange, hparse]
  simp

end DnsMessage
end Dnss
