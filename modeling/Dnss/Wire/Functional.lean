/-
The grammar is functional: a byte string is at most one message.

A walk is determined by the bytes it reads, so labels, pointer count, and end of a
name are functions of the data and the offset.  Questions, records, and messages
inherit this from their fixed-width fields.
-/
import Dnss.Wire.Grammar

namespace Dnss
namespace Wire

open Cursor

theorem NameAt.functional {data : Bytes} {jumps jumps' p q q' : Nat} {ls ls' : List Bytes}
    (h : NameAt data jumps p ls q) (h' : NameAt data jumps' p ls' q') :
    jumps = jumps' ∧ ls = ls' ∧ q = q' := by
  induction h generalizing jumps' ls' q' with
  | root hzero =>
    cases h' with
    | root => exact ⟨rfl, rfl, rfl⟩
    | label hlen hpos =>
      rw [hzero] at hlen
      cases hlen
      exact absurd hpos (by decide)
    | pointer hhi hge =>
      rw [hzero] at hhi
      cases hhi
      exact absurd hge (by decide)
  | label hlen hpos hlt hlabel hseg hrest ih =>
    cases h' with
    | root hzero =>
      rw [hlen] at hzero
      cases hzero
      exact absurd hpos (by decide)
    | label hlen' hpos' hlt' hlabel' hseg' hrest' =>
      rw [hlen] at hlen'
      cases hlen'
      obtain ⟨hj, hls, hq⟩ := ih hrest'
      have hl := hseg.eq_of_length_eq hseg' (hlabel.trans hlabel'.symm)
      exact ⟨hj, by rw [hl, hls], hq⟩
    | pointer hhi hge =>
      rw [hlen] at hhi
      cases hhi
      omega
  | pointer hhi hge hlo hrest ih =>
    cases h' with
    | root hzero =>
      rw [hhi] at hzero
      cases hzero
      exact absurd hge (by decide)
    | label hlen' hpos' hlt' =>
      rw [hhi] at hlen'
      cases hlen'
      omega
    | pointer hhi' hge' hlo' hrest' =>
      rw [hhi] at hhi'
      rw [hlo] at hlo'
      cases hhi'
      cases hlo'
      obtain ⟨hj, hls, -⟩ := ih hrest'
      exact ⟨by rw [hj], hls, rfl⟩

theorem Name.functional {data : Bytes} {p q q' : Nat} {ls ls' : List Bytes}
    (h : Name data p ls q) (h' : Name data p ls' q') : ls = ls' ∧ q = q' := by
  obtain ⟨j, -, hname⟩ := h
  obtain ⟨j', -, hname'⟩ := h'
  exact (hname.functional hname').2

theorem segAt_be16Bytes_inj {data : Bytes} {p : Nat} {v w : UInt16}
    (hv : SegAt data p (Word.be16Bytes v)) (hw : SegAt data p (Word.be16Bytes w)) : v = w :=
  Word.be16Bytes_inj (hv.eq_of_length_eq hw rfl)

theorem segAt_be32Bytes_inj {data : Bytes} {p : Nat} {v w : UInt32}
    (hv : SegAt data p (Word.be32Bytes v)) (hw : SegAt data p (Word.be32Bytes w)) : v = w :=
  Word.be32Bytes_inj (hv.eq_of_length_eq hw rfl)

theorem QuestionAt.functional {data : Bytes} {p : Nat} {q : Question} {r : Nat} {q' : Question}
    {r' : Nat} (h : QuestionAt data p q r) (h' : QuestionAt data p q' r') : q = q' ∧ r = r' := by
  obtain ⟨labels, qtype, qclass⟩ := q
  obtain ⟨labels', qtype', qclass'⟩ := q'
  obtain ⟨e, hname, hseg, rfl⟩ := h
  obtain ⟨e', hname', hseg', rfl⟩ := h'
  obtain ⟨rfl, rfl⟩ := hname.functional hname'
  rw [segAt_append_iff] at hseg hseg'
  have htype : qtype = qtype' := segAt_be16Bytes_inj hseg.1 hseg'.1
  have hclass : qclass = qclass' := segAt_be16Bytes_inj hseg.2 hseg'.2
  subst htype hclass
  exact ⟨rfl, rfl⟩

theorem RdataAt.functional {data : Bytes} {type : UInt16} {s rdlen : Nat} {rd rd' : Rdata}
    (h : RdataAt data type s rdlen rd) (h' : RdataAt data type s rdlen rd') : rd = rd' := by
  -- The type fixes the shape, so off the diagonal the two hypotheses disagree about it.
  have hmx : ¬IsNameType DnsType.MX := by decide
  have hsoa : ¬IsNameType DnsType.SOA := by decide
  have hne : DnsType.MX ≠ DnsType.SOA := by decide
  cases rd with
  | name ls =>
    obtain ⟨htype, ⟨e, hls⟩, -⟩ := h
    cases rd' with
    | name ls' =>
      obtain ⟨-, ⟨e', hls'⟩, -⟩ := h'
      rw [(hls.functional hls').1]
    | mx pref' ls' => exact absurd htype (by rw [h'.1]; exact hmx)
    | soa mname' rname' tail' => exact absurd htype (by rw [h'.1]; exact hsoa)
    | raw bytes' => exact absurd htype h'.1
  | mx pref ls =>
    obtain ⟨rfl, -, hpref, ⟨e, hls⟩, -⟩ := h
    cases rd' with
    | name ls' => exact absurd h'.1 hmx
    | mx pref' ls' =>
      obtain ⟨-, -, hpref', ⟨e', hls'⟩, -⟩ := h'
      rw [segAt_be16Bytes_inj hpref hpref', (hls.functional hls').1]
    | soa mname' rname' tail' => exact absurd h'.1 hne
    | raw bytes' => exact absurd rfl h'.2.1
  | soa mname rname tail =>
    obtain ⟨rfl, e₁, e₂, hm, hr, -, -, -, -, rfl⟩ := h
    cases rd' with
    | name ls' => exact absurd h'.1 hsoa
    | mx pref' ls' => exact absurd h'.1.symm hne
    | soa mname' rname' tail' =>
      obtain ⟨-, e₁', e₂', hm', hr', -, -, -, -, rfl⟩ := h'
      obtain ⟨rfl, rfl⟩ := hm.functional hm'
      obtain ⟨rfl, rfl⟩ := hr.functional hr'
      rfl
    | raw bytes' => exact absurd rfl h'.2.2.1
  | raw bytes =>
    obtain ⟨hname, hmx', hsoa', rfl⟩ := h
    cases rd' with
    | name ls' => exact absurd h'.1 hname
    | mx pref' ls' => exact absurd h'.1 hmx'
    | soa mname' rname' tail' => exact absurd h'.1 hsoa'
    | raw bytes' => rw [h'.2.2.2]

theorem RecordAt.functional {data : Bytes} {p : Nat} {rr : Record} {r : Nat} {rr' : Record}
    {r' : Nat} (h : RecordAt data p rr r) (h' : RecordAt data p rr' r') : rr = rr' ∧ r = r' := by
  obtain ⟨owner, type, rclass, ttl, rdlen, rdata⟩ := rr
  obtain ⟨owner', type', rclass', ttl', rdlen', rdata'⟩ := rr'
  obtain ⟨e, hname, hseg, -, hrd, rfl⟩ := h
  obtain ⟨e', hname', hseg', -, hrd', rfl⟩ := h'
  obtain ⟨rfl, rfl⟩ := hname.functional hname'
  simp only [fixedFields, segAt_append_iff] at hseg hseg'
  have htype : type = type' := segAt_be16Bytes_inj hseg.1.1.1 hseg'.1.1.1
  have hclass : rclass = rclass' := segAt_be16Bytes_inj hseg.1.1.2 hseg'.1.1.2
  have httl : ttl = ttl' := segAt_be32Bytes_inj hseg.1.2 hseg'.1.2
  have hrdlen : rdlen = rdlen' := segAt_be16Bytes_inj hseg.2 hseg'.2
  subst htype hclass httl hrdlen
  have hrdata : rdata = rdata' := hrd.functional hrd'
  subst hrdata
  exact ⟨rfl, rfl⟩

theorem headerBytes_inj {data : Bytes} {h h' : DnsHeader} (hh : SegAt data 0 (headerBytes h))
    (hh' : SegAt data 0 (headerBytes h')) : h = h' := by
  obtain ⟨id, flags, qd, an, ns, ar⟩ := h
  obtain ⟨id', flags', qd', an', ns', ar'⟩ := h'
  simp only [headerBytes, segAt_append_iff] at hh hh'
  obtain ⟨⟨⟨⟨⟨h₁, h₂⟩, h₃⟩, h₄⟩, h₅⟩, h₆⟩ := hh
  obtain ⟨⟨⟨⟨⟨h₁', h₂'⟩, h₃'⟩, h₄'⟩, h₅'⟩, h₆'⟩ := hh'
  rw [segAt_be16Bytes_inj h₁ h₁', segAt_be16Bytes_inj h₂ h₂', segAt_be16Bytes_inj h₃ h₃',
    segAt_be16Bytes_inj h₄ h₄', segAt_be16Bytes_inj h₅ h₅', segAt_be16Bytes_inj h₆ h₆']

/-- A byte string carries at most one message. -/
theorem MessageAt.functional {data : Bytes} {m m' : Message} (h : MessageAt data m)
    (h' : MessageAt data m') : m = m' := by
  obtain ⟨id, flags, qs, as, ns, rs⟩ := m
  obtain ⟨id', flags', qs', as', ns', rs'⟩ := m'
  obtain ⟨hd, hof, hseg, q₁, q₂, q₃, q₄, hqs, has, hns, hrs⟩ := h
  obtain ⟨hd', hof', hseg', q₁', q₂', q₃', q₄', hqs', has', hns', hrs'⟩ := h'
  have hhd : hd = hd' := headerBytes_inj hseg hseg'
  subst hhd
  have hQ : ∀ p x q y r, QuestionAt data p x q → QuestionAt data p y r → x = y ∧ q = r :=
    fun _ _ _ _ _ hx hy => hx.functional hy
  have hR : ∀ p x q y r, RecordAt data p x q → RecordAt data p y r → x = y ∧ q = r :=
    fun _ _ _ _ _ hx hy => hx.functional hy
  obtain ⟨hqeq, rfl⟩ := hqs.eq_of_functional hQ hqs' (hof.qdcount.symm.trans hof'.qdcount)
  obtain ⟨haeq, rfl⟩ := has.eq_of_functional hR has' (hof.ancount.symm.trans hof'.ancount)
  obtain ⟨hneq, rfl⟩ := hns.eq_of_functional hR hns' (hof.nscount.symm.trans hof'.nscount)
  obtain ⟨hreq, rfl⟩ := hrs.eq_of_functional hR hrs' (hof.arcount.symm.trans hof'.arcount)
  have hid : id = id' := hof.id.symm.trans hof'.id
  have hflags : flags = flags' := hof.flags.symm.trans hof'.flags
  rw [hid, hflags, show qs = qs' from hqeq, show as = as' from haeq, show ns = ns' from hneq,
    show rs = rs' from hreq]

end Wire
end Dnss
