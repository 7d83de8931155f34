/-
The fast path's reading of a question against the parser's.

`peekCacheRaw` decodes the first question by hand.  Its walk reads labels in place
and stops in front of a zero byte or of a compression pointer alike, after which it
skips one byte, so behind a pointer it takes the pointer's second byte for the first
byte of the type.  It does not look at the rest of the message, and of QDCOUNT it
only asks that it is not zero.

`LabelsAt` is the part of a name that stands in place.  `fastPathAgrees_iff` lists
the datagrams on which the two readings agree.
-/
import Dnss.Cache.Collisions
import Dnss.Protocol.ParseGrammar
import Dnss.Wire.Functional

namespace Dnss

open Cursor Separated

/-! ## Labels in place -/

namespace Wire

/-- The labels `ls` stand one after the other from `p` to `e`. -/
inductive LabelsAt (data : Bytes) : Nat → List Bytes → Nat → Prop where
  | nil {p : Nat} : LabelsAt data p [] p
  | cons {p e : Nat} {len : UInt8} {label : Bytes} {ls : List Bytes}
      (hlen : data[p]? = some len) (hpos : 0 < len.toNat) (hlt : len.toNat < 192)
      (hlabel : label.length = len.toNat) (hseg : SegAt data (p + 1) label)
      (hrest : LabelsAt data (p + 1 + len.toNat) ls e) :
      LabelsAt data p (label :: ls) e

/-- The byte that ends the labels in place: a zero byte or a pointer. -/
def IsStop (b : UInt8) : Prop := b = 0 ∨ 192 ≤ b.toNat

theorem not_isStop_of_label {len : UInt8} (hpos : 0 < len.toNat) (hlt : len.toNat < 192) :
    ¬IsStop len := by
  intro h
  rcases h with rfl | hge
  · exact absurd hpos (by decide)
  · omega

theorem LabelsAt.label_ne_nil {data : Bytes} {p e : Nat} {ls : List Bytes}
    (h : LabelsAt data p ls e) : ∀ l ∈ ls, l ≠ [] := by
  induction h with
  | nil => simp
  | cons hlen hpos hlt hlabel hseg hrest ih =>
    intro l hl
    rcases List.mem_cons.mp hl with rfl | hmem
    · exact List.length_pos_iff.mp (by omega)
    · exact ih l hmem

/-- The labels before a stop are determined by the bytes. -/
theorem LabelsAt.functional {data : Bytes} {p e e' : Nat} {ls ls' : List Bytes} {b b' : UInt8}
    (h : LabelsAt data p ls e) (hb : data[e]? = some b) (hstop : IsStop b)
    (h' : LabelsAt data p ls' e') (hb' : data[e']? = some b') (hstop' : IsStop b') :
    ls = ls' ∧ e = e' := by
  induction h generalizing ls' with
  | nil =>
    cases h' with
    | nil => exact ⟨rfl, rfl⟩
    | cons hlen hpos hlt =>
      rw [hb] at hlen
      cases hlen
      exact absurd hstop (not_isStop_of_label hpos hlt)
  | cons hlen hpos hlt hlabel hseg hrest ih =>
    cases h' with
    | nil =>
      rw [hb'] at hlen
      cases hlen
      exact absurd hstop' (not_isStop_of_label hpos hlt)
    | cons hlen' hpos' hlt' hlabel' hseg' hrest' =>
      rw [hlen] at hlen'
      cases hlen'
      obtain ⟨hls, he⟩ := ih hb hrest'
      have hl := hseg.eq_of_length_eq hseg' (hlabel.trans hlabel'.symm)
      exact ⟨by rw [hl, hls], he⟩

/-- A name is its labels in place, and after them a zero byte or a pointer to the
rest. -/
theorem Name.exists_labelsAt {data : Bytes} {p q : Nat} {ls : List Bytes} (h : Name data p ls q) :
    ∃ ls₁ e, LabelsAt data p ls₁ e ∧
      ((data[e]? = some 0 ∧ ls = ls₁ ∧ q = e + 1) ∨
        ∃ b ls₂, data[e]? = some b ∧ 192 ≤ b.toNat ∧ ls = ls₁ ++ ls₂ ∧ q = e + 2) := by
  obtain ⟨jumps, -, hname⟩ := h
  induction hname with
  | root hzero => exact ⟨[], _, .nil, Or.inl ⟨hzero, rfl, rfl⟩⟩
  | label hlen hpos hlt hlabel hseg hrest ih =>
    obtain ⟨ls₁, e, hlabels, hend⟩ := ih
    refine ⟨_, e, .cons hlen hpos hlt hlabel hseg hlabels, ?_⟩
    rcases hend with ⟨hzero, rfl, hq⟩ | ⟨b, ls₂, hb, hge, rfl, hq⟩
    · exact Or.inl ⟨hzero, rfl, hq⟩
    · exact Or.inr ⟨b, ls₂, hb, hge, rfl, hq⟩
  | pointer hhi hge hlo hrest ih => exact ⟨[], _, .nil, Or.inr ⟨_, _, hhi, hge, rfl, rfl⟩⟩

/-- Labels added to a dotted name make it longer. -/
theorem dotted_append_eq_iff {ls ls' : List Bytes} (hls : ∀ l ∈ ls ++ ls', l ≠ []) :
    dotted (ls ++ ls') = dotted ls ↔ ls' = [] := by
  refine ⟨fun h => ?_, fun h => by rw [h, List.append_nil]⟩
  by_contra hne
  have hfirst : ∀ l ∈ ls, l ≠ [] := fun l hl => hls l (List.mem_append_left _ hl)
  have hsecond : ∀ l ∈ ls', l ≠ [] := fun l hl => hls l (List.mem_append_right _ hl)
  rw [dotted, dotted, ← foldl_appendWord dot hls, ← foldl_appendWord dot hfirst,
    List.foldl_append] at h
  have hlt : (ls.foldl (appendWord dot) []).length <
      (ls'.foldl (appendWord dot) (ls.foldl (appendWord dot) [])).length :=
    length_lt_foldl_appendWord hsecond hne
  rw [h] at hlt
  omega

end Wire

namespace CachingResolver

/-! ## The raw walk -/

theorem labelsAt_of_rawNameLoop {data : Bytes} {p : Nat} {acc name : Bytes} {e : Nat}
    (h : rawNameLoop data p acc = some (name, e)) :
    ∃ ls, Wire.LabelsAt data p ls e ∧ (∀ b, data[e]? = some b → Wire.IsStop b) ∧
      name = ls.foldl (appendWord dot) acc := by
  fun_induction rawNameLoop data p acc with
  | case1 p acc hp len hzero =>
    cases h
    refine ⟨[], .nil, fun b hb => Or.inl ?_, rfl⟩
    rw [List.getElem?_eq_getElem hp, Option.some.injEq] at hb
    exact hb.symm.trans hzero
  | case2 p acc hp len hne hptr =>
    cases h
    refine ⟨[], .nil, fun b hb => Or.inr ?_, rfl⟩
    rw [List.getElem?_eq_getElem hp, Option.some.injEq] at hb
    rw [← hb]
    exact (DnsHelpers.isPointer_iff len).mp hptr
  | case3 => cases h
  | case4 p acc hp len hne hptr hfit ih =>
    obtain ⟨ls, hlabels, hstop, hname⟩ := ih h
    have hlt : len.toNat < 192 := by
      by_contra hge
      exact hptr ((DnsHelpers.isPointer_iff len).mpr (by omega))
    refine ⟨_, .cons (List.getElem?_eq_getElem hp) (DnsHelpers.toNat_pos_of_ne_zero hne) hlt ?_
      (segAt_take_drop data (p + 1) len.toNat) hlabels, hstop, hname⟩
    rw [List.length_take, List.length_drop]
    show min len.toNat _ = len.toNat
    omega
  | case5 p acc hp =>
    cases h
    refine ⟨[], .nil, fun b hb => ?_, rfl⟩
    rw [List.getElem?_eq_none (by omega)] at hb
    cases hb

theorem rawNameLoop_of_labelsAt {data : Bytes} {p e : Nat} {ls : List Bytes} {b : UInt8}
    (h : Wire.LabelsAt data p ls e) (hb : data[e]? = some b) (hstop : Wire.IsStop b)
    (acc : Bytes) : rawNameLoop data p acc = some (ls.foldl (appendWord dot) acc, e) := by
  induction h generalizing acc with
  | nil =>
    obtain ⟨hp, hget⟩ := List.getElem?_eq_some_iff.mp hb
    rw [rawNameLoop, dif_pos hp]
    simp only [List.get_eq_getElem, hget]
    rcases hstop with rfl | hge
    · rfl
    · have hne : b ≠ 0 := by
        intro hzero
        rw [hzero] at hge
        exact absurd hge (by decide)
      rw [if_neg hne, if_pos ((DnsHelpers.isPointer_iff b).mpr hge)]
      rfl
  | @cons p e len label ls hlen hpos hlt hlabel hseg hrest ih =>
    obtain ⟨hp, hget⟩ := List.getElem?_eq_some_iff.mp hlen
    have hne : len ≠ 0 := by
      intro hzero
      rw [hzero] at hpos
      exact absurd hpos (by decide)
    have hptr : ¬len &&& 0xC0 = 0xC0 := by
      rw [DnsHelpers.isPointer_iff]
      omega
    have hfit : p + 1 + len.toNat ≤ data.length := by
      rw [← hlabel]
      exact hseg.length_le (List.length_pos_iff.mp (by omega))
    have hword : (data.drop (p + 1)).take len.toNat = label := by
      rw [← hlabel]
      exact (List.prefix_iff_eq_take.mp hseg).symm
    rw [rawNameLoop, dif_pos hp]
    simp only [List.get_eq_getElem, hget, hword]
    rw [if_neg hne, if_neg hptr, if_neg (by omega), ih hb]
    rfl

/-! ## The key -/

theorem rawU16_eq_iff {data : Bytes} {p : Nat} {v : UInt16} (h : p + 2 ≤ data.length) :
    rawU16 data p = v ↔ SegAt data p (Word.be16Bytes v) := by
  have hget : ∀ i, i < data.length → data[i]? = some (data.getD i 0) := by
    intro i hi
    rw [List.getD_eq_getElem?_getD, List.getElem?_eq_getElem hi]
    rfl
  have hraw : SegAt data p (Word.be16Bytes (rawU16 data p)) := by
    rw [rawU16, Word.be16Bytes_be16, segAt_cons_iff, segAt_cons_iff]
    exact ⟨hget p (by omega), hget (p + 1) (by omega), List.nil_prefix⟩
  exact ⟨fun he => he ▸ hraw, fun hv => Wire.segAt_be16Bytes_inj hraw hv⟩

/-- The datagram has a first question that the raw walk gets through: labels in
place up to a stop, and four bytes after the stop. -/
def RawReadable (data : Bytes) (ls : List Bytes) (e : Nat) (b : UInt8) : Prop :=
  12 ≤ data.length ∧ rawU16 data 4 ≠ 0 ∧ Wire.LabelsAt data 12 ls e ∧ data[e]? = some b ∧
    Wire.IsStop b ∧ e + 5 ≤ data.length

/-- The guards of `rawKey`, in its own terms. -/
theorem rawKey_eq_some_iff_loop {data : Bytes} {key : CacheKey} :
    rawKey data = some key ↔
      12 ≤ data.length ∧ rawU16 data 4 ≠ 0 ∧
        ∃ e, rawNameLoop data 12 [] = some (key.name, e) ∧ e + 5 ≤ data.length ∧
          rawU16 data (e + 1) = key.type ∧ rawU16 data (e + 3) = key.qclass := by
  obtain ⟨name, type, qclass⟩ := key
  unfold rawKey
  rw [Option.ite_none_left_eq_some, Option.ite_none_left_eq_some, Nat.not_lt]
  refine and_congr_right fun _ => and_congr_right fun _ => ?_
  cases rawNameLoop data 12 [] with
  | none => simp
  | some r =>
    obtain ⟨qname, p⟩ := r
    simp only [Option.ite_none_left_eq_some, Option.some.injEq, CacheKey.mk.injEq, Prod.mk.injEq]
    constructor
    · rintro ⟨-, hend, rfl, htype, hclass⟩
      exact ⟨p, ⟨rfl, rfl⟩, by omega, htype, hclass⟩
    · rintro ⟨e, ⟨rfl, rfl⟩, hend, htype, hclass⟩
      exact ⟨by omega, by omega, rfl, htype, hclass⟩

theorem rawKey_eq_some_iff {data : Bytes} {key : CacheKey} :
    rawKey data = some key ↔
      ∃ ls e b, RawReadable data ls e b ∧ key.name = Wire.dotted ls ∧
        SegAt data (e + 1) (Word.be16Bytes key.type ++ Word.be16Bytes key.qclass) := by
  have hwords : ∀ e, e + 5 ≤ data.length →
      (SegAt data (e + 1) (Word.be16Bytes key.type ++ Word.be16Bytes key.qclass) ↔
        rawU16 data (e + 1) = key.type ∧ rawU16 data (e + 3) = key.qclass) := by
    intro e he
    rw [segAt_append_iff, rawU16_eq_iff (by omega), rawU16_eq_iff (by omega)]
    exact Iff.rfl
  rw [rawKey_eq_some_iff_loop]
  constructor
  · intro h
    obtain ⟨hlen, hqd, e, hloop, hend, hword⟩ := h
    obtain ⟨ls, hlabels, hstop, hname⟩ := labelsAt_of_rawNameLoop hloop
    rw [foldl_appendWord dot hlabels.label_ne_nil] at hname
    have hb : data[e]? = some (data.get ⟨e, by omega⟩) := List.getElem?_eq_getElem (by omega)
    exact ⟨ls, e, _, ⟨hlen, hqd, hlabels, hb, hstop _ hb, hend⟩, hname, (hwords e hend).mpr hword⟩
  · intro h
    obtain ⟨ls, e, b, ⟨hlen, hqd, hlabels, hb, hstop, hend⟩, hname, hseg⟩ := h
    have hloop := rawNameLoop_of_labelsAt hlabels hb hstop []
    rw [foldl_appendWord dot hlabels.label_ne_nil] at hloop
    refine ⟨hlen, hqd, e, ?_, hend, (hwords e hend).mp hseg⟩
    rw [hname]
    exact hloop

theorem rawKey_eq_none_iff {data : Bytes} :
    rawKey data = none ↔ ∀ ls e b, ¬RawReadable data ls e b := by
  rw [Option.eq_none_iff_forall_ne_some]
  constructor
  · intro h ls e b hread
    have hwords := hread.2.2.2.2.2
    refine h { name := Wire.dotted ls, type := rawU16 data (e + 1), qclass := rawU16 data (e + 3) }
      (rawKey_eq_some_iff.mpr ⟨ls, e, b, hread, rfl, ?_⟩)
    rw [segAt_append_iff, Word.be16Bytes_length]
    exact ⟨(rawU16_eq_iff (by omega)).mp rfl, (rawU16_eq_iff (by omega)).mp rfl⟩
  · intro h key hkey
    obtain ⟨ls, e, b, hread, -, -⟩ := rawKey_eq_some_iff.mp hkey
    exact h ls e b hread

/-! ## Agreement -/

/-- A message with exactly one question. -/
def Asks (data : Bytes) (q : Wire.Question) : Prop :=
  ∃ w, Wire.MessageAt data w ∧ w.questions = [q]

/-- The fast path looks up the question of a message with exactly one, and returns
null on every other datagram. -/
def FastPathAgrees (data : Bytes) : Prop :=
  (∀ m q, DnsMessage.parse data = .ok m → m.questions = [q] → rawKey data = some q.key) ∧
    ((¬∃ m q, DnsMessage.parse data = .ok m ∧ m.questions = [q]) →
      ∀ s env, (peekCacheRaw s env data).2 = none)

/-- The raw walk ends at the zero byte of the name, or at a pointer to the root with
five equal bytes after its first one. -/
def RawFaithful (data : Bytes) (q : Wire.Question) : Prop :=
  ∃ ls e b, Wire.LabelsAt data 12 ls e ∧ data[e]? = some b ∧
    (b = 0 ∨ 192 ≤ b.toNat ∧ q.labels = ls ∧ ∃ x, SegAt data (e + 1) (List.replicate 5 x))

theorem Asks.header {data : Bytes} {q : Wire.Question} (h : Asks data q) :
    12 ≤ data.length ∧ rawU16 data 4 ≠ 0 := by
  obtain ⟨w, ⟨hd, hof, hseg, -⟩, hq⟩ := h
  have hlen : 12 ≤ data.length := by
    have hle := hseg.length_le (by simp [Wire.headerBytes, Word.be16Bytes])
    exact (Nat.zero_add 12).symm ▸ hle
  refine ⟨hlen, fun hzero => ?_⟩
  simp only [Wire.headerBytes, segAt_append_iff] at hseg
  have hqd : rawU16 data 4 = hd.qdcount := (rawU16_eq_iff (by omega)).mpr hseg.1.1.1.2
  have hone : (0 : UInt16).toNat = 1 := by
    rw [← hzero, hqd, hof.qdcount, hq]
    rfl
  exact absurd hone (by decide)

theorem Asks.questionAt {data : Bytes} {q : Wire.Question} (h : Asks data q) :
    ∃ r, Wire.QuestionAt data 12 q r := by
  obtain ⟨w, ⟨hd, -, -, q₁, q₂, q₃, q₄, hqs, -⟩, hq⟩ := h
  rw [hq] at hqs
  obtain ⟨r, hquestion, -⟩ := hqs
  exact ⟨r, hquestion⟩

/-- Four bytes that also stand one place earlier are all equal, with the one before. -/
theorem segAt_shift_iff {data : Bytes} {p : Nat} {b₁ b₂ b₃ b₄ : UInt8}
    (h : SegAt data (p + 1) [b₁, b₂, b₃, b₄]) :
    SegAt data p [b₁, b₂, b₃, b₄] ↔ ∃ x, SegAt data p (List.replicate 5 x) := by
  simp only [segAt_cons_iff, List.replicate] at h ⊢
  obtain ⟨h₁, h₂, h₃, h₄, hnil⟩ := h
  constructor
  · intro h
    obtain ⟨h₁', h₂', h₃', h₄', -⟩ := h
    rw [h₁, Option.some.injEq] at h₂'
    rw [h₂, Option.some.injEq] at h₃'
    rw [h₃, Option.some.injEq] at h₄'
    subst h₄' h₃' h₂'
    exact ⟨_, h₁', h₁, h₂, h₃, h₄, hnil⟩
  · intro h
    obtain ⟨x, h₀, h₁', h₂', h₃', h₄', -⟩ := h
    rw [h₁, Option.some.injEq] at h₁'
    rw [h₂, Option.some.injEq] at h₂'
    rw [h₃, Option.some.injEq] at h₃'
    rw [h₄, Option.some.injEq] at h₄'
    subst h₁' h₂' h₃' h₄'
    exact ⟨h₀, h₁, h₂, h₃, List.nil_prefix⟩

/-- On a message with one question the fast path looks up that question exactly
when its walk is faithful. -/
theorem rawKey_eq_question_iff {data : Bytes} {q : Wire.Question} (h : Asks data q) :
    rawKey data = some q.flatten.key ↔ RawFaithful data q := by
  obtain ⟨hlen, hqd⟩ := h.header
  obtain ⟨r, e₂, hname, hseg, -⟩ := h.questionAt
  obtain ⟨ls₁, e₁, hlabels₁, hend⟩ := hname.exists_labelsAt
  have hne := hname.label_ne_nil
  rw [rawKey_eq_some_iff]
  constructor
  · intro hraw
    obtain ⟨ls, e, b, ⟨-, -, hlabels, hb, hstop, -⟩, hdotted, hwords⟩ := hraw
    refine ⟨ls, e, b, hlabels, hb, ?_⟩
    rcases hend with ⟨hzero, -, -⟩ | ⟨b₁, ls₂, hb₁, hge, hls, rfl⟩
    · obtain ⟨-, rfl⟩ := hlabels.functional hb hstop hlabels₁ hzero (Or.inl rfl)
      rw [hb, Option.some.injEq] at hzero
      exact Or.inl hzero
    · obtain ⟨rfl, rfl⟩ := hlabels.functional hb hstop hlabels₁ hb₁ (Or.inr hge)
      rw [hb, Option.some.injEq] at hb₁
      have hroot : ls₂ = [] := by
        rw [hls] at hne
        refine (Wire.dotted_append_eq_iff hne).mp ?_
        rw [← hls]
        exact hdotted
      refine Or.inr ⟨hb₁ ▸ hge, by rw [hls, hroot, List.append_nil], ?_⟩
      exact (segAt_shift_iff hseg).mp hwords
  · intro hraw
    obtain ⟨ls, e, b, hlabels, hb, hfaithful⟩ := hraw
    have hstop : Wire.IsStop b := hfaithful.imp_right (·.1)
    have hread : SegAt data (e + 1) (Word.be16Bytes q.qtype ++ Word.be16Bytes q.qclass) →
        RawReadable data ls e b := by
      intro hwords
      have hle := hwords.length_le (by simp [Word.be16Bytes])
      exact ⟨hlen, hqd, hlabels, hb, hstop, by simpa [Word.be16Bytes] using hle⟩
    rcases hend with ⟨hzero, hls, rfl⟩ | ⟨b₁, ls₂, hb₁, hge, hls, rfl⟩
    · obtain ⟨rfl, rfl⟩ := hlabels.functional hb hstop hlabels₁ hzero (Or.inl rfl)
      exact ⟨ls, e, b, hread hseg, congrArg Wire.dotted hls, hseg⟩
    · obtain ⟨rfl, rfl⟩ := hlabels.functional hb hstop hlabels₁ hb₁ (Or.inr hge)
      rcases hfaithful with rfl | ⟨-, hlabelsq, hbytes⟩
      · rw [hb, Option.some.injEq] at hb₁
        rw [← hb₁] at hge
        exact absurd hge (by decide)
      · have hwords := (segAt_shift_iff hseg).mpr hbytes
        exact ⟨ls, e, b, hread hwords, congrArg Wire.dotted hlabelsq, hwords⟩

/-- Some state of the cache answers any key the fast path can read. -/
theorem rawKey_eq_none_iff_forall_peekCacheRaw {data : Bytes} :
    rawKey data = none ↔ ∀ s env, (peekCacheRaw s env data).2 = none := by
  refine ⟨fun h s env => by rw [peekCacheRaw, h], fun h => ?_⟩
  cases hkey : rawKey data with
  | none => rfl
  | some key =>
    have hpeek := h (Machine.run step {} [denyingQuery key]) denyingEnv
    have hprobe : (Machine.run step {} [denyingQuery key]).probe denyingEnv key =
        .turbo (clobberTTL (deniedReply key) 300) := by
      have hturbo := turboLookup_denyingQuery key
      unfold probe
      rw [show denyingEnv.now = 0 from rfl, hturbo]
    rw [peekCacheRaw, hkey] at hpeek
    simp [hprobe] at hpeek

/-- The readings agree on a datagram exactly when it is a message with one question
that the raw walk reads faithfully, or not such a message and the raw walk does not
get through a first question. -/
theorem fastPathAgrees_iff (data : Bytes) :
    FastPathAgrees data ↔
      (∀ q, Asks data q → RawFaithful data q) ∧
        ((¬∃ q, Asks data q) → ∀ ls e b, ¬RawReadable data ls e b) := by
  have hasks : ∀ q', (∃ m, DnsMessage.parse data = .ok m ∧ m.questions = [q']) ↔
      ∃ q, Asks data q ∧ q.flatten = q' := by
    intro q'
    constructor
    · intro h
      obtain ⟨m, hparse, hq⟩ := h
      obtain ⟨w, hw, rfl⟩ := DnsMessage.parse_eq_ok_iff.mp hparse
      obtain ⟨q, hwq, hflat⟩ := List.map_eq_singleton_iff.mp hq
      exact ⟨q, ⟨w, hw, hwq⟩, hflat⟩
    · intro h
      obtain ⟨q, ⟨w, hw, hwq⟩, rfl⟩ := h
      refine ⟨w.flatten, DnsMessage.parse_eq_ok_iff.mpr ⟨w, hw, rfl⟩, ?_⟩
      show w.questions.map Wire.Question.flatten = _
      rw [hwq]
      rfl
  have hnone : (¬∃ m q, DnsMessage.parse data = .ok m ∧ m.questions = [q]) ↔
      ¬∃ q, Asks data q := by
    refine not_congr ⟨fun h => ?_, fun h => ?_⟩
    · obtain ⟨m, q', hm⟩ := h
      obtain ⟨q, hq, -⟩ := (hasks q').mp ⟨m, hm⟩
      exact ⟨q, hq⟩
    · obtain ⟨q, hq⟩ := h
      obtain ⟨m, hm⟩ := (hasks q.flatten).mpr ⟨q, hq, rfl⟩
      exact ⟨m, q.flatten, hm⟩
  rw [FastPathAgrees, hnone, ← rawKey_eq_none_iff_forall_peekCacheRaw, rawKey_eq_none_iff]
  refine and_congr_left fun _ => ⟨fun h q hq => ?_, fun h m q' hparse hq' => ?_⟩
  · obtain ⟨m, hparse, hmq⟩ := (hasks q.flatten).mpr ⟨q, hq, rfl⟩
    exact (rawKey_eq_question_iff hq).mp (h m q.flatten hparse hmq)
  · obtain ⟨q, hq, rfl⟩ := (hasks q').mp ⟨m, hparse, hq'⟩
    exact (rawKey_eq_question_iff hq).mpr (h q hq)

/-- Two questions are announced and one is there. -/
def truncatedPairQuery : Bytes :=
  [0, 0, 1, 0, 0, 2, 0, 0, 0, 0, 0, 0] ++ [1, 0x61, 0, 0, 1, 0, 1]

theorem truncatedPairQuery_not_fastPathAgrees : ¬FastPathAgrees truncatedPairQuery := by
  intro h
  have hparse : DnsMessage.parse truncatedPairQuery = .error (.thrown .truncatedName) := by
    decide +kernel
  have hkey : rawKey truncatedPairQuery = some { name := [0x61], type := 1, qclass := 1 } := by
    decide +kernel
  have hpeek := h.2 (by
    intro hex
    obtain ⟨m, q, hm, -⟩ := hex
    rw [hparse] at hm
    cases hm)
  rw [← rawKey_eq_none_iff_forall_peekCacheRaw, hkey] at hpeek
  cases hpeek

end CachingResolver
end Dnss
