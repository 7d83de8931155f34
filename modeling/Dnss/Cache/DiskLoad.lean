/-
Loading any file.

Reading a field from a stream is exact: it succeeds when the stream starts with the
field's bytes, and leaves the rest.  `payloads` is the framing of the loop alone,
the message bytes of the records it arrives at when nothing throws.  The loop has no
handler around `parse`, so it returns exactly when every payload is a message, and
this is `loadsCleanly_iff`.  What it leaves in the cache is always the decoding of
a part of the file.
-/
import Dnss.Cache.Disk
import Dnss.Library.Assoc
import Dnss.Protocol.ParseGrammar

namespace Dnss
namespace CachingResolver

open Cursor

/-! ## Fields -/

theorem readU8_eq_some_iff {stream rest : Bytes} {b : UInt8} :
    readU8 stream = some (b, rest) ↔ stream = b :: rest := by
  cases stream with
  | nil => simp [readU8]
  | cons x xs => simp [readU8]

theorem readLE16_eq_some_iff {stream rest : Bytes} {v : UInt16} :
    readLE16 stream = some (v, rest) ↔ stream = Word.le16Bytes v ++ rest := by
  constructor
  · intro h
    match stream, h with
    | b₀ :: b₁ :: rest', h =>
      simp only [readLE16, Option.some.injEq, Prod.mk.injEq] at h
      rw [← h.1, ← h.2, Word.le16Bytes, Word.be16Bytes_be16]
      rfl
  · intro h
    rw [h]
    show some (Word.be16 (v >>> 8).toUInt8 v.toUInt8, rest) = some (v, rest)
    rw [Word.be16_be16Bytes]

theorem readLE32_eq_some_iff {stream rest : Bytes} {v : UInt32} :
    readLE32 stream = some (v, rest) ↔ stream = Word.le32Bytes v ++ rest := by
  constructor
  · intro h
    match stream, h with
    | b₀ :: b₁ :: b₂ :: b₃ :: rest', h =>
      simp only [readLE32, Option.some.injEq, Prod.mk.injEq] at h
      rw [← h.1, ← h.2, Word.le32Bytes, Word.be32Bytes_be32]
      rfl
  · intro h
    rw [h]
    show some (Word.be32 (v >>> 24).toUInt8 (v >>> 16).toUInt8 (v >>> 8).toUInt8 v.toUInt8, rest) =
      some (v, rest)
    rw [Word.be32_be32Bytes]

/-- The fields are read exactly where their bytes stand, for a name that fits its
length byte. -/
theorem readFields_eq_some_iff {stream rest : Bytes} {f : DiskFields} :
    readFields stream = some (f, rest) ↔
      f.key.name.length ≤ 255 ∧ stream = f.bytes ++ rest := by
  simp only [readFields, Option.bind_eq_bind, Option.bind_eq_some_iff, Prod.exists,
    readU8_eq_some_iff, readLE16_eq_some_iff, readLE32_eq_some_iff, takeN_eq_some_iff,
    Option.some.injEq, Prod.mk.injEq]
  constructor
  · intro h
    obtain ⟨len, _, rfl, name, _, ⟨hlen, rfl⟩, type, _, rfl, qclass, _, rfl, ttl, _, rfl, wireLen,
      _, rfl, rfl, rfl⟩ := h
    have hbyte : UInt8.ofNat name.length = len := by rw [hlen, UInt8.ofNat_toNat]
    refine ⟨?_, ?_⟩
    · show name.length ≤ 255
      rw [hlen]
      exact Nat.le_of_lt_succ len.toNat_lt
    · simp [DiskFields.bytes, hbyte]
  · intro h
    obtain ⟨hname, rfl⟩ := h
    have hlen : (UInt8.ofNat f.key.name.length).toNat = f.key.name.length :=
      UInt8.toNat_ofNat_of_lt' (by show f.key.name.length < 256; omega)
    exact ⟨_, _, rfl, f.key.name, _, ⟨hlen.symm, List.append_assoc _ _ _⟩, f.key.type, _,
      List.append_assoc _ _ _, f.key.qclass, _, List.append_assoc _ _ _, f.ttl, _,
      List.append_assoc _ _ _, f.wireLen, rest, rfl, rfl, rfl⟩

theorem readDiskHeader_eq_some_iff {file stream : Bytes} {count : UInt32} :
    readDiskHeader file = some (count, stream) ↔
      file = diskHeader count ++ stream ∧ count ≤ 100000 := by
  simp only [readDiskHeader, Option.bind_eq_bind, Option.bind_eq_some_iff, Prod.exists,
    readLE32_eq_some_iff, Option.ite_none_right_eq_some, Option.some.injEq, Prod.mk.injEq]
  constructor
  · intro h
    obtain ⟨magic, _, rfl, ver, _, rfl, count', _, rfl, ⟨rfl, rfl, hcount⟩, rfl, rfl⟩ := h
    exact ⟨by simp [diskHeader], hcount⟩
  · intro h
    obtain ⟨rfl, hcount⟩ := h
    exact ⟨_, _, by rw [diskHeader, List.append_assoc, List.append_assoc], _, _, rfl, _, _, rfl,
      ⟨rfl, rfl, hcount⟩, rfl, rfl⟩

/-! ## Framing -/

/-- The loop takes the message bytes of a record whose length is in range. -/
def Refused (f : DiskFields) : Prop := f.wireLen < 12 ∨ 4096 < f.wireLen

instance (f : DiskFields) : Decidable (Refused f) :=
  inferInstanceAs (Decidable (_ ∨ _))

/-- The message bytes of the records the loop arrives at. -/
def payloads : Nat → Bytes → List Bytes
  | 0, _ => []
  | count + 1, stream =>
    match readFields stream with
    | none => []
    | some (f, stream) =>
      if Refused f then payloads count stream
      else
        match takeN f.wireLen.toNat stream with
        | none => []
        | some (wire, stream) => wire :: payloads count stream

/-- The message bytes a file presents to `parse`. -/
def filePayloads (file : Bytes) : List Bytes :=
  match readDiskHeader file with
  | none => []
  | some (count, stream) => payloads count.toNat stream

/-- The entry comes from a record of the stream. -/
def LoadedFrom (now : Int) (stream : Bytes) (entry : CacheEntry) : Prop :=
  ∃ wire msg ttl, wire <:+: stream ∧ DnsMessage.parse wire = .ok msg ∧ msg.hasQuestions = true ∧
    entry = loadedEntry now ttl msg

theorem LoadedFrom.mono {now : Int} {stream stream' : Bytes} {entry : CacheEntry}
    (h : LoadedFrom now stream entry) (hsub : stream <:+: stream') :
    LoadedFrom now stream' entry := by
  obtain ⟨wire, msg, ttl, hwire, hrest⟩ := h
  exact ⟨wire, msg, ttl, hwire.trans hsub, hrest⟩

/-- One pass of the loop, by what it finds in the stream. -/
theorem loadLoop_succ (now : Int) (count : Nat) (stream : Bytes) (cache : Cache) :
    (payloads (count + 1) stream = [] ∧
      loadLoop now (count + 1) stream cache = (cache, .ok ())) ∨
    (∃ rest, rest <:+: stream ∧ payloads (count + 1) stream = payloads count rest ∧
      loadLoop now (count + 1) stream cache = loadLoop now count rest cache) ∨
    ∃ (f : DiskFields) (wire rest : Bytes), wire <:+: stream ∧ rest <:+: stream ∧
      payloads (count + 1) stream = wire :: payloads count rest ∧
      loadLoop now (count + 1) stream cache =
        match DnsMessage.parse wire with
        | .error e => (cache, .error e)
        | .ok msg =>
          if msg.hasQuestions then
            loadLoop now count rest (cache.insert f.key (loadedEntry now f.ttl msg))
          else loadLoop now count rest cache := by
  cases hfields : readFields stream with
  | none => exact Or.inl ⟨by simp [payloads, hfields], by simp [loadLoop, hfields]⟩
  | some p =>
    obtain ⟨f, rest⟩ := p
    obtain ⟨-, rfl⟩ := readFields_eq_some_iff.mp hfields
    by_cases hrefused : Refused f
    · refine Or.inr (Or.inl ⟨rest, ⟨f.bytes, [], by simp⟩, ?_, ?_⟩)
      · simp [payloads, hfields, hrefused]
      · simp only [loadLoop, hfields]
        exact if_pos hrefused
    · cases htake : takeN f.wireLen.toNat rest with
      | none =>
        refine Or.inl ⟨by simp [payloads, hfields, hrefused, htake], ?_⟩
        simp only [loadLoop, hfields, htake]
        exact if_neg hrefused
      | some p =>
        obtain ⟨wire, rest'⟩ := p
        obtain ⟨-, rfl⟩ := takeN_eq_some_iff.mp htake
        refine Or.inr (Or.inr ⟨f, wire, rest', ⟨f.bytes, rest', by simp⟩,
          ⟨f.bytes ++ wire, [], by simp⟩, ?_, ?_⟩)
        · simp [payloads, hfields, hrefused, htake]
        · simp only [loadLoop, hfields, htake]
          exact if_neg hrefused

/-- What the loop leaves in the cache was there before or comes from a record. -/
theorem lookup_loadLoop {now : Int} {count : Nat} {stream : Bytes} {cache : Cache}
    {key : CacheKey} {entry : CacheEntry}
    (h : (loadLoop now count stream cache).1.lookup key = some entry) :
    cache.lookup key = some entry ∨ LoadedFrom now stream entry := by
  induction count generalizing stream cache with
  | zero => exact Or.inl h
  | succ count ih =>
    rcases loadLoop_succ now count stream cache with
      ⟨-, hloop⟩ | ⟨rest, hrest, -, hloop⟩ | ⟨f, wire, rest, hwire, hrest, -, hloop⟩
    · rw [hloop] at h
      exact Or.inl h
    · rw [hloop] at h
      exact (ih h).imp_right (·.mono hrest)
    · rw [hloop] at h
      cases hparse : DnsMessage.parse wire with
      | error e =>
        rw [hparse] at h
        exact Or.inl h
      | ok msg =>
        by_cases hquestions : msg.hasQuestions = true
        · simp only [hparse, hquestions, if_true] at h
          rcases ih h with hold | hloaded
          · rcases Assoc.lookup_insert_eq_some hold with ⟨-, hentry⟩ | hold
            · exact Or.inr ⟨wire, msg, f.ttl, hwire, hparse, hquestions, hentry⟩
            · exact Or.inl hold
          · exact Or.inr (hloaded.mono hrest)
        · simp only [hparse, hquestions] at h
          exact (ih h).imp_right (·.mono hrest)

/-- The loop returns exactly when every payload decodes. -/
theorem loadLoop_eq_ok_iff {now : Int} {count : Nat} {stream : Bytes} {cache : Cache} :
    (loadLoop now count stream cache).2 = .ok () ↔
      ∀ wire ∈ payloads count stream, ∃ msg, DnsMessage.parse wire = .ok msg := by
  induction count generalizing stream cache with
  | zero => simp [loadLoop, payloads]
  | succ count ih =>
    rcases loadLoop_succ now count stream cache with
      ⟨hpayloads, hloop⟩ | ⟨rest, -, hpayloads, hloop⟩ | ⟨f, wire, rest, -, -, hpayloads, hloop⟩
    · rw [hpayloads, hloop]
      simp
    · rw [hpayloads, hloop]
      exact ih
    · rw [hpayloads, hloop, List.forall_mem_cons]
      cases hparse : DnsMessage.parse wire with
      | error e => simp
      | ok msg =>
        have hfirst : ∃ msg', (Except.ok msg : Except Fault DnsMessage) = .ok msg' := ⟨msg, rfl⟩
        rw [and_iff_right hfirst]
        by_cases hquestions : msg.hasQuestions = true
        · simp only [hquestions, if_true]
          exact ih
        · simp only [hquestions]
          exact ih

/-! ## Files -/

theorem loadCache_eq_ok_iff {s : CachingResolver} {now : Int} {file : Bytes} :
    (s.loadCache now file).2 = .ok () ↔
      ∀ wire ∈ filePayloads file, ∃ msg, DnsMessage.parse wire = .ok msg := by
  unfold loadCache filePayloads
  cases readDiskHeader file with
  | none => simp
  | some p => exact loadLoop_eq_ok_iff

theorem lookup_loadCache {s : CachingResolver} {now : Int} {file : Bytes} {key : CacheKey}
    {entry : CacheEntry} (h : (s.loadCache now file).1.cache.lookup key = some entry) :
    s.cache.lookup key = some entry ∨ LoadedFrom now file entry := by
  unfold loadCache at h
  cases hheader : readDiskHeader file with
  | none =>
    rw [hheader] at h
    exact Or.inl h
  | some p =>
    obtain ⟨count, stream⟩ := p
    obtain ⟨rfl, -⟩ := readDiskHeader_eq_some_iff.mp hheader
    rw [hheader] at h
    exact (lookup_loadLoop h).imp_right (·.mono ⟨diskHeader count, [], by simp⟩)

/-- Loading the file into an empty cache returns, and every key maps to a message
that a part of the file decodes to, with at least one question. -/
def LoadsCleanly (now : Int) (file : Bytes) : Prop :=
  (loadCache {} now file).2 = .ok () ∧
    ∀ key entry, (loadCache {} now file).1.cache.lookup key = some entry →
      ∃ wire msg, wire <:+: file ∧ DnsMessage.parse wire = .ok msg ∧ msg.questions ≠ [] ∧
        entry.msg = clobberTTL msg entry.ttl

/-- A file loads cleanly exactly when the message bytes of every record the loop
arrives at are a message of the grammar. -/
theorem loadsCleanly_iff (now : Int) (file : Bytes) :
    LoadsCleanly now file ↔ ∀ wire ∈ filePayloads file, ∃ w, Wire.MessageAt wire w := by
  have hmessages : (∀ wire ∈ filePayloads file, ∃ msg, DnsMessage.parse wire = .ok msg) ↔
      ∀ wire ∈ filePayloads file, ∃ w, Wire.MessageAt wire w := by
    refine forall₂_congr fun wire _ => ⟨fun h => ?_, fun h => ?_⟩
    · obtain ⟨msg, hmsg⟩ := h
      obtain ⟨w, hw, -⟩ := DnsMessage.parse_eq_ok_iff.mp hmsg
      exact ⟨w, hw⟩
    · obtain ⟨w, hw⟩ := h
      exact ⟨w.flatten, DnsMessage.parse_eq_ok_iff.mpr ⟨w, hw, rfl⟩⟩
  rw [← hmessages, LoadsCleanly, loadCache_eq_ok_iff]
  refine and_iff_left fun key entry hlookup => ?_
  rcases lookup_loadCache hlookup with hempty | ⟨wire, msg, ttl, hwire, hparse, hq, rfl⟩
  · cases hempty
  · exact ⟨wire, msg, hwire, hparse, by simpa [DnsMessage.hasQuestions] using hq, rfl⟩

/-- One record, for the root name, whose twelve message bytes announce a question
that is not there. -/
def truncatedCacheFile : Bytes :=
  diskHeader 1 ++ diskRecord { name := [], type := 1, qclass := 1 } 60
    [0, 0, 0x81, 0x80, 0, 1, 0, 0, 0, 0, 0, 0]

theorem truncatedCacheFile_not_loadsCleanly : ¬LoadsCleanly 0 truncatedCacheFile := by
  intro h
  have hthrows : (loadCache {} 0 truncatedCacheFile).2 = .error (.thrown .truncatedName) := by
    decide +kernel
  rw [LoadsCleanly, hthrows] at h
  cases h.1

end CachingResolver
end Dnss
