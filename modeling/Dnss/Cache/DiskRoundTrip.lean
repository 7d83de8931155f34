/-
Saving the cache and loading the file again.

The writer turns the map into a header and one record for each entry it admits.
The reader takes a record of at most 4096 message bytes as it was written.  A longer
one it passes over without its message bytes, and so takes those bytes for the next
record: `longReply_not_diskRoundTrips` is a run that loses an entry to this.

When no admitted entry is that long, the framing holds, and the round trip comes
down to the codec.  When the header announces no more records than there are, no other
bytes can stand in for a record that was passed over.  `diskRoundTrips_iff` says for both
cases that the round trip works exactly when every admitted message is short and well
formed.
-/
import Dnss.Cache.Capacity
import Dnss.Protocol.RoundTrip

namespace Dnss

/-! ## Messages up to their TTLs -/

namespace Wire

def Record.withTTL (ttl : UInt32) (rr : Record) : Record := { rr with ttl }

def Message.withTTL (ttl : UInt32) (m : Message) : Message :=
  { m with
    answers := m.answers.map (Record.withTTL ttl),
    authorities := m.authorities.map (Record.withTTL ttl),
    additionals := m.additionals.map (Record.withTTL ttl) }

theorem Message.records_withTTL (ttl : UInt32) (m : Message) :
    (m.withTTL ttl).records = m.records.map (Record.withTTL ttl) := by
  simp only [Message.records, Message.withTTL, List.map_append]

theorem Message.owners_withTTL (ttl : UInt32) (m : Message) :
    (m.withTTL ttl).owners = m.owners := by
  rw [Message.owners, Message.records_withTTL, List.map_map]
  rfl

theorem Message.Fits.withTTL {m : Message} (h : m.Fits) (ttl : UInt32) :
    (m.withTTL ttl).Fits := by
  refine ⟨h.questions, fun rr hrr => ?_, h.qdcount, ?_, ?_, ?_⟩
  · rw [Message.records_withTTL] at hrr
    obtain ⟨rr', hrr', rfl⟩ := List.mem_map.mp hrr
    obtain ⟨howner, hrdata, hsize⟩ := h.records rr' hrr'
    exact ⟨howner, hrdata, hsize⟩
  · exact (List.length_map _).trans_lt h.ancount
  · exact (List.length_map _).trans_lt h.nscount
  · exact (List.length_map _).trans_lt h.arcount

end Wire

namespace CachingResolver

open Machine

theorem clobberTTL_flatten (w : Wire.Message) (ttl : Int) :
    clobberTTL w.flatten ttl = (w.withTTL (UInt32.ofInt ttl)).flatten := by
  simp only [clobberTTL, Wire.Message.flatten, Wire.Message.withTTL, List.map_map,
    List.length_map]
  rfl

/-- The TTLs do not matter to the codec. -/
theorem wellFormed_clobberTTL {m : DnsMessage} (h : m.WellFormed) (ttl : Int) :
    (clobberTTL m ttl).WellFormed := by
  refine ⟨h.qdcount, ?_, ?_, ?_, h.questions, fun rr hrr => ?_⟩
  · exact h.ancount.trans (List.length_map _).symm
  · exact h.nscount.trans (List.length_map _).symm
  · exact h.arcount.trans (List.length_map _).symm
  · rw [records_clobberTTL] at hrr
    obtain ⟨rr', hrr', rfl⟩ := List.mem_map.mp hrr
    obtain ⟨hname, hsize, hnames, hmx, hsoa⟩ := h.records rr' hrr'
    exact ⟨hname, hsize, hnames, hmx, hsoa⟩

theorem length_rdata_le_packed {m : DnsMessage} {rr : DnsResourceRecord} (h : rr ∈ m.records) :
    rr.rdata.length ≤ m.packed.length := by
  obtain ⟨before, after, hrecords⟩ := List.append_of_mem h
  simp only [DnsMessage.packed, hrecords, List.flatMap_append, List.flatMap_cons,
    DnsMessage.packedRecord, List.length_append]
  omega

/-- Among the messages with one TTL, the ones that packing and parsing give back up
to TTLs are the well-formed ones. -/
theorem wellFormed_of_parse_packed {m m' : DnsMessage} {ttl : Int}
    (huniform : clobberTTL m ttl = m) (hpack : m.Packable) (hsize : m.packed.length ≤ 65535)
    (hparse : DnsMessage.parse m.packed = .ok m') (hsame : clobberTTL m' 0 = clobberTTL m 0) :
    m.WellFormed := by
  obtain ⟨w, hw, rfl⟩ := DnsMessage.parse_eq_ok_iff.mp hparse
  have hm : m = (w.withTTL (UInt32.ofInt ttl)).flatten := by
    rw [← clobberTTL_flatten, ← clobberTTL_clobberTTL w.flatten 0 ttl, hsame,
      clobberTTL_clobberTTL, huniform]
  have howners := DnsMessage.packable_flatten_iff.mp (hm ▸ hpack)
  rw [Wire.Message.owners_withTTL] at howners
  have hrdata : ∀ rr ∈ w.records, rr.rdata.recode.encode.length ≤ 65535 := by
    intro rr hrr
    have hmem : (rr.withTTL (UInt32.ofInt ttl)).flatten ∈ m.records := by
      rw [hm, DnsMessage.records_flatten, Wire.Message.records_withTTL]
      exact List.mem_map_of_mem (List.mem_map_of_mem hrr)
    rw [← Wire.Rdata.flatten_eq]
    exact Nat.le_trans (length_rdata_le_packed hmem) hsize
  have hfits := (hw.fits howners hrdata).withTTL (UInt32.ofInt ttl)
  -- The packed bytes carry `w` and its recoding, so the names of `w` are recoded ones.
  have hrecode : w = (w.withTTL (UInt32.ofInt ttl)).recode := by
    refine hw.functional ?_
    rw [hm, DnsMessage.packed_flatten]
    exact Wire.messageAt_encode hfits
  rw [hm]
  refine DnsMessage.wellFormed_flatten hfits fun ls hls => ?_
  rw [Wire.Message.owners_withTTL] at hls
  have hname := Wire.Message.mem_names_of_mem_owners hls
  rw [hrecode, Wire.Message.names_recode] at hname
  obtain ⟨ls', -, rfl⟩ := List.mem_map.mp hname
  exact Wire.redotted_redotted ls'

/-- The question of a packed message is not lost on the way back. -/
theorem hasQuestions_of_parse_packed {m m' : DnsMessage} (hone : m.questions.length = 1)
    (hparse : DnsMessage.parse m.packed = .ok m') : m'.hasQuestions = true := by
  obtain ⟨w, ⟨hd, hof, hseg, -⟩, rfl⟩ := DnsMessage.parse_eq_ok_iff.mp hparse
  have hpacked : Cursor.SegAt m.packed 0 (Wire.headerBytes
      { id := m.header.id, flags := m.header.flags, qdcount := UInt16.ofNat m.questions.length,
        ancount := UInt16.ofNat m.answers.length, nscount := UInt16.ofNat m.authorities.length,
        arcount := UInt16.ofNat m.additionals.length }) :=
    List.prefix_append _ _
  have hcount := hof.qdcount
  rw [Wire.headerBytes_inj hseg hpacked, hone] at hcount
  have hlen : w.questions.length = 1 := hcount.symm
  obtain ⟨q, hq⟩ := List.length_eq_one_iff.mp hlen
  simp [DnsMessage.hasQuestions, Wire.Message.flatten, hq]

/-! ## The writer -/

/-- The writer's own filters. -/
def Admitted (now : Int) (key : CacheKey) (entry : CacheEntry) : Prop :=
  now < entry.expiresAt ∧ 1 ≤ remaining now entry ∧ key.name.length ≤ 255 ∧
    entry.msg.packed.length ≤ 65535

instance (now : Int) (key : CacheKey) (entry : CacheEntry) : Decidable (Admitted now key entry) :=
  inferInstanceAs (Decidable (_ ∧ _))

def admitted (now : Int) (items : List CacheItem) : List CacheItem :=
  items.filter fun item => Admitted now item.1 item.2

def itemFields (now : Int) (item : CacheItem) : DiskFields :=
  { key := item.1, ttl := UInt32.ofInt (remaining now item.2),
    wireLen := UInt16.ofNat item.2.msg.packed.length }

def itemRecord (now : Int) (item : CacheItem) : Bytes :=
  (itemFields now item).bytes ++ item.2.msg.packed

/-- When every message packs, the writer writes the records of the entries it
admits. -/
theorem saveItems_eq {now : Int} {items : List CacheItem}
    (h : ∀ item ∈ items, item.2.msg.Packable) :
    saveItems now items = ((admitted now items).flatMap (itemRecord now), .ok ()) := by
  induction items with
  | nil => rfl
  | cons item items ih =>
    rw [List.forall_mem_cons] at h
    have hpack := DnsMessage.pack_eq_ok_iff.mpr ⟨h.1, rfl⟩
    have hskip : ¬Admitted now item.1 item.2 → admitted now (item :: items) =
        admitted now items := fun hnot => List.filter_cons_of_neg (by simpa using hnot)
    by_cases hexp : item.2.expiresAt ≤ now
    · rw [saveItems, if_pos hexp, ih h.2, hskip fun hadm => Int.not_le.mpr hadm.1 hexp]
    · by_cases hrem : remaining now item.2 < 1
      · rw [saveItems, if_neg hexp, if_pos hrem, ih h.2,
          hskip fun hadm => Int.not_le.mpr hrem hadm.2.1]
      · by_cases hname : 255 < item.1.name.length
        · rw [saveItems, if_neg hexp, if_neg hrem, if_pos hname, ih h.2,
            hskip fun hadm => Nat.not_le.mpr hname hadm.2.2.1]
        · rw [saveItems, if_neg hexp, if_neg hrem, if_neg hname, hpack, ih h.2]
          by_cases hsize : 65535 < item.2.msg.packed.length
          · simp only [hsize, if_true]
            rw [hskip fun hadm => Nat.not_le.mpr hsize hadm.2.2.2]
          · have hadm : Admitted now item.1 item.2 :=
              ⟨Int.not_le.mp hexp, Int.not_lt.mp hrem, Nat.not_lt.mp hname, Nat.not_lt.mp hsize⟩
            have hkeep : admitted now (item :: items) = item :: admitted now items :=
              List.filter_cons_of_pos (by simpa using hadm)
            simp only [hsize, if_false, hkeep, List.flatMap_cons]
            rfl

theorem length_admitted_le (now : Int) (items : List CacheItem) :
    (admitted now items).length ≤ items.countP fun item => now < item.2.expiresAt := by
  rw [admitted, ← List.countP_eq_length_filter]
  refine List.countP_mono_left fun item _ h => ?_
  simpa using (of_decide_eq_true h).1

/-! ## The reader -/

theorem length_packed_ge (m : DnsMessage) : 12 ≤ m.packed.length := by
  have hheader : (DnsMessage.packHeader m).length = 12 := rfl
  rw [DnsMessage.packed, List.length_append, hheader]
  omega

/-- The record of the entry is one the reader takes as it was written. -/
structure Framed (item : CacheItem) : Prop where
  name : item.1.name.length ≤ 255
  size : item.2.msg.packed.length ≤ 4096

theorem readFields_itemRecord {now : Int} {item : CacheItem} (h : item.1.name.length ≤ 255)
    (rest : Bytes) :
    readFields (itemRecord now item ++ rest) =
      some (itemFields now item, item.2.msg.packed ++ rest) :=
  readFields_eq_some_iff.mpr ⟨h, List.append_assoc _ _ _⟩

theorem wireLen_itemFields {now : Int} {item : CacheItem}
    (h : item.2.msg.packed.length ≤ 65535) :
    (itemFields now item).wireLen.toNat = item.2.msg.packed.length :=
  Wire.toNat_ofNat_of_le h

/-- A record that the writer admits is refused for its length alone. -/
theorem refused_itemFields_iff {now : Int} {item : CacheItem}
    (h : item.2.msg.packed.length ≤ 65535) :
    Refused (itemFields now item) ↔ 4096 < item.2.msg.packed.length := by
  have hmin := length_packed_ge item.2.msg
  rw [Refused, UInt16.lt_iff_toNat_lt, UInt16.lt_iff_toNat_lt, wireLen_itemFields h]
  show item.2.msg.packed.length < 12 ∨ 4096 < item.2.msg.packed.length ↔ _
  omega

theorem Framed.not_refused {now : Int} {item : CacheItem} (h : Framed item) :
    ¬Refused (itemFields now item) := by
  rw [refused_itemFields_iff (Nat.le_trans h.size (by decide))]
  exact Nat.not_lt.mpr h.size

theorem Framed.takeN {now : Int} {item : CacheItem} (h : Framed item) (rest : Bytes) :
    Cursor.takeN (itemFields now item).wireLen.toNat (item.2.msg.packed ++ rest) =
      some (item.2.msg.packed, rest) := by
  rw [wireLen_itemFields (Nat.le_trans h.size (by decide)), Cursor.takeN_append]

/-- A longer message is left in the stream, where the reader looks for the next
record. -/
theorem loadLoop_long (now : Int) (item : CacheItem) (hname : item.1.name.length ≤ 255)
    (hsize : item.2.msg.packed.length ≤ 65535) (hlong : 4096 < item.2.msg.packed.length)
    (count : Nat) (rest : Bytes) (cache : Cache) :
    loadLoop now (count + 1) (itemRecord now item ++ rest) cache =
      loadLoop now count (item.2.msg.packed ++ rest) cache := by
  simp only [loadLoop, readFields_itemRecord hname]
  exact if_pos ((refused_itemFields_iff hsize).mpr hlong)

/-- The reader presents the packed messages to `parse`, and stops at the end of the
stream when the count promises more. -/
theorem payloads_records {now : Int} {items : List CacheItem} (h : ∀ item ∈ items, Framed item)
    {count : Nat} (hcount : items.length ≤ count) :
    payloads count (items.flatMap (itemRecord now)) = items.map fun item => item.2.msg.packed := by
  induction items generalizing count with
  | nil =>
    cases count with
    | zero => rfl
    | succ count => rfl
  | cons item items ih =>
    rw [List.forall_mem_cons] at h
    rw [List.length_cons] at hcount
    obtain ⟨count, rfl⟩ : ∃ n, count = n + 1 := ⟨count - 1, by omega⟩
    have htaken : ¬Refused (itemFields now item) := h.1.not_refused
    rw [List.map_cons, ← ih h.2 (Nat.le_of_succ_le_succ hcount)]
    simp only [List.flatMap_cons, payloads, readFields_itemRecord h.1.name, h.1.takeN]
    exact if_neg htaken

theorem length_recordKeys_le (count : Nat) (stream : Bytes) :
    (recordKeys count stream).length ≤ count := by
  induction count generalizing stream with
  | zero => exact Nat.le_refl 0
  | succ count ih =>
    rw [recordKeys]
    cases readFields stream with
    | none => exact Nat.zero_le _
    | some p =>
      dsimp only
      split
      · exact Nat.le_succ_of_le (ih _)
      · cases Cursor.takeN p.1.wireLen.toNat p.2 with
        | none => exact Nat.zero_le _
        | some q =>
          dsimp only
          split
          · exact Nat.zero_le _
          · split
            · exact Nat.succ_le_succ (ih _)
            · exact Nat.le_succ_of_le (ih _)

theorem recordKeys_long {now : Int} {item : CacheItem} (hname : item.1.name.length ≤ 255)
    (hsize : item.2.msg.packed.length ≤ 65535) (hlong : 4096 < item.2.msg.packed.length)
    (count : Nat) (rest : Bytes) :
    recordKeys (count + 1) (itemRecord now item ++ rest) =
      recordKeys count (item.2.msg.packed ++ rest) := by
  simp only [recordKeys, readFields_itemRecord hname]
  exact if_pos ((refused_itemFields_iff hsize).mpr hlong)

/-- A record is passed over, so there are fewer keys than records. -/
theorem length_recordKeys_lt {now : Int} {items : List CacheItem}
    (h : ∀ item ∈ items, Admitted now item.1 item.2)
    (hlong : ∃ item ∈ items, 4096 < item.2.msg.packed.length) :
    (recordKeys items.length (items.flatMap (itemRecord now))).length < items.length := by
  induction items with
  | nil =>
    obtain ⟨item, hitem, -⟩ := hlong
    cases hitem
  | cons item items ih =>
    rw [List.forall_mem_cons] at h
    obtain ⟨-, -, hname, hsize⟩ := h.1
    rw [List.length_cons, List.flatMap_cons]
    by_cases hfirst : 4096 < item.2.msg.packed.length
    · rw [recordKeys_long hname hsize hfirst]
      exact Nat.lt_succ_of_le (length_recordKeys_le _ _)
    · have hframed : Framed item := ⟨hname, Nat.not_lt.mp hfirst⟩
      have hrest := ih h.2 (by
        obtain ⟨other, hother, hlarge⟩ := hlong
        rcases List.mem_cons.mp hother with rfl | hmem
        · exact absurd hlarge hfirst
        · exact ⟨other, hmem, hlarge⟩)
      simp only [recordKeys, readFields_itemRecord hname, hframed.takeN]
      rw [if_neg hframed.not_refused]
      split
      · exact Nat.zero_lt_succ _
      · split
        · exact Nat.succ_lt_succ hrest
        · exact Nat.lt_succ_of_lt hrest

/-- What `parse` makes of the packed message, where it succeeds. -/
def reparsed (m : DnsMessage) : DnsMessage :=
  match DnsMessage.parse m.packed with
  | .ok m' => m'
  | .error _ => m

theorem reparsed_eq {m m' : DnsMessage} (h : DnsMessage.parse m.packed = .ok m') :
    reparsed m = m' := by
  rw [reparsed, h]

/-- The entry the reader makes of a saved one. -/
def reloaded (now : Int) (entry : CacheEntry) : CacheEntry :=
  loadedEntry now (UInt32.ofInt (remaining now entry)) (reparsed entry.msg)

/-- The reader takes in every record whose message parses. -/
theorem loadLoop_records {now : Int} {items : List CacheItem} (h : ∀ item ∈ items, Framed item)
    (hone : ∀ item ∈ items, item.2.msg.questions.length = 1)
    (hparse : ∀ item ∈ items, ∃ m', DnsMessage.parse item.2.msg.packed = .ok m')
    {count : Nat} (hcount : items.length ≤ count) (cache : Cache) :
    loadLoop now count (items.flatMap (itemRecord now)) cache =
      (items.foldl (fun c item => c.insert item.1 (reloaded now item.2)) cache, .ok ()) := by
  induction items generalizing count cache with
  | nil =>
    cases count with
    | zero => rfl
    | succ count => rfl
  | cons item items ih =>
    rw [List.forall_mem_cons] at h hone hparse
    rw [List.length_cons] at hcount
    obtain ⟨count, rfl⟩ : ∃ n, count = n + 1 := ⟨count - 1, by omega⟩
    obtain ⟨m', hm'⟩ := hparse.1
    have hentry : reloaded now item.2 = loadedEntry now (itemFields now item).ttl m' := by
      rw [reloaded, reparsed_eq hm']
      rfl
    rw [List.foldl_cons, ← ih h.2 hone.2 hparse.2 (Nat.le_of_succ_le_succ hcount), hentry]
    simp only [List.flatMap_cons, loadLoop, readFields_itemRecord h.1.name, h.1.takeN, hm',
      hasQuestions_of_parse_packed hone.1 hm', if_true]
    exact if_neg h.1.not_refused

/-! ## The round trip -/

/-- The loaded entry has the saved one's remaining seconds as its lifetime, and its
message up to record TTLs. -/
structure Reloads (now : Int) (saved loaded : CacheEntry) : Prop where
  ttl : loaded.ttl = remaining now saved
  msg : clobberTTL loaded.msg 0 = clobberTTL saved.msg 0

/-- Saving the cache and loading the file into an empty one, at the same instant,
gives the entries the writer admits and no others. -/
def DiskRoundTrips (s : CachingResolver) (env : Env) : Prop :=
  ∃ file s', s.saveCache env = (file, .ok ()) ∧ loadCache {} env.now file = (s', .ok ()) ∧
    (∀ key saved, s.cache.lookup key = some saved → Admitted env.now key saved →
      ∃ loaded, s'.cache.lookup key = some loaded ∧ Reloads env.now saved loaded) ∧
    ∀ key loaded, s'.cache.lookup key = some loaded →
      ∃ saved, s.cache.lookup key = some saved ∧ Admitted env.now key saved ∧
        Reloads env.now saved loaded

theorem remaining_lt {now : Int} {entry : CacheEntry} (hnow : now < entry.expiresAt)
    (h : entry.expiresAt ≤ now + seconds 2147483647) : remaining now entry < 2 ^ 32 := by
  unfold seconds at h
  rw [remaining, Int.tdiv_eq_ediv_of_nonneg (by omega)]
  omega

theorem reloads_reloaded_iff {now : Int} {entry : CacheEntry} (hlow : 1 ≤ remaining now entry)
    (hhigh : remaining now entry < 2 ^ 32) :
    Reloads now entry (reloaded now entry) ↔
      clobberTTL (reparsed entry.msg) 0 = clobberTTL entry.msg 0 := by
  have httl := Word.toNat_ofInt32 (by omega) hhigh
  have hmsg : clobberTTL (reloaded now entry).msg 0 = clobberTTL (reparsed entry.msg) 0 :=
    clobberTTL_clobberTTL _ _ _
  rw [← hmsg]
  exact ⟨fun h => h.msg, fun h => ⟨httl, h⟩⟩

section
variable {s : CachingResolver} {env : Env}

/-- The entries the writer admits, in the order it writes them. -/
def savedItems (s : CachingResolver) (env : Env) : List CacheItem :=
  admitted env.now (env.order.order s.cache.entries)

/-- The file of a cache whose messages pack. -/
def savedFile (s : CachingResolver) (env : Env) : Bytes :=
  diskHeader (countUnexpired env.now (env.order.order s.cache.entries)) ++
    (savedItems s env).flatMap (itemRecord env.now)

theorem mem_savedItems_iff {item : CacheItem} :
    item ∈ savedItems s env ↔
      s.cache.lookup item.1 = some item.2 ∧ Admitted env.now item.1 item.2 := by
  rw [savedItems, admitted, List.mem_filter, mem_order_iff, decide_eq_true_iff]

theorem nodup_keys_savedItems (s : CachingResolver) (env : Env) :
    ((savedItems s env).map fun item => item.1).Nodup := by
  have hperm := (env.order.perm s.cache.entries).map fun item => item.1
  exact (hperm.nodup_iff.mpr s.cache.keys_nodup).sublist (List.filter_sublist.map _)

theorem saveCache_eq
    (hpack : ∀ key entry, s.cache.lookup key = some entry → entry.msg.Packable) :
    s.saveCache env = (savedFile s env, .ok ()) := by
  rw [saveCache, saveItems_eq fun item hitem => hpack item.1 item.2 (mem_order_iff.mp hitem)]
  rfl

/-- The header announces the entries that have not expired, and passes the reader's test. -/
theorem readDiskHeader_savedFile (env : Env) (h : s.cache.entries.length ≤ maxCacheSize) :
    ∃ count : UInt32,
      count.toNat =
        (env.order.order s.cache.entries).countP (fun item => env.now < item.2.expiresAt) ∧
      readDiskHeader (savedFile s env) =
        some (count, (savedItems s env).flatMap (itemRecord env.now)) := by
  have hle : (env.order.order s.cache.entries).countP (fun item => env.now < item.2.expiresAt) ≤
      50000 := by
    refine Nat.le_trans List.countP_le_length ?_
    rw [(env.order.perm s.cache.entries).length_eq]
    exact h
  have hcount : (countUnexpired env.now (env.order.order s.cache.entries)).toNat =
      (env.order.order s.cache.entries).countP (fun item => env.now < item.2.expiresAt) :=
    UInt32.toNat_ofNat_of_lt' (by show _ < 4294967296; omega)
  refine ⟨_, hcount, readDiskHeader_eq_some_iff.mpr ⟨rfl, ?_⟩⟩
  rw [UInt32.le_iff_toNat_le, hcount]
  show _ ≤ 100000
  omega

/-- These are at least the records that follow. -/
theorem length_savedItems_le {count : UInt32} (hcount : count.toNat =
    (env.order.order s.cache.entries).countP (fun item => env.now < item.2.expiresAt)) :
    (savedItems s env).length ≤ count.toNat := by
  rw [hcount]
  exact length_admitted_le _ _

/-- The reader returns from the file exactly when every saved message parses. -/
theorem loadCache_savedFile_eq_ok_iff (h : s.cache.entries.length ≤ maxCacheSize)
    (hframed : ∀ item ∈ savedItems s env, Framed item) :
    (loadCache {} env.now (savedFile s env)).2 = .ok () ↔
      ∀ item ∈ savedItems s env, ∃ m', DnsMessage.parse item.2.msg.packed = .ok m' := by
  obtain ⟨count, hcount, hheader⟩ := readDiskHeader_savedFile env h
  rw [loadCache_eq_ok_iff, filePayloads, hheader]
  simp only [payloads_records hframed (length_savedItems_le hcount), List.forall_mem_map]

/-- When every saved message parses, the reader leaves the reloaded entries. -/
theorem lookup_loadCache_savedFile (h : Within env.now s.cache)
    (hframed : ∀ item ∈ savedItems s env, Framed item)
    (hparse : ∀ item ∈ savedItems s env, ∃ m', DnsMessage.parse item.2.msg.packed = .ok m')
    {key : CacheKey} {loaded : CacheEntry} :
    (loadCache {} env.now (savedFile s env)).1.cache.lookup key = some loaded ↔
      ∃ saved, s.cache.lookup key = some saved ∧ Admitted env.now key saved ∧
        reloaded env.now saved = loaded := by
  obtain ⟨count, hcount, hheader⟩ := readDiskHeader_savedFile env h.size
  have hone : ∀ item ∈ savedItems s env, item.2.msg.questions.length = 1 := fun item hitem =>
    (h.entries _ _ (mem_savedItems_iff.mp hitem).1).question
  have hcache : (loadCache {} env.now (savedFile s env)).1.cache =
      (savedItems s env).foldl (fun c item => c.insert item.1 (reloaded env.now item.2)) ∅ := by
    rw [loadCache, hheader]
    simp only [loadLoop_records hframed hone hparse (length_savedItems_le hcount)]
  rw [hcache, Assoc.lookup_foldl_insert (fun item => reloaded env.now item.2)
    (nodup_keys_savedItems s env) ∅, AList.lookup_empty]
  constructor
  · intro hex
    rcases hex with ⟨item, hitem, rfl, hloaded⟩ | ⟨-, hnone⟩
    · obtain ⟨hlookup, hadm⟩ := mem_savedItems_iff.mp hitem
      exact ⟨item.2, hlookup, hadm, hloaded⟩
    · cases hnone
  · intro hex
    obtain ⟨saved, hlookup, hadm, hloaded⟩ := hex
    exact Or.inl ⟨⟨key, saved⟩, mem_savedItems_iff.mpr ⟨hlookup, hadm⟩, rfl, hloaded⟩

/-- A saved entry comes back exactly when the codec gives its message back up to
TTLs. -/
theorem reloads_iff_of_within (h : Within env.now s.cache) {key : CacheKey} {entry : CacheEntry}
    (hlookup : s.cache.lookup key = some entry) (hadm : Admitted env.now key entry) :
    Reloads env.now entry (reloaded env.now entry) ↔
      clobberTTL (reparsed entry.msg) 0 = clobberTTL entry.msg 0 :=
  reloads_reloaded_iff hadm.2.1 (remaining_lt hadm.1 (h.entries key entry hlookup).lifetime)

theorem wellFormed_of_diskRoundTrips (h : Within env.now s.cache)
    (hpack : ∀ key entry, s.cache.lookup key = some entry → entry.msg.Packable)
    (hframed : ∀ item ∈ savedItems s env, Framed item) (htrip : DiskRoundTrips s env)
    {key : CacheKey} {entry : CacheEntry} (hlookup : s.cache.lookup key = some entry)
    (hadm : Admitted env.now key entry) : entry.msg.WellFormed := by
  obtain ⟨file, s', hsave, hload, hall, -⟩ := htrip
  rw [saveCache_eq hpack, Prod.mk.injEq] at hsave
  rw [← hsave.1] at hload
  have hparse := (loadCache_savedFile_eq_ok_iff h.size hframed).mp (by rw [hload])
  obtain ⟨loaded, hloaded, hsame⟩ := hall key entry hlookup hadm
  have hs' : s' = (loadCache {} env.now (savedFile s env)).1 := by rw [hload]
  rw [hs', lookup_loadCache_savedFile h hframed hparse] at hloaded
  obtain ⟨saved, hsaved, -, rfl⟩ := hloaded
  obtain rfl : saved = entry := Option.some.inj (hsaved.symm.trans hlookup)
  obtain ⟨m', hm'⟩ := hparse ⟨key, saved⟩ (mem_savedItems_iff.mpr ⟨hlookup, hadm⟩)
  have hmsg := (reloads_iff_of_within h hlookup hadm).mp hsame
  rw [reparsed_eq hm'] at hmsg
  exact wellFormed_of_parse_packed (h.entries key saved hlookup).uniform
    (hpack key saved hlookup) hadm.2.2.2 hm' hmsg

theorem diskRoundTrips_of_wellFormed (h : Within env.now s.cache)
    (hpack : ∀ key entry, s.cache.lookup key = some entry → entry.msg.Packable)
    (hframed : ∀ item ∈ savedItems s env, Framed item)
    (hwell : ∀ key entry, s.cache.lookup key = some entry → Admitted env.now key entry →
      entry.msg.WellFormed) : DiskRoundTrips s env := by
  have hparse : ∀ item ∈ savedItems s env, ∃ m', DnsMessage.parse item.2.msg.packed = .ok m' := by
    intro item hitem
    obtain ⟨hlookup, hadm⟩ := mem_savedItems_iff.mp hitem
    exact ⟨item.2.msg, (hwell _ _ hlookup hadm).parse_packed.2⟩
  have hsame : ∀ key entry, s.cache.lookup key = some entry → Admitted env.now key entry →
      Reloads env.now entry (reloaded env.now entry) := by
    intro key entry hlookup hadm
    rw [reloads_iff_of_within h hlookup hadm,
      reparsed_eq (hwell key entry hlookup hadm).parse_packed.2]
  have hok := (loadCache_savedFile_eq_ok_iff h.size hframed).mpr hparse
  refine ⟨savedFile s env, _, saveCache_eq hpack, Prod.ext rfl hok, ?_, ?_⟩
  · intro key saved hlookup hadm
    refine ⟨reloaded env.now saved, ?_, hsame key saved hlookup hadm⟩
    exact (lookup_loadCache_savedFile h hframed hparse).mpr ⟨saved, hlookup, hadm, rfl⟩
  · intro key loaded hloaded
    obtain ⟨saved, hlookup, hadm, rfl⟩ := (lookup_loadCache_savedFile h hframed hparse).mp hloaded
    exact ⟨saved, hlookup, hadm, hsame key saved hlookup hadm⟩

/-- Every entry that has not expired is admitted, so that the header announces as many records as
there are. -/
def AllAdmitted (now : Int) (cache : Cache) : Prop :=
  ∀ key entry, cache.lookup key = some entry → now < entry.expiresAt → Admitted now key entry

/-- The reader takes every record that the writer writes. -/
def AllShort (now : Int) (cache : Cache) : Prop :=
  ∀ key entry, cache.lookup key = some entry → Admitted now key entry →
    entry.msg.packed.length ≤ 4096

theorem AllShort.framed (h : AllShort env.now s.cache) : ∀ item ∈ savedItems s env, Framed item := by
  intro item hitem
  obtain ⟨hlookup, hadm⟩ := mem_savedItems_iff.mp hitem
  exact ⟨hadm.2.2.1, h _ _ hlookup hadm⟩

theorem length_savedItems_of_allAdmitted (h : AllAdmitted env.now s.cache) :
    (savedItems s env).length =
      (env.order.order s.cache.entries).countP (fun item => env.now < item.2.expiresAt) := by
  rw [savedItems, admitted, ← List.countP_eq_length_filter]
  refine List.countP_congr fun item hitem => ?_
  rw [decide_eq_true_iff, decide_eq_true_iff]
  exact ⟨fun hadm => hadm.1, h _ _ (mem_order_iff.mp hitem)⟩

/-- Where the header announces no more than there is, a record that is passed over is missing in
the end. -/
theorem allShort_of_diskRoundTrips (h : Within env.now s.cache)
    (hpack : ∀ key entry, s.cache.lookup key = some entry → entry.msg.Packable)
    (hall : AllAdmitted env.now s.cache) (htrip : DiskRoundTrips s env) :
    AllShort env.now s.cache := by
  intro key entry hlookup hadm
  by_contra hlong
  obtain ⟨file, s', hsave, hload, hback, -⟩ := htrip
  rw [saveCache_eq hpack, Prod.mk.injEq] at hsave
  obtain ⟨count, hcount, hheader⟩ := readDiskHeader_savedFile env h.size
  rw [← length_savedItems_of_allAdmitted hall] at hcount
  have hkeys : fileKeys (savedFile s env) =
      recordKeys (savedItems s env).length ((savedItems s env).flatMap (itemRecord env.now)) := by
    rw [fileKeys, hheader]
    exact congrArg (fun n => recordKeys n _) hcount
  have hadmitted : ∀ item ∈ savedItems s env, Admitted env.now item.1 item.2 := fun item hitem =>
    (mem_savedItems_iff.mp hitem).2
  have hfew := length_recordKeys_lt hadmitted
    ⟨⟨key, entry⟩, mem_savedItems_iff.mpr ⟨hlookup, hadm⟩, Nat.not_le.mp hlong⟩
  -- Each of the saved keys is in the loaded map, so the file presents it.
  have hsubset : (savedItems s env).map (fun item => item.1) ⊆ fileKeys (savedFile s env) := by
    intro key' hkey'
    obtain ⟨item, hitem, rfl⟩ := List.mem_map.mp hkey'
    obtain ⟨hsaved, hadm'⟩ := mem_savedItems_iff.mp hitem
    obtain ⟨loaded, hloaded, -⟩ := hback _ _ hsaved hadm'
    have hmem : item.1 ∈ (loadCache {} env.now (savedFile s env)).1.cache := by
      rw [hsave.1, hload]
      exact AList.lookup_isSome.mp (by rw [hloaded]; rfl)
    exact mem_loadCache_iff.mp hmem
  have hmany := (List.subperm_of_subset (nodup_keys_savedItems s env) hsubset).length_le
  rw [List.length_map, hkeys] at hmany
  omega

/-- After a run without loads a cache whose messages pack comes back from its file exactly when
the messages that the writer admits are short and well formed.  If the header may announce more
records than there are, this is said only of caches without longer messages. -/
theorem diskRoundTrips_iff {ops : List Op} (hops : ∀ op ∈ ops, op.UpTo env.now)
    (hpack : ∀ key entry, (run step {} ops).cache.lookup key = some entry →
      ∃ wire, DnsMessage.pack entry.msg = .ok wire)
    (hframing : AllAdmitted env.now (run step {} ops).cache ∨
      AllShort env.now (run step {} ops).cache) :
    DiskRoundTrips (run step {} ops) env ↔
      ∀ key entry, (run step {} ops).cache.lookup key = some entry →
        Admitted env.now key entry → entry.msg.packed.length ≤ 4096 ∧ entry.msg.WellFormed := by
  have hwithin := within_run hops
  have hpackable : ∀ key entry, (run step {} ops).cache.lookup key = some entry →
      entry.msg.Packable := fun key entry hlookup =>
    DnsMessage.exists_pack_iff.mp (hpack key entry hlookup)
  constructor
  · intro htrip key entry hlookup hadm
    have hshort : AllShort env.now (run step {} ops).cache :=
      hframing.elim (fun hall => allShort_of_diskRoundTrips hwithin hpackable hall htrip) id
    exact ⟨hshort key entry hlookup hadm,
      wellFormed_of_diskRoundTrips hwithin hpackable hshort.framed htrip hlookup hadm⟩
  · intro hgood
    have hshort : AllShort env.now (run step {} ops).cache := fun key entry hlookup hadm =>
      (hgood key entry hlookup hadm).1
    exact diskRoundTrips_of_wellFormed hwithin hpackable hshort.framed fun key entry hlookup hadm =>
      (hgood key entry hlookup hadm).2

end

/-! ## A run that keeps its entry -/

theorem lookup_singleton_eq_some {key key' : CacheKey} {entry entry' : CacheEntry}
    (h : (AList.singleton key entry : Cache).lookup key' = some entry') :
    key' = key ∧ entry' = entry := by
  have hmem := AList.mem_lookup_iff.mp h
  rw [AList.singleton_entries] at hmem
  cases List.mem_singleton.mp hmem
  exact ⟨rfl, rfl⟩

/-- A query that misses in the empty resolver leaves its reply as the only entry. -/
theorem cache_query_empty {env : Env} {req u : DnsMessage} {q : DnsQuestion} (allowFanOut : Bool)
    (hq : req.questions = [q]) (hback : env.back req env.fanOutEnabled = .ok (some u))
    (hcache : shouldCache q u = true) :
    (run step {} [.query env req allowFanOut]).cache =
      AList.singleton q.key (entryOf env u (storeTTL env u)) := by
  have hstore := (query_store allowFanOut hq (probe_empty env q.key) hback hcache).2
  have hevict : evict (∅ : Cache) env = ∅ := if_neg (by decide)
  rw [hevict, AList.insert_empty] at hstore
  exact hstore

/-- The resolver behind knows the mail server of `ab.c`. -/
def mailEnv : Env :=
  { denyingEnv with back := fun _ _ => .ok (some DnsMessage.mxReply) }

def mailKey : CacheKey := { name := [0x61, 0x62, 0x2E, 0x63], type := DnsType.MX, qclass := 1 }

def mailQuery : Op :=
  .query mailEnv (DnsMessage.createQuery mailKey.name mailKey.type mailKey.qclass) true

def mailEntry : CacheEntry := entryOf mailEnv DnsMessage.mxReply 600

theorem cache_mailQuery :
    (run step {} [mailQuery]).cache = AList.singleton mailKey mailEntry := by
  have hshould : shouldCache { qname := mailKey.name, qtype := mailKey.type, qclass := 1 }
      DnsMessage.mxReply = true := by
    decide
  have httl : storeTTL mailEnv DnsMessage.mxReply = 600 := by decide
  have hcache := cache_query_empty true (questions_createQuery mailKey)
    (show mailEnv.back _ mailEnv.fanOutEnabled = .ok (some DnsMessage.mxReply) from rfl) hshould
  rw [httl] at hcache
  exact hcache

theorem wellFormed_mailEntry : mailEntry.msg.WellFormed :=
  wellFormed_clobberTTL DnsMessage.mxReply_wellFormed 600

theorem mailEntry_admitted : Admitted mailEnv.now mailKey mailEntry := by decide +kernel

/-- A run of one query whose entry is saved with its two records and comes back. -/
theorem mailQuery_diskRoundTrips : DiskRoundTrips (run step {} [mailQuery]) mailEnv := by
  have honly : ∀ key entry, (run step {} [mailQuery]).cache.lookup key = some entry →
      key = mailKey ∧ entry = mailEntry := by
    intro key entry hlookup
    rw [cache_mailQuery] at hlookup
    exact lookup_singleton_eq_some hlookup
  refine (diskRoundTrips_iff (fun op hop => ?_) (fun key entry hlookup => ?_)
    (.inl fun key entry hlookup _ => ?_)).mpr fun key entry hlookup _ => ?_
  · rw [List.mem_singleton.mp hop]
    exact Int.le_refl _
  · rw [(honly key entry hlookup).2]
    exact DnsMessage.exists_pack_iff.mpr wellFormed_mailEntry.parse_packed.1
  · obtain ⟨rfl, rfl⟩ := honly key entry hlookup
    exact mailEntry_admitted
  · rw [(honly key entry hlookup).2]
    exact ⟨by decide +kernel, wellFormed_mailEntry⟩

/-! ## A run that loses an entry -/

/-- An entry that is too long for the reader and stands alone in the cache is lost. -/
theorem not_diskRoundTrips_of_long {s : CachingResolver} {env : Env} {key : CacheKey}
    {entry : CacheEntry} (hcache : s.cache = AList.singleton key entry)
    (hpack : entry.msg.Packable) (hadm : Admitted env.now key entry)
    (hlong : 4096 < entry.msg.packed.length) : ¬DiskRoundTrips s env := by
  intro htrip
  obtain ⟨file, s', hsave, hload, hall, -⟩ := htrip
  have hlookup : s.cache.lookup key = some entry := by
    rw [hcache, ← AList.insert_empty]
    exact AList.lookup_insert _
  have horder : env.order.order s.cache.entries = [⟨key, entry⟩] := by
    have hperm := env.order.perm s.cache.entries
    rw [hcache, AList.singleton_entries] at hperm
    rw [hcache, AList.singleton_entries]
    exact List.perm_singleton.mp hperm
  have hitems : savedItems s env = [⟨key, entry⟩] := by
    rw [savedItems, horder]
    exact List.filter_cons_of_pos (decide_eq_true hadm)
  have hcount : countUnexpired env.now [(⟨key, entry⟩ : CacheItem)] = 1 := by
    simp [countUnexpired, hadm.1]
  have hfile : savedFile s env = diskHeader 1 ++ (itemRecord env.now ⟨key, entry⟩ ++ []) := by
    rw [savedFile, horder, hitems, hcount, List.flatMap_cons, List.flatMap_nil]
  rw [saveCache_eq fun key' entry' h' => by
    rw [hcache] at h'
    rw [(lookup_singleton_eq_some h').2]
    exact hpack, Prod.mk.injEq] at hsave
  have hheader := readDiskHeader_eq_some_iff.mpr ⟨hfile, by decide⟩
  -- The one record is passed over, and the count allows no other.
  have hempty : (loadCache {} env.now (savedFile s env)).1.cache = ∅ := by
    have hone : (1 : UInt32).toNat = 0 + 1 := rfl
    simp only [loadCache, hheader, hone]
    rw [loadLoop_long env.now ⟨key, entry⟩ hadm.2.2.1 hadm.2.2.2 hlong, loadLoop]
  rw [hsave.1, hload] at hempty
  obtain ⟨loaded, hloaded, -⟩ := hall key entry hlookup hadm
  rw [hempty] at hloaded
  cases hloaded

/-- The key of a question about the texts of `a`. -/
def textKey : CacheKey := { name := [0x61], type := 16, qclass := 1 }

def longText : Bytes := List.replicate 5000 0

/-- A reply with one record of 5000 bytes. -/
def longReply : DnsMessage :=
  { header := { id := 0, flags := 0x8180, qdcount := 1, ancount := 1 },
    questions := [{ qname := [0x61], qtype := 16, qclass := 1 }],
    answers :=
      [{ name := [0x61], type := 16, rclass := 1, ttl := 3600, rdata := longText }] }

def longEnv : Env :=
  { denyingEnv with back := fun _ _ => .ok (some longReply) }

def longQuery : Op :=
  .query longEnv (DnsMessage.createQuery textKey.name textKey.type textKey.qclass) true

def longEntry : CacheEntry := entryOf longEnv longReply 3600

theorem cache_longQuery :
    (run step {} [longQuery]).cache = AList.singleton textKey longEntry := by
  have hshould : shouldCache { qname := [0x61], qtype := 16, qclass := 1 } longReply = true := by
    decide
  have httl : storeTTL longEnv longReply = 3600 := by decide
  have hcache := cache_query_empty true (questions_createQuery textKey)
    (show longEnv.back _ longEnv.fanOutEnabled = .ok (some longReply) from rfl) hshould
  rw [httl] at hcache
  exact hcache

theorem length_packed_longEntry : longEntry.msg.packed.length = 5032 := by
  have hheader : (DnsMessage.packHeader longEntry.msg).length = 12 := rfl
  have hname : (Wire.encodeLabels (Separated.splitWords dot [0x61])).length = 3 := by decide
  have htext : longText.length = 5000 := List.length_replicate
  have hquestions : longEntry.msg.questions = [{ qname := [0x61], qtype := 16, qclass := 1 }] := rfl
  have hrecords : longEntry.msg.records =
      [{ name := [0x61], type := 16, rclass := 1, ttl := 3600, rdata := longText }] := rfl
  simp only [DnsMessage.packed, hquestions, hrecords, List.flatMap_singleton, List.length_append,
    DnsMessage.packedQuestion, DnsMessage.packedRecord, Word.be16Bytes_length,
    Wire.fixedFields_length, hheader, hname, htext]

theorem longEntry_admitted : Admitted denyingEnv.now textKey longEntry := by
  refine ⟨by decide, by decide, by decide, ?_⟩
  rw [length_packed_longEntry]
  decide

theorem packable_longEntry : longEntry.msg.Packable := by
  have hname : DnsMessage.PackableName [0x61] := by
    unfold DnsMessage.PackableName
    decide
  constructor
  · intro q hq
    rw [List.mem_singleton.mp hq]
    exact hname
  · intro rr hrr
    rw [List.mem_singleton.mp hrr]
    exact hname

/-- A run of one query whose entry is saved and then lost. -/
theorem longReply_not_diskRoundTrips :
    (∀ op ∈ [longQuery], op.UpTo denyingEnv.now) ∧
      (∀ key entry, (run step {} [longQuery]).cache.lookup key = some entry →
        ∃ wire, DnsMessage.pack entry.msg = .ok wire) ∧
      ¬DiskRoundTrips (run step {} [longQuery]) denyingEnv := by
  have hpack : ∀ key entry, (run step {} [longQuery]).cache.lookup key = some entry →
      entry.msg.Packable := by
    intro key entry hlookup
    rw [cache_longQuery] at hlookup
    rw [(lookup_singleton_eq_some hlookup).2]
    exact packable_longEntry
  have hlong : 4096 < longEntry.msg.packed.length := by
    rw [length_packed_longEntry]
    decide
  refine ⟨fun op hop => ?_, fun key entry hlookup => ?_, ?_⟩
  · rw [List.mem_singleton.mp hop]
    exact Int.le_refl _
  · exact DnsMessage.exists_pack_iff.mpr (hpack key entry hlookup)
  · exact not_diskRoundTrips_of_long cache_longQuery packable_longEntry longEntry_admitted hlong

end CachingResolver
end Dnss
