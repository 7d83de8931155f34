/-
The capacity of the L2 map, with a load at the start.

Every store of a run makes room first, so a map within its capacity stays there.  The
load makes no room and counts no entries: its only limit is the number of records that
the header of the file announces, and that may be twice the capacity.

`capacityKept_iff` says for every file and every run after it when the capacity is
kept.
-/
import Dnss.Cache.Bounds
import Dnss.Wire.Encode
import Mathlib.Data.List.Dedup

namespace Dnss
namespace CachingResolver

open Cursor Machine

/-! ## The keys a load stores -/

/-- The keys of the records that the loop of `loadCache` stores, in order and with
repetitions: complete records with a message of 12 to 4096 bytes and at least one
question, up to the first message that does not decode. -/
def recordKeys : Nat → Bytes → List CacheKey
  | 0, _ => []
  | count + 1, stream =>
    match readFields stream with
    | none => []
    | some (f, stream) =>
      if Refused f then recordKeys count stream
      else
        match takeN f.wireLen.toNat stream with
        | none => []
        | some (wire, stream) =>
          match DnsMessage.parse wire with
          | .error _ => []
          | .ok msg =>
            if msg.hasQuestions then f.key :: recordKeys count stream else recordKeys count stream

/-- The keys that a file presents. -/
def fileKeys (file : Bytes) : List CacheKey :=
  match readDiskHeader file with
  | none => []
  | some (count, stream) => recordKeys count.toNat stream

theorem mem_loadLoop_iff {now : Int} {count : Nat} {stream : Bytes} {cache : Cache}
    {key : CacheKey} :
    key ∈ (loadLoop now count stream cache).1 ↔ key ∈ recordKeys count stream ∨ key ∈ cache := by
  induction count generalizing stream cache with
  | zero => simp [loadLoop, recordKeys]
  | succ count ih =>
    rw [loadLoop, recordKeys]
    cases readFields stream with
    | none => simp
    | some p =>
      obtain ⟨f, rest⟩ := p
      by_cases hrefused : f.wireLen < 12 ∨ 4096 < f.wireLen
      · have hrefused' : Refused f := hrefused
        simp only [if_pos hrefused, if_pos hrefused']
        exact ih
      · have hrefused' : ¬Refused f := hrefused
        simp only [if_neg hrefused, if_neg hrefused']
        cases takeN f.wireLen.toNat rest with
        | none => simp
        | some p =>
          obtain ⟨wire, rest'⟩ := p
          cases hparse : DnsMessage.parse wire with
          | error e => simp [hparse]
          | ok msg =>
            by_cases hquestions : msg.hasQuestions = true
            · simp only [hparse, hquestions, if_true]
              rw [ih, AList.mem_insert, List.mem_cons]
              tauto
            · simp only [hparse, hquestions]
              exact ih

theorem mem_loadCache_iff {now : Int} {file : Bytes} {key : CacheKey} :
    key ∈ (loadCache {} now file).1.cache ↔ key ∈ fileKeys file := by
  unfold loadCache fileKeys
  cases readDiskHeader file with
  | none => simp
  | some p =>
    rw [mem_loadLoop_iff]
    simp

/-- A load into an empty cache leaves one entry for each key of the file. -/
theorem length_loadCache (now : Int) (file : Bytes) :
    (loadCache {} now file).1.cache.entries.length = (fileKeys file).dedup.length := by
  rw [Assoc.length_entries]
  refine ((List.perm_ext_iff_of_nodup (AList.keys_nodup _) (List.nodup_dedup _)).mpr ?_).length_eq
  intro key
  rw [← AList.mem_keys, mem_loadCache_iff, List.mem_dedup]

/-! ## Runs -/

/-- The call is not a load. -/
def Op.NoLoad (op : Op) : Prop := ∀ now file, op ≠ .loadCache now file

/-- The map is within its capacity after the load and after every call of the run. -/
def CapacityKept (now : Int) (file : Bytes) (ops : List Op) : Prop :=
  ∀ before after, ops = before ++ after →
    (run step (loadCache {} now file).1 before).cache.entries.length ≤ maxCacheSize

/-- The capacity is kept exactly when the file presents no more keys than that. -/
theorem capacityKept_iff (now : Int) (file : Bytes) {ops : List Op}
    (hops : ∀ op ∈ ops, op.NoLoad) :
    CapacityKept now file ops ↔ (fileKeys file).dedup.length ≤ maxCacheSize := by
  rw [← length_loadCache now file]
  constructor
  · intro h
    exact h [] ops rfl
  · intro h before after hsplit
    rw [hsplit, List.forall_mem_append] at hops
    exact run_invariant (P := fun s : CachingResolver => s.cache.entries.length ≤ maxCacheSize) h
      fun op hop s => length_step_le (hops.1 op hop)

/-- An answer to the question for the root, without records. -/
def rootMessage : Bytes := [0, 0, 0x81, 0x80, 0, 1, 0, 0, 0, 0, 0, 0, 0, 0, 1, 0, 1]

def rootKey (type : Nat) : CacheKey := { name := [], type := UInt16.ofNat type, qclass := 1 }

/-- A file with a key for each of the types below `n`, all with the same message. -/
def rootFile (n : Nat) : Bytes :=
  diskHeader (UInt32.ofNat n) ++
    ((List.range n).map rootKey).flatMap fun key => diskRecord key 60 rootMessage

theorem recordKeys_records (ttl : UInt32) {wire : Bytes} {msg : DnsMessage} {keys : List CacheKey}
    (hkeys : ∀ key ∈ keys, key.name.length ≤ 255) (hge : 12 ≤ wire.length)
    (hle : wire.length ≤ 4096) (hparse : DnsMessage.parse wire = .ok msg)
    (hquestions : msg.hasQuestions = true) :
    recordKeys keys.length (keys.flatMap fun key => diskRecord key ttl wire) = keys := by
  have hlen : (UInt16.ofNat wire.length).toNat = wire.length := Wire.toNat_ofNat_of_le (by omega)
  induction keys with
  | nil => rfl
  | cons key keys ih =>
    rw [List.forall_mem_cons] at hkeys
    have hfields : readFields ((key :: keys).flatMap fun key => diskRecord key ttl wire) =
        some ({ key, ttl, wireLen := UInt16.ofNat wire.length },
          wire ++ keys.flatMap fun key => diskRecord key ttl wire) := by
      refine readFields_eq_some_iff.mpr ⟨hkeys.1, ?_⟩
      rw [List.flatMap_cons, diskRecord, List.append_assoc]
    have htaken : ¬Refused { key, ttl, wireLen := UInt16.ofNat wire.length } := by
      intro hrefused
      rcases hrefused with hshort | hlong
      · have hshort' : (UInt16.ofNat wire.length).toNat < 12 := UInt16.lt_iff_toNat_lt.mp hshort
        omega
      · have hlong' : 4096 < (UInt16.ofNat wire.length).toNat := UInt16.lt_iff_toNat_lt.mp hlong
        omega
    have htake : takeN (UInt16.ofNat wire.length).toNat
        (wire ++ keys.flatMap fun key => diskRecord key ttl wire) =
          some (wire, keys.flatMap fun key => diskRecord key ttl wire) := by
      exact takeN_eq_some_iff.mpr ⟨hlen.symm, rfl⟩
    simp only [List.length_cons, recordKeys, hfields, if_neg htaken, htake, hparse, hquestions,
      if_true, ih hkeys.2]

theorem fileKeys_rootFile {n : Nat} (hn : n ≤ 100000) :
    fileKeys (rootFile n) = (List.range n).map rootKey := by
  have hcount : (UInt32.ofNat n).toNat = n := UInt32.toNat_ofNat_of_lt' (by
    show n < 4294967296
    omega)
  have hheader : readDiskHeader (rootFile n) = some (UInt32.ofNat n,
      ((List.range n).map rootKey).flatMap fun key => diskRecord key 60 rootMessage) := by
    refine readDiskHeader_eq_some_iff.mpr ⟨rfl, UInt32.le_iff_toNat_le.mpr ?_⟩
    rw [hcount]
    exact hn
  have hparse : DnsMessage.parse rootMessage =
      .ok { header := { flags := 0x8180, qdcount := 1 },
            questions := [{ qname := [], qtype := 1, qclass := 1 }] } := by decide +kernel
  have hnames : ∀ key ∈ (List.range n).map rootKey, key.name.length ≤ 255 := by
    intro key hkey
    obtain ⟨type, -, rfl⟩ := List.mem_map.mp hkey
    exact Nat.zero_le _
  have hkeys := recordKeys_records 60 hnames (by decide) (by decide) hparse rfl
  rw [List.length_map, List.length_range] at hkeys
  rw [fileKeys, hheader]
  simp only [hcount]
  exact hkeys

theorem rootKey_injective {i j : Nat} (hi : i < 65536) (hj : j < 65536)
    (h : rootKey i = rootKey j) : i = j := by
  have htype : UInt16.ofNat i = UInt16.ofNat j := congrArg CacheKey.type h
  have htoNat := congrArg UInt16.toNat htype
  rwa [Wire.toNat_ofNat_of_le (by omega), Wire.toNat_ofNat_of_le (by omega)] at htoNat

theorem nodup_rootKeys {n : Nat} (hn : n ≤ 65536) : ((List.range n).map rootKey).Nodup := by
  refine List.Nodup.map_on (fun i hi j hj hij => ?_) List.nodup_range
  rw [List.mem_range] at hi hj
  exact rootKey_injective (by omega) (by omega) hij

theorem length_dedup_fileKeys_rootFile {n : Nat} (hn : n ≤ 65536) :
    (fileKeys (rootFile n)).dedup.length = n := by
  rw [fileKeys_rootFile (by omega), (nodup_rootKeys hn).dedup, List.length_map, List.length_range]

/-- A file with one key, and a query after it. -/
theorem smallFile_capacityKept :
    CapacityKept 0 (rootFile 1) [denyingQuery { name := [0x61], type := 1, qclass := 1 }] := by
  refine (capacityKept_iff 0 (rootFile 1) fun op hop now file hload => ?_).mpr ?_
  · rw [List.mem_singleton.mp hop] at hload
    cases hload
  · rw [length_dedup_fileKeys_rootFile (by decide)]
    decide

theorem not_capacityKept_rootFile {n : Nat} (hn : n ≤ 65536) (hlarge : maxCacheSize < n) :
    ¬CapacityKept 0 (rootFile n) [] := by
  intro h
  have hle : (loadCache {} 0 (rootFile n)).1.cache.entries.length ≤ maxCacheSize := h [] [] rfl
  rw [length_loadCache, length_dedup_fileKeys_rootFile hn] at hle
  omega

/-- The header allows 50001 records, and the map then has 50001 entries. -/
theorem largeFile_not_capacityKept : ¬CapacityKept 0 (rootFile 50001) [] :=
  not_capacityKept_rootFile (by decide) (by decide)

end CachingResolver
end Dnss
