/-
The disk cache: `saveCache` and `loadCache`.

The file is a header of three words (magic, version, count) and a sequence of
records, all in the byte order of the machine, which is little-endian.  The reader
is a stream, given here by the bytes that are left.  A read that finds too few
bytes leaves its variable unset and puts the stream in a failed state, in which
every later read does nothing and the loop stops at its next test.  No such
variable reaches the cache, so a failed read ends the loop at once in the model.
-/
import Dnss.Cache.Resolver

namespace Dnss
namespace CachingResolver

open Cursor

def cacheMagic : UInt32 := 0x4C594E58

def cacheVersion : UInt32 := 1

/-! ## Writing -/

/-- The whole seconds an entry has left. -/
def remaining (now : Int) (entry : CacheEntry) : Int :=
  (entry.expiresAt - now).tdiv 1000000000

/-- The fields of a record in front of its message. -/
structure DiskFields where
  key : CacheKey
  ttl : UInt32
  wireLen : UInt16
  deriving DecidableEq

def DiskFields.bytes (f : DiskFields) : Bytes :=
  UInt8.ofNat f.key.name.length :: (f.key.name ++ (Word.le16Bytes f.key.type ++
    (Word.le16Bytes f.key.qclass ++ (Word.le32Bytes f.ttl ++ Word.le16Bytes f.wireLen))))

/-- One record of the file. -/
def diskRecord (key : CacheKey) (ttl : UInt32) (wire : Bytes) : Bytes :=
  DiskFields.bytes { key, ttl, wireLen := UInt16.ofNat wire.length } ++ wire

/-- The second pass of `saveCache`: what it writes, and how it ends. -/
def saveItems (now : Int) : List CacheItem → Bytes × Except RuntimeError Unit
  | [] => ([], .ok ())
  | item :: items =>
    if item.2.expiresAt ≤ now then saveItems now items
    else if remaining now item.2 < 1 then saveItems now items
    else if 255 < item.1.name.length then saveItems now items
    else
      match DnsMessage.pack item.2.msg with
      | .error e => ([], .error e)
      | .ok wire =>
        if 65535 < wire.length then saveItems now items
        else
          let (out, result) := saveItems now items
          (diskRecord item.1 (UInt32.ofInt (remaining now item.2)) wire ++ out, result)

/-- The first pass of `saveCache`. -/
def countUnexpired (now : Int) (items : List CacheItem) : UInt32 :=
  UInt32.ofNat (items.countP fun item => now < item.2.expiresAt)

def diskHeader (count : UInt32) : Bytes :=
  Word.le32Bytes cacheMagic ++ Word.le32Bytes cacheVersion ++ Word.le32Bytes count

/-- The bytes `saveCache` leaves in the file, and how it ends. -/
def saveCache (s : CachingResolver) (env : Env) : Bytes × Except RuntimeError Unit :=
  let items := env.order.order s.cache.entries
  let (out, result) := saveItems env.now items
  (diskHeader (countUnexpired env.now items) ++ out, result)

/-! ## Reading -/

def readU8 : Bytes → Option (UInt8 × Bytes)
  | b :: rest => some (b, rest)
  | [] => none

def readLE16 : Bytes → Option (UInt16 × Bytes)
  | b₀ :: b₁ :: rest => some (Word.be16 b₁ b₀, rest)
  | _ => none

def readLE32 : Bytes → Option (UInt32 × Bytes)
  | b₀ :: b₁ :: b₂ :: b₃ :: rest => some (Word.be32 b₃ b₂ b₁ b₀, rest)
  | _ => none

def readFields (stream : Bytes) : Option (DiskFields × Bytes) := do
  let (nameLen, stream) ← readU8 stream
  let (name, stream) ← takeN nameLen.toNat stream
  let (type, stream) ← readLE16 stream
  let (qclass, stream) ← readLE16 stream
  let (ttl, stream) ← readLE32 stream
  let (wireLen, stream) ← readLE16 stream
  some ({ key := { name, type, qclass }, ttl, wireLen }, stream)

/-- The entry made from a record. -/
def loadedEntry (now : Int) (ttl : UInt32) (msg : DnsMessage) : CacheEntry :=
  { msg := clobberTTL msg ttl.toNat, ttl := ttl.toNat, expiresAt := now + seconds ttl.toNat }

/-- The loop of `loadCache`.  A record whose length is refused is passed over
without its message bytes being read. -/
def loadLoop (now : Int) : Nat → Bytes → Cache → Cache × Except Fault Unit
  | 0, _, cache => (cache, .ok ())
  | count + 1, stream, cache =>
    match readFields stream with
    | none => (cache, .ok ())
    | some (fields, stream) =>
      if fields.wireLen < 12 ∨ 4096 < fields.wireLen then loadLoop now count stream cache
      else
        match takeN fields.wireLen.toNat stream with
        | none => (cache, .ok ())
        | some (wire, stream) =>
          match DnsMessage.parse wire with
          | .error e => (cache, .error e)
          | .ok msg =>
            if msg.hasQuestions then
              loadLoop now count stream
                (cache.insert fields.key (loadedEntry now fields.ttl msg))
            else loadLoop now count stream cache

/-- The header tests of `loadCache`: the number of records and the stream after
the header, if the tests pass. -/
def readDiskHeader (file : Bytes) : Option (UInt32 × Bytes) := do
  let (magic, stream) ← readLE32 file
  let (ver, stream) ← readLE32 stream
  let (count, stream) ← readLE32 stream
  if magic = cacheMagic ∧ ver = cacheVersion ∧ count ≤ 100000 then some (count, stream) else none

/-- `loadCache` on the content of a file that could be opened. -/
def loadCache (s : CachingResolver) (now : Int) (file : Bytes) :
    CachingResolver × Except Fault Unit :=
  match readDiskHeader file with
  | none => (s, .ok ())
  | some (count, stream) =>
    let (cache, result) := loadLoop now count.toNat stream s.cache
    ({ s with cache }, result)

end CachingResolver
end Dnss
