/-
L1 lookups and hash collisions.

A slot of the turbo cache is matched on the 64-bit hash of its key; the key itself
is not kept.  L2 compares whole keys.  So a lookup in L1 returns the messages of
its own key exactly as far as the hash is injective on the keys in use, which is
`ownMessages_iff`.  FNV-1a is not injective: two host names of twenty characters
with the same hash are at the end of the file.
-/
import Mathlib.Data.Set.Function
import Dnss.Cache.Runs

namespace Dnss
namespace CachingResolver

open Machine

/-- The call looks up `key` and inserts `msg` into L1 for it. -/
def InsertsFor (s : CachingResolver) (op : Op) (key : CacheKey) (msg : DnsMessage) : Prop :=
  (∃ env, op.lookup = some (env, key)) ∧
    ∃ expiresAt, (step s op).turbo = turboInsert s.turbo (turboHash key) msg expiresAt

/-- In every run whose lookups are for keys of `S`, what L1 returns for a key of `S`
was inserted for that key. -/
def OwnMessages (S : Set CacheKey) : Prop :=
  ∀ ops : List Op, (∀ op ∈ ops, ∀ env key, op.lookup = some (env, key) → key ∈ S) →
    ∀ key ∈ S, ∀ now msg, turboLookup (run step {} ops).turbo (turboHash key) now = some msg →
      Happened step {} (fun s op => InsertsFor s op key msg) ops

/-- What L1 holds after a call it held before, or the call inserted it. -/
theorem insertsFor_or_turboHolds_of_step {s : CachingResolver} {op : Op} {h : UInt64}
    {msg : DnsMessage} (hholds : TurboHolds (step s op).turbo h msg) :
    (∃ key, InsertsFor s op key msg ∧ turboHash key = h) ∨ TurboHolds s.turbo h msg := by
  have heffect := step_effect s op
  have hinsert : ∀ {env : Env} {key : CacheKey} {m : DnsMessage} {expiresAt : Int},
      op.lookup = some (env, key) →
      (step s op).turbo = turboInsert s.turbo (turboHash key) m expiresAt →
        (∃ key, InsertsFor s op key msg ∧ turboHash key = h) ∨ TurboHolds s.turbo h msg := by
    intro env key m expiresAt hkey hturbo
    rw [hturbo] at hholds
    rcases turboHolds_turboInsert hholds with ⟨hh, rfl⟩ | hold
    · exact Or.inl ⟨key, ⟨⟨env, hkey⟩, expiresAt, hturbo⟩, hh.symm⟩
    · exact Or.inr hold
  generalize hturbo : (step s op).turbo = turbo at hholds heffect hinsert
  generalize (step s op).cache = cache at heffect
  cases heffect with
  | keep => exact Or.inr hholds
  | promoteFresh hkey hentry hfresh => exact hinsert hkey rfl
  | promoteStale hkey hprobe => exact hinsert hkey rfl
  | store hkey hfetched hbase => exact hinsert hkey rfl
  | refresh hfetched hold => exact Or.inr hholds
  | remove hsub hlen => exact Or.inr hholds
  | load hop => exact Or.inr hholds

theorem insertsFor_of_turboHolds {ops : List Op} {h : UInt64} {msg : DnsMessage}
    (hholds : TurboHolds (run step {} ops).turbo h msg) :
    Happened step {} (fun s op => ∃ key, InsertsFor s op key msg ∧ turboHash key = h) ops :=
  happened_of_run (H := fun s => TurboHolds s.turbo h msg) (not_turboHolds_emptyTurbo h msg)
    (fun _ _ _ => insertsFor_or_turboHolds_of_step) hholds

/-! ## Collisions -/

/-- After one query L1 answers for every key with the same hash. -/
theorem turboLookup_denyingQuery (key : CacheKey) :
    turboLookup (run step {} [denyingQuery key]).turbo (turboHash key) 0 =
      some (clobberTTL (deniedReply key) 300) := by
  show turboLookup (step {} (denyingQuery key)).turbo (turboHash key) 0 = _
  rw [turbo_denyingQuery]
  exact turboLookup_turboInsert_self (by decide)

theorem not_ownMessages_of_collision {S : Set CacheKey} {key key' : CacheKey} (hkey : key ∈ S)
    (hkey' : key' ∈ S) (hne : key ≠ key') (hhash : turboHash key = turboHash key') :
    ¬OwnMessages S := by
  intro hown
  have hmsg := turboLookup_denyingQuery key'
  rw [← hhash] at hmsg
  obtain ⟨s, op, hvisit, ⟨env, hlookup⟩, -⟩ := hown [denyingQuery key'] (fun op hop env k hk => by
    rw [List.mem_singleton.mp hop, lookup_denyingQuery] at hk
    cases hk
    exact hkey') key hkey 0 _ hmsg
  rw [List.mem_singleton.mp hvisit.mem, lookup_denyingQuery] at hlookup
  cases hlookup
  exact hne rfl

/-- L1 returns only messages of the key asked for exactly when the hash separates
the keys in use. -/
theorem ownMessages_iff (S : Set CacheKey) : OwnMessages S ↔ Set.InjOn turboHash S := by
  constructor
  · intro hown key hkey key' hkey' hhash
    by_contra hne
    exact not_ownMessages_of_collision hkey hkey' hne hhash hown
  · intro hinj ops hops key hkey now msg hlookup
    obtain ⟨s, op, hvisit, key', hinserts, hhash⟩ :=
      insertsFor_of_turboHolds (turboHolds_of_turboLookup hlookup)
    obtain ⟨env, hop⟩ := hinserts.1
    have hkey' : key' ∈ S := hops op hvisit.mem env key' hop
    rw [← hinj hkey' hkey hhash]
    exact ⟨s, op, hvisit, hinserts⟩

/-- The host names `8yn0iYCKYHlIj4-BwPqk` and `GReLUrM4wMqfg9yzV3KQ`, type A. -/
def collidingKey : CacheKey :=
  { name := [0x38, 0x79, 0x6E, 0x30, 0x69, 0x59, 0x43, 0x4B, 0x59, 0x48, 0x6C, 0x49, 0x6A, 0x34,
      0x2D, 0x42, 0x77, 0x50, 0x71, 0x6B],
    type := 1, qclass := 1 }

def collidingKey' : CacheKey :=
  { name := [0x47, 0x52, 0x65, 0x4C, 0x55, 0x72, 0x4D, 0x34, 0x77, 0x4D, 0x71, 0x66, 0x67, 0x39,
      0x79, 0x7A, 0x56, 0x33, 0x4B, 0x51],
    type := 1, qclass := 1 }

theorem not_ownMessages_univ : ¬OwnMessages Set.univ := by
  have hne : collidingKey ≠ collidingKey' := by decide
  have hhash : turboHash collidingKey = turboHash collidingKey' := by decide +kernel
  exact not_ownMessages_of_collision (Set.mem_univ _) (Set.mem_univ _) hne hhash

end CachingResolver
end Dnss
