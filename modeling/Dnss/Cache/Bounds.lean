/-
Bounds that hold in every run.

The L2 map stays within its capacity, because a full map gives up an entry before it
takes one in.  An entry has one question, carries its lifetime in every record, and
ends less than 2 ^ 31 seconds after the last call, because every lifetime comes from
a 32-bit setting or a smaller limit.  A load checks none of this, so the runs here
have none.
-/
import Dnss.Cache.Runs

namespace Dnss
namespace CachingResolver

open Machine

/-- The call acts no later than `t`, and is not a load. -/
def Op.UpTo (t : Int) : Op → Prop
  | .query env _ _ => env.later ≤ t
  | .refreshEntry env _ _ => env.later ≤ t
  | .loadCache _ _ => False
  | _ => True

/-- The message has one question and one TTL, and ends less than 2 ^ 31 seconds
after `t`. -/
structure EntryWithin (t : Int) (entry : CacheEntry) : Prop where
  question : entry.msg.questions.length = 1
  uniform : clobberTTL entry.msg entry.ttl = entry.msg
  lifetime : entry.expiresAt ≤ t + seconds 2147483647

/-- The map is within its capacity, and its entries are within their bounds. -/
structure Within (t : Int) (cache : Cache) : Prop where
  size : cache.entries.length ≤ maxCacheSize
  entries : ∀ key entry, cache.lookup key = some entry → EntryWithin t entry

/-! ## What is stored -/

theorem clobberTTL_clobberTTL (msg : DnsMessage) (ttl ttl' : Int) :
    clobberTTL (clobberTTL msg ttl) ttl' = clobberTTL msg ttl' := by
  simp only [clobberTTL, List.map_map]
  rfl

theorem records_clobberTTL (msg : DnsMessage) (ttl : Int) :
    (clobberTTL msg ttl).records =
      msg.records.map fun rr => { rr with ttl := UInt32.ofInt ttl } := by
  simp only [DnsMessage.records, clobberTTL, List.map_append]

theorem computeCacheTTL_le (minTTL : Int32) (reply : DnsMessage) :
    computeCacheTTL minTTL reply ≤ maxTTL := by
  have hcap : ∀ ttl : Int, (if maxTTL < ttl then maxTTL else ttl) ≤ maxTTL := by
    intro ttl
    split <;> omega
  exact hcap _

theorem storeTTL_le (env : Env) (reply : DnsMessage) : storeTTL env reply ≤ 2147483647 := by
  have hnegative := env.negativeTTL.toInt_lt
  have hpositive := computeCacheTTL_le env.minTTL reply
  unfold maxTTL at hpositive
  unfold storeTTL
  split
  · omega
  · omega

theorem failureTTL_le (env : Env) : failureTTL env ≤ 2147483647 := by
  unfold failureTTL
  omega

theorem length_questions_of_shouldCache {q : DnsQuestion} {reply : DnsMessage}
    (h : shouldCache q reply = true) : reply.questions.length = 1 := by
  unfold shouldCache at h
  split at h
  · rename_i q' hq
    rw [hq]
    rfl
  · simp at h

theorem entryWithin_entryOf {t : Int} {env : Env} {u : DnsMessage} {ttl : Int}
    (hquestion : u.questions.length = 1) (hlater : env.later ≤ t) (httl : ttl ≤ 2147483647) :
    EntryWithin t (entryOf env u ttl) := by
  refine ⟨hquestion, clobberTTL_clobberTTL u ttl ttl, ?_⟩
  show env.later + ttl * 1000000000 ≤ t + 2147483647 * 1000000000
  omega

theorem Fetched.entryWithin {s : CachingResolver} {op : Op} {key : CacheKey} {u : DnsMessage}
    {entry : CacheEntry} {t : Int} (h : Fetched s op key u entry) (hop : op.UpTo t) :
    EntryWithin t entry := by
  cases h with
  | reply hq hmiss hback hcache =>
    exact entryWithin_entryOf (length_questions_of_shouldCache hcache) hop (storeTTL_le _ _)
  | failure hq hmiss hback hroom =>
    refine entryWithin_entryOf ?_ hop (failureTTL_le _)
    rw [DnsMessage.questions_createError, hq]
    rfl
  | refresh hback hcache hold =>
    exact entryWithin_entryOf (length_questions_of_shouldCache hcache) hop (storeTTL_le _ _)

/-! ## Evicting

A full map loses an entry that is there. -/

/-- The whole milliseconds that an entry has left, none once it has expired. -/
def remainingMs (now : Int) (entry : CacheEntry) : Nat :=
  ((entry.expiresAt - now).tdiv 1000000).toNat

theorem evictStep_eq (now : Int) (best : CacheKey × Nat) (item : CacheItem) :
    evictStep now best item =
      if 0 < remainingMs now item.2 ∧ remainingMs now item.2 < best.2 then
        (item.1, remainingMs now item.2)
      else best := by
  have hpos : 0 < (item.2.expiresAt - now).tdiv 1000000 ↔ 0 < remainingMs now item.2 := by
    unfold remainingMs
    omega
  unfold evictStep
  simp only [hpos]
  rfl

/-- The search ends with the candidate it started from, when no entry has less time
left, and otherwise with the entry that has the least of those that have any. -/
theorem foldl_evictStep_spec (now : Int) (items : List CacheItem) (best : CacheKey × Nat) :
    (items.foldl (evictStep now) best = best ∧
        ∀ item ∈ items, remainingMs now item.2 = 0 ∨ best.2 ≤ remainingMs now item.2) ∨
      ∃ item ∈ items, items.foldl (evictStep now) best = (item.1, remainingMs now item.2) ∧
        0 < remainingMs now item.2 ∧ remainingMs now item.2 < best.2 ∧
        ∀ other ∈ items,
          remainingMs now other.2 = 0 ∨ remainingMs now item.2 ≤ remainingMs now other.2 := by
  induction items generalizing best with
  | nil => exact Or.inl ⟨rfl, fun _ h => by cases h⟩
  | cons item items ih =>
    simp only [List.foldl_cons, List.forall_mem_cons, List.exists_mem_cons_iff, evictStep_eq]
    by_cases hless : 0 < remainingMs now item.2 ∧ remainingMs now item.2 < best.2
    · rw [if_pos hless]
      right
      rcases ih (item.1, remainingMs now item.2) with
        ⟨hkeep, hleast⟩ | ⟨item', hmem, hfold, hpos, hlt, hleast⟩
      · exact Or.inl ⟨hkeep, hless.1, hless.2, Or.inr (Nat.le_refl _), hleast⟩
      · have hitem : remainingMs now item'.2 ≤ remainingMs now item.2 := Nat.le_of_lt hlt
        exact Or.inr ⟨item', hmem, hfold, hpos, Nat.lt_trans hlt hless.2, Or.inr hitem, hleast⟩
    · rw [if_neg hless]
      have hitem : remainingMs now item.2 = 0 ∨ best.2 ≤ remainingMs now item.2 := by omega
      rcases ih best with ⟨hkeep, hleast⟩ | ⟨item', hmem, hfold, hpos, hlt, hleast⟩
      · exact Or.inl ⟨hkeep, hitem, hleast⟩
      · have hitem' : remainingMs now item.2 = 0 ∨
            remainingMs now item'.2 ≤ remainingMs now item.2 := by omega
        exact Or.inr (Or.inr ⟨item', hmem, hfold, hpos, hlt, hitem', hleast⟩)

theorem evictKey_mem {now : Int} {items : List CacheItem} {key : CacheKey}
    (h : evictKey now items = some key) : ∃ item ∈ items, item.1 = key := by
  match items, h with
  | first :: rest, h =>
    rw [evictKey, Option.some.injEq] at h
    rw [← h]
    rcases foldl_evictStep_spec now (first :: rest) (first.1, 2 ^ 64 - 1) with
      ⟨hkeep, -⟩ | ⟨item, hmem, hfold, -⟩
    · rw [hkeep]
      exact ⟨first, List.mem_cons_self, rfl⟩
    · rw [hfold]
      exact ⟨item, hmem, rfl⟩

theorem length_evict_lt {cache : Cache} (env : Env) (h : cache.entries.length ≤ maxCacheSize) :
    (evict cache env).entries.length < maxCacheSize := by
  unfold evict
  by_cases hfull : maxCacheSize ≤ cache.entries.length
  · have hperm := env.order.perm cache.entries
    rw [if_pos hfull]
    cases hkey : evictKey env.later (env.order.order cache.entries) with
    | some key =>
      obtain ⟨item, hitem, rfl⟩ := evictKey_mem hkey
      have hmem : item.1 ∈ cache := List.mem_map_of_mem (hperm.mem_iff.mp hitem)
      have hlen := Assoc.length_erase_of_mem hmem
      show (cache.erase item.1).entries.length < maxCacheSize
      omega
    | none =>
      -- A full map has a first entry to start the search from.
      have hlen := hperm.length_eq
      cases horder : env.order.order cache.entries with
      | nil =>
        rw [horder, List.length_nil] at hlen
        unfold maxCacheSize at hfull
        omega
      | cons first rest =>
        rw [horder] at hkey
        cases hkey
  · rw [if_neg hfull]
    omega

/-! ## Runs -/

theorem within_empty (t : Int) : Within t ∅ where
  size := Nat.zero_le _
  entries := fun _ _ h => by cases h

theorem length_step_le {s : CachingResolver} {op : Op} (hop : ∀ now file, op ≠ .loadCache now file)
    (h : s.cache.entries.length ≤ maxCacheSize) :
    (step s op).cache.entries.length ≤ maxCacheSize := by
  have heffect := step_effect s op
  generalize (step s op).turbo = turbo at heffect
  generalize (step s op).cache = cache at heffect ⊢
  cases heffect with
  | keep => exact h
  | promoteFresh hkey hentry hfresh => exact h
  | promoteStale hkey hprobe => exact h
  | @store env key u entry base hkey hfetched hbase =>
    have hroom : base.entries.length < maxCacheSize := by
      rcases hbase with ⟨rfl, hroom⟩ | rfl
      · exact hroom
      · exact length_evict_lt env h
    have hlen := Assoc.length_insert_le base key entry
    omega
  | @refresh key u entry old hfetched hold =>
    have hmem : key ∈ s.cache := AList.lookup_isSome.mp (by rw [hold]; rfl)
    rw [Assoc.length_insert, Assoc.length_erase_of_mem hmem]
    exact h
  | remove hsub hlen => exact Nat.le_trans hlen h
  | load hload => exact absurd hload (hop _ _)

theorem Op.UpTo.ne_loadCache {t : Int} {op : Op} (h : op.UpTo t) (now : Int) (file : Bytes) :
    op ≠ .loadCache now file := by
  intro hload
  rw [hload] at h
  exact h

theorem within_step {t : Int} {s : CachingResolver} {op : Op} (hop : op.UpTo t)
    (h : Within t s.cache) : Within t (step s op).cache := by
  refine ⟨length_step_le hop.ne_loadCache h.size, fun key entry hlookup => ?_⟩
  rcases lookup_step hlookup with hold | ⟨u, hfetched⟩ | ⟨now, file, hload, -⟩
  · exact h.entries key entry hold
  · exact hfetched.entryWithin hop
  · exact absurd hload (hop.ne_loadCache now file)

/-- The map is within its bounds after every run without loads. -/
theorem within_run {t : Int} {ops : List Op} (hops : ∀ op ∈ ops, op.UpTo t) :
    Within t (run step {} ops).cache :=
  run_invariant (P := fun s : CachingResolver => Within t s.cache) (within_empty t)
    fun op hop _ h => within_step (hops op hop) h

end CachingResolver
end Dnss
