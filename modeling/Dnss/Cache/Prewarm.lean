/-
`doAdaptivePrewarm`: ask again for the names that clients asked for most.

The routine takes the names out of the tracker, sorts them by their counts, and asks
the resolver behind for each of the first ten that has no live entry in L1.  It asks
the resolver behind and not the cache, and nothing stores the replies, so the two tiers
are afterwards what they were before.

`warms_iff` says for every tracker and every cache when the names that were asked for
are then answered from the cache.
-/
import Dnss.Cache.Replies

namespace Dnss
namespace CachingResolver

/-- A sort by falling counts.  Names with equal counts may come in any order. -/
structure CountSort where
  sort : List ((_ : Bytes) × Nat) → List ((_ : Bytes) × Nat)
  perm : ∀ items, (sort items).Perm items
  sorted : ∀ items, (sort items).Pairwise fun a b => b.2 ≤ a.2

/-- A run of the routine and the moment after it: what each pass of the loop meets, in
order, and what a lookup right afterwards meets.  The clock does not go back. -/
structure PrewarmRun where
  sort : CountSort
  pass : Nat → Env
  after : Env
  mono : ∀ i, (pass i).now ≤ after.now

def prewarmKey (name : Bytes) : CacheKey := { name, type := DnsType.A, qclass := 1 }

def prewarmQuery (name : Bytes) : DnsMessage := DnsMessage.createQuery name DnsType.A

/-- The loop over the sorted names.  The result is the number of names that got a
reply. -/
def prewarmLoop (s : CachingResolver) : List (Bytes × Env) → Nat → Except Thrown Nat
  | [], prewarmed => .ok prewarmed
  | (name, env) :: rest, prewarmed =>
    match turboLookup s.turbo (turboHash (prewarmKey name)) env.now with
    | some _ => prewarmLoop s rest prewarmed
    | none =>
      match env.back (prewarmQuery name) false with
      | .error e => .error e
      | .ok none => prewarmLoop s rest prewarmed
      | .ok (some _) => prewarmLoop s rest (prewarmed + 1)

/-- The first ten of the sorted names, each with the pass it gets. -/
def prewarmPasses (s : CachingResolver) (run : PrewarmRun) : List (Bytes × Env) :=
  let sorted := run.sort.sort (s.prewarmTracker.entries.filter fun item => 0 < item.2)
  (sorted.take 10).zipIdx.map fun item => (item.1.1, run.pass item.2)

def doAdaptivePrewarm (s : CachingResolver) (run : PrewarmRun) :
    CachingResolver × Except Thrown Nat :=
  ({ s with prewarmTracker := ∅ }, s.prewarmLoop (s.prewarmPasses run) 0)

/-! ## What is warm afterwards -/

/-- The loop comes to the name: no pass before it throws. -/
def Processes (s : CachingResolver) (run : PrewarmRun) (name : Bytes) (env : Env) : Prop :=
  ∃ before rest n, s.prewarmPasses run = before ++ (name, env) :: rest ∧
    s.prewarmLoop before 0 = .ok n

/-- The routine asks for the name and gets a reply that belongs in the cache. -/
def Refreshed (s : CachingResolver) (run : PrewarmRun) (name : Bytes) : Prop :=
  ∃ env reply, Processes s run name env ∧
    turboLookup s.turbo (turboHash (prewarmKey name)) env.now = none ∧
    env.back (prewarmQuery name) false = .ok (some reply) ∧
    shouldCache { qname := name, qtype := DnsType.A, qclass := 1 } reply = true

/-- Every such name is answered from the cache right afterwards. -/
def Warms (s : CachingResolver) (run : PrewarmRun) : Prop :=
  ∀ name, Refreshed s run name →
    ∃ reply, ((s.doAdaptivePrewarm run).1.peekCache run.after (prewarmQuery name)).2 = some reply

/-- Every such name has an entry in L2 that is fresh then, or in its stale window. -/
def WarmBefore (s : CachingResolver) (run : PrewarmRun) : Prop :=
  ∀ name, Refreshed s run name →
    ∃ entry, s.cache.lookup (prewarmKey name) = some entry ∧
      (run.after.now < entry.expiresAt ∨
        run.after.now < entry.expiresAt + seconds run.after.staleThreshold.toInt)

/-- L1 does not get a message by waiting. -/
theorem turboLookup_eq_none_of_le {t : Turbo} {h : UInt64} {now later : Int} (hle : now ≤ later)
    (hnone : turboLookup t h now = none) : turboLookup t h later = none := by
  cases hlater : turboLookup t h later with
  | none => rfl
  | some msg =>
    obtain ⟨expiresAt, hholds, hlive⟩ := turboLookup_eq_some_iff.mp hlater
    rw [turboLookup_eq_some_iff.mpr ⟨expiresAt, hholds, by omega⟩] at hnone
    cases hnone

/-- When L1 has nothing, a lookup finds what L2 has fresh or in its stale window. -/
theorem exists_msg_probe_iff {s : CachingResolver} {env : Env} {key : CacheKey}
    (hnone : turboLookup s.turbo (turboHash key) env.now = none) :
    (∃ msg, (s.probe env key).msg = some msg) ↔
      ∃ entry, s.cache.lookup key = some entry ∧
        (env.now < entry.expiresAt ∨
          env.now < entry.expiresAt + seconds env.staleThreshold.toInt) := by
  constructor
  · rintro ⟨msg, hmsg⟩
    rcases found_of_probe hmsg with ⟨expiresAt, hholds, hlive⟩ | ⟨entry, hentry, -, hlive⟩
    · rw [turboLookup_eq_some_iff.mpr ⟨expiresAt, hholds, hlive⟩] at hnone
      cases hnone
    · exact ⟨entry, hentry, hlive⟩
  · rintro ⟨entry, hentry, hlive⟩
    cases hmsg : (s.probe env key).msg with
    | some msg => exact ⟨msg, rfl⟩
    | none =>
      obtain ⟨hexpired, hpast⟩ := (probe_eq_miss (Probe.msg_eq_none_iff.mp hmsg)).2 entry hentry
      omega

theorem Refreshed.turboLookup_after {s : CachingResolver} {run : PrewarmRun} {name : Bytes}
    (h : Refreshed s run name) :
    turboLookup s.turbo (turboHash (prewarmKey name)) run.after.now = none := by
  obtain ⟨env, reply, ⟨before, rest, n, hpasses, -⟩, hnone, -⟩ := h
  refine turboLookup_eq_none_of_le ?_ hnone
  have hmem : (name, env) ∈ s.prewarmPasses run := by
    rw [hpasses]
    simp
  obtain ⟨item, -, hitem⟩ := List.mem_map.mp hmem
  cases hitem
  exact run.mono item.2

/-- The routine leaves the cache as it was. -/
theorem peekCache_doAdaptivePrewarm (s : CachingResolver) (run : PrewarmRun) (name : Bytes) :
    ((s.doAdaptivePrewarm run).1.peekCache run.after (prewarmQuery name)).2 =
      (s.probe run.after (prewarmKey name)).msg.map (buildCachedReply (prewarmQuery name)) := by
  have hquestions : (prewarmQuery name).questions = [⟨name, DnsType.A, 1⟩] := rfl
  have hkey : (⟨name, DnsType.A, 1⟩ : DnsQuestion).key = prewarmKey name := rfl
  have hprobe : (s.doAdaptivePrewarm run).1.probe run.after (prewarmKey name) =
      s.probe run.after (prewarmKey name) := probe_congr rfl rfl _ _
  rw [peekCache_reply hquestions, hkey, hprobe]

/-- The names are warm afterwards exactly when they were warm before. -/
theorem warms_iff (s : CachingResolver) (run : PrewarmRun) : Warms s run ↔ WarmBefore s run := by
  have hname : ∀ name, Refreshed s run name →
      ((∃ reply, ((s.doAdaptivePrewarm run).1.peekCache run.after (prewarmQuery name)).2 =
          some reply) ↔
        ∃ entry, s.cache.lookup (prewarmKey name) = some entry ∧
          (run.after.now < entry.expiresAt ∨
            run.after.now < entry.expiresAt + seconds run.after.staleThreshold.toInt)) := by
    intro name hrefreshed
    rw [peekCache_doAdaptivePrewarm, ← exists_msg_probe_iff hrefreshed.turboLookup_after]
    simp
  constructor
  · intro h name hrefreshed
    exact (hname name hrefreshed).mp (h name hrefreshed)
  · intro h name hrefreshed
    exact (hname name hrefreshed).mpr (h name hrefreshed)

def mergeSortByCount : CountSort where
  sort := fun items => items.mergeSort fun a b => b.2 ≤ a.2
  perm := fun items => List.mergeSort_perm items _
  sorted := fun items => by
    have hsorted : (items.mergeSort fun a b => b.2 ≤ a.2).Pairwise
        fun a b => decide (b.2 ≤ a.2) = true := by
      refine List.pairwise_mergeSort (fun a b c hab hbc => ?_) (fun a b => ?_) items
      · simp only [decide_eq_true_eq] at hab hbc ⊢
        omega
      · simp only [Bool.or_eq_true, decide_eq_true_eq]
        omega
    exact hsorted.imp of_decide_eq_true

/-- One name that was asked for once, and an empty cache. -/
def trackedName : CachingResolver := { prewarmTracker := AList.singleton [0x61] 1 }

def denyingRun : PrewarmRun :=
  { sort := mergeSortByCount, pass := fun _ => denyingEnv, after := denyingEnv,
    mono := fun _ => Int.le_refl _ }

theorem refreshed_trackedName : Refreshed trackedName denyingRun [0x61] := by
  have hpasses : trackedName.prewarmPasses denyingRun = [([0x61], denyingEnv)] := by
    have hcounted : trackedName.prewarmTracker.entries.filter (fun item => 0 < item.2) =
      [⟨[0x61], 1⟩] := rfl
    have hsorted : denyingRun.sort.sort [⟨[0x61], 1⟩] = [⟨[0x61], 1⟩] :=
      List.mergeSort_singleton _
    rw [prewarmPasses, hcounted, hsorted]
    rfl
  exact ⟨denyingEnv, deniedReply (prewarmKey [0x61]), ⟨[], [], 0, hpasses, rfl⟩,
    turboLookup_emptyTurbo _ _, rfl, shouldCache_deniedReply (prewarmKey [0x61])⟩

/-- The resolver behind has a reply for the name, and the cache is still empty. -/
theorem trackedName_not_warms : ¬Warms trackedName denyingRun := by
  intro h
  obtain ⟨reply, hreply⟩ := h [0x61] refreshed_trackedName
  rw [peekCache_doAdaptivePrewarm] at hreply
  cases hreply

end CachingResolver
end Dnss
