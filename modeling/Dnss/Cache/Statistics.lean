/-
The counters of the resolver and the rates that are made of them.

A hit in `peekCache` or `peekCacheRaw` counts as a query, a hit, and where it applies as a hit of
L1 or a stale hit.  `query` counts each call, and what it finds: a stale hit there is no hit of
`cacheHits_`, though it is one for `PerfMonitor`.  `statistics_of_run` has the balance after every
run, and says that what `snapshot` makes of it are rates: all three are between 0 and 1.
-/
import Dnss.Cache.Runs
import Dnss.Tuning.PerfMonitor

namespace Dnss
namespace CachingResolver

open Machine

/-- The queries with one question that find a stale entry. -/
def staleQuery (s : CachingResolver) : Op → Nat
  | .query env req _ =>
    match req.questions with
    | [q] =>
      match s.probe env q.key with
      | .stale _ => 1
      | _ => 0
    | _ => 0
  | _ => 0

/-- The queries that are not looked up. -/
def otherQuery : Op → Nat
  | .query _ req _ =>
    match req.questions with
    | [_] => 0
    | _ => 1
  | _ => 0

/-- The balance of the counters, where `stale` queries found a stale entry and `other` queries
had not one question. -/
structure Totals (s : CachingResolver) (stale other : Nat) : Prop where
  total : s.totalQueries = s.cacheHits + s.cacheMisses + stale + other
  hits : s.perf.cacheHits = s.cacheHits + stale
  misses : s.perf.cacheMisses = s.cacheMisses
  turbo : s.turboHits + s.staleHits ≤ s.cacheHits + stale
  staleHits : stale ≤ s.staleHits

theorem totals_empty : Totals {} 0 0 := ⟨rfl, rfl, rfl, Nat.le_refl _, Nat.le_refl _⟩

/-- The counters that are balanced. -/
structure Counters where
  total : Nat
  hits : Nat
  misses : Nat
  turboHits : Nat
  staleHits : Nat
  perfHits : Nat
  perfMisses : Nat

def counters (s : CachingResolver) : Counters where
  total := s.totalQueries
  hits := s.cacheHits
  misses := s.cacheMisses
  turboHits := s.turboHits
  staleHits := s.staleHits
  perfHits := s.perf.cacheHits
  perfMisses := s.perf.cacheMisses

/-- What a call may add: hits, misses, hits of L1, stale hits, and the queries of the balance. -/
structure Charge where
  hits : Nat := 0
  misses : Nat := 0
  turbo : Nat := 0
  stale : Nat := 0
  staleQueries : Nat := 0
  otherQueries : Nat := 0

def Charge.add (d : Charge) (c : Counters) : Counters where
  total := c.total + (d.hits + d.misses + d.staleQueries + d.otherQueries)
  hits := c.hits + d.hits
  misses := c.misses + d.misses
  turboHits := c.turboHits + d.turbo
  staleHits := c.staleHits + d.stale
  perfHits := c.perfHits + (d.hits + d.staleQueries)
  perfMisses := c.perfMisses + d.misses

theorem Totals.charge {s s' : CachingResolver} {stale other : Nat} (h : s.Totals stale other)
    (d : Charge) (hcounters : s'.counters = d.add s.counters)
    (hturbo : d.turbo + d.stale ≤ d.hits + d.staleQueries) (hstale : d.staleQueries ≤ d.stale) :
    s'.Totals (stale + d.staleQueries) (other + d.otherQueries) := by
  obtain ⟨htotal, hhits, hmisses, hbound, hstaleHits⟩ := h
  simp only [counters, Charge.add, Counters.mk.injEq] at hcounters
  obtain ⟨c₁, c₂, c₃, c₄, c₅, c₆, c₇⟩ := hcounters
  exact ⟨by omega, by omega, by omega, by omega, by omega⟩

@[simp] theorem counters_enqueueStaleRefresh (s : CachingResolver) (key : CacheKey) :
    (s.enqueueStaleRefresh key).counters = s.counters := by
  unfold enqueueStaleRefresh
  split <;> rfl

theorem counters_storeFailure (s : CachingResolver) (env : Env) (key : CacheKey)
    (req : DnsMessage) : (s.storeFailure env key req).1.counters = s.counters := by
  unfold storeFailure
  dsimp only
  split <;> rfl

/-! ## One call -/

theorem Totals.query {s : CachingResolver} {stale other : Nat} (h : s.Totals stale other)
    (env : Env) (req : DnsMessage) (allowFanOut : Bool) :
    (s.query env req allowFanOut).1.Totals (stale + s.staleQuery (.query env req allowFanOut))
      (other + otherQuery (.query env req allowFanOut)) := by
  by_cases hlength : req.questions.length = 1
  · obtain ⟨q, hq⟩ := List.length_eq_one_iff.mp hlength
    unfold CachingResolver.query staleQuery otherQuery
    simp only [hq, probe_track]
    cases hp : s.probe env q.key with
    | turbo msg =>
      exact h.charge { hits := 1, turbo := 1 } rfl (Nat.le_refl _) (Nat.le_refl _)
    | fresh entry => exact h.charge { hits := 1 } rfl (Nat.zero_le _) (Nat.le_refl _)
    | stale entry =>
      refine h.charge { stale := 1, staleQueries := 1 } ?_ (Nat.le_refl _) (Nat.le_refl _)
      simp only [counters_enqueueStaleRefresh]
      rfl
    | miss =>
      have hmiss : ∀ s' : CachingResolver,
          s'.counters = Charge.add { misses := 1 } s.counters → s'.Totals (stale + 0) (other + 0) :=
        fun s' hcounters => h.charge { misses := 1 } hcounters (Nat.zero_le _) (Nat.le_refl _)
      cases hback : env.back req env.fanOutEnabled with
      | error e => exact hmiss _ rfl
      | ok r =>
        cases r with
        | none => exact hmiss _ ((counters_storeFailure _ env q.key req).trans rfl)
        | some u =>
          by_cases hcache : shouldCache q u = true
          · simp only [hcache, if_true]
            exact hmiss _ rfl
          · simp only [hcache]
            exact hmiss _ rfl
  · have hnot : ∀ q, req.questions ≠ [q] := fun q hq => hlength (by rw [hq]; rfl)
    have hquery : (s.query env req allowFanOut).1 =
        { s with totalQueries := s.totalQueries + 1 } := by
      unfold CachingResolver.query
      split
      · rename_i q hq
        exact absurd hq (hnot q)
      · rfl
    have hstale : s.staleQuery (.query env req allowFanOut) = 0 := by
      unfold staleQuery
      dsimp only
      split
      · rename_i q hq
        exact absurd hq (hnot q)
      · rfl
    have hother : otherQuery (.query env req allowFanOut) = 1 := by
      unfold otherQuery
      dsimp only
      split
      · rename_i q hq
        exact absurd hq (hnot q)
      · rfl
    rw [hquery, hstale, hother]
    exact h.charge { otherQueries := 1 } rfl (Nat.zero_le _) (Nat.le_refl _)

theorem Totals.peekCache {s : CachingResolver} {stale other : Nat} (h : s.Totals stale other)
    (env : Env) (req : DnsMessage) : (s.peekCache env req).1.Totals stale other := by
  unfold CachingResolver.peekCache
  split
  · rename_i q hq
    cases s.probe env q.key with
    | turbo msg => exact h.charge { hits := 1, turbo := 1 } rfl (Nat.le_refl _) (Nat.le_refl _)
    | fresh entry => exact h.charge { hits := 1 } rfl (Nat.zero_le _) (Nat.le_refl _)
    | stale entry => exact h.charge { hits := 1, stale := 1 } rfl (Nat.le_refl _) (Nat.zero_le _)
    | miss => exact h
  · exact h

theorem Totals.peekCacheRaw {s : CachingResolver} {stale other : Nat} (h : s.Totals stale other)
    (env : Env) (data : Bytes) : (s.peekCacheRaw env data).1.Totals stale other := by
  unfold CachingResolver.peekCacheRaw
  split
  · exact h
  · rename_i key hraw
    cases s.probe env key with
    | turbo msg => exact h.charge { hits := 1, turbo := 1 } rfl (Nat.le_refl _) (Nat.le_refl _)
    | fresh entry => exact h.charge { hits := 1 } rfl (Nat.zero_le _) (Nat.le_refl _)
    | stale entry =>
      refine h.charge { hits := 1, stale := 1 } ?_ (Nat.le_refl _) (Nat.zero_le _)
      simp only [counters_enqueueStaleRefresh]
      rfl
    | miss => exact h

theorem Totals.congr {s s' : CachingResolver} {stale other : Nat} (h : s.Totals stale other)
    (hcounters : s'.counters = s.counters) : s'.Totals stale other :=
  h.charge {} hcounters (Nat.le_refl _) (Nat.le_refl _)

theorem totals_step {s : CachingResolver} {stale other : Nat} (h : s.Totals stale other)
    (op : Op) : (step s op).Totals (stale + s.staleQuery op) (other + otherQuery op) := by
  cases op with
  | query env req allowFanOut => exact h.query env req allowFanOut
  | peekCache env req => exact h.peekCache env req
  | peekCacheRaw env data => exact h.peekCacheRaw env data
  | refreshEntry env key question =>
    refine h.congr ?_
    show (s.refreshEntry env key question).1.counters = s.counters
    unfold refreshEntry
    split
    · rfl
    · rfl
    · split
      · split <;> rfl
      · rfl
  | gcCache env => exact h.congr rfl
  | flushCache => exact h.congr rfl
  | loadCache now file =>
    refine h.congr ?_
    show (s.loadCache now file).1.counters = s.counters
    unfold loadCache
    split <;> rfl

/-! ## Runs -/

/-- The balance after a run. -/
theorem totals_run (ops : List Op) :
    (run step {} ops).Totals (tally step staleQuery {} ops) (ops.map otherQuery).sum := by
  refine run_past (P := fun ops s => Totals s (tally step staleQuery {} ops)
    (ops.map otherQuery).sum) totals_empty (fun ops op h => ?_) ops
  rw [tally_snoc, List.map_append, List.sum_append, List.map_singleton, List.sum_singleton]
  exact totals_step h op

/-- The monitor with the counters of the resolver, as `snapshot` reads them. -/
def monitored (m : PerfMonitor) (s : CachingResolver) : PerfMonitor :=
  { m with
    cacheHits := s.perf.cacheHits
    cacheMisses := s.perf.cacheMisses
    extraStatsFn := .resolver
      { turboHits := s.turboHits, staleHits := s.staleHits, hits := s.cacheHits,
        total := s.totalQueries } }

/-- A rate of a part is between 0 and 1. -/
theorem rate_mem {part total : Int} (hpart : 0 ≤ part) (hle : part ≤ total) :
    0 ≤ PerfMonitor.rate part total ∧ PerfMonitor.rate part total ≤ 1 := by
  unfold PerfMonitor.rate
  split
  · rename_i hpos
    have hpos' : (0 : ℚ) < total := Int.cast_pos.mpr hpos
    constructor
    · exact div_nonneg (Int.cast_nonneg hpart) (le_of_lt hpos')
    · rw [div_le_one hpos']
      exact Int.cast_le.mpr hle
  · exact ⟨le_refl _, zero_le_one⟩

/-- The rates of a snapshot that are made of the counters of the resolver. -/
structure RatesInUnit (p : PerfSnapshot) : Prop where
  cacheHitRate : 0 ≤ p.cacheHitRate ∧ p.cacheHitRate ≤ 1
  turboHitRate : 0 ≤ p.turboHitRate ∧ p.turboHitRate ≤ 1
  staleHitRate : 0 ≤ p.staleHitRate ∧ p.staleHitRate ≤ 1

/-- After every run the counters balance, and what is shown of them are rates. -/
theorem statistics_of_run (m : PerfMonitor) (ops : List Op) :
    (run step {} ops).Totals (tally step staleQuery {} ops) (ops.map otherQuery).sum ∧
      RatesInUnit (monitored m (run step {} ops)).snapshot := by
  have htotals := totals_run ops
  refine ⟨htotals, ?_⟩
  obtain ⟨htotal, hhits, hmisses, hturbo, hstale⟩ := htotals
  generalize run step {} ops = s at htotal hhits hmisses hturbo hstale ⊢
  have hrate : ∀ part total : Nat, part ≤ total →
      0 ≤ PerfMonitor.rate part total ∧ PerfMonitor.rate part total ≤ 1 :=
    fun part total hle => rate_mem (Int.natCast_nonneg part) (Int.ofNat_le.mpr hle)
  refine ⟨?_, ?_, ?_⟩
  · exact hrate s.perf.cacheHits (s.perf.cacheHits + s.perf.cacheMisses) (Nat.le_add_right _ _)
  · exact hrate s.turboHits s.cacheHits (by omega)
  · exact hrate s.staleHits s.totalQueries (by omega)

end CachingResolver
end Dnss
