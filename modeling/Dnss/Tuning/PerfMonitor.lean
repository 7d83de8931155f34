/-
`PerfMonitor`: the latencies that the tuner looks at.

`recordLatency` writes a sample into a ring of 256 slots, at an index that is a 64-bit word and
only grows.  `snapshot` reads back from that index as many slots as have been written, at most
all of them, and computes an average and a 95th percentile.

`measures_of_lt` is the result: what is read are the last samples, and no slot that has not
been written.  The ring itself is `Ring.Holds`.  The index may wrap, since 256 divides 2^64; the
number of slots to read may not, and that is where the bound on the calls is used.

Averages and rates are rational numbers here, without the rounding of doubles.  The rank of the
percentile is computed with the rounding, for the factor 0.95 is not a double:
`p95Rank_eq` says that the product still has the integral part it should have.
-/
import Mathlib.Algebra.BigOperators.Group.List.Basic
import Mathlib.Algebra.Order.Field.Rat
import Mathlib.Data.List.Sort
import Dnss.Library.Double
import Dnss.Library.Machine
import Dnss.Library.Ring

namespace Dnss

open Machine

/-! ## The monitor -/

structure PerfSnapshot where
  avgLatencyMs : ℚ := 0
  p95LatencyMs : ℚ := 0
  cacheHitRate : ℚ := 0
  turboHitRate : ℚ := 0
  staleHitRate : ℚ := 0
  errorRate : ℚ := 0
  connUtilization : ℚ := 0
  activeConnections : Int := 0
  threadPoolLoad : Int := 0
  threadPoolWorkers : Int := 0

namespace PerfMonitor

def WINDOW_SIZE : Nat := 256

instance : NeZero WINDOW_SIZE := ⟨by decide⟩

structure LatencyRing where
  latencies : Vector UInt64 WINDOW_SIZE := Vector.replicate WINDOW_SIZE 0
  writeIdx : UInt64 := 0

theorem toNat_mod_lt (k : UInt64) : (k % 256).toNat < WINDOW_SIZE := by
  rw [UInt64.toNat_mod]
  exact Nat.mod_lt _ (by decide)

/-- `k % WINDOW_SIZE`. -/
def slotOf (k : UInt64) : Fin WINDOW_SIZE := ⟨(k % 256).toNat, toNat_mod_lt k⟩

/-- The microseconds are signed and are stored as an unsigned word. -/
def recordLatency (ring : LatencyRing) (noiseFilter : Bool) (us : Int64) : LatencyRing :=
  if noiseFilter then ring
  else
    { latencies := ring.latencies.set (slotOf ring.writeIdx) us.toUInt64
        (slotOf ring.writeIdx).isLt
      writeIdx := ring.writeIdx + 1 }

/-! ## The snapshot -/

namespace LatencyRing

/-- How many slots are read. -/
def count (ring : LatencyRing) : UInt64 := min ring.writeIdx 256

/-- The slots that are read, in this order. -/
def slots (ring : LatencyRing) : List (Fin WINDOW_SIZE) :=
  (List.range ring.count.toNat).map fun i =>
    slotOf (ring.writeIdx - ring.count + UInt64.ofNat i)

def samples (ring : LatencyRing) : List UInt64 := ring.slots.map ring.latencies.get

end LatencyRing

/-- The double nearest to 0.95, in units of 2^-53. -/
def factor95 : Nat := Double.roundDiv (95 * 2 ^ 53) 100

/-- A number rounded to 53 binary digits, ties to even. -/
def round53 (m : Nat) : Nat :=
  let drop := m.log2 + 1 - 53
  Double.roundDiv m (2 ^ drop) * 2 ^ drop

/-- `static_cast<size_t>(count * 0.95)`. -/
def p95Rank (count : Nat) : Nat := round53 (count * factor95) / 2 ^ 53

/-- The part of `snapshot` that reads the ring.  The local array is not initialised behind
`count`; `p95Rank_lt` says that the percentile is not read there. -/
def latencyStats (ring : LatencyRing) (s : PerfSnapshot) : PerfSnapshot :=
  let count := ring.count.toNat
  if count > 0 then
    let samples := ring.samples.mergeSort
    let sum := samples.foldl (fun sum x => sum + (x.toNat : ℚ)) 0
    { s with
      avgLatencyMs := sum / count / 1000
      p95LatencyMs := (samples.getD (p95Rank count) 0).toNat / 1000 }
  else s

def rate (part total : Int) : ℚ := if total > 0 then part / total else 0

/-- The counts of the resolver that the function of `main` reads. -/
structure HitCounts where
  turboHits : Int
  staleHits : Int
  hits : Int
  total : Int

/-- `extraStatsFn_`: not set, or the function of `main` with what its weak pointer gives. -/
inductive ExtraStats where
  | unset
  | expired
  | resolver (counts : HitCounts)

def ExtraStats.apply : ExtraStats → PerfSnapshot → PerfSnapshot
  | .unset, s => s
  | .expired, s => s
  | .resolver c, s =>
    { s with turboHitRate := rate c.turboHits c.hits, staleHitRate := rate c.staleHits c.total }

end PerfMonitor

open PerfMonitor

structure PerfMonitor where
  latencyRing : LatencyRing := {}
  cacheHits : Int := 0
  cacheMisses : Int := 0
  errors : Int := 0
  queries : Int := 0
  activeConns : Int := 0
  totalConns : Int := 0
  poolPending : Int := 0
  poolWorkers : Int := 0
  extraStatsFn : ExtraStats := .unset

namespace PerfMonitor

def snapshot (m : PerfMonitor) : PerfSnapshot :=
  m.extraStatsFn.apply
    { latencyStats m.latencyRing {} with
      cacheHitRate := rate m.cacheHits (m.cacheHits + m.cacheMisses)
      errorRate := rate m.errors m.queries
      connUtilization := rate m.activeConns m.totalConns
      activeConnections := m.activeConns
      threadPoolLoad := m.poolPending
      threadPoolWorkers := m.poolWorkers }

/-! ## What it should be -/

structure Call where
  noiseFilter : Bool
  us : Int64

def record (ring : LatencyRing) (c : Call) : LatencyRing := recordLatency ring c.noiseFilter c.us

/-- The ring after these calls. -/
def after (calls : List Call) : LatencyRing := run record {} calls

/-- The samples of the calls that are not noise. -/
def recorded (calls : List Call) : List UInt64 :=
  (calls.filter fun c => !c.noiseFilter).map fun c => c.us.toUInt64

/-- The last 256 samples, or all of them. -/
def lastSamples (calls : List Call) : List UInt64 :=
  (recorded calls).drop ((recorded calls).length - WINDOW_SIZE)

/-- The call writes slot `j`. -/
def Stores (j : Fin WINDOW_SIZE) (ring : LatencyRing) (c : Call) : Prop :=
  c.noiseFilter = false ∧ slotOf ring.writeIdx = j

def mean (xs : List UInt64) : ℚ := (xs.map fun x => (x.toNat : ℚ)).sum / xs.length

/-- `v` stands at index `r` in every sorted order of `xs`. -/
def HasRank (xs : List UInt64) (r : Nat) (v : UInt64) : Prop :=
  ∀ sorted : List UInt64, sorted.Perm xs → sorted.Pairwise (· ≤ ·) → sorted[r]? = some v

structure Measures (calls : List Call) (m : PerfMonitor) : Prop where
  samples : m.latencyRing.samples.Perm (lastSamples calls)
  count : (lastSamples calls).length = min (recorded calls).length WINDOW_SIZE
  written : ∀ j ∈ m.latencyRing.slots, Happened record {} (Stores j) calls
  average : lastSamples calls ≠ [] → m.snapshot.avgLatencyMs = mean (lastSamples calls) / 1000
  rank : lastSamples calls ≠ [] →
    95 * (lastSamples calls).length / 100 < (lastSamples calls).length
  p95 : lastSamples calls ≠ [] → ∃ v : UInt64,
    HasRank (lastSamples calls) (95 * (lastSamples calls).length / 100) v ∧
      m.snapshot.p95LatencyMs = v.toNat / 1000

/-! ## The ring -/

theorem slotOf_ofNat (n : Nat) : slotOf (UInt64.ofNat n) = Ring.slot n := by
  have hdvd : 256 ∣ 2 ^ 64 := by decide
  refine Fin.ext ?_
  show (UInt64.ofNat n % 256).toNat = n % 256
  rw [UInt64.toNat_mod, UInt64.toNat_ofNat']
  exact Nat.mod_mod_of_dvd n hdvd

theorem recorded_snoc (calls : List Call) (c : Call) :
    recorded (calls ++ [c]) =
      if c.noiseFilter then recorded calls else recorded calls ++ [c.us.toUInt64] := by
  unfold recorded
  cases hnoise : c.noiseFilter <;> simp [hnoise]

/-- The index is the number of samples, as a word, and the ring holds the last of them.  There
is no bound on the calls. -/
theorem after_holds (calls : List Call) :
    (after calls).writeIdx = UInt64.ofNat (recorded calls).length ∧
      Ring.Holds (after calls).latencies (recorded calls) := by
  refine run_past (P := fun calls (ring : LatencyRing) =>
    ring.writeIdx = UInt64.ofNat (recorded calls).length ∧
      Ring.Holds ring.latencies (recorded calls)) ⟨rfl, Ring.holds_nil _⟩ ?_ calls
  rintro calls c ⟨hidx, hholds⟩
  rw [recorded_snoc]
  unfold record recordLatency
  cases c.noiseFilter with
  | true => exact ⟨hidx, hholds⟩
  | false =>
    refine ⟨?_, ?_⟩
    · show (run record {} calls).writeIdx + 1 = _
      rw [if_neg (by decide), hidx, List.length_append, UInt64.ofNat_add]
      rfl
    · have hslot : slotOf (run record {} calls).writeIdx = Ring.slot (recorded calls).length := by
        rw [hidx, slotOf_ofNat]
      have hpush := hholds.push c.us.toUInt64
      rw [← hslot] at hpush
      exact hpush

/-- The slot of every sample was written by a call. -/
theorem stored_of_lt (calls : List Call) :
    ∀ k < (recorded calls).length, Happened record {} (Stores (Ring.slot k)) calls := by
  induction calls using List.reverseRecOn with
  | nil =>
    intro k hk
    exact absurd hk (Nat.not_lt_zero k)
  | append_singleton calls c ih =>
    intro k hk
    rcases Nat.lt_or_ge k (recorded calls).length with hlt | hge
    · exact (ih k hlt).snoc c
    · rw [recorded_snoc] at hk
      cases hnoise : c.noiseFilter with
      | true =>
        rw [if_pos hnoise] at hk
        omega
      | false =>
        rw [if_neg (by simp [hnoise]), List.length_append, List.length_singleton] at hk
        have hlast : k = (recorded calls).length := by omega
        refine happened_snoc ⟨hnoise, ?_⟩
        rw [hlast, ← slotOf_ofNat]
        exact congrArg slotOf (after_holds calls).1

theorem length_lastSamples (calls : List Call) :
    (lastSamples calls).length = min (recorded calls).length WINDOW_SIZE := by
  unfold lastSamples
  rw [List.length_drop]
  omega

theorem length_lastSamples_le (calls : List Call) :
    (lastSamples calls).length ≤ WINDOW_SIZE := by
  rw [length_lastSamples]
  exact Nat.min_le_right _ _

section Bounded

variable {calls : List Call} (h : (recorded calls).length < 2 ^ 64)

include h

theorem count_after : (after calls).count = UInt64.ofNat (lastSamples calls).length := by
  have htoNat : (UInt64.ofNat (recorded calls).length).toNat = (recorded calls).length :=
    UInt64.toNat_ofNat_of_lt' h
  unfold LatencyRing.count
  rw [(after_holds calls).1, length_lastSamples]
  have hword : UInt64.ofNat (recorded calls).length ≤ 256 ↔
      (recorded calls).length ≤ WINDOW_SIZE := by
    rw [UInt64.le_iff_toNat_le, htoNat]
    rfl
  by_cases hle : (recorded calls).length ≤ WINDOW_SIZE
  · rw [Nat.min_eq_left hle]
    exact if_pos (hword.mpr hle)
  · rw [Nat.min_eq_right (Nat.le_of_not_le hle)]
    exact if_neg fun h => hle (hword.mp h)

theorem toNat_count_after : (after calls).count.toNat = (lastSamples calls).length := by
  rw [count_after h, UInt64.toNat_ofNat_of_lt']
  rw [length_lastSamples]
  exact Nat.lt_of_le_of_lt (Nat.min_le_left _ _) h

theorem slots_after :
    (after calls).slots = (List.range (lastSamples calls).length).map fun i =>
      Ring.slot ((recorded calls).length - (lastSamples calls).length + i) := by
  have hle : (lastSamples calls).length ≤ (recorded calls).length := by
    rw [length_lastSamples]
    exact Nat.min_le_left _ _
  unfold LatencyRing.slots
  rw [toNat_count_after h, count_after h, (after_holds calls).1]
  refine List.map_congr_left fun i _ => ?_
  rw [← UInt64.ofNat_sub hle, ← UInt64.ofNat_add, slotOf_ofNat]

theorem samples_after : (after calls).samples = lastSamples calls := by
  have hlength := length_lastSamples calls
  have hwindow := (after_holds calls).2.window (c := (lastSamples calls).length)
    (by omega) (by omega)
  have hstart : (recorded calls).length - (lastSamples calls).length =
      (recorded calls).length - WINDOW_SIZE := by omega
  rw [LatencyRing.samples, slots_after h, List.map_map, Function.comp_def, hwindow, hstart,
    lastSamples]

end Bounded

/-! ## The statistics -/

/-- The factor is a little less than 0.95, and rounding the product makes up for it. -/
theorem p95Rank_eq : ∀ count ≤ WINDOW_SIZE, p95Rank count = 95 * count / 100 := by
  decide +kernel

theorem p95Rank_lt {count : Nat} (hpos : 0 < count) (hwindow : count ≤ WINDOW_SIZE) :
    p95Rank count < count := by
  rw [p95Rank_eq count hwindow]
  omega

theorem foldl_sum (xs : List UInt64) :
    xs.foldl (fun sum x => sum + (x.toNat : ℚ)) 0 = (xs.map fun x => (x.toNat : ℚ)).sum := by
  rw [List.sum_eq_foldl, List.foldl_map]

theorem hasRank_mergeSort {xs : List UInt64} {r : Nat} (h : r < xs.length) :
    HasRank xs r (xs.mergeSort.getD r 0) := by
  intro sorted hperm hsorted
  have hmerge : xs.mergeSort.Pairwise (· ≤ ·) := List.pairwise_mergeSort' (· ≤ ·) xs
  have heq : sorted = xs.mergeSort :=
    (hperm.trans (List.mergeSort_perm xs _).symm).eq_of_pairwise' hsorted hmerge
  have hlength : r < xs.mergeSort.length := by rwa [List.length_mergeSort]
  rw [heq, List.getD_eq_getElem?_getD, List.getElem?_eq_getElem hlength, Option.getD_some]

theorem snapshot_latency (m : PerfMonitor) :
    m.snapshot.avgLatencyMs = (latencyStats m.latencyRing {}).avgLatencyMs ∧
      m.snapshot.p95LatencyMs = (latencyStats m.latencyRing {}).p95LatencyMs := by
  unfold snapshot
  cases m.extraStatsFn <;> exact ⟨rfl, rfl⟩

theorem latencyStats_after {calls : List Call} (h : (recorded calls).length < 2 ^ 64)
    (hne : lastSamples calls ≠ []) (s : PerfSnapshot) :
    latencyStats (after calls) s =
      { s with
        avgLatencyMs := mean (lastSamples calls) / 1000
        p95LatencyMs := ((lastSamples calls).mergeSort.getD
          (95 * (lastSamples calls).length / 100) 0).toNat / 1000 } := by
  have hpos : (lastSamples calls).length > 0 := List.length_pos_of_ne_nil hne
  have hwindow := length_lastSamples_le calls
  have hsum : ((lastSamples calls).mergeSort.map fun x => (x.toNat : ℚ)).sum =
      ((lastSamples calls).map fun x => (x.toNat : ℚ)).sum :=
    ((List.mergeSort_perm _ _).map _).sum_eq
  unfold latencyStats
  simp only [toNat_count_after h, samples_after h, if_pos hpos, foldl_sum, hsum,
    p95Rank_eq _ hwindow]
  rfl

/-- After any calls that leave fewer than 2^64 samples. -/
theorem measures_of_lt (m : PerfMonitor) {calls : List Call}
    (h : (recorded calls).length < 2 ^ 64) :
    Measures calls { m with latencyRing := after calls } := by
  have hstats := latencyStats_after h
  have hlatency := snapshot_latency { m with latencyRing := after calls }
  have hrank : lastSamples calls ≠ [] →
      95 * (lastSamples calls).length / 100 < (lastSamples calls).length := by
    intro hne
    have hwindow := length_lastSamples_le calls
    have hlt := p95Rank_lt (List.length_pos_of_ne_nil hne) hwindow
    rwa [p95Rank_eq _ hwindow] at hlt
  refine ⟨?_, length_lastSamples calls, ?_, ?_, hrank, ?_⟩
  · show (after calls).samples.Perm _
    rw [samples_after h]
  · intro j hj
    have hlength := length_lastSamples calls
    have hslots : (after calls).slots = _ := slots_after h
    rw [hslots] at hj
    obtain ⟨i, hi, rfl⟩ := List.mem_map.mp hj
    rw [List.mem_range] at hi
    exact stored_of_lt calls _ (by omega)
  · intro hne
    rw [hlatency.1, hstats hne]
  · intro hne
    refine ⟨_, hasRank_mergeSort (hrank hne), ?_⟩
    rw [hlatency.2, hstats hne]

/-- Four calls, one of them noise. -/
theorem measures_three :
    (recorded [⟨false, 1500⟩, ⟨true, 90000⟩, ⟨false, 700⟩, ⟨false, 2000⟩]).length = 3 ∧
      Measures [⟨false, 1500⟩, ⟨true, 90000⟩, ⟨false, 700⟩, ⟨false, 2000⟩]
        { latencyRing := after [⟨false, 1500⟩, ⟨true, 90000⟩, ⟨false, 700⟩, ⟨false, 2000⟩] } :=
  ⟨by decide, measures_of_lt {} (by decide)⟩

end PerfMonitor
end Dnss
