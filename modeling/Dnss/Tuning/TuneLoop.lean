/-
`AutoTuner::tune` with what it measures.

A tick is what one call reads: the clock, the snapshot of `PerfMonitor` and the number of queries.
From it and from its own past the call computes the urgency, the filtered latency, its trend and
its variance; together they are the `Cycle` that the rules of `AutoTuner` look at.

In an `AutoTuner` alone the inputs of one cycle have nothing to do with those of the next.  Here
they have: the filter keeps the latency between 0 and 10000 ms whatever was measured, so
`sound_after` needs no hypothesis about it.  `computeTrend_bestLine` says what the trend is, and
`probes_iff` when the idle connections are probed.

As in `LatencyManager`, the arithmetic is that of rational numbers, without the rounding of
doubles: what is exact here, as the slope of the trend, is so up to rounding in the program.
`computeQps` and the history that only it reads are left out, since nothing calls it.
-/
import Dnss.Library.LeastSquares
import Dnss.Tuning.Idle
import Dnss.Tuning.LatencyManager
import Dnss.Tuning.Ttls

namespace Dnss

open Machine

/-! ## The filter -/

structure Estimator where
  kalmanEstimate : ℚ := 0
  kalmanError : ℚ := 1
  latHistory : List ℚ := []
  lastQueries : Int := 0
  /-- The first cycle initialises the static variable. -/
  lastQpsCheck : Option Int := none

namespace Estimator

def MAX_HISTORY : Nat := 150

def kalmanFilter (e : Estimator) (measurement : ℚ) : Estimator :=
  let processNoise := 1 / 100
  let measurementNoise := 5
  let pred := e.kalmanEstimate
  let predError := e.kalmanError + processNoise
  let kg := predError / (predError + measurementNoise)
  { e with
    kalmanEstimate := pred + kg * (measurement - pred)
    kalmanError := (1 - kg) * predError }

def constrain (rawLat : ℚ) : ℚ :=
  let rawLat := if rawLat < 1 then 1 else rawLat
  if rawLat > 10000 then 10000 else rawLat

/-- `push_back`, and `pop_front` when there are too many. -/
def pushHistory (latHistory : List ℚ) (lat : ℚ) : List ℚ :=
  if MAX_HISTORY < (latHistory ++ [lat]).length then (latHistory ++ [lat]).tail
  else latHistory ++ [lat]

def measureLatency (e : Estimator) (perf : PerfSnapshot) : Estimator :=
  let e := e.kalmanFilter (constrain perf.avgLatencyMs)
  { e with latHistory := pushHistory e.latHistory e.kalmanEstimate }

/-- The queries of the last seconds. -/
def measureQps (e : Estimator) (now queries : Int) : Estimator × ℚ :=
  let lastQpsCheck := e.lastQpsCheck.getD now
  let elapsed := (now - lastQpsCheck).tdiv 1000000000
  if elapsed ≥ 1 then
    ({ e with lastQueries := queries, lastQpsCheck := some now },
      ((queries - e.lastQueries : Int) : ℚ) / elapsed)
  else ({ e with lastQpsCheck := some lastQpsCheck }, 0)

/-- The sums of `computeTrend`. -/
structure Sums where
  sumX : ℚ := 0
  sumY : ℚ := 0
  sumXY : ℚ := 0
  sumX2 : ℚ := 0

def Sums.add (t : Sums) (x y : ℚ) : Sums :=
  { sumX := t.sumX + x, sumY := t.sumY + y, sumXY := t.sumXY + x * y, sumX2 := t.sumX2 + x * x }

/-- The quotient of the sums, in exact arithmetic. -/
def computeTrend (latHistory : List ℚ) : ℚ :=
  if latHistory.length < 10 then 0
  else
    let n := latHistory.length
    let t := (List.range n).foldl (fun t i => t.add i (latHistory.getD i 0)) ({} : Sums)
    (n * t.sumXY - t.sumX * t.sumY) / (n * t.sumX2 - t.sumX * t.sumX)

def computeVariance (latHistory : List ℚ) : ℚ :=
  if latHistory.length < 5 then 0
  else
    let mean := latHistory.foldl (fun (mean : ℚ) p => mean + p) 0 / latHistory.length
    latHistory.foldl (fun (var : ℚ) p => var + (p - mean) * (p - mean)) 0 / latHistory.length

end Estimator

/-! ## The probes -/

/-- The static variables of the probes. -/
structure ProbeTimer where
  prevUrgency : Int := 0
  probeCooldown : Int := 0

namespace ProbeTimer

/-- The idle connections are to be probed. -/
def due (p : ProbeTimer) (latUrgency : Int) : Prop :=
  latUrgency ≥ 2 ∧ (p.prevUrgency < 2 ∨ p.probeCooldown ≤ 0)

instance (p : ProbeTimer) (latUrgency : Int) : Decidable (due p latUrgency) :=
  inferInstanceAs (Decidable (_ ∧ _))

/-- They are probed where there is an `HttpResolver`. -/
def probes (p : ProbeTimer) (http : Bool) (latUrgency : Int) : Prop :=
  due p latUrgency ∧ http = true

/-- The cooldown is set whether there is one or not. -/
def step (p : ProbeTimer) (latUrgency : Int) : ProbeTimer :=
  let probeCooldown := if due p latUrgency then 3 else p.probeCooldown
  { prevUrgency := latUrgency
    probeCooldown := if probeCooldown > 0 then probeCooldown - 1 else probeCooldown }

end ProbeTimer

/-! ## The loop -/

structure TuneLoop where
  latencyManager : LatencyManager := {}
  probeTimer : ProbeTimer := {}
  estimator : Estimator := {}
  tuner : AutoTuner := {}

/-- What one call of `tune` reads. -/
structure Tick where
  now : Int
  perf : PerfSnapshot
  queries : Int
  spurious : Bool := false
  /-- `HttpResolver::instance()` is not null. -/
  http : Bool := false

namespace TuneLoop

open Estimator

def measure (s : TuneLoop) (t : Tick) : Estimator × ℚ :=
  (s.estimator.measureLatency t.perf).measureQps t.now t.queries

/-- What the rules look at. -/
def cycle (s : TuneLoop) (t : Tick) : Cycle :=
  let latencyManager := s.latencyManager.evaluate t.perf
  let (estimator, qps) := s.measure t
  { now := t.now
    lat := .fin estimator.kalmanEstimate
    trend := .fin (computeTrend estimator.latHistory)
    variance := .fin (computeVariance estimator.latHistory)
    qps := .fin qps
    err := .fin t.perf.errorRate
    hitRate := .fin t.perf.cacheHitRate
    util := .fin t.perf.connUtilization
    p95 := .fin t.perf.p95LatencyMs
    load := t.perf.threadPoolLoad
    urgency := ⟨latencyManager.urgency.toNat % 6, Nat.mod_lt _ (by decide)⟩
    bottleneck := latencyManager.bottleneck
    spurious := t.spurious }

def tune (s : TuneLoop) (t : Tick) : TuneLoop :=
  let latencyManager := s.latencyManager.evaluate t.perf
  { latencyManager
    probeTimer := s.probeTimer.step latencyManager.urgency
    estimator := (s.measure t).1
    tuner := s.tuner.tune (s.cycle t) }

def after (ticks : List Tick) : TuneLoop := run tune {} ticks

/-! ## Its parts -/

/-- The cycles of a run. -/
def cyclesFrom (s : TuneLoop) : List Tick → List Cycle
  | [] => []
  | t :: ticks => s.cycle t :: cyclesFrom (s.tune t) ticks

theorem length_cyclesFrom (s : TuneLoop) (ticks : List Tick) :
    (s.cyclesFrom ticks).length = ticks.length := by
  induction ticks generalizing s with
  | nil => rfl
  | cons t ticks ih => rw [cyclesFrom, List.length_cons, List.length_cons, ih]

theorem tuner_run (s : TuneLoop) (ticks : List Tick) :
    (run tune s ticks).tuner = run AutoTuner.tune s.tuner (s.cyclesFrom ticks) := by
  induction ticks generalizing s with
  | nil => rfl
  | cons t ticks ih => exact ih (s.tune t)

/-- The rules of the loop are those of `AutoTuner`, run on the cycles of the loop. -/
theorem tuner_after (ticks : List Tick) :
    (after ticks).tuner = AutoTuner.after (cyclesFrom {} ticks) :=
  tuner_run {} ticks

end TuneLoop

/-! ## Ranges of the filter -/

namespace Estimator

theorem constrain_range (rawLat : ℚ) : 1 ≤ constrain rawLat ∧ constrain rawLat ≤ 10000 := by
  unfold constrain
  dsimp only
  split_ifs <;> constructor <;> linarith

/-- What holds after every cycle.  The error stays above 0.2, so that the gain of the filter
stays above 0.04. -/
structure Sound (e : Estimator) : Prop where
  estimate : 0 ≤ e.kalmanEstimate ∧ e.kalmanEstimate ≤ 10000
  error : 1 / 5 ≤ e.kalmanError ∧ e.kalmanError ≤ 1
  history : e.latHistory.length ≤ MAX_HISTORY

def gain (e : Estimator) : ℚ := (e.kalmanError + 1 / 100) / (e.kalmanError + 1 / 100 + 5)

theorem kalmanEstimate_eq (e : Estimator) (m : ℚ) :
    (e.kalmanFilter m).kalmanEstimate = e.kalmanEstimate + e.gain * (m - e.kalmanEstimate) := rfl

theorem kalmanError_eq (e : Estimator) (m : ℚ) :
    (e.kalmanFilter m).kalmanError = (1 - e.gain) * (e.kalmanError + 1 / 100) := rfl

theorem gain_range {e : Estimator} (h : 1 / 5 ≤ e.kalmanError ∧ e.kalmanError ≤ 1) :
    1 / 25 ≤ e.gain ∧ e.gain ≤ 1 := by
  have hpos : 0 < e.kalmanError + 1 / 100 + 5 := by linarith
  refine ⟨(le_div_iff₀ hpos).mpr ?_, (div_le_iff₀ hpos).mpr ?_⟩
  · linarith
  · linarith

/-- A filtered value lies between the last one and the measurement. -/
theorem kalmanEstimate_range {e : Estimator} (h : 1 / 5 ≤ e.kalmanError ∧ e.kalmanError ≤ 1)
    {lo hi m : ℚ} (hm : lo ≤ m ∧ m ≤ hi) (he : lo ≤ e.kalmanEstimate ∧ e.kalmanEstimate ≤ hi) :
    lo ≤ (e.kalmanFilter m).kalmanEstimate ∧ (e.kalmanFilter m).kalmanEstimate ≤ hi := by
  have hgain := gain_range h
  rw [kalmanEstimate_eq]
  constructor
  · nlinarith
  · nlinarith

theorem kalmanError_range {e : Estimator} (h : 1 / 5 ≤ e.kalmanError ∧ e.kalmanError ≤ 1)
    (m : ℚ) : 1 / 5 ≤ (e.kalmanFilter m).kalmanError ∧ (e.kalmanFilter m).kalmanError ≤ 1 := by
  have hpos : 0 < e.kalmanError + 1 / 100 + 5 := by linarith
  have heq : (e.kalmanFilter m).kalmanError =
      5 * (e.kalmanError + 1 / 100) / (e.kalmanError + 1 / 100 + 5) := by
    rw [kalmanError_eq, gain, one_sub_div hpos.ne', add_sub_cancel_left, div_mul_eq_mul_div]
  rw [heq]
  refine ⟨(le_div_iff₀ hpos).mpr ?_, (div_le_iff₀ hpos).mpr ?_⟩
  · linarith
  · linarith

theorem length_pushHistory_le {latHistory : List ℚ} (lat : ℚ)
    (h : latHistory.length ≤ MAX_HISTORY) :
    (pushHistory latHistory lat).length ≤ MAX_HISTORY := by
  unfold pushHistory
  split
  · rw [List.length_tail, List.length_append, List.length_singleton]
    omega
  · rename_i hshort
    exact Nat.not_lt.mp hshort

theorem measureQps_fields (e : Estimator) (now queries : Int) :
    (e.measureQps now queries).1.kalmanEstimate = e.kalmanEstimate ∧
      (e.measureQps now queries).1.kalmanError = e.kalmanError ∧
      (e.measureQps now queries).1.latHistory = e.latHistory := by
  unfold measureQps
  dsimp only
  split <;> exact ⟨rfl, rfl, rfl⟩

theorem sound_measureLatency {e : Estimator} (h : e.Sound) (perf : PerfSnapshot) :
    (e.measureLatency perf).Sound := by
  have hconstrain := constrain_range perf.avgLatencyMs
  refine ⟨kalmanEstimate_range h.error ⟨by linarith, hconstrain.2⟩ h.estimate,
    kalmanError_range h.error (constrain perf.avgLatencyMs), ?_⟩
  exact length_pushHistory_le _ h.history

theorem sound_measureQps {e : Estimator} (h : e.Sound) (now queries : Int) :
    (e.measureQps now queries).1.Sound := by
  obtain ⟨hestimate, herror, hhistory⟩ := measureQps_fields e now queries
  refine ⟨?_, ?_, ?_⟩
  · rw [hestimate]
    exact h.estimate
  · rw [herror]
    exact h.error
  · rw [hhistory]
    exact h.history

theorem sound_empty : Sound {} where
  estimate := by norm_num
  error := by norm_num
  history := Nat.zero_le _

/-! ## The trend -/

theorem foldl_add (latHistory : List ℚ) (n : Nat) :
    (List.range n).foldl (fun t i => t.add i (latHistory.getD i 0)) ({} : Sums) =
      { sumX := ∑ i ∈ Finset.range n, (i : ℚ)
        sumY := ∑ i ∈ Finset.range n, latHistory.getD i 0
        sumXY := ∑ i ∈ Finset.range n, (i : ℚ) * latHistory.getD i 0
        sumX2 := ∑ i ∈ Finset.range n, (i : ℚ) ^ 2 } := by
  induction n with
  | zero => rfl
  | succ n ih =>
    rw [List.range_succ, List.foldl_append, ih, List.foldl_cons, List.foldl_nil, Sums.add,
      Finset.sum_range_succ, Finset.sum_range_succ, Finset.sum_range_succ,
      Finset.sum_range_succ, pow_two]

/-- The history as points over their indices. -/
def BestLine (latHistory : List ℚ) (a b : ℚ) : Prop :=
  LeastSquares.Best (Finset.range latHistory.length) (fun i : Nat => (i : ℚ))
    (fun i => latHistory.getD i 0) a b

/-- The trend is the slope of the least-squares line, and no other line is as good. -/
theorem computeTrend_bestLine {latHistory : List ℚ} (h : 10 ≤ latHistory.length) :
    (∃ a, BestLine latHistory a (computeTrend latHistory)) ∧
      ∀ a b, BestLine latHistory a b → b = computeTrend latHistory := by
  have hslope : computeTrend latHistory =
      LeastSquares.slope (Finset.range latHistory.length) (fun i : Nat => (i : ℚ))
        (fun i => latHistory.getD i 0) := by
    rw [computeTrend, if_neg (by omega)]
    simp only [foldl_add]
    rw [LeastSquares.slope, LeastSquares.spread, Finset.card_range, pow_two]
  have hzero : 0 ∈ Finset.range latHistory.length := Finset.mem_range.mpr (by omega)
  have hone : 1 ∈ Finset.range latHistory.length := Finset.mem_range.mpr (by omega)
  have hne : ((0 : Nat) : ℚ) ≠ ((1 : Nat) : ℚ) := by norm_num
  have hfits := LeastSquares.fits_slope (x := fun i : Nat => (i : ℚ))
    (y := fun i => latHistory.getD i 0) hzero hone hne
  rw [hslope]
  exact ⟨⟨_, hfits.squares_le⟩, fun a b hbest => hfits.slope_unique hzero hone hne hbest⟩

/-- Ten values that rise by 2 in each cycle. -/
theorem computeTrend_bestLine_rising :
    (∃ a, BestLine ((List.range 10).map fun i : Nat => 2 * (i : ℚ))
      a (computeTrend ((List.range 10).map fun i : Nat => 2 * (i : ℚ)))) ∧
      ∀ a b, BestLine ((List.range 10).map fun i : Nat => 2 * (i : ℚ)) a b →
        b = computeTrend ((List.range 10).map fun i : Nat => 2 * (i : ℚ)) :=
  computeTrend_bestLine (by decide)

end Estimator

/-! ## Ranges of the TTLs -/

namespace AutoTuner

/-- The two TTLs in every run.  The last step down may begin at 301. -/
structure Floor (s : AutoTuner) : Prop where
  min : 241 ≤ s.minTTL ∧ s.minTTL ≤ 7200
  negative : 300 ≤ s.negativeTTL ∧ s.negativeTTL ≤ 3600

theorem floor_of_eq {s t : AutoTuner} (heq : ttls t = ttls s) (h : Floor s) : Floor t := by
  simp only [ttls, Prod.mk.injEq] at heq
  obtain ⟨hmin, hnegative, -⟩ := heq
  exact ⟨hmin ▸ h.min, hnegative ▸ h.negative⟩

theorem floor_cut {i : Cycle} {s t : AutoTuner} (hcut : Cut i s t) (h : Floor s) : Floor t := by
  refine ⟨?_, negative_cut hcut h.negative⟩
  have hmin := h.min
  cases hcut with
  | stuckQueue =>
    show 241 ≤ min (s.minTTL + 120) 1200 ∧ min (s.minTTL + 120) 1200 ≤ 7200
    omega
  | errorSpike => exact hmin
  | hitRateCollapse =>
    show 241 ≤ min (s.minTTL + 300) 7200 ∧ min (s.minTTL + 300) 7200 ≤ 7200
    omega

theorem floor_boostTTLs {s : AutoTuner} {i : Cycle} (hrange : LatencyInRange i) (h : Floor s) :
    Floor (boostTTLs s i) := by
  have hmin := h.min
  have hraised := minTTL_boostTTLs hrange ⟨by omega, hmin.2⟩
  exact ⟨by omega, negative_boostTTLs i h.negative⟩

theorem floor_tuneTTLs {s : AutoTuner} (i : Cycle) (h : Floor s) : Floor (tuneTTLs s i) := by
  refine ⟨?_, negative_tuneTTLs i h.negative⟩
  have hmin := h.min
  simp only [tuneTTLs]
  by_cases hsamples : s.samplesCollected > 12
  · rw [if_pos hsamples]
    by_cases hslow : slowUpstream s i
    · have hlow := hslow.2.2
      rw [if_pos hslow, if_neg (not_relaxes_of_high s hslow.1)]
      show 241 ≤ s.minTTL + 60 ∧ s.minTTL + 60 ≤ 7200
      omega
    · rw [if_neg hslow]
      by_cases hrelaxes : relaxes s i
      · have hhigh := hrelaxes.2.2
        rw [if_pos hrelaxes]
        show 241 ≤ s.minTTL - 60 ∧ s.minTTL - 60 ≤ 7200
        omega
      · rw [if_neg hrelaxes]
        exact hmin
  · rw [if_neg hsamples]
    exact hmin

theorem floor_tune {s : AutoTuner} {i : Cycle} (hrange : LatencyInRange i) (h : Floor s) :
    Floor (tune s i) := by
  have hbefore : Floor (beforeAnomalies s i) := floor_of_eq (ttls_beforeAnomalies s i) h
  by_cases hanomaly : anomaly s i
  · rw [tune_of_anomaly hanomaly]
    have hcut : Floor (detect (beforeAnomalies s i) i).1 :=
      detect_induction (fun _ _ => floor_cut) hbefore
    exact ⟨hcut.min, hcut.negative⟩
  · have hready : Floor (cooled (boostTTLs (beforeAnomalies s i) i)) :=
      floor_of_eq (ttls_cooled _) (floor_boostTTLs hrange hbefore)
    have hadjust : Floor (adjust (cooled (boostTTLs (beforeAnomalies s i) i)) i) :=
      floor_of_eq (ttls_adjust _ i) (floor_tuneTTLs i hready)
    rw [tune_of_not_anomaly hanomaly]
    split
    · exact ⟨hready.min, hready.negative⟩
    · exact ⟨hadjust.min, hadjust.negative⟩

end AutoTuner

/-! ## Ranges of the loop -/

namespace TuneLoop

open Estimator AutoTuner

structure Sound (s : TuneLoop) : Prop where
  latencyManager : s.latencyManager.Sound
  estimator : s.estimator.Sound
  floor : Floor s.tuner

theorem sound_measure {s : TuneLoop} (h : s.estimator.Sound) (t : Tick) : (s.measure t).1.Sound :=
  sound_measureQps (sound_measureLatency h t.perf) t.now t.queries

theorem latencyInRange_cycle {s : TuneLoop} (h : s.estimator.Sound) (t : Tick) :
    LatencyInRange (s.cycle t) :=
  ⟨(s.measure t).1.kalmanEstimate, rfl, (sound_measure h t).estimate⟩

theorem sound_tune {s : TuneLoop} (h : s.Sound) (t : Tick) : (s.tune t).Sound where
  latencyManager := LatencyManager.sound_evaluate h.latencyManager t.perf
  estimator := sound_measure h.estimator t
  floor := floor_tune (latencyInRange_cycle h.estimator t) h.floor

theorem sound_empty : Sound {} where
  latencyManager := LatencyManager.sound_empty
  estimator := Estimator.sound_empty
  floor := ⟨by decide, by decide⟩

theorem sound_run {s : TuneLoop} (h : s.Sound) (ticks : List Tick) : (run tune s ticks).Sound :=
  run_invariant (P := Sound) h fun t _ _ h => sound_tune h t

/-- Every state of a run of fewer than 2^31 ticks, whatever was measured. -/
theorem sound_after {ticks : List Tick} (hshort : (ticks.length : Int) ≤ INT_MAX) :
    (after ticks).Sound ∧ Envelope (after ticks).tuner := by
  refine ⟨sound_run sound_empty ticks, ?_⟩
  rw [tuner_after]
  rw [← length_cyclesFrom {} ticks] at hshort
  exact envelope_of_no_overflow (fun s i hvisit => not_overflows_of_short hshort hvisit)
    _ [] (List.append_nil _).symm

/-! ## When the idle connections are probed -/

/-- The number of urgent cycles at the end. -/
def stretch (urgencies : List Int) : Nat :=
  (urgencies.reverse.takeWhile fun urgency => decide (urgency ≥ 2)).length

theorem stretch_snoc (urgencies : List Int) (urgency : Int) :
    stretch (urgencies ++ [urgency]) = if urgency ≥ 2 then stretch urgencies + 1 else 0 := by
  unfold stretch
  rw [List.reverse_append, List.reverse_singleton, List.singleton_append, List.takeWhile_cons]
  by_cases h : urgency ≥ 2
  · simp [h]
  · simp [h]

/-- The timer after some urgencies. -/
structure Timed (urgencies : List Int) (p : ProbeTimer) : Prop where
  urgent : 2 ≤ p.prevUrgency ↔ 0 < stretch urgencies
  cooldown : 0 < stretch urgencies → p.probeCooldown = 2 - ((stretch urgencies - 1) % 3 : Nat)

theorem Timed.due_iff {urgencies : List Int} {p : ProbeTimer} (h : Timed urgencies p)
    (urgency : Int) : p.due urgency ↔ urgency ≥ 2 ∧ 3 ∣ stretch urgencies := by
  have hurgent := h.urgent
  have hcooldown := h.cooldown
  unfold ProbeTimer.due
  refine and_congr_right fun _ => ?_
  by_cases hzero : stretch urgencies = 0
  · rw [hzero] at hurgent ⊢
    constructor
    · exact fun _ => dvd_zero 3
    · exact fun _ => .inl (by omega)
  · have hvalue := hcooldown (by omega)
    omega

theorem timed_run (urgencies : List Int) :
    Timed urgencies (run ProbeTimer.step {} urgencies) := by
  refine run_past (P := Timed) ⟨by decide, fun h => absurd h (by decide)⟩ ?_ urgencies
  intro urgencies urgency ih
  have hdue := ih.due_iff urgency
  have hcooldown := ih.cooldown
  have hurgent := ih.urgent
  have hsnoc := stretch_snoc urgencies urgency
  refine ⟨?_, fun hpos => ?_⟩
  · show 2 ≤ urgency ↔ _
    rw [hsnoc]
    split <;> omega
  · have hurgency : urgency ≥ 2 := by
      by_contra hlow
      rw [hsnoc, if_neg hlow] at hpos
      exact absurd hpos (by decide)
    rw [if_pos hurgency] at hsnoc
    rw [hsnoc, Nat.add_sub_cancel]
    generalize run ProbeTimer.step {} urgencies = p at *
    unfold ProbeTimer.step
    dsimp only
    by_cases hprobe : p.due urgency
    · have hdvd := (hdue.mp hprobe).2
      rw [if_pos hprobe, if_pos (by decide)]
      omega
    · have hnot : ¬ 3 ∣ stretch urgencies := fun hdvd => hprobe (hdue.mpr ⟨hurgency, hdvd⟩)
      have hvalue := hcooldown (by omega)
      rw [if_neg hprobe, if_pos (by omega)]
      omega

/-- The urgencies of a run. -/
def urgencies (m : LatencyManager) : List Tick → List Int
  | [] => []
  | t :: ticks => (m.evaluate t.perf).urgency :: urgencies (m.evaluate t.perf) ticks

theorem probeTimer_run (s : TuneLoop) (ticks : List Tick) :
    (run tune s ticks).probeTimer =
      run ProbeTimer.step s.probeTimer (urgencies s.latencyManager ticks) := by
  induction ticks generalizing s with
  | nil => rfl
  | cons t ticks ih => exact ih (s.tune t)

/-- A tick probes the idle connections. -/
def Probes (s : TuneLoop) (t : Tick) : Prop :=
  s.probeTimer.probes t.http (s.latencyManager.evaluate t.perf).urgency

/-- In every run the probes come with the first, the fourth, the seventh urgent cycle of a
stretch, if there is an `HttpResolver` then, and at no other time. -/
theorem probes_iff (ticks : List Tick) (t : Tick) :
    Probes (after ticks) t ↔
      (((after ticks).latencyManager.evaluate t.perf).urgency ≥ 2 ∧
        3 ∣ stretch (urgencies {} ticks)) ∧ t.http = true := by
  have htimer : (after ticks).probeTimer = run ProbeTimer.step {} (urgencies {} ticks) :=
    probeTimer_run {} ticks
  refine and_congr_left fun _ => ?_
  rw [htimer]
  exact (timed_run (urgencies {} ticks)).due_iff _

/-- A minute of latency, and nothing but errors. -/
def failingTick : Tick where
  now := 0
  perf := { avgLatencyMs := 60000, p95LatencyMs := 60000, errorRate := 1 }
  queries := 7

theorem sound_after_failing :
    (after (List.replicate 9 failingTick)).Sound ∧
      Envelope (after (List.replicate 9 failingTick)).tuner :=
  sound_after (by decide)

end TuneLoop
end Dnss
