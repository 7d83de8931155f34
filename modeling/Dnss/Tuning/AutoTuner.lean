/-
`AutoTuner`: one cycle of the tuner.

Every three seconds `tune` looks at the latency, the error rate, the cache hit rate and the
load, and moves the number of connections and threads, the refresh threshold and the two
TTLs.  What it measures is an input here, without any relation between one cycle and the
next: the filtered latency, its trend and variance, and the urgency and bottleneck that
`LatencyManager` found.

The cycle is cut into its rules, each a function of the tuner and the inputs under the name
of what it does.  The rules before `cool` can only cut; `tuneConns` and `tuneThreads` are
the only ones that can grow, and a cycle with an anomaly never reaches them.

The `int` counters wrap, and so does the sum of `minTTL` and its boost, which is unbounded for
an unbounded latency.  Nothing else here can overflow.  The idle probes, the PID terms and the
log lines are left out, since no rule reads them.
-/
import Mathlib.Logic.Relation
import Dnss.Library.Double
import Dnss.Library.Machine

namespace Dnss

/-- `LatencyManager::bottleneck`. -/
inductive Bottleneck where
  | none
  | queue
  | cache
  | upstream
  deriving DecidableEq

/-- What one cycle reads. -/
structure Cycle where
  /-- Nanoseconds of the steady clock. -/
  now : Int
  lat : Double
  trend : Double
  variance : Double
  qps : Double
  err : Double
  hitRate : Double
  util : Double
  p95 : Double
  load : Int
  urgency : Fin 6
  bottleneck : Bottleneck
  /-- `compare_exchange_weak` may fail without a reason. -/
  spurious : Bool := false

namespace LatencyManager

def threadBoost (i : Cycle) : Int :=
  if (i.urgency : Int) ≤ 0 then 0
  else if i.bottleneck = .queue then i.urgency * 3
  else if i.bottleneck = .upstream then i.urgency * 2
  else i.urgency

def connBoost (i : Cycle) : Int :=
  if (i.urgency : Int) ≤ 0 then 0
  else if i.bottleneck = .upstream ∨ i.bottleneck = .cache then i.urgency * 2
  else i.urgency

def forceFanOut (i : Cycle) : Bool := (i.urgency : Int) > 0

def cacheRefreshBoost (i : Cycle) : Int :=
  if (i.urgency : Int) ≤ 0 then 0 else min (2 + i.urgency * 2) 12

end LatencyManager

structure AutoTuner where
  connCount : Int := 32
  threadCount : Int := 20
  refreshPct : Int := 10
  fanOut : Bool := true
  consecutiveHighLat : Int := 0
  consecutiveHighErr : Int := 0
  consecutiveLowLoad : Int := 0
  samplesCollected : Int := 0
  turboCycles : Int := 0
  anomalyCooldown : Int := 0
  lastConnChange : Int := 0
  /-- The two TTLs belong to `CachingResolver`; only the tuner sets them. -/
  minTTL : Int := 600
  negativeTTL : Int := 300

namespace AutoTuner

def MIN_CONNS : Int := 24
def MAX_CONNS : Int := 48
def MIN_THREADS : Int := 16
def MAX_THREADS : Int := 32

/-- Fifteen seconds. -/
def CONN_CHANGE_HOLDOFF : Int := 15000000000

def INT_MAX : Int := 2147483647

/-- An `int` after an addition or a subtraction. -/
def wrap (n : Int) : Int := n.bmod (2 ^ 32)

/-! ## Counters -/

/-- A counter goes up by one when its condition holds, and else down to zero. -/
def count (up : Prop) [Decidable up] (n : Int) : Int :=
  if up then wrap (n + 1) else max 0 (wrap (n - 1))

def track (s : AutoTuner) (i : Cycle) : AutoTuner :=
  { s with
    consecutiveHighLat := count (i.lat > 200) s.consecutiveHighLat,
    consecutiveHighErr := count (i.err > 0.05) s.consecutiveHighErr,
    consecutiveLowLoad := count (i.lat < 50 ∧ i.err < 0.01) s.consecutiveLowLoad }

/-! ## Cuts -/

/-- The pool has been empty for several cycles. -/
def idle (s : AutoTuner) (i : Cycle) : Prop := i.load = 0 ∧ s.consecutiveLowLoad ≥ 8

def recoverIdle (s : AutoTuner) : AutoTuner :=
  { s with
    connCount := max (s.connCount - 1) MIN_CONNS,
    threadCount := max (s.threadCount - 1) MIN_THREADS }

def stuckQueue (s : AutoTuner) (i : Cycle) : Prop := i.load > 200 ∧ s.consecutiveHighLat ≥ 3

def cutStuckQueue (s : AutoTuner) : AutoTuner :=
  { s with
    threadCount := max (s.threadCount - 2) MIN_THREADS,
    connCount := max (s.connCount - 2) MIN_CONNS,
    minTTL := min (s.minTTL + 120) 1200,
    negativeTTL := min (s.negativeTTL + 120) 600,
    consecutiveHighLat := 0,
    consecutiveHighErr := 0 }

def errorSpike (s : AutoTuner) (i : Cycle) : Prop := i.err > 0.03 ∧ s.consecutiveHighErr ≥ 2

def cutErrorSpike (s : AutoTuner) (i : Cycle) : AutoTuner :=
  { s with
    connCount := max (s.connCount - 1) MIN_CONNS,
    lastConnChange := i.now,
    consecutiveHighErr := 0 }

def hitRateCollapse (s : AutoTuner) (i : Cycle) : Prop :=
  i.hitRate < 0.5 ∧ s.samplesCollected > 60

def raiseTTLs (s : AutoTuner) : AutoTuner :=
  { s with
    minTTL := min (s.minTTL + 300) 7200,
    negativeTTL := min (s.negativeTTL + 120) 3600 }

instance (s : AutoTuner) (i : Cycle) : Decidable (idle s i) :=
  inferInstanceAs (Decidable (_ ∧ _))

instance (s : AutoTuner) (i : Cycle) : Decidable (stuckQueue s i) :=
  inferInstanceAs (Decidable (_ ∧ _))

instance (s : AutoTuner) (i : Cycle) : Decidable (errorSpike s i) :=
  inferInstanceAs (Decidable (_ ∧ _))

instance (s : AutoTuner) (i : Cycle) : Decidable (hitRateCollapse s i) :=
  inferInstanceAs (Decidable (_ ∧ _))

/-- The tuner after the counters and the idle recovery. -/
def beforeAnomalies (s : AutoTuner) (i : Cycle) : AutoTuner :=
  let s := track s i
  if idle s i then recoverIdle s else s

/-- The three anomalies one after the other, and whether one was found. -/
def detect (s : AutoTuner) (i : Cycle) : AutoTuner × Bool :=
  let (s, hit) := if stuckQueue s i then (cutStuckQueue s, true) else (s, false)
  let (s, hit) := if errorSpike s i then (cutErrorSpike s i, true) else (s, hit)
  if hitRateCollapse s i then (raiseTTLs s, true) else (s, hit)

/-- `static_cast<int>((lat - 50) * 2)`.  The subtraction and the product are exact for
numbers of this size; what does not fit is undefined, and the processor gives the least
`int`. -/
def ttlBoost : Double → Int
  | .fin q =>
    let n := Double.trunc ((q - 50) * 2)
    if -2147483648 ≤ n ∧ n ≤ INT_MAX then n else -2147483648
  | _ => -2147483648

/-- High latency and a low hit rate, without an anomaly: cache more. -/
def boostTTLs (s : AutoTuner) (i : Cycle) : AutoTuner :=
  if i.hitRate < 0.7 ∧ i.lat > 150 ∧ s.samplesCollected > 30 ∧ s.minTTL < 3600 then
    { s with
      minTTL := min (wrap (s.minTTL + ttlBoost i.lat)) 7200,
      negativeTTL := min (s.negativeTTL + 60) 3600 }
  else s

/-- The cooldown, and whether the cycle ends before any growth. -/
def cool (s : AutoTuner) (i : Cycle) (anomalyHit idleRecovery : Bool) : AutoTuner × Bool :=
  if anomalyHit then ({ s with anomalyCooldown := 6, lastConnChange := i.now }, true)
  else if s.anomalyCooldown > 0 then
    ({ s with anomalyCooldown := s.anomalyCooldown - 1 },
      idleRecovery || decide (s.anomalyCooldown - 1 > 0))
  else (s, idleRecovery)

/-! ## Connections -/

def inTurbo (s : AutoTuner) : Prop := s.turboCycles ≥ 2

instance (s : AutoTuner) : Decidable (inTurbo s) := inferInstanceAs (Decidable (_ ≥ _))

def turboConn (s : AutoTuner) (i : Cycle) : Int :=
  if s.inTurbo ∧ i.load > 50 then
    let growth := min 4 (MAX_CONNS - s.connCount)
    if growth > 0 then s.connCount + growth else s.connCount
  else s.connCount

def proxySaturated (s : AutoTuner) (i : Cycle) : Prop :=
  i.lat > 1000 ∧ i.util < 0.7 ∧ s.connCount > MIN_CONNS

instance (s : AutoTuner) (i : Cycle) : Decidable (proxySaturated s i) :=
  inferInstanceAs (Decidable (_ ∧ _))

def shrinkConn (s : AutoTuner) (i : Cycle) (newConn : Int) : Int :=
  if s.inTurbo then newConn
  else if s.proxySaturated i then max (s.connCount - 1) MIN_CONNS
  else if s.consecutiveLowLoad ≥ 3 ∧ s.connCount > MIN_CONNS then s.connCount - 1
  else newConn

def growConn (s : AutoTuner) (i : Cycle) (newConn : Int) : Int :=
  if s.inTurbo ∨ s.proxySaturated i then newConn
  else if i.util > 0.90 ∧ i.lat > 200 ∧ s.connCount < MAX_CONNS then
    min (s.connCount + if i.util > 0.95 then 3 else 2) MAX_CONNS
  else if i.util > 0.70 ∧ i.trend > 3 ∧ i.qps > 5 ∧ s.connCount < MAX_CONNS then
    min (s.connCount + 2) MAX_CONNS
  else if i.util > 0.85 ∧ i.qps > 5 ∧ s.connCount < MAX_CONNS then
    min (s.connCount + if i.util > 0.95 then 3 else 2) MAX_CONNS
  else if i.err > 0.02 ∨ s.consecutiveHighErr ≥ 2 then min (s.connCount + 2) MAX_CONNS
  else if i.lat > 200 ∧ i.qps > 5 ∧ s.connCount < MAX_CONNS then
    min (s.connCount + 1) MAX_CONNS
  else if i.trend > 5 ∧ s.connCount < MAX_CONNS then min (s.connCount + 1) MAX_CONNS
  else newConn

/-- The boost of `LatencyManager`, for connections and for threads. -/
def boost (limit amount new : Int) : Int :=
  let boosted := min (new + amount) limit
  if boosted > new then boosted else new

def boostConn (s : AutoTuner) (i : Cycle) (newConn : Int) : Int :=
  if (i.urgency : Int) > 0 ∧ ¬ s.proxySaturated i ∧ newConn < MAX_CONNS then
    boost MAX_CONNS (LatencyManager.connBoost i) newConn
  else newConn

/-- Growth waits for the end of the holdoff. -/
def holdConn (s : AutoTuner) (i : Cycle) (newConn : Int) : Int :=
  if newConn > s.connCount ∧ i.now - s.lastConnChange < CONN_CHANGE_HOLDOFF then s.connCount
  else newConn

def newConn (s : AutoTuner) (i : Cycle) : Int :=
  holdConn s i (boostConn s i (growConn s i (shrinkConn s i (turboConn s i))))

def tuneConns (s : AutoTuner) (i : Cycle) : AutoTuner :=
  { s with
    connCount := newConn s i,
    lastConnChange := if newConn s i ≠ s.connCount then i.now else s.lastConnChange }

/-! ## Fan-out -/

def tuneFanOut (s : AutoTuner) (i : Cycle) : AutoTuner :=
  let bootPhase := s.samplesCollected < 12
  let tailIssue := i.p95 > 120
  if bootPhase ∨ LatencyManager.forceFanOut i ∨ i.err > 0.03 ∨ tailIssue ∨ i.lat > 300 ∨
      (i.variance > 50 ∧ s.consecutiveHighLat ≥ 2) then
    if i.spurious then s else { s with fanOut := true }
  else if ¬ LatencyManager.forceFanOut i ∧ s.samplesCollected > 24 ∧ i.err < 0.01 ∧ i.p95 < 60 ∧
      i.variance < 20 then
    if i.spurious then s else { s with fanOut := false }
  else s

/-! ## Threads -/

/-- The turbo counter and the threads after the load was seen. -/
def turboThreads (s : AutoTuner) (i : Cycle) : Int × Int :=
  if i.load > 50 then
    let turboCycles := min (s.turboCycles + 1) 10
    if turboCycles ≥ 2 then
      let growth := min 8 (MAX_THREADS - s.threadCount)
      if growth > 0 then (turboCycles, s.threadCount + growth)
      else (min turboCycles 5, s.threadCount)
    else (turboCycles, s.threadCount)
  else if i.load < 20 then (max 0 (s.turboCycles - 1), s.threadCount)
  else (max 0 (s.turboCycles - 1), s.threadCount)

def growThreads (s : AutoTuner) (i : Cycle) (newThreads : Int) : Int :=
  if i.util > 0.5 ∧ i.trend > 3 ∧ s.threadCount < MAX_THREADS then
    min (s.threadCount + 1) MAX_THREADS
  else if i.util > 0.8 ∧ i.lat > 200 ∧ s.threadCount < MAX_THREADS then
    min (s.threadCount + 2) MAX_THREADS
  else if i.load > 3 ∧ i.lat > 100 ∧ s.threadCount < MAX_THREADS then
    min (s.threadCount + 2) MAX_THREADS
  else if i.load > 5 ∧ s.threadCount < MAX_THREADS then min (s.threadCount + 1) MAX_THREADS
  else newThreads

/-- `curConn` is the number of connections before this cycle's change. -/
def shrinkThreads (s : AutoTuner) (i : Cycle) (curConn newThreads : Int) : Int :=
  if s.threadCount > curConn + curConn / 5 ∧ s.threadCount > MIN_THREADS then
    max (curConn + curConn / 5) MIN_THREADS
  else if i.util < 0.7 then
    if i.load = 0 ∧ s.consecutiveLowLoad ≥ 8 ∧ s.threadCount > MIN_THREADS then s.threadCount - 1
    else if i.load < 3 ∧ s.consecutiveLowLoad ≥ 12 ∧ s.threadCount > MIN_THREADS then
      s.threadCount - 1
    else newThreads
  else newThreads

def boostThreads (i : Cycle) (newThreads : Int) : Int :=
  if (i.urgency : Int) > 0 ∧ newThreads < MAX_THREADS then
    boost MAX_THREADS (LatencyManager.threadBoost i) newThreads
  else newThreads

def clampThreads (newThreads : Int) : Int :=
  let newThreads := if newThreads < MIN_THREADS then MIN_THREADS else newThreads
  if newThreads > MAX_THREADS then MAX_THREADS else newThreads

def tuneThreads (s : AutoTuner) (i : Cycle) (curConn : Int) : AutoTuner :=
  let (turboCycles, newThreads) := turboThreads s i
  let newThreads :=
    if turboCycles ≥ 2 then newThreads
    else boostThreads i (shrinkThreads s i curConn (growThreads s i newThreads))
  { s with turboCycles := turboCycles, threadCount := clampThreads newThreads }

/-! ## Cache -/

def tuneRefresh (s : AutoTuner) (i : Cycle) : AutoTuner :=
  { s with
    refreshPct :=
      if s.samplesCollected < 12 then 15
      else if (i.urgency : Int) > 0 ∧ s.refreshPct < 50 then
        min (s.refreshPct + LatencyManager.cacheRefreshBoost i) 10
      else if i.hitRate < 0.3 ∧ s.refreshPct < 30 then min (s.refreshPct + 5) 10
      else if i.hitRate > 0.8 ∧ s.refreshPct > 5 then max (s.refreshPct - 2) 5
      else s.refreshPct }

/-- The rule that lets the TTLs grow. -/
def slowUpstream (s : AutoTuner) (i : Cycle) : Prop :=
  i.lat > 80 ∧ i.hitRate < 0.92 ∧ s.minTTL < 900

/-- The rule that lets `minTTL` shrink. -/
def relaxes (s : AutoTuner) (i : Cycle) : Prop :=
  i.lat < 40 ∧ i.hitRate > 0.95 ∧ s.minTTL > 300

instance (s : AutoTuner) (i : Cycle) : Decidable (slowUpstream s i) :=
  inferInstanceAs (Decidable (_ ∧ _))

instance (s : AutoTuner) (i : Cycle) : Decidable (relaxes s i) :=
  inferInstanceAs (Decidable (_ ∧ _))

/-- Both rules read the TTLs from before. -/
def tuneTTLs (s : AutoTuner) (i : Cycle) : AutoTuner :=
  if s.samplesCollected > 12 then
    let t :=
      if slowUpstream s i then
        { s with minTTL := s.minTTL + 60, negativeTTL := min (s.negativeTTL + 60) 600 }
      else s
    if relaxes s i then { t with minTTL := s.minTTL - 60 } else t
  else s

/-! ## The cycle -/

/-- The rules that follow the cooldown. -/
def adjust (s : AutoTuner) (i : Cycle) : AutoTuner :=
  let curConn := s.connCount
  let s := tuneFanOut (tuneConns s i) i
  tuneTTLs (tuneRefresh (tuneThreads s i curConn) i) i

def tune (s : AutoTuner) (i : Cycle) : AutoTuner :=
  let idleRecovery := idle (track s i) i
  let (s, anomalyHit) := detect (beforeAnomalies s i) i
  let s := if anomalyHit then s else boostTTLs s i
  let (s, skipGrowth) := cool s i anomalyHit idleRecovery
  let s := if skipGrowth then s else adjust s i
  { s with samplesCollected := wrap (s.samplesCollected + 1) }

/-! ## What a cycle does -/

/-- The cycle finds an anomaly. -/
def anomaly (s : AutoTuner) (i : Cycle) : Prop := (detect (beforeAnomalies s i) i).2 = true

instance (s : AutoTuner) (i : Cycle) : Decidable (anomaly s i) :=
  inferInstanceAs (Decidable (_ = _))

/-- The cycle ends before the rules that can grow anything. -/
def skips (s : AutoTuner) (i : Cycle) : Prop :=
  anomaly s i ∨ idle (track s i) i ∨ s.anomalyCooldown > 1

instance (s : AutoTuner) (i : Cycle) : Decidable (skips s i) :=
  inferInstanceAs (Decidable (_ ∨ _))

def sampled (s : AutoTuner) : AutoTuner :=
  { s with samplesCollected := wrap (s.samplesCollected + 1) }

/-- The cooldown of a cycle without an anomaly. -/
def cooled (s : AutoTuner) : AutoTuner :=
  if s.anomalyCooldown > 0 then { s with anomalyCooldown := s.anomalyCooldown - 1 } else s

/-- The cuts of the anomalies that were found. -/
inductive Cut (i : Cycle) : AutoTuner → AutoTuner → Prop
  | stuckQueue (s : AutoTuner) : Cut i s (cutStuckQueue s)
  | errorSpike (s : AutoTuner) : Cut i s (cutErrorSpike s i)
  | hitRateCollapse (s : AutoTuner) : Cut i s (raiseTTLs s)

/-- Detection is a sequence of cuts, and none when it finds nothing. -/
theorem detect_cases (s : AutoTuner) (i : Cycle) :
    Relation.ReflTransGen (Cut i) s (detect s i).1 ∧
      ((detect s i).2 = false → (detect s i).1 = s) := by
  unfold detect
  by_cases hstuck : stuckQueue s i
  · rw [if_pos hstuck]
    have hfirst : Relation.ReflTransGen (Cut i) s (cutStuckQueue s) := .single (.stuckQueue s)
    by_cases hspike : errorSpike (cutStuckQueue s) i
    · simp only [if_pos hspike]
      have hsecond := hfirst.tail (.errorSpike _)
      split
      · exact ⟨hsecond.tail (.hitRateCollapse _), fun h => by cases h⟩
      · exact ⟨hsecond, fun h => by cases h⟩
    · simp only [if_neg hspike]
      split
      · exact ⟨hfirst.tail (.hitRateCollapse _), fun h => by cases h⟩
      · exact ⟨hfirst, fun h => by cases h⟩
  · rw [if_neg hstuck]
    by_cases hspike : errorSpike s i
    · simp only [if_pos hspike]
      have hfirst : Relation.ReflTransGen (Cut i) s (cutErrorSpike s i) := .single (.errorSpike s)
      split
      · exact ⟨hfirst.tail (.hitRateCollapse _), fun h => by cases h⟩
      · exact ⟨hfirst, fun h => by cases h⟩
    · simp only [if_neg hspike]
      split
      · exact ⟨.single (.hitRateCollapse s), fun h => by cases h⟩
      · exact ⟨.refl, fun _ => rfl⟩

/-- What every cut keeps, detection keeps. -/
theorem detect_induction {P : AutoTuner → Prop} {i : Cycle} (hcut : ∀ s t, Cut i s t → P s → P t)
    {s : AutoTuner} (hs : P s) : P (detect s i).1 := by
  have hsteps := (detect_cases s i).1
  generalize (detect s i).1 = t at hsteps ⊢
  induction hsteps with
  | refl => exact hs
  | tail _ hstep ih => exact hcut _ _ hstep ih

theorem anomalyCooldown_beforeAnomalies (s : AutoTuner) (i : Cycle) :
    (beforeAnomalies s i).anomalyCooldown = s.anomalyCooldown := by
  simp only [beforeAnomalies]
  split <;> rfl

theorem anomalyCooldown_boostTTLs (s : AutoTuner) (i : Cycle) :
    (boostTTLs s i).anomalyCooldown = s.anomalyCooldown := by
  unfold boostTTLs
  split <;> rfl

theorem tune_of_anomaly {s : AutoTuner} {i : Cycle} (h : anomaly s i) :
    tune s i = sampled { (detect (beforeAnomalies s i) i).1 with
      anomalyCooldown := 6, lastConnChange := i.now } := by
  have hhit : (detect (beforeAnomalies s i) i).2 = true := h
  simp only [tune, hhit, if_true, cool, sampled]

/-- A cycle without an anomaly recovers from idleness, boosts the TTLs, cools down and then
adjusts or not. -/
theorem tune_of_not_anomaly {s : AutoTuner} {i : Cycle} (h : ¬ anomaly s i) :
    tune s i = sampled
      (if skips s i then cooled (boostTTLs (beforeAnomalies s i) i)
        else adjust (cooled (boostTTLs (beforeAnomalies s i) i)) i) := by
  have hmiss : (detect (beforeAnomalies s i) i).2 = false := by simpa [anomaly] using h
  have hsame := (detect_cases (beforeAnomalies s i) i).2 hmiss
  have hcooldown : (boostTTLs (beforeAnomalies s i) i).anomalyCooldown = s.anomalyCooldown := by
    rw [anomalyCooldown_boostTTLs, anomalyCooldown_beforeAnomalies]
  have hskips : skips s i ↔ (idle (track s i) i ∨ s.anomalyCooldown > 1) := by simp [skips, h]
  simp only [tune, hmiss, hsame, cool, cooled, hcooldown, sampled, Bool.false_eq_true, if_false]
  by_cases hpos : s.anomalyCooldown > 0
  · have hiff : s.anomalyCooldown - 1 > 0 ↔ s.anomalyCooldown > 1 := by omega
    simp only [if_pos hpos, hskips, Bool.or_eq_true, decide_eq_true_eq, hiff]
  · have hle : ¬ s.anomalyCooldown > 1 := by omega
    simp only [if_neg hpos, hskips, decide_eq_true_eq, hle, or_false]

/-- A cycle that adjusts was not idle. -/
theorem beforeAnomalies_of_not_skips {s : AutoTuner} {i : Cycle} (h : ¬ skips s i) :
    beforeAnomalies s i = track s i := by
  have hidle : ¬ idle (track s i) i := fun hidle => h (.inr (.inl hidle))
  simp only [beforeAnomalies, if_neg hidle]

end AutoTuner
end Dnss
