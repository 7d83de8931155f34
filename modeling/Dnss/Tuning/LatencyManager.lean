/-
`LatencyManager`: how far the latency is from its targets, and how urgent that is.

Each cycle compares the average and the 95th percentile with their targets.  The larger ratio,
smoothed over the cycles, gives a level from 0 to 5; a counter of the cycles above 1.1 times the
target adds up to two.  Since the counter goes up to ten and comes down by one each cycle, the
urgency outlives the latency.

`sound_run` has the ranges of every run.  `urgency_recovers` says how long the urgency may last:
when the latency has been on target for long enough to bring the smoothed ratio below 1.1, there
are at most four cycles more.

As in `PerfMonitor`, the arithmetic is that of rational numbers, without the rounding of doubles.
The lock of the targets is left out, since nothing calls `setTargets`.
-/
import Mathlib.Algebra.Order.Field.Power
import Mathlib.Tactic.LinearCombination
import Dnss.Tuning.AutoTuner
import Dnss.Tuning.PerfMonitor

namespace Dnss

open Machine

structure LatencyManager where
  smoothedGap : ℚ := 0
  urgency : Int := 0
  gapPct : ℚ := 0
  lastAvg : ℚ := 0
  lastP95 : ℚ := 0
  bottleneck : Bottleneck := .none
  consecutiveOver : Int := 0
  gapHistory : List ℚ := []

namespace LatencyManager

/-- `targets_`. -/
def targetAvgMs : ℚ := 50

def targetP95Ms : ℚ := 200

def MAX_GAP_HISTORY : Nat := 30

/-- The larger ratio of a measurement and its target, and at least 1. -/
def rawGap (perf : PerfSnapshot) : ℚ :=
  let rawGap := max (perf.avgLatencyMs / targetAvgMs) (perf.p95LatencyMs / targetP95Ms)
  if rawGap < 1 then 1 else rawGap

def smooth (smoothedGap rawGap : ℚ) : ℚ := smoothedGap * (7 / 10) + rawGap * (3 / 10)

/-- `push_back`, and `pop_front` when there are too many. -/
def remember (gapHistory : List ℚ) (gap : ℚ) : List ℚ :=
  if MAX_GAP_HISTORY < (gapHistory ++ [gap]).length then (gapHistory ++ [gap]).tail
  else gapHistory ++ [gap]

def countOver (consecutiveOver : Int) (gap : ℚ) : Int :=
  if gap ≥ 11 / 10 then min (consecutiveOver + 1) 10 else max 0 (consecutiveOver - 1)

def level (gap : ℚ) : Int :=
  if gap > 10 then 5
  else if gap > 5 then 4
  else if gap > 3 then 3
  else if gap > 2 then 2
  else if gap > 3 / 2 then 1
  else 0

/-- What a latency that stays high adds. -/
def escalate (consecutiveOver urgency : Int) : Int :=
  let urgency := if consecutiveOver ≥ 3 ∧ urgency > 0 then min (urgency + 1) 5 else urgency
  if consecutiveOver ≥ 6 then min (urgency + 1) 5 else urgency

/-- The first condition that holds. -/
def findBottleneck (perf : PerfSnapshot) : Bottleneck :=
  if perf.threadPoolLoad > 10 then .queue
  else if perf.cacheHitRate < 1 / 2 then .cache
  else if perf.connUtilization > 9 / 10 then .upstream
  else .upstream

def evaluate (m : LatencyManager) (perf : PerfSnapshot) : LatencyManager :=
  let gap := smooth m.smoothedGap (rawGap perf)
  let consecutiveOver := countOver m.consecutiveOver gap
  { smoothedGap := gap
    urgency := escalate consecutiveOver (level gap)
    gapPct := (gap - 1) * 100
    lastAvg := perf.avgLatencyMs
    lastP95 := perf.p95LatencyMs
    bottleneck := findBottleneck perf
    consecutiveOver
    gapHistory := remember m.gapHistory gap }

/-! ## Ranges -/

theorem level_range (gap : ℚ) : 0 ≤ level gap ∧ level gap ≤ 5 := by
  unfold level
  split_ifs <;> decide

theorem level_eq_zero {gap : ℚ} (h : gap ≤ 3 / 2) : level gap = 0 := by
  unfold level
  split_ifs <;> first | rfl | linarith

/-- The escalation adds at most two, and never goes above five. -/
theorem escalate_range (n : Int) {urgency : Int} (h : 0 ≤ urgency ∧ urgency ≤ 5) :
    urgency ≤ escalate n urgency ∧ escalate n urgency ≤ min (urgency + 2) 5 := by
  unfold escalate
  dsimp only
  split_ifs <;> omega

theorem escalate_zero {n : Int} (h : n < 6) : escalate n 0 = 0 := by
  unfold escalate
  dsimp only
  split_ifs <;> omega

theorem countOver_range {n : Int} (gap : ℚ) (h : 0 ≤ n ∧ n ≤ 10) :
    0 ≤ countOver n gap ∧ countOver n gap ≤ 10 := by
  unfold countOver
  split <;> omega

theorem length_remember_le {gapHistory : List ℚ} (gap : ℚ)
    (h : gapHistory.length ≤ MAX_GAP_HISTORY) :
    (remember gapHistory gap).length ≤ MAX_GAP_HISTORY := by
  unfold remember
  split
  · rw [List.length_tail, List.length_append, List.length_singleton]
    omega
  · rename_i hshort
    exact Nat.not_lt.mp hshort

theorem one_le_rawGap (perf : PerfSnapshot) : 1 ≤ rawGap perf := by
  unfold rawGap
  dsimp only
  split
  · exact le_refl 1
  · rename_i hle
    exact not_lt.mp hle

/-- What holds after every cycle. -/
structure Sound (m : LatencyManager) : Prop where
  gap : 0 ≤ m.smoothedGap
  consecutiveOver : 0 ≤ m.consecutiveOver ∧ m.consecutiveOver ≤ 10
  urgency : 0 ≤ m.urgency ∧ m.urgency ≤ 5
  history : m.gapHistory.length ≤ MAX_GAP_HISTORY

theorem sound_evaluate {m : LatencyManager} (h : m.Sound) (perf : PerfSnapshot) :
    (m.evaluate perf).Sound := by
  have hraw := one_le_rawGap perf
  refine ⟨?_, countOver_range _ h.consecutiveOver, ?_, length_remember_le _ h.history⟩
  · have hgap := h.gap
    show 0 ≤ m.smoothedGap * (7 / 10) + rawGap perf * (3 / 10)
    linarith
  · have hlevel := level_range (smooth m.smoothedGap (rawGap perf))
    have hrange := escalate_range
      (countOver m.consecutiveOver (smooth m.smoothedGap (rawGap perf))) hlevel
    show 0 ≤ escalate _ _ ∧ escalate _ _ ≤ 5
    omega

theorem sound_run {m : LatencyManager} (h : m.Sound) (perfs : List PerfSnapshot) :
    (run evaluate m perfs).Sound :=
  run_invariant (P := Sound) h fun perf _ _ h => sound_evaluate h perf

theorem sound_empty : Sound {} where
  gap := le_refl 0
  consecutiveOver := by decide
  urgency := by decide
  history := Nat.zero_le _

/-- The smoothed ratio does not exceed a bound of the ratios. -/
theorem smoothedGap_le {R : ℚ} (hR : 1 ≤ R) {perfs : List PerfSnapshot}
    (hperfs : ∀ perf ∈ perfs, rawGap perf ≤ R) : (run evaluate {} perfs).smoothedGap ≤ R := by
  refine run_invariant (P := fun m : LatencyManager => m.smoothedGap ≤ R)
    (le_trans zero_le_one hR) fun perf hperf m h => ?_
  have hraw := hperfs perf hperf
  show m.smoothedGap * (7 / 10) + rawGap perf * (3 / 10) ≤ R
  linarith

/-! ## Recovery -/

/-- The latency is on target. -/
structure OnTarget (perf : PerfSnapshot) : Prop where
  avg : perf.avgLatencyMs ≤ targetAvgMs
  p95 : perf.p95LatencyMs ≤ targetP95Ms

theorem OnTarget.rawGap_eq {perf : PerfSnapshot} (h : OnTarget perf) : rawGap perf = 1 := by
  have havg : perf.avgLatencyMs / targetAvgMs ≤ 1 := by
    rw [div_le_one (by decide +kernel)]
    exact h.avg
  have hp95 : perf.p95LatencyMs / targetP95Ms ≤ 1 := by
    rw [div_le_one (by decide +kernel)]
    exact h.p95
  unfold rawGap
  dsimp only
  split
  · rfl
  · rename_i hle
    exact le_antisymm (max_le havg hp95) (not_lt.mp hle)

/-- The state after `n` cycles on target.  The ratio comes down by a factor, and from the `k`th
cycle on so does the counter by one. -/
structure Recovers (m : LatencyManager) (k n : Nat) (m' : LatencyManager) : Prop where
  gap : m'.smoothedGap - 1 = (7 / 10) ^ n * (m.smoothedGap - 1)
  consecutiveOver : m'.consecutiveOver ≤ max 0 (9 + k - n)
  urgency : k + 4 ≤ n → m'.urgency = 0

/-- A ratio that is below 1.1 after `k` cycles stays there. -/
theorem gap_lt_of_le {g : ℚ} {k n : Nat} (hk : (7 / 10) ^ k * (g - 1) < 1 / 10) (hle : k ≤ n) :
    (7 / 10) ^ n * (g - 1) < 1 / 10 := by
  obtain ⟨d, rfl⟩ := Nat.exists_eq_add_of_le hle
  have hpow : ((7 / 10 : ℚ)) ^ d ≤ 1 := pow_le_one₀ (by norm_num) (by norm_num)
  have hpos : (0 : ℚ) ≤ (7 / 10) ^ d := pow_nonneg (by norm_num) d
  rw [pow_add, mul_right_comm]
  rcases le_or_gt 0 ((7 / 10) ^ k * (g - 1)) with hnonneg | hneg
  · exact lt_of_le_of_lt (mul_le_of_le_one_right hnonneg hpow) hk
  · have hle : (7 / 10) ^ k * (g - 1) * (7 / 10) ^ d ≤ 0 :=
      mul_nonpos_of_nonpos_of_nonneg (le_of_lt hneg) hpos
    linarith

theorem recovers_step {m m' : LatencyManager} {k n : Nat} (hm' : m'.Sound)
    (hk : (7 / 10) ^ k * (m.smoothedGap - 1) < 1 / 10) (h : Recovers m k n m')
    {perf : PerfSnapshot} (hperf : OnTarget perf) : Recovers m k (n + 1) (m'.evaluate perf) := by
  have hgap : smooth m'.smoothedGap (rawGap perf) - 1 =
      (7 / 10) ^ (n + 1) * (m.smoothedGap - 1) := by
    rw [hperf.rawGap_eq, pow_succ]
    have hprev := h.gap
    unfold smooth
    linear_combination (7 / 10 : ℚ) * hprev
  have hbelow : k ≤ n + 1 → smooth m'.smoothedGap (rawGap perf) < 11 / 10 := by
    intro hle
    have hlt := gap_lt_of_le hk hle
    rw [← hgap] at hlt
    linarith
  have hover : countOver m'.consecutiveOver (smooth m'.smoothedGap (rawGap perf)) ≤
      max 0 (9 + k - (n + 1 : Nat)) := by
    have hprev := h.consecutiveOver
    have hrange := hm'.consecutiveOver
    by_cases hle : k ≤ n + 1
    · have hcount : countOver m'.consecutiveOver (smooth m'.smoothedGap (rawGap perf)) =
          max 0 (m'.consecutiveOver - 1) := by
        rw [countOver, if_neg (not_le.mpr (hbelow hle))]
      omega
    · have hcount := countOver_range (smooth m'.smoothedGap (rawGap perf)) hrange
      omega
  refine ⟨hgap, hover, fun hle => ?_⟩
  have hlevel : level (smooth m'.smoothedGap (rawGap perf)) = 0 := by
    refine level_eq_zero ?_
    have hlt := hbelow (by omega)
    linarith
  show escalate _ (level _) = 0
  rw [hlevel]
  exact escalate_zero (by omega)

theorem recovers_run {m : LatencyManager} {k : Nat} (hm : m.Sound) (hpos : 0 < k)
    (hk : (7 / 10) ^ k * (m.smoothedGap - 1) < 1 / 10) {perfs : List PerfSnapshot}
    (hperfs : ∀ perf ∈ perfs, OnTarget perf) :
    Recovers m k perfs.length (run evaluate m perfs) := by
  induction perfs using List.reverseRecOn with
  | nil =>
    have hover := hm.consecutiveOver
    refine ⟨by simp [run], ?_, fun hle => ?_⟩
    · show m.consecutiveOver ≤ max 0 (9 + (k : Int) - (0 : Nat))
      omega
    · rw [List.length_nil] at hle
      omega
  | append_singleton perfs perf ih =>
    rw [List.forall_mem_append, List.forall_mem_singleton] at hperfs
    rw [run_snoc, List.length_append, List.length_singleton]
    exact recovers_step (sound_run hm perfs) hk (ih hperfs.1) hperfs.2

/-- Whatever has been measured, with ratios up to `R`: when the latency has been on target for
four cycles more than it takes to bring `R` below 1.1, nothing is urgent. -/
theorem urgency_recovers {R : ℚ} {k : Nat} (hR : 1 ≤ R) (hpos : 0 < k)
    (hk : (7 / 10) ^ k * (R - 1) < 1 / 10) {before quiet : List PerfSnapshot}
    (hbefore : ∀ perf ∈ before, rawGap perf ≤ R) (hquiet : ∀ perf ∈ quiet, OnTarget perf)
    (hlength : k + 4 ≤ quiet.length) : (run evaluate {} (before ++ quiet)).urgency = 0 := by
  have hgap := smoothedGap_le hR hbefore
  have hstart : (7 / 10) ^ k * ((run evaluate {} before).smoothedGap - 1) < 1 / 10 := by
    refine lt_of_le_of_lt ?_ hk
    exact mul_le_mul_of_nonneg_left (by linarith) (pow_nonneg (by norm_num) k)
  rw [run_append]
  exact (recovers_run (sound_run sound_empty before) hpos hstart hquiet).urgency hlength

/-- Ten seconds of latency are forgotten after 26 cycles, which are 78 seconds. -/
theorem urgency_recovers_slowest :
    (run evaluate {} ([{ avgLatencyMs := 10000 }] ++
      List.replicate 26 { avgLatencyMs := 50, p95LatencyMs := 200 })).urgency = 0 := by
  refine urgency_recovers (R := 200) (k := 22) (by norm_num) (by decide) (by norm_num) ?_ ?_ ?_
  · rw [List.forall_mem_singleton]
    decide +kernel
  · intro perf hperf
    rw [List.eq_of_mem_replicate hperf]
    exact ⟨by decide +kernel, by decide +kernel⟩
  · rw [List.length_replicate]

end LatencyManager
end Dnss
