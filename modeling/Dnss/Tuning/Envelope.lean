/-
The limits of the tuner.

Connections, threads, the refresh threshold, the turbo counter and the cooldown stay within
their limits whatever a cycle measures: `limits_tune`, one lemma for each rule below it.

The three counters of consecutive cycles are not capped, unlike the turbo counter and the
counter of `LatencyManager`.  The one of errors is cleared whenever it reaches two
(`highErr_after`).  The other two go on, so 2^31 slow cycles in a row make one of them negative
(`slow_cycles_not_envelope`).  `envelope_iff` says that nothing else goes wrong in any run:
every state is within the envelope exactly when no counter is incremented at `INT_MAX`.
-/
import Dnss.Tuning.AutoTuner

namespace Dnss
namespace AutoTuner

open Machine

/-- The limits that hold in every run. -/
structure Limits (s : AutoTuner) : Prop where
  conn : MIN_CONNS ≤ s.connCount ∧ s.connCount ≤ MAX_CONNS
  thread : MIN_THREADS ≤ s.threadCount ∧ s.threadCount ≤ MAX_THREADS
  refresh : 5 ≤ s.refreshPct ∧ s.refreshPct ≤ 15
  turbo : 0 ≤ s.turboCycles ∧ s.turboCycles ≤ 10
  cooldown : 0 ≤ s.anomalyCooldown ∧ s.anomalyCooldown ≤ 6

structure Envelope (s : AutoTuner) : Prop extends Limits s where
  highLat : 0 ≤ s.consecutiveHighLat
  highErr : 0 ≤ s.consecutiveHighErr
  lowLoad : 0 ≤ s.consecutiveLowLoad

/-- The tuner after some cycles. -/
def after (cycles : List Cycle) : AutoTuner := run tune {} cycles

/-! ## Cuts -/

theorem limits_track {s : AutoTuner} (i : Cycle) (h : Limits s) : Limits (track s i) :=
  ⟨h.conn, h.thread, h.refresh, h.turbo, h.cooldown⟩

/-- A number cut by `n` but not below the minimum stays between its limits. -/
theorem cut_bounds {lo hi x : Int} {n : Int} (hn : 0 ≤ n) (h : lo ≤ x ∧ x ≤ hi) :
    lo ≤ max (x - n) lo ∧ max (x - n) lo ≤ hi := by
  omega

theorem limits_beforeAnomalies {s : AutoTuner} (i : Cycle) (h : Limits s) :
    Limits (beforeAnomalies s i) := by
  have htrack := limits_track i h
  simp only [beforeAnomalies]
  split
  · exact ⟨cut_bounds (by decide) htrack.conn, cut_bounds (by decide) htrack.thread,
      htrack.refresh, htrack.turbo, htrack.cooldown⟩
  · exact htrack

theorem limits_cut {i : Cycle} {s t : AutoTuner} (hcut : Cut i s t) (h : Limits s) : Limits t := by
  cases hcut with
  | stuckQueue =>
    exact ⟨cut_bounds (by decide) h.conn, cut_bounds (by decide) h.thread, h.refresh, h.turbo,
      h.cooldown⟩
  | errorSpike =>
    exact ⟨cut_bounds (by decide) h.conn, h.thread, h.refresh, h.turbo, h.cooldown⟩
  | hitRateCollapse => exact ⟨h.conn, h.thread, h.refresh, h.turbo, h.cooldown⟩

theorem limits_boostTTLs {s : AutoTuner} (i : Cycle) (h : Limits s) : Limits (boostTTLs s i) := by
  unfold boostTTLs
  split
  · exact ⟨h.conn, h.thread, h.refresh, h.turbo, h.cooldown⟩
  · exact h

theorem limits_cooled {s : AutoTuner} (h : Limits s) : Limits (cooled s) := by
  have hcooldown := h.cooldown
  unfold cooled
  split
  · refine ⟨h.conn, h.thread, h.refresh, h.turbo, ?_⟩
    show 0 ≤ s.anomalyCooldown - 1 ∧ s.anomalyCooldown - 1 ≤ 6
    omega
  · exact h

/-! ## Connections -/

/-- Between the minimum and the maximum. -/
def InConns (n : Int) : Prop := MIN_CONNS ≤ n ∧ n ≤ MAX_CONNS

/-- A boost goes up, and not beyond the limit. -/
theorem boost_bounds {limit new : Int} (amount : Int) (hnew : new ≤ limit) :
    new ≤ boost limit amount new ∧ boost limit amount new ≤ limit := by
  simp only [boost]
  split <;> omega

theorem inConns_turboConn {s : AutoTuner} (i : Cycle) (h : InConns s.connCount) :
    InConns (turboConn s i) := by
  unfold InConns at *
  simp only [turboConn]
  split
  · split <;> omega
  · exact h

theorem inConns_shrinkConn {s : AutoTuner} (i : Cycle) {n : Int} (h : InConns s.connCount)
    (hn : InConns n) : InConns (shrinkConn s i n) := by
  unfold InConns at *
  simp only [shrinkConn]
  split
  · exact hn
  · split
    · omega
    · split
      · omega
      · exact hn

theorem inConns_min_add {n m : Int} (h : InConns n) (hm : 0 ≤ m) :
    InConns (min (n + m) MAX_CONNS) := by
  unfold InConns MIN_CONNS MAX_CONNS at *
  omega

theorem inConns_growConn {s : AutoTuner} (i : Cycle) {n : Int} (h : InConns s.connCount)
    (hn : InConns n) : InConns (growConn s i n) := by
  have hgrowth : (0 : Int) ≤ if i.util > 0.95 then 3 else 2 := by split <;> omega
  unfold growConn
  split_ifs
  all_goals first
    | exact hn
    | exact inConns_min_add h (by decide)

theorem inConns_boostConn {s : AutoTuner} (i : Cycle) {n : Int} (hn : InConns n) :
    InConns (boostConn s i n) := by
  have hboost := boost_bounds (LatencyManager.connBoost i) hn.2
  unfold boostConn
  split
  · exact ⟨Int.le_trans hn.1 hboost.1, hboost.2⟩
  · exact hn

theorem inConns_newConn {s : AutoTuner} (i : Cycle) (h : InConns s.connCount) :
    InConns (newConn s i) := by
  have hwanted : InConns (boostConn s i (growConn s i (shrinkConn s i (turboConn s i)))) :=
    inConns_boostConn i (inConns_growConn i h (inConns_shrinkConn i h (inConns_turboConn i h)))
  unfold newConn holdConn
  split
  · exact h
  · exact hwanted

theorem limits_tuneConns {s : AutoTuner} (i : Cycle) (h : Limits s) : Limits (tuneConns s i) :=
  ⟨inConns_newConn i h.conn, h.thread, h.refresh, h.turbo, h.cooldown⟩

theorem limits_tuneFanOut {s : AutoTuner} (i : Cycle) (h : Limits s) : Limits (tuneFanOut s i) := by
  have hset : ∀ b, Limits { s with fanOut := b } := fun _ =>
    ⟨h.conn, h.thread, h.refresh, h.turbo, h.cooldown⟩
  simp only [tuneFanOut]
  split_ifs
  all_goals first
    | exact h
    | exact hset _

/-! ## Threads and cache -/

theorem clampThreads_bounds (n : Int) :
    MIN_THREADS ≤ clampThreads n ∧ clampThreads n ≤ MAX_THREADS := by
  simp only [clampThreads, MIN_THREADS, MAX_THREADS]
  split_ifs <;> omega

theorem turboThreads_bounds {s : AutoTuner} (i : Cycle)
    (h : 0 ≤ s.turboCycles ∧ s.turboCycles ≤ 10) :
    0 ≤ (turboThreads s i).1 ∧ (turboThreads s i).1 ≤ 10 := by
  simp only [turboThreads]
  split_ifs <;> dsimp only <;> omega

theorem limits_tuneThreads {s : AutoTuner} (i : Cycle) (curConn : Int) (h : Limits s) :
    Limits (tuneThreads s i curConn) :=
  ⟨h.conn, clampThreads_bounds _, h.refresh, turboThreads_bounds i h.turbo, h.cooldown⟩

theorem cacheRefreshBoost_nonneg (i : Cycle) : 0 ≤ LatencyManager.cacheRefreshBoost i := by
  unfold LatencyManager.cacheRefreshBoost
  split <;> omega

theorem limits_tuneRefresh {s : AutoTuner} (i : Cycle) (h : Limits s) :
    Limits (tuneRefresh s i) := by
  have hrefresh := h.refresh
  have hboost := cacheRefreshBoost_nonneg i
  refine ⟨h.conn, h.thread, ?_, h.turbo, h.cooldown⟩
  simp only [tuneRefresh]
  split_ifs <;> omega

theorem limits_tuneTTLs {s : AutoTuner} (i : Cycle) (h : Limits s) : Limits (tuneTTLs s i) := by
  have hset : ∀ m n, Limits { s with minTTL := m, negativeTTL := n } := fun _ _ =>
    ⟨h.conn, h.thread, h.refresh, h.turbo, h.cooldown⟩
  simp only [tuneTTLs]
  split_ifs
  all_goals first
    | exact h
    | exact hset _ _

theorem limits_adjust {s : AutoTuner} (i : Cycle) (h : Limits s) : Limits (adjust s i) :=
  limits_tuneTTLs i (limits_tuneRefresh i (limits_tuneThreads i s.connCount
    (limits_tuneFanOut i (limits_tuneConns i h))))

/-! ## The cycle -/

theorem limits_sampled {s : AutoTuner} (h : Limits s) : Limits (sampled s) :=
  ⟨h.conn, h.thread, h.refresh, h.turbo, h.cooldown⟩

theorem limits_tune {s : AutoTuner} (i : Cycle) (h : Limits s) : Limits (tune s i) := by
  have hbefore := limits_beforeAnomalies i h
  by_cases hanomaly : anomaly s i
  · rw [tune_of_anomaly hanomaly]
    have hcut : Limits (detect (beforeAnomalies s i) i).1 :=
      detect_induction (fun _ _ => limits_cut) hbefore
    have hsix : (0 : Int) ≤ 6 ∧ (6 : Int) ≤ 6 := by decide
    exact limits_sampled ⟨hcut.conn, hcut.thread, hcut.refresh, hcut.turbo, hsix⟩
  · rw [tune_of_not_anomaly hanomaly]
    have hcooled := limits_cooled (limits_boostTTLs i hbefore)
    split
    · exact limits_sampled hcooled
    · exact limits_sampled (limits_adjust i hcooled)

theorem limits_initial : Limits {} := by
  constructor <;> decide

theorem limits_after (cycles : List Cycle) : Limits (after cycles) :=
  run_invariant limits_initial fun i _ _ => limits_tune i

/-! ## Counters -/

/-- The counters of consecutive cycles: high latency, many errors and low load. -/
def counters (s : AutoTuner) : Int × Int × Int :=
  (s.consecutiveHighLat, s.consecutiveHighErr, s.consecutiveLowLoad)

/-- A counter that is at most `bound` and has not wrapped. -/
def IsCount (bound n : Int) : Prop := 0 ≤ n ∧ n ≤ bound

structure Counters (bound : Int) (s : AutoTuner) : Prop where
  highLat : IsCount bound s.consecutiveHighLat
  lowLoad : IsCount bound s.consecutiveLowLoad

/-- The cycle increments a counter that is at `INT_MAX`. -/
def Overflows (s : AutoTuner) (i : Cycle) : Prop :=
  (i.lat > 200 ∧ s.consecutiveHighLat = INT_MAX) ∨
  ((i.lat < 50 ∧ i.err < 0.01) ∧ s.consecutiveLowLoad = INT_MAX)

theorem counters_of_eq {bound : Int} {s t : AutoTuner} (heq : counters t = counters s)
    (h : Counters bound s) : Counters bound t := by
  simp only [counters, Prod.mk.injEq] at heq
  obtain ⟨hlat, -, hload⟩ := heq
  exact ⟨hlat ▸ h.highLat, hload ▸ h.lowLoad⟩

theorem wrap_of_fits {n : Int} (hlo : -2147483648 ≤ n) (hhi : n ≤ INT_MAX) : wrap n = n := by
  unfold INT_MAX at hhi
  rw [wrap, Int.bmod_eq_of_le] <;> omega

theorem wrap_of_lt {n : Int} (hn : 0 ≤ n) (hlt : n < INT_MAX) : wrap (n + 1) = n + 1 :=
  wrap_of_fits (by omega) (by omega)

/-- A counter that is not negative goes down without a wrap. -/
theorem count_of_not {up : Prop} [Decidable up] {bound n : Int} (hup : ¬ up) (h : IsCount bound n)
    (hbound : bound ≤ INT_MAX) : count up n = max 0 (n - 1) := by
  have hlo := h.1
  have hhi := h.2
  rw [count, if_neg hup, wrap_of_fits (by omega) (by omega)]

theorem isCount_count {up : Prop} [Decidable up] {n : Int} (h : IsCount INT_MAX n)
    (hno : ¬ (up ∧ n = INT_MAX)) : IsCount INT_MAX (count up n) := by
  by_cases hup : up
  · have hn : n ≠ INT_MAX := fun hn => hno ⟨hup, hn⟩
    unfold IsCount at *
    rw [count, if_pos hup, wrap_of_lt h.1 (by omega)]
    omega
  · rw [count_of_not hup h le_rfl]
    unfold IsCount at *
    omega

theorem isCount_count_succ {up : Prop} [Decidable up] {bound n : Int} (h : IsCount bound n)
    (hbound : bound < INT_MAX) : IsCount (bound + 1) (count up n) := by
  by_cases hup : up
  · unfold IsCount at *
    rw [count, if_pos hup, wrap_of_lt h.1 (by omega)]
    omega
  · rw [count_of_not hup h (by omega)]
    unfold IsCount at *
    omega

theorem counters_track {s : AutoTuner} {i : Cycle} (h : Counters INT_MAX s)
    (hno : ¬ Overflows s i) : Counters INT_MAX (track s i) := by
  refine ⟨isCount_count h.highLat ?_, isCount_count h.lowLoad ?_⟩
  · exact fun hlat => hno (.inl hlat)
  · exact fun hload => hno (.inr hload)

theorem counters_track_succ {bound : Int} {s : AutoTuner} (i : Cycle) (h : Counters bound s)
    (hbound : bound < INT_MAX) : Counters (bound + 1) (track s i) :=
  ⟨isCount_count_succ h.highLat hbound, isCount_count_succ h.lowLoad hbound⟩

theorem counters_cut {bound : Int} {i : Cycle} {s t : AutoTuner} (hcut : Cut i s t)
    (h : Counters bound s) : Counters bound t := by
  have hzero : IsCount bound 0 := ⟨le_rfl, le_trans h.lowLoad.1 h.lowLoad.2⟩
  cases hcut with
  | stuckQueue => exact ⟨hzero, h.lowLoad⟩
  | errorSpike => exact ⟨h.highLat, h.lowLoad⟩
  | hitRateCollapse => exact ⟨h.highLat, h.lowLoad⟩

theorem counters_beforeAnomalies (s : AutoTuner) (i : Cycle) :
    counters (beforeAnomalies s i) = counters (track s i) := by
  simp only [beforeAnomalies]
  split <;> rfl

theorem counters_boostTTLs (s : AutoTuner) (i : Cycle) :
    counters (boostTTLs s i) = counters s := by
  unfold boostTTLs
  split <;> rfl

theorem counters_cooled (s : AutoTuner) : counters (cooled s) = counters s := by
  unfold cooled
  split <;> rfl

theorem counters_tuneFanOut (s : AutoTuner) (i : Cycle) :
    counters (tuneFanOut s i) = counters s := by
  simp only [tuneFanOut]
  split_ifs <;> rfl

theorem counters_tuneTTLs (s : AutoTuner) (i : Cycle) : counters (tuneTTLs s i) = counters s := by
  simp only [tuneTTLs]
  split_ifs <;> rfl

theorem counters_adjust (s : AutoTuner) (i : Cycle) : counters (adjust s i) = counters s := by
  simp only [adjust, counters_tuneTTLs]
  exact counters_tuneFanOut _ i

/-- Without an anomaly only the counting itself changes the counters. -/
theorem counters_tune_of_not_anomaly {s : AutoTuner} {i : Cycle} (h : ¬ anomaly s i) :
    counters (tune s i) = counters (track s i) := by
  have hcooled : counters (cooled (boostTTLs (beforeAnomalies s i) i)) = counters (track s i) := by
    rw [counters_cooled, counters_boostTTLs, counters_beforeAnomalies]
  rw [tune_of_not_anomaly h]
  split
  · exact hcooled
  · exact (counters_adjust _ i).trans hcooled

/-- The rules after the counting leave a counter alone or clear it. -/
theorem counters_tune {bound : Int} {s : AutoTuner} {i : Cycle} (h : Counters bound (track s i)) :
    Counters bound (tune s i) := by
  by_cases hanomaly : anomaly s i
  · rw [tune_of_anomaly hanomaly]
    have hcut : Counters bound (detect (beforeAnomalies s i) i).1 :=
      detect_induction (fun _ _ => counters_cut) (counters_of_eq (counters_beforeAnomalies s i) h)
    exact ⟨hcut.highLat, hcut.lowLoad⟩
  · exact counters_of_eq (counters_tune_of_not_anomaly hanomaly) h

/-! ## The counter of errors -/

/-- Detection clears the counter when it has reached two. -/
theorem highErr_detect {s : AutoTuner} {i : Cycle} (h : IsCount 2 s.consecutiveHighErr)
    (herr : s.consecutiveHighErr = 2 → i.err > 0.03) :
    IsCount 1 (detect s i).1.consecutiveHighErr := by
  have hzero : IsCount 1 0 := ⟨le_rfl, by decide⟩
  unfold detect
  by_cases hstuck : stuckQueue s i
  · simp only [if_pos hstuck]
    by_cases hspike : errorSpike (cutStuckQueue s) i
    · simp only [if_pos hspike]
      split <;> exact hzero
    · simp only [if_neg hspike]
      split <;> exact hzero
  · simp only [if_neg hstuck]
    by_cases hspike : errorSpike s i
    · simp only [if_pos hspike]
      split <;> exact hzero
    · simp only [if_neg hspike]
      have hlow : IsCount 1 s.consecutiveHighErr := by
        have hne : s.consecutiveHighErr ≠ 2 := fun htwo => hspike ⟨herr htwo, htwo.ge⟩
        unfold IsCount at *
        omega
      split <;> exact hlow

theorem highErr_track {s : AutoTuner} (i : Cycle) (h : IsCount 1 s.consecutiveHighErr) :
    IsCount 2 (track s i).consecutiveHighErr ∧
      ((track s i).consecutiveHighErr = 2 → i.err > 0.03) := by
  refine ⟨isCount_count_succ h (by decide), fun htwo => ?_⟩
  by_cases herr : i.err > 0.05
  · exact Double.lt_trans (by decide +kernel) herr
  · have hdown : (track s i).consecutiveHighErr = max 0 (s.consecutiveHighErr - 1) :=
      count_of_not herr h (by decide)
    have hle := h.2
    omega

theorem highErr_tune {s : AutoTuner} (i : Cycle) (h : IsCount 1 s.consecutiveHighErr) :
    IsCount 1 (tune s i).consecutiveHighErr := by
  have hsame : (beforeAnomalies s i).consecutiveHighErr = (track s i).consecutiveHighErr :=
    congrArg (fun c => c.2.1) (counters_beforeAnomalies s i)
  have htrack := highErr_track i h
  rw [← hsame] at htrack
  have hdetect := highErr_detect htrack.1 htrack.2
  by_cases hanomaly : anomaly s i
  · rw [tune_of_anomaly hanomaly]
    exact hdetect
  · have hkept := (detect_cases (beforeAnomalies s i) i).2 (by simpa [anomaly] using hanomaly)
    have htune : (tune s i).consecutiveHighErr = (track s i).consecutiveHighErr :=
      congrArg (fun c => c.2.1) (counters_tune_of_not_anomaly hanomaly)
    rwa [hkept, hsame, ← htune] at hdetect

/-! ## Counters that overflow -/

/-- No cut changes the counter of low load. -/
theorem lowLoad_tune (s : AutoTuner) (i : Cycle) :
    (tune s i).consecutiveLowLoad = (track s i).consecutiveLowLoad := by
  have hbefore : (beforeAnomalies s i).consecutiveLowLoad = (track s i).consecutiveLowLoad :=
    congrArg (fun c => c.2.2) (counters_beforeAnomalies s i)
  by_cases hanomaly : anomaly s i
  · rw [tune_of_anomaly hanomaly]
    refine detect_induction (P := fun t => t.consecutiveLowLoad = (track s i).consecutiveLowLoad)
      (fun t u hcut ht => ?_) hbefore
    cases hcut <;> exact ht
  · exact congrArg (fun c => c.2.2) (counters_tune_of_not_anomaly hanomaly)

/-- A short stretch of high latency is not cut off. -/
theorem highLat_detect {s : AutoTuner} {i : Cycle} (h : s.consecutiveHighLat < 3) :
    (detect s i).1.consecutiveHighLat = s.consecutiveHighLat := by
  have hstuck : ¬ stuckQueue s i := fun hstuck => absurd hstuck.2 (by omega)
  simp only [detect, if_neg hstuck]
  by_cases hspike : errorSpike s i
  · simp only [if_pos hspike]
    split <;> rfl
  · simp only [if_neg hspike]
    split <;> rfl

theorem highLat_tune {s : AutoTuner} {i : Cycle} (h : (track s i).consecutiveHighLat < 3) :
    (tune s i).consecutiveHighLat = (track s i).consecutiveHighLat := by
  have hbefore : (beforeAnomalies s i).consecutiveHighLat = (track s i).consecutiveHighLat :=
    congrArg Prod.fst (counters_beforeAnomalies s i)
  by_cases hanomaly : anomaly s i
  · rw [tune_of_anomaly hanomaly, ← hbefore]
    exact highLat_detect (by rwa [hbefore])
  · exact congrArg Prod.fst (counters_tune_of_not_anomaly hanomaly)

theorem count_of_full {up : Prop} [Decidable up] (hup : up) : count up INT_MAX = -2147483648 := by
  rw [count, if_pos hup]
  decide

/-- A counter that overflows is negative after the cycle. -/
theorem not_envelope_of_overflows {s : AutoTuner} {i : Cycle} (h : Overflows s i) :
    ¬ Envelope (tune s i) := by
  intro henvelope
  rcases h with ⟨hlat, hfull⟩ | ⟨hlow, hfull⟩
  · have hwrapped : (track s i).consecutiveHighLat = -2147483648 := by
      show count (i.lat > 200) s.consecutiveHighLat = _
      rw [hfull, count_of_full hlat]
    have hnonneg := henvelope.highLat
    rw [highLat_tune (by omega), hwrapped] at hnonneg
    exact absurd hnonneg (by decide)
  · have hwrapped : (track s i).consecutiveLowLoad = -2147483648 := by
      show count (i.lat < 50 ∧ i.err < 0.01) s.consecutiveLowLoad = _
      rw [hfull, count_of_full hlow]
    have hnonneg := henvelope.lowLoad
    rw [lowLoad_tune, hwrapped] at hnonneg
    exact absurd hnonneg (by decide)

/-! ## Runs -/

theorem counters_initial : Counters 0 {} :=
  ⟨⟨le_rfl, le_rfl⟩, ⟨le_rfl, le_rfl⟩⟩

theorem Counters.mono {bound bound' : Int} {s : AutoTuner} (h : Counters bound s)
    (hle : bound ≤ bound') : Counters bound' s :=
  ⟨⟨h.highLat.1, le_trans h.highLat.2 hle⟩, ⟨h.lowLoad.1, le_trans h.lowLoad.2 hle⟩⟩

/-- The counter of errors is at most one after every cycle. -/
theorem highErr_after (cycles : List Cycle) : IsCount 1 (after cycles).consecutiveHighErr :=
  run_invariant (P := fun s : AutoTuner => IsCount 1 s.consecutiveHighErr) ⟨le_rfl, by decide⟩
    fun i _ _ => highErr_tune i

theorem counters_after {cycles : List Cycle}
    (hno : ∀ s i, Visits tune {} cycles s i → ¬ Overflows s i) :
    Counters INT_MAX (after cycles) := by
  refine run_invariant_of_visits (counters_initial.mono (by decide)) fun s i hvisit hpast => ?_
  exact counters_tune (counters_track hpast (hno s i hvisit))

/-- A counter is at most the number of cycles. -/
theorem counters_after_length {cycles : List Cycle} (hshort : (cycles.length : Int) ≤ INT_MAX) :
    Counters cycles.length (after cycles) := by
  refine run_past (P := fun cycles s => (cycles.length : Int) ≤ INT_MAX →
    Counters cycles.length s) ?_ ?_ cycles hshort
  · intro _
    exact counters_initial
  · intro cycles i ih hshort
    rw [List.length_append, List.length_singleton, Nat.cast_add, Nat.cast_one] at *
    exact counters_tune (counters_track_succ i (ih (by omega)) (by omega))

/-- No counter overflows in fewer than 2^31 cycles. -/
theorem not_overflows_of_short {cycles : List Cycle} (hshort : (cycles.length : Int) ≤ INT_MAX)
    {s : AutoTuner} {i : Cycle} (hvisit : Visits tune {} cycles s i) : ¬ Overflows s i := by
  obtain ⟨done, rest, rfl, rfl⟩ := hvisit
  rw [List.length_append, List.length_cons, Nat.cast_add, Nat.cast_add, Nat.cast_one] at hshort
  have hcounters : Counters done.length (after done) := counters_after_length (by omega)
  have hlat := hcounters.highLat.2
  have hload := hcounters.lowLoad.2
  unfold after at *
  rintro (⟨-, h⟩ | ⟨-, h⟩) <;> omega

theorem envelope_of_no_overflow {cycles : List Cycle}
    (hno : ∀ s i, Visits tune {} cycles s i → ¬ Overflows s i) :
    ∀ done rest, cycles = done ++ rest → Envelope (after done) := by
  rintro done rest rfl
  have hcounters : Counters INT_MAX (after done) :=
    counters_after fun s i hvisit => hno s i (hvisit.append rest)
  exact ⟨limits_after done, hcounters.highLat.1, (highErr_after done).1, hcounters.lowLoad.1⟩

/-- Every state of a run is within the envelope exactly when no counter overflows in it. -/
theorem envelope_iff {cycles : List Cycle} :
    (∀ done rest, cycles = done ++ rest → Envelope (after done)) ↔
      ∀ s i, Visits tune {} cycles s i → ¬ Overflows s i := by
  constructor
  · rintro h s i ⟨done, rest, rfl, rfl⟩ hoverflows
    have hafter := h (done ++ [i]) rest (by simp)
    rw [after, run_snoc] at hafter
    exact not_envelope_of_overflows hoverflows hafter
  · exact envelope_of_no_overflow

/-! ## Slow cycles -/

theorem not_anomaly_of_quiet {i : Cycle} (hload : ¬ i.load > 200) (herr : ¬ i.err > 0.03)
    (hhit : ¬ i.hitRate < 0.5) (s : AutoTuner) : ¬ anomaly s i := by
  have hstuck : ∀ t, ¬ stuckQueue t i := fun t h => hload h.1
  have hspike : ∀ t, ¬ errorSpike t i := fun t h => herr h.1
  have hcollapse : ∀ t, ¬ hitRateCollapse t i := fun t h => hhit h.1
  simp [anomaly, detect, hstuck, hspike, hcollapse]

/-- A latency of 300 ms and nothing else of note. -/
def slowCycle : Cycle :=
  { now := 0, lat := 300, trend := 0, variance := 0, qps := 0, err := 0, hitRate := 1, util := 0,
    p95 := 0, load := 0, urgency := 0, bottleneck := .none }

theorem consecutiveHighLat_slowCycle (s : AutoTuner) :
    (tune s slowCycle).consecutiveHighLat = wrap (s.consecutiveHighLat + 1) := by
  have hquiet : ¬ anomaly s slowCycle :=
    not_anomaly_of_quiet (by decide) (by decide +kernel) (by decide +kernel) s
  have hcounters := congrArg Prod.fst (counters_tune_of_not_anomaly hquiet)
  have hslow : slowCycle.lat > 200 := by decide +kernel
  calc (tune s slowCycle).consecutiveHighLat
      = count (slowCycle.lat > 200) s.consecutiveHighLat := hcounters
    _ = wrap (s.consecutiveHighLat + 1) := if_pos hslow

theorem consecutiveHighLat_slowCycles {n : Nat} (hn : (n : Int) ≤ INT_MAX) :
    (after (List.replicate n slowCycle)).consecutiveHighLat = n := by
  induction n with
  | zero => rfl
  | succ n ih =>
    rw [Nat.cast_add, Nat.cast_one] at *
    have hprev := ih (by omega)
    rw [List.replicate_succ', after, run_snoc, ← after, consecutiveHighLat_slowCycle, hprev]
    exact wrap_of_lt (by omega) (by omega)

/-- The counter of slow cycles overflows. -/
theorem slow_cycles_not_envelope :
    (after (List.replicate 2147483648 slowCycle)).consecutiveHighLat = -2147483648 ∧
    ¬ Envelope (after (List.replicate 2147483648 slowCycle)) := by
  have hfull : (after (List.replicate 2147483647 slowCycle)).consecutiveHighLat = 2147483647 :=
    consecutiveHighLat_slowCycles (n := 2147483647) (by decide)
  have hlast : after (List.replicate (2147483647 + 1) slowCycle) =
      tune (after (List.replicate 2147483647 slowCycle)) slowCycle := by
    rw [List.replicate_succ', after, run_snoc, ← after]
  have hwrapped : (after (List.replicate 2147483648 slowCycle)).consecutiveHighLat =
      -2147483648 := by
    rw [show 2147483648 = 2147483647 + 1 from rfl, hlast, consecutiveHighLat_slowCycle, hfull]
    decide
  refine ⟨hwrapped, fun h => ?_⟩
  have hnonneg := h.highLat
  rw [hwrapped] at hnonneg
  exact absurd hnonneg (by decide)

end AutoTuner
end Dnss
