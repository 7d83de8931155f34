/-
How the tuner comes to rest.

A tick is calm when the measured latency is below a bound under 50 ms, hardly a query fails and no
task waits.  The filter remembers the past: its gain is at least a twenty-fifth, so each calm tick
takes that part of the difference away.  Once the filtered latency is below 50 ms the cycles are
quiet, and 31 of them bring the connections and the threads down to their minimum.

`atRest_of_calm` puts the two together, for every run and whatever was measured before.
-/
import Dnss.Tuning.TuneLoop

namespace Dnss
namespace TuneLoop

open Machine AutoTuner Estimator

structure Calm (q : ℚ) (t : Tick) : Prop where
  lat : t.perf.avgLatencyMs ≤ q
  err : Double.fin t.perf.errorRate < 0.01
  load : t.perf.threadPoolLoad = 0

theorem constrain_le {q rawLat : ℚ} (hq : 1 ≤ q) (h : rawLat ≤ q) : constrain rawLat ≤ q := by
  unfold constrain
  dsimp only
  split_ifs <;> linarith

theorem estimate_tune (s : TuneLoop) (t : Tick) :
    (s.tune t).estimator.kalmanEstimate =
      (s.estimator.kalmanFilter (constrain t.perf.avgLatencyMs)).kalmanEstimate :=
  (measureQps_fields _ t.now t.queries).1

section Bounded

variable {q : ℚ} (hq : 1 ≤ q)

include hq

/-- A bound above the measurements stays a bound. -/
theorem estimate_le_of_calm {bound : ℚ} (hbound : q ≤ bound) {s : TuneLoop} (hs : s.Sound)
    (hle : s.estimator.kalmanEstimate ≤ bound) {t : Tick} (ht : Calm q t) :
    (s.tune t).estimator.kalmanEstimate ≤ bound := by
  have hraw := constrain_le hq ht.lat
  have hpos := (constrain_range t.perf.avgLatencyMs).1
  have hmeasured : 0 ≤ constrain t.perf.avgLatencyMs ∧ constrain t.perf.avgLatencyMs ≤ bound :=
    ⟨le_trans zero_le_one hpos, le_trans hraw hbound⟩
  rw [estimate_tune]
  exact (kalmanEstimate_range hs.estimator.error hmeasured ⟨hs.estimator.estimate.1, hle⟩).2

/-- A calm tick takes a twenty-fifth of the difference away. -/
theorem estimate_step {s : TuneLoop} (hs : s.Sound) {t : Tick} (ht : Calm q t) {d : ℚ}
    (hd : 0 ≤ d) (hle : s.estimator.kalmanEstimate ≤ q + d) :
    (s.tune t).estimator.kalmanEstimate ≤ q + 24 / 25 * d := by
  have hraw := constrain_le hq ht.lat
  have hgain := gain_range hs.estimator.error
  rw [estimate_tune, kalmanEstimate_eq]
  calc s.estimator.kalmanEstimate +
        s.estimator.gain * (constrain t.perf.avgLatencyMs - s.estimator.kalmanEstimate)
      = (1 - s.estimator.gain) * s.estimator.kalmanEstimate +
          s.estimator.gain * constrain t.perf.avgLatencyMs := by ring
    _ ≤ (1 - s.estimator.gain) * (q + d) + s.estimator.gain * q :=
        add_le_add (mul_le_mul_of_nonneg_left hle (by linarith))
          (mul_le_mul_of_nonneg_left hraw (by linarith))
    _ = q + (1 - s.estimator.gain) * d := by ring
    _ ≤ q + 24 / 25 * d := by
        have hfactor : (1 - s.estimator.gain) * d ≤ 24 / 25 * d :=
          mul_le_mul_of_nonneg_right (by linarith) hd
        linarith

theorem estimate_run {s : TuneLoop} (hs : s.Sound) {ticks : List Tick}
    (hcalm : ∀ t ∈ ticks, Calm q t) :
    (run tune s ticks).estimator.kalmanEstimate ≤ q + (24 / 25) ^ ticks.length * 10000 := by
  induction ticks using List.reverseRecOn with
  | nil =>
    have hmax := hs.estimator.estimate.2
    show s.estimator.kalmanEstimate ≤ q + (24 / 25) ^ 0 * 10000
    linarith
  | append_singleton ticks t ih =>
    rw [List.forall_mem_append, List.forall_mem_singleton] at hcalm
    have hstep := estimate_step hq (sound_run hs ticks) hcalm.2 (by positivity) (ih hcalm.1)
    rw [run_snoc, List.length_append, List.length_singleton, pow_succ]
    linarith

end Bounded

/-- The cycles of a run are those of its moments. -/
theorem visits_of_mem_cyclesFrom {s : TuneLoop} {ticks : List Tick} {i : Cycle}
    (hi : i ∈ s.cyclesFrom ticks) :
    ∃ done t rest, ticks = done ++ t :: rest ∧ i = (run tune s done).cycle t := by
  induction ticks generalizing s with
  | nil => cases hi
  | cons t ticks ih =>
    rcases List.mem_cons.mp hi with rfl | hlater
    · exact ⟨[], t, ticks, rfl, rfl⟩
    · obtain ⟨done, t', rest, rfl, rfl⟩ := ih hlater
      exact ⟨t :: done, t', rest, rfl, rfl⟩

/-- Below 50 ms every calm tick makes a quiet cycle. -/
theorem quiet_of_calm {q bound : ℚ} (hq : 1 ≤ q) (hbound : q ≤ bound) (hfifty : bound < 50)
    {s : TuneLoop} (hs : s.Sound) (hle : s.estimator.kalmanEstimate ≤ bound) {ticks : List Tick}
    (hcalm : ∀ t ∈ ticks, Calm q t) : ∀ i ∈ s.cyclesFrom ticks, Quiet i := by
  intro i hi
  obtain ⟨done, t, rest, rfl, rfl⟩ := visits_of_mem_cyclesFrom hi
  have ht : Calm q t := hcalm t (by simp)
  have hpast : (run tune s done).Sound ∧ (run tune s done).estimator.kalmanEstimate ≤ bound := by
    refine run_invariant (P := fun s : TuneLoop => s.Sound ∧ s.estimator.kalmanEstimate ≤ bound)
      ⟨hs, hle⟩ fun t ht s h => ?_
    exact ⟨sound_tune h.1 t,
      estimate_le_of_calm hq hbound h.1 h.2 (hcalm t (List.mem_append_left _ ht))⟩
  have hlat : ((run tune s done).tune t).estimator.kalmanEstimate ≤ bound :=
    estimate_le_of_calm hq hbound hpast.1 hpast.2 ht
  refine ⟨ht.load, ?_, ht.err⟩
  show ((run tune s done).tune t).estimator.kalmanEstimate < 50
  linarith

/-- Whatever was measured before: when the ticks have been calm for 31 cycles more than the filter
needs to come below 50 ms, the tuner is at its minimum. -/
theorem atRest_of_calm {q : ℚ} {k : Nat} (hq : 1 ≤ q) (hk : q + (24 / 25) ^ k * 10000 < 50)
    {before calm : List Tick} (hcalm : ∀ t ∈ calm, Calm q t) (hlong : k + 31 ≤ calm.length)
    (hshort : ((before ++ calm).length : Int) ≤ INT_MAX) :
    AtRest (after (before ++ calm)).tuner := by
  -- The filter settles in the first `k` calm ticks, and the tuner in the others.
  have hsplit : before ++ calm = (before ++ calm.take k) ++ calm.drop k := by
    rw [List.append_assoc, List.take_append_drop]
  have hsettle : ∀ t ∈ calm.take k, Calm q t := fun t ht => hcalm t (List.mem_of_mem_take ht)
  have hrest : ∀ t ∈ calm.drop k, Calm q t := fun t ht => hcalm t (List.mem_of_mem_drop ht)
  have hsound : (after (before ++ calm.take k)).Sound := sound_run sound_empty _
  have hestimate : (after (before ++ calm.take k)).estimator.kalmanEstimate ≤
      q + (24 / 25) ^ k * 10000 := by
    have hrun := estimate_run hq (sound_run sound_empty before) hsettle
    rw [List.length_take, Nat.min_eq_left (by omega)] at hrun
    rw [after, run_append]
    exact hrun
  have hquiet := quiet_of_calm hq (by linarith [pow_pos (show (0 : ℚ) < 24 / 25 by norm_num) k])
    hk hsound hestimate hrest
  have htuner : (after (before ++ calm)).tuner = run AutoTuner.tune
      (after (before ++ calm.take k)).tuner
      ((after (before ++ calm.take k)).cyclesFrom (calm.drop k)) := by
    rw [hsplit, after, run_append, tuner_run]
    rfl
  have hcounters : AutoTuner.Counters (before ++ calm.take k).length
      (after (before ++ calm.take k)).tuner := by
    rw [hsplit, List.length_append, Nat.cast_add] at hshort
    rw [tuner_after]
    have hlength := length_cyclesFrom {} (before ++ calm.take k)
    have hcount : AutoTuner.Counters (cyclesFrom {} (before ++ calm.take k)).length
        (AutoTuner.after (cyclesFrom {} (before ++ calm.take k))) :=
      counters_after_length (by rw [hlength]; omega)
    rw [hlength] at hcount
    exact hcount
  have hlimits : Limits (after (before ++ calm.take k)).tuner := by
    rw [tuner_after]
    exact limits_after _
  have hlow := hcounters.lowLoad
  rw [htuner]
  refine atRest_of_quiet hlimits hlow.1 hquiet ?_ ?_
  · rw [length_cyclesFrom]
    have hbound := hlow.2
    rw [hsplit, List.length_append, Nat.cast_add] at hshort
    omega
  · rw [length_cyclesFrom, List.length_drop]
    omega

/-- After nine failing ticks, ten minutes at 40 ms. -/
theorem atRest_of_calm_ten_minutes :
    AtRest (after (List.replicate 9 failingTick ++
      List.replicate 201 { now := 0, perf := { avgLatencyMs := 40 }, queries := 7 })).tuner := by
  refine atRest_of_calm (q := 40) (k := 170) (by norm_num) (by norm_num) (fun t ht => ?_) ?_ ?_
  · rw [List.eq_of_mem_replicate ht]
    exact ⟨by decide +kernel, by decide +kernel, rfl⟩
  · rw [List.length_replicate]
  · rw [List.length_append, List.length_replicate, List.length_replicate]
    decide

end TuneLoop
end Dnss
