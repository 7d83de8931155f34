/-
The ranges of the two TTLs.

`minTTL` should stay between 300 and 7200 seconds and `negativeTTL` between 60 and 3600.
Every rule that raises one is capped, and the rule that lowers `minTTL` takes off 60 seconds
whenever it is above 300.  That would be right if `minTTL` were always a multiple of 60, but
the boost for a high latency is twice the latency less 100, so a value such as 301 is
reached, and the next step goes to 241 (`relaxed_minTTL_not_inRange`).

`ttls_inRange_iff` says for every run that this is all: the ranges hold in every state exactly
when no cycle lowers a `minTTL` between 301 and 359.
-/
import Dnss.Tuning.Envelope

namespace Dnss
namespace AutoTuner

open Machine

/-- The documented ranges. -/
structure InRange (s : AutoTuner) : Prop where
  min : 300 ≤ s.minTTL ∧ s.minTTL ≤ 7200
  negative : 60 ≤ s.negativeTTL ∧ s.negativeTTL ≤ 3600

/-- The latency is between 0 and 10000 ms. -/
def LatencyInRange (i : Cycle) : Prop := ∃ q : ℚ, i.lat = .fin q ∧ 0 ≤ q ∧ q ≤ 10000

/-- The cycle lowers a `minTTL` that is less than 60 above its minimum. -/
def RelaxesTooFar (s : AutoTuner) (i : Cycle) : Prop :=
  ¬ skips s i ∧ s.samplesCollected > 12 ∧ relaxes s i ∧ s.minTTL < 360

/-- What the rules keep. -/
structure Ttls (s : AutoTuner) : Prop where
  min : 300 ≤ s.minTTL ∧ s.minTTL ≤ 7200
  negative : 300 ≤ s.negativeTTL ∧ s.negativeTTL ≤ 3600

theorem Ttls.inRange {s : AutoTuner} (h : Ttls s) : InRange s := by
  have hnegative := h.negative
  exact ⟨h.min, by omega⟩

/-! ## Rules before the cooldown -/

/-- The TTLs and the number of samples, which is all that the last rule reads. -/
def ttls (s : AutoTuner) : Int × Int × Int := (s.minTTL, s.negativeTTL, s.samplesCollected)

theorem ttls_of_eq {s t : AutoTuner} (heq : ttls t = ttls s) (h : Ttls s) : Ttls t := by
  simp only [ttls, Prod.mk.injEq] at heq
  obtain ⟨hmin, hnegative, -⟩ := heq
  exact ⟨hmin ▸ h.min, hnegative ▸ h.negative⟩

theorem ttls_beforeAnomalies (s : AutoTuner) (i : Cycle) : ttls (beforeAnomalies s i) = ttls s := by
  simp only [beforeAnomalies]
  split <;> rfl

theorem ttls_cooled (s : AutoTuner) : ttls (cooled s) = ttls s := by
  unfold cooled
  split <;> rfl

/-- What every run keeps, whatever is measured. -/
def NegativeKept (s : AutoTuner) : Prop := 300 ≤ s.negativeTTL ∧ s.negativeTTL ≤ 3600

theorem negative_cut {i : Cycle} {s t : AutoTuner} (hcut : Cut i s t) (h : NegativeKept s) :
    NegativeKept t := by
  obtain ⟨hlo, hhi⟩ := h
  cases hcut with
  | stuckQueue =>
    show 300 ≤ min (s.negativeTTL + 120) 600 ∧ min (s.negativeTTL + 120) 600 ≤ 3600
    omega
  | errorSpike => exact ⟨hlo, hhi⟩
  | hitRateCollapse =>
    show 300 ≤ min (s.negativeTTL + 120) 3600 ∧ min (s.negativeTTL + 120) 3600 ≤ 3600
    omega

theorem negative_boostTTLs {s : AutoTuner} (i : Cycle) (h : NegativeKept s) :
    NegativeKept (boostTTLs s i) := by
  obtain ⟨hlo, hhi⟩ := h
  unfold boostTTLs
  split
  · show 300 ≤ min (s.negativeTTL + 60) 3600 ∧ min (s.negativeTTL + 60) 3600 ≤ 3600
    omega
  · exact ⟨hlo, hhi⟩

theorem negative_tuneTTLs {s : AutoTuner} (i : Cycle) (h : NegativeKept s) :
    NegativeKept (tuneTTLs s i) := by
  obtain ⟨hlo, hhi⟩ := h
  have hraised : 300 ≤ min (s.negativeTTL + 60) 600 ∧ min (s.negativeTTL + 60) 600 ≤ 3600 := by
    omega
  simp only [tuneTTLs]
  by_cases hsamples : s.samplesCollected > 12
  · rw [if_pos hsamples]
    by_cases hslow : slowUpstream s i
    · rw [if_pos hslow]
      split <;> exact hraised
    · rw [if_neg hslow]
      split <;> exact ⟨hlo, hhi⟩
  · rw [if_neg hsamples]
    exact ⟨hlo, hhi⟩

theorem ttls_cut {i : Cycle} {s t : AutoTuner} (hcut : Cut i s t) (h : Ttls s) : Ttls t := by
  refine ⟨?_, negative_cut hcut h.negative⟩
  have hmin := h.min
  cases hcut with
  | stuckQueue =>
    show 300 ≤ min (s.minTTL + 120) 1200 ∧ min (s.minTTL + 120) 1200 ≤ 7200
    omega
  | errorSpike => exact hmin
  | hitRateCollapse =>
    show 300 ≤ min (s.minTTL + 300) 7200 ∧ min (s.minTTL + 300) 7200 ≤ 7200
    omega

/-- A boost is positive, since the latency is above 150 when it is given. -/
theorem ttlBoost_bounds {i : Cycle} (hrange : LatencyInRange i) (hhigh : i.lat > 150) :
    0 ≤ ttlBoost i.lat ∧ ttlBoost i.lat ≤ 19900 := by
  obtain ⟨q, hq, -, hmax⟩ := hrange
  have hlow : 150 < q := by
    rw [hq] at hhigh
    exact hhigh
  have hge : 0 ≤ Double.trunc ((q - 50) * 2) := Double.le_trunc le_rfl (by push_cast; linarith)
  have hle : Double.trunc ((q - 50) * 2) ≤ 19900 :=
    Double.trunc_le (by linarith) (by push_cast; linarith)
  have hfits : -2147483648 ≤ Double.trunc ((q - 50) * 2) ∧
      Double.trunc ((q - 50) * 2) ≤ INT_MAX := by
    unfold INT_MAX
    omega
  rw [hq, ttlBoost, if_pos hfits]
  exact ⟨hge, hle⟩

/-- The boost of a `minTTL` that is not negative raises it, up to the maximum. -/
theorem minTTL_boostTTLs {s : AutoTuner} {i : Cycle} (hrange : LatencyInRange i)
    (hmin : 0 ≤ s.minTTL ∧ s.minTTL ≤ 7200) :
    s.minTTL ≤ (boostTTLs s i).minTTL ∧ (boostTTLs s i).minTTL ≤ 7200 := by
  unfold boostTTLs
  split
  · next hboost =>
    have hbounds := ttlBoost_bounds hrange hboost.2.1
    have hexact : wrap (s.minTTL + ttlBoost i.lat) = s.minTTL + ttlBoost i.lat :=
      wrap_of_fits (by omega) (by unfold INT_MAX; omega)
    show s.minTTL ≤ min (wrap (s.minTTL + ttlBoost i.lat)) 7200 ∧
      min (wrap (s.minTTL + ttlBoost i.lat)) 7200 ≤ 7200
    rw [hexact]
    omega
  · exact ⟨le_rfl, hmin.2⟩

theorem ttls_boostTTLs {s : AutoTuner} {i : Cycle} (hrange : LatencyInRange i) (h : Ttls s) :
    Ttls (boostTTLs s i) := by
  have hmin := h.min
  have hraised := minTTL_boostTTLs hrange ⟨by omega, hmin.2⟩
  exact ⟨by omega, negative_boostTTLs i h.negative⟩

/-! ## The last rule -/

theorem ttls_tuneFanOut (s : AutoTuner) (i : Cycle) : ttls (tuneFanOut s i) = ttls s := by
  simp only [tuneFanOut]
  split_ifs <;> rfl

/-- `tuneTTLs` on the values that it reads. -/
theorem ttls_tuneTTLs_congr {s t : AutoTuner} (i : Cycle) (heq : ttls s = ttls t) :
    ttls (tuneTTLs s i) = ttls (tuneTTLs t i) := by
  simp only [ttls, Prod.mk.injEq] at heq
  obtain ⟨hmin, hnegative, hsamples⟩ := heq
  have hslow : slowUpstream s i ↔ slowUpstream t i := by simp only [slowUpstream, hmin]
  have hrelaxes : relaxes s i ↔ relaxes t i := by simp only [relaxes, hmin]
  simp only [tuneTTLs, hslow, hrelaxes, hsamples]
  by_cases hready : t.samplesCollected > 12
  · by_cases hs : slowUpstream t i
    · by_cases hr : relaxes t i
      · simp only [if_pos hready, if_pos hs, if_pos hr, ttls, hmin, hnegative]
      · simp only [if_pos hready, if_pos hs, if_neg hr, ttls, hmin, hnegative]
    · by_cases hr : relaxes t i
      · simp only [if_pos hready, if_neg hs, if_pos hr, ttls, hmin, hnegative, hsamples]
      · simp only [if_pos hready, if_neg hs, if_neg hr, ttls, hmin, hnegative, hsamples]
  · simp only [if_neg hready, ttls, hmin, hnegative, hsamples]

theorem ttls_adjust (s : AutoTuner) (i : Cycle) : ttls (adjust s i) = ttls (tuneTTLs s i) := by
  apply ttls_tuneTTLs_congr
  exact ttls_tuneFanOut (tuneConns s i) i

theorem not_relaxes_of_high {i : Cycle} (s : AutoTuner) (h : i.lat > 80) : ¬ relaxes s i := by
  intro hrelaxes
  exact Double.not_lt_of_gt (by decide +kernel) h hrelaxes.1

theorem minTTL_tuneTTLs_of_relaxes {s : AutoTuner} {i : Cycle} (hsamples : s.samplesCollected > 12)
    (h : relaxes s i) : (tuneTTLs s i).minTTL = s.minTTL - 60 := by
  simp only [tuneTTLs, if_pos hsamples, if_pos h]

theorem ttls_tuneTTLs {s : AutoTuner} {i : Cycle} (h : Ttls s)
    (hfar : s.samplesCollected > 12 → relaxes s i → 360 ≤ s.minTTL) : Ttls (tuneTTLs s i) := by
  refine ⟨?_, negative_tuneTTLs i h.negative⟩
  have hmin := h.min
  simp only [tuneTTLs]
  by_cases hsamples : s.samplesCollected > 12
  · rw [if_pos hsamples]
    by_cases hslow : slowUpstream s i
    · have hlow := hslow.2.2
      rw [if_pos hslow, if_neg (not_relaxes_of_high s hslow.1)]
      show 300 ≤ s.minTTL + 60 ∧ s.minTTL + 60 ≤ 7200
      omega
    · rw [if_neg hslow]
      by_cases hrelaxes : relaxes s i
      · have hge := hfar hsamples hrelaxes
        rw [if_pos hrelaxes]
        show 300 ≤ s.minTTL - 60 ∧ s.minTTL - 60 ≤ 7200
        omega
      · rw [if_neg hrelaxes]
        exact hmin
  · rw [if_neg hsamples]
    exact hmin

/-! ## The cycle -/

/-- Where the last rule lowers `minTTL`, nothing raised it before. -/
theorem ttls_ready_of_relaxes {s : AutoTuner} {i : Cycle} (h : i.lat < 40) :
    ttls (cooled (boostTTLs (beforeAnomalies s i) i)) = ttls s := by
  have hlow : ¬ i.lat > 150 := fun hhigh => Double.not_lt_of_gt (by decide +kernel) hhigh h
  have hboost : boostTTLs (beforeAnomalies s i) i = beforeAnomalies s i :=
    if_neg fun hb => hlow hb.2.1
  rw [ttls_cooled, hboost, ttls_beforeAnomalies]

theorem ttls_tune {s : AutoTuner} {i : Cycle} (hrange : LatencyInRange i) (h : Ttls s)
    (hfar : ¬ RelaxesTooFar s i) : Ttls (tune s i) := by
  have hbefore : Ttls (beforeAnomalies s i) := ttls_of_eq (ttls_beforeAnomalies s i) h
  by_cases hanomaly : anomaly s i
  · rw [tune_of_anomaly hanomaly]
    have hcut : Ttls (detect (beforeAnomalies s i) i).1 :=
      detect_induction (fun _ _ => ttls_cut) hbefore
    exact ⟨hcut.min, hcut.negative⟩
  · have hready : Ttls (cooled (boostTTLs (beforeAnomalies s i) i)) :=
      ttls_of_eq (ttls_cooled _) (ttls_boostTTLs hrange hbefore)
    rw [tune_of_not_anomaly hanomaly]
    by_cases hskips : skips s i
    · rw [if_pos hskips]
      exact ⟨hready.min, hready.negative⟩
    · rw [if_neg hskips]
      have hlast : Ttls (adjust (cooled (boostTTLs (beforeAnomalies s i) i)) i) := by
        refine ttls_of_eq (ttls_adjust _ i) (ttls_tuneTTLs hready fun hsamples hrelaxes => ?_)
        have hsame := ttls_ready_of_relaxes (s := s) hrelaxes.1
        simp only [ttls, Prod.mk.injEq] at hsame
        rw [hsame.2.2] at hsamples
        by_contra hlt
        refine hfar ⟨hskips, hsamples, ⟨hrelaxes.1, hrelaxes.2.1, ?_⟩, ?_⟩
        · rw [← hsame.1]
          exact hrelaxes.2.2
        · omega
      exact ⟨hlast.min, hlast.negative⟩

theorem negativeKept_of_eq {s t : AutoTuner} (heq : ttls t = ttls s) (h : NegativeKept s) :
    NegativeKept t := by
  simp only [ttls, Prod.mk.injEq] at heq
  unfold NegativeKept at *
  rwa [heq.2.1]

theorem negative_tune {s : AutoTuner} (i : Cycle) (h : NegativeKept s) :
    NegativeKept (tune s i) := by
  have hbefore := negativeKept_of_eq (ttls_beforeAnomalies s i) h
  by_cases hanomaly : anomaly s i
  · rw [tune_of_anomaly hanomaly]
    exact detect_induction (P := NegativeKept) (fun _ _ => negative_cut) hbefore
  · have hready : NegativeKept (cooled (boostTTLs (beforeAnomalies s i) i)) :=
      negativeKept_of_eq (ttls_cooled _) (negative_boostTTLs i hbefore)
    have hadjust : NegativeKept (adjust (cooled (boostTTLs (beforeAnomalies s i) i)) i) :=
      negativeKept_of_eq (ttls_adjust _ i) (negative_tuneTTLs i hready)
    rw [tune_of_not_anomaly hanomaly]
    split
    · exact hready
    · exact hadjust

theorem minTTL_tune_of_relaxesTooFar {s : AutoTuner} {i : Cycle} (h : RelaxesTooFar s i) :
    (tune s i).minTTL < 300 := by
  obtain ⟨hskips, hsamples, hrelaxes, hlt⟩ := h
  have hsame := ttls_ready_of_relaxes (s := s) hrelaxes.1
  have hadjust := congrArg Prod.fst (ttls_adjust (cooled (boostTTLs (beforeAnomalies s i) i)) i)
  rw [tune_of_not_anomaly fun hanomaly => hskips (.inl hanomaly), if_neg hskips]
  simp only [ttls, Prod.mk.injEq] at hsame
  calc (adjust (cooled (boostTTLs (beforeAnomalies s i) i)) i).minTTL
      = (tuneTTLs (cooled (boostTTLs (beforeAnomalies s i) i)) i).minTTL := hadjust
    _ = s.minTTL - 60 := by
      rw [minTTL_tuneTTLs_of_relaxes, hsame.1]
      · rw [hsame.2.2]
        exact hsamples
      · refine ⟨hrelaxes.1, hrelaxes.2.1, ?_⟩
        rw [hsame.1]
        exact hrelaxes.2.2
    _ < 300 := by omega

/-! ## Runs -/

theorem ttls_after {cycles : List Cycle} (hrange : ∀ i ∈ cycles, LatencyInRange i)
    (hfar : ∀ s i, Visits tune {} cycles s i → ¬ RelaxesTooFar s i) : Ttls (after cycles) := by
  refine run_invariant_of_visits ?_ fun s i hvisit hpast => ?_
  · constructor <;> decide
  · exact ttls_tune (hrange i hvisit.mem) hpast (hfar s i hvisit)

/-- The tuner never gives a `negativeTTL` below 300 seconds. -/
theorem negativeKept_after (cycles : List Cycle) : NegativeKept (after cycles) :=
  run_invariant ⟨by decide, by decide⟩ fun i _ _ => negative_tune i

/-- Every state of a run is in range exactly when no cycle lowers `minTTL` too far. -/
theorem ttls_inRange_iff {cycles : List Cycle} (hrange : ∀ i ∈ cycles, LatencyInRange i) :
    (∀ done rest, cycles = done ++ rest → InRange (after done)) ↔
      ∀ s i, Visits tune {} cycles s i → ¬ RelaxesTooFar s i := by
  constructor
  · rintro h s i ⟨done, rest, rfl, rfl⟩ hfar
    have hlow : (after (done ++ [i])).minTTL < 300 := by
      rw [after, run_snoc]
      exact minTTL_tune_of_relaxesTooFar hfar
    have hge := (h (done ++ [i]) rest (by simp)).min.1
    omega
  · rintro hfar done rest rfl
    refine (ttls_after ?_ fun s i hvisit => hfar s i (hvisit.append rest)).inRange
    exact fun i hi => hrange i (List.mem_append_left rest hi)

/-- A cycle with one task in the pool, so that it is not idle. -/
def busyCycle (lat hitRate : Double) : Cycle := { slowCycle with lat, hitRate, load := 1 }

/-- Cycles in which `minTTL` is raised to its limit for slow upstreams. -/
def raisingRun : List Cycle := List.replicate 20 (busyCycle 100 0.9)

theorem raisingRun_inRange : (after raisingRun).minTTL = 900 ∧ InRange (after raisingRun) := by
  have hrange : ∀ i ∈ raisingRun, LatencyInRange i := by
    intro i hi
    rw [List.eq_of_mem_replicate hi]
    exact ⟨100, rfl, by norm_num, by norm_num⟩
  refine ⟨by decide +kernel, (ttls_inRange_iff hrange).mpr (fun s i hvisit hfar => ?_) _ [] ?_⟩
  · rw [List.eq_of_mem_replicate hvisit.mem] at hfar
    exact not_relaxes_of_high s (by decide +kernel) hfar.2.2.1
  · exact (List.append_nil _).symm

/-- One boost of 301 seconds, and then a fast upstream. -/
def relaxingRun : List Cycle :=
  List.replicate 31 (busyCycle 60 1) ++ busyCycle 200.5 0.6 :: List.replicate 11 (busyCycle 30 1)

theorem relaxed_minTTL_not_inRange :
    (∀ i ∈ relaxingRun, LatencyInRange i) ∧ (after relaxingRun).minTTL = 241 ∧
    ¬ InRange (after relaxingRun) := by
  have hlow : (after relaxingRun).minTTL = 241 := by decide +kernel
  refine ⟨?_, hlow, fun h => ?_⟩
  · intro i hi
    rw [relaxingRun, List.mem_append, List.mem_cons, List.mem_replicate, List.mem_replicate] at hi
    rcases hi with ⟨-, rfl⟩ | rfl | ⟨-, rfl⟩
    · exact ⟨60, rfl, by norm_num, by norm_num⟩
    · exact ⟨401 / 2, by decide +kernel, by norm_num, by norm_num⟩
    · exact ⟨30, rfl, by norm_num, by norm_num⟩
  · have hmin := h.min.1
    rw [hlow] at hmin
    exact absurd hmin (by decide)

end AutoTuner
end Dnss
