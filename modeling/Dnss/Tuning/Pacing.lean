/-
How fast the tuner grows.

Connections grow only in `tuneConns`, which waits fifteen seconds after the last change, and
writes down the time of its own.  An anomaly writes down its time too, and sets the cooldown
to six; each cycle without an anomaly takes one off, and a cycle that leaves more than zero
behind ends before any growth.

`paced_of_ordered` puts the cycles of a run together: two cycles that add connections are
fifteen seconds apart, and a cycle with an anomaly and the five after it add neither
connections nor threads.
-/
import Dnss.Tuning.Envelope

namespace Dnss
namespace AutoTuner

open Machine

def GrowsConn (s : AutoTuner) (i : Cycle) : Prop := s.connCount < (tune s i).connCount

def GrowsThreads (s : AutoTuner) (i : Cycle) : Prop := s.threadCount < (tune s i).threadCount

/-- How the growth of a run is paced. -/
structure Paced (cycles : List Cycle) : Prop where
  apart : ∀ done i mid j rest, cycles = done ++ i :: (mid ++ j :: rest) →
    GrowsConn (after done) i → GrowsConn (after (done ++ i :: mid)) j →
    CONN_CHANGE_HOLDOFF ≤ j.now - i.now
  anomalous : ∀ done i rest, cycles = done ++ i :: rest → anomaly (after done) i →
    ¬ GrowsConn (after done) i ∧ ¬ GrowsThreads (after done) i
  held : ∀ done i mid j rest, cycles = done ++ i :: (mid ++ j :: rest) →
    anomaly (after done) i → mid.length < 5 →
    ¬ GrowsConn (after (done ++ i :: mid)) j ∧ ¬ GrowsThreads (after (done ++ i :: mid)) j

/-! ## Cycles without growth -/

/-- `t` has at most the connections and threads of `s`. -/
structure NotMore (s t : AutoTuner) : Prop where
  conn : t.connCount ≤ s.connCount
  thread : t.threadCount ≤ s.threadCount

theorem notMore_beforeAnomalies {s : AutoTuner} (i : Cycle) (h : Limits s) :
    NotMore s (beforeAnomalies s i) := by
  have hconn := h.conn
  have hthread := h.thread
  simp only [beforeAnomalies]
  split
  · constructor
    · show max (s.connCount - 1) MIN_CONNS ≤ s.connCount
      omega
    · show max (s.threadCount - 1) MIN_THREADS ≤ s.threadCount
      omega
  · exact ⟨le_refl _, le_refl _⟩

theorem notMore_cut {i : Cycle} {s t u : AutoTuner} (hcut : Cut i t u)
    (h : Limits t ∧ NotMore s t) : Limits u ∧ NotMore s u := by
  refine ⟨limits_cut hcut h.1, ?_⟩
  obtain ⟨hlimits, hconn, hthread⟩ := h
  have hminConn := hlimits.conn.1
  have hminThread := hlimits.thread.1
  cases hcut with
  | stuckQueue =>
    constructor
    · show max (t.connCount - 2) MIN_CONNS ≤ s.connCount
      omega
    · show max (t.threadCount - 2) MIN_THREADS ≤ s.threadCount
      omega
  | errorSpike =>
    refine ⟨?_, hthread⟩
    show max (t.connCount - 1) MIN_CONNS ≤ s.connCount
    omega
  | hitRateCollapse => exact ⟨hconn, hthread⟩

/-- What the holdoff reads: the connections and the time of their last change. -/
def conns (s : AutoTuner) : Int × Int := (s.connCount, s.lastConnChange)

theorem conns_boostTTLs (s : AutoTuner) (i : Cycle) : conns (boostTTLs s i) = conns s := by
  unfold boostTTLs
  split <;> rfl

theorem threadCount_boostTTLs (s : AutoTuner) (i : Cycle) :
    (boostTTLs s i).threadCount = s.threadCount := by
  unfold boostTTLs
  split <;> rfl

theorem conns_cooled (s : AutoTuner) : conns (cooled s) = conns s := by
  unfold cooled
  split <;> rfl

theorem threadCount_cooled (s : AutoTuner) : (cooled s).threadCount = s.threadCount := by
  unfold cooled
  split <;> rfl

/-- A cycle that ends early adds nothing. -/
theorem notMore_tune_of_skips {s : AutoTuner} {i : Cycle} (h : Limits s) (hskips : skips s i) :
    NotMore s (tune s i) := by
  have hbefore := notMore_beforeAnomalies i h
  by_cases hanomaly : anomaly s i
  · rw [tune_of_anomaly hanomaly]
    have hcut := detect_induction (i := i) (P := fun t => Limits t ∧ NotMore s t)
      (fun _ _ => notMore_cut) ⟨limits_beforeAnomalies i h, hbefore⟩
    exact ⟨hcut.2.conn, hcut.2.thread⟩
  · rw [tune_of_not_anomaly hanomaly, if_pos hskips]
    have hconns : conns (cooled (boostTTLs (beforeAnomalies s i) i)) =
        conns (beforeAnomalies s i) := by
      rw [conns_cooled, conns_boostTTLs]
    constructor
    · calc (cooled (boostTTLs (beforeAnomalies s i) i)).connCount
          = (beforeAnomalies s i).connCount := congrArg Prod.fst hconns
        _ ≤ s.connCount := hbefore.conn
    · calc (cooled (boostTTLs (beforeAnomalies s i) i)).threadCount
          = (beforeAnomalies s i).threadCount := by rw [threadCount_cooled, threadCount_boostTTLs]
        _ ≤ s.threadCount := hbefore.thread

theorem not_grows_of_skips {s : AutoTuner} {i : Cycle} (h : Limits s) (hskips : skips s i) :
    ¬ GrowsConn s i ∧ ¬ GrowsThreads s i := by
  obtain ⟨hconn, hthread⟩ := notMore_tune_of_skips h hskips
  exact ⟨Int.not_lt.mpr hconn, Int.not_lt.mpr hthread⟩

/-! ## The holdoff -/

theorem conns_tuneFanOut (s : AutoTuner) (i : Cycle) : conns (tuneFanOut s i) = conns s := by
  simp only [tuneFanOut]
  split_ifs <;> rfl

theorem conns_tuneTTLs (s : AutoTuner) (i : Cycle) : conns (tuneTTLs s i) = conns s := by
  simp only [tuneTTLs]
  split_ifs <;> rfl

theorem conns_adjust (s : AutoTuner) (i : Cycle) : conns (adjust s i) = conns (tuneConns s i) := by
  simp only [adjust, conns_tuneTTLs]
  exact conns_tuneFanOut _ i

/-- More connections come only after the holdoff. -/
theorem holdoff_of_lt_newConn {s : AutoTuner} {i : Cycle} (h : s.connCount < newConn s i) :
    CONN_CHANGE_HOLDOFF ≤ i.now - s.lastConnChange := by
  unfold newConn holdConn at h
  split at h
  · exact absurd h (Int.lt_irrefl _)
  · next hnot =>
    by_contra hlt
    exact hnot ⟨h, by omega⟩

/-- The connections and their time before `adjust` are those of the cycle's beginning. -/
theorem conns_ready {s : AutoTuner} {i : Cycle} (hskips : ¬ skips s i) :
    conns (cooled (boostTTLs (beforeAnomalies s i) i)) = conns s := by
  rw [conns_cooled, conns_boostTTLs, beforeAnomalies_of_not_skips hskips]
  rfl

theorem conns_tune_of_not_skips {s : AutoTuner} {i : Cycle} (hskips : ¬ skips s i) :
    conns (tune s i) = conns (tuneConns (cooled (boostTTLs (beforeAnomalies s i) i)) i) := by
  rw [tune_of_not_anomaly fun h => hskips (.inl h), if_neg hskips]
  exact conns_adjust _ i

theorem growsConn_spec {s : AutoTuner} {i : Cycle} (h : Limits s) (hgrows : GrowsConn s i) :
    CONN_CHANGE_HOLDOFF ≤ i.now - s.lastConnChange ∧ (tune s i).lastConnChange = i.now := by
  have hskips : ¬ skips s i := fun hskips => (not_grows_of_skips h hskips).1 hgrows
  have hready := conns_ready hskips
  have htune := conns_tune_of_not_skips hskips
  generalize cooled (boostTTLs (beforeAnomalies s i) i) = t at hready htune
  simp only [conns, tuneConns, Prod.mk.injEq] at hready htune
  have hlt : t.connCount < newConn t i := by
    rw [hready.1, ← htune.1]
    exact hgrows
  constructor
  · rw [← hready.2]
    exact holdoff_of_lt_newConn hlt
  · rw [htune.2, if_pos (ne_of_gt hlt)]

/-- The time of the last change stays or becomes the time of the cycle. -/
theorem lastConnChange_tune (s : AutoTuner) (i : Cycle) :
    (tune s i).lastConnChange = s.lastConnChange ∨ (tune s i).lastConnChange = i.now := by
  by_cases hanomaly : anomaly s i
  · rw [tune_of_anomaly hanomaly]
    exact .inr rfl
  · by_cases hskips : skips s i
    · left
      have hbefore : (beforeAnomalies s i).lastConnChange = s.lastConnChange := by
        simp only [beforeAnomalies]
        split <;> rfl
      have hconns : conns (cooled (boostTTLs (beforeAnomalies s i) i)) =
          conns (beforeAnomalies s i) := by
        rw [conns_cooled, conns_boostTTLs]
      rw [tune_of_not_anomaly hanomaly, if_pos hskips]
      exact (congrArg Prod.snd hconns).trans hbefore
    · have hready := congrArg Prod.snd (conns_ready hskips)
      have htune := congrArg Prod.snd (conns_tune_of_not_skips hskips)
      generalize cooled (boostTTLs (beforeAnomalies s i) i) = t at hready htune
      simp only [conns, tuneConns] at hready htune
      split at htune
      · exact .inr htune
      · exact .inl (htune.trans hready)

/-! ## The cooldown -/

theorem anomalyCooldown_of_anomaly {s : AutoTuner} {i : Cycle} (h : anomaly s i) :
    (tune s i).anomalyCooldown = 6 := by
  rw [tune_of_anomaly h]
  rfl

theorem anomalyCooldown_adjust (s : AutoTuner) (i : Cycle) :
    (adjust s i).anomalyCooldown = s.anomalyCooldown := by
  have httl : ∀ t : AutoTuner, (tuneTTLs t i).anomalyCooldown = t.anomalyCooldown := by
    intro t
    simp only [tuneTTLs]
    split_ifs <;> rfl
  have hfan : ∀ t : AutoTuner, (tuneFanOut t i).anomalyCooldown = t.anomalyCooldown := by
    intro t
    simp only [tuneFanOut]
    split_ifs <;> rfl
  simp only [adjust, httl]
  exact hfan _

/-- A cycle takes at most one off the cooldown. -/
theorem anomalyCooldown_tune {s : AutoTuner} (i : Cycle) (h : Limits s) :
    s.anomalyCooldown - 1 ≤ (tune s i).anomalyCooldown := by
  have hle := h.cooldown.2
  by_cases hanomaly : anomaly s i
  · rw [anomalyCooldown_of_anomaly hanomaly]
    omega
  · have hcooled : s.anomalyCooldown - 1 ≤
        (cooled (boostTTLs (beforeAnomalies s i) i)).anomalyCooldown := by
      have hsame : (boostTTLs (beforeAnomalies s i) i).anomalyCooldown = s.anomalyCooldown := by
        rw [anomalyCooldown_boostTTLs, anomalyCooldown_beforeAnomalies]
      unfold cooled
      split
      · exact le_of_eq (by rw [hsame])
      · omega
    rw [tune_of_not_anomaly hanomaly]
    split
    · exact hcooled
    · show _ ≤ (adjust _ i).anomalyCooldown
      rw [anomalyCooldown_adjust]
      exact hcooled

/-! ## Runs -/

theorem after_append_cons (done : List Cycle) (i : Cycle) (mid : List Cycle) :
    after (done ++ i :: mid) = run tune (tune (after done) i) mid := by
  simp [after, run]

theorem le_lastConnChange_run {t : Int} {s : AutoTuner} {mid : List Cycle}
    (hs : t ≤ s.lastConnChange) (hmid : ∀ j ∈ mid, t ≤ j.now) :
    t ≤ (run tune s mid).lastConnChange := by
  refine run_invariant (P := fun s : AutoTuner => t ≤ s.lastConnChange) hs fun j hj s hle => ?_
  rcases lastConnChange_tune s j with h | h
  · rw [h]
    exact hle
  · rw [h]
    exact hmid j hj

theorem le_anomalyCooldown_run {s : AutoTuner} (hlimits : Limits s) (hs : s.anomalyCooldown = 6)
    (mid : List Cycle) : 6 - (mid.length : Int) ≤ (run tune s mid).anomalyCooldown := by
  have hboth : Limits (run tune s mid) ∧ 6 - (mid.length : Int) ≤
      (run tune s mid).anomalyCooldown := by
    refine run_past (P := fun mid t => Limits t ∧ 6 - (mid.length : Int) ≤ t.anomalyCooldown)
      ⟨hlimits, ?_⟩ (fun mid i h => ⟨limits_tune i h.1, ?_⟩) mid
    · rw [hs]
      simp
    · have hstep := anomalyCooldown_tune i h.1
      have hpast := h.2
      rw [List.length_append, List.length_singleton, Nat.cast_add, Nat.cast_one]
      omega
  exact hboth.2

/-- Growth is paced in every run with ordered times. -/
theorem paced_of_ordered {cycles : List Cycle} (hordered : cycles.Pairwise (·.now ≤ ·.now)) :
    Paced cycles := by
  constructor
  · rintro done i mid j rest rfl hi hj
    have htimes := (List.pairwise_append.mp hordered).2.1
    rw [List.pairwise_cons] at htimes
    have hmid : ∀ k ∈ mid, i.now ≤ k.now := fun k hk =>
      htimes.1 k (List.mem_append_left _ hk)
    obtain ⟨-, hchange⟩ := growsConn_spec (limits_after done) hi
    obtain ⟨hheld, -⟩ := growsConn_spec (limits_after _) hj
    rw [after_append_cons] at hheld
    have hlater := le_lastConnChange_run (le_of_eq hchange.symm) hmid
    omega
  · rintro done i rest rfl hanomaly
    exact not_grows_of_skips (limits_after done) (.inl hanomaly)
  · rintro done i mid j rest rfl hanomaly hlen
    refine not_grows_of_skips (limits_after _) (.inr (.inr ?_))
    have hcooldown := le_anomalyCooldown_run (limits_tune i (limits_after done))
      (anomalyCooldown_of_anomaly hanomaly) mid
    rw [after_append_cons]
    omega

/-- A cycle that asks for two connections more, at some second. -/
def surge (second : Int) : Cycle :=
  { slowCycle with now := second * 1000000000, qps := 10, util := 0.92 }

def surgingRun : List Cycle :=
  [surge 20, surge 23, surge 35, { surge 38 with err := 0.1 }, { surge 41 with err := 0.1 }, surge 60]

/-- Two connections are added at 20 and at 35 seconds, and none between; the errors of two cycles
take one away, and the next cycle adds none. -/
theorem surgingRun_paced :
    ((List.range 7).map fun n => (after (surgingRun.take n)).connCount) =
      [32, 34, 34, 36, 36, 35, 35] ∧
    Paced surgingRun := by
  exact ⟨by decide +kernel, paced_of_ordered (by decide)⟩

end AutoTuner
end Dnss
