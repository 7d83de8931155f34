/-
The tuner when there is nothing to do.

With an empty queue, a low latency and few errors, a cycle counts as quiet.  From the eighth
quiet cycle in a row on the tuner takes one connection and one thread away in each, whatever else
it finds, so it comes from any state to its minimum and stays there: `atRest_of_quiet`.
-/
import Dnss.Tuning.Envelope

namespace Dnss
namespace AutoTuner

open Machine

/-- An empty queue, a low latency and few errors. -/
structure Quiet (i : Cycle) : Prop where
  load : i.load = 0
  lat : i.lat < 50
  err : i.err < 0.01

/-- What a quiet cycle is about. -/
def size (s : AutoTuner) : Int × Int × Int := (s.connCount, s.threadCount, s.consecutiveLowLoad)

theorem size_boostTTLs (s : AutoTuner) (i : Cycle) : size (boostTTLs s i) = size s := by
  unfold boostTTLs
  split <;> rfl

theorem size_cooled (s : AutoTuner) : size (cooled s) = size s := by
  unfold cooled
  split <;> rfl

/-- The collapse of the hit rate is the one anomaly of a quiet cycle. -/
theorem detect_of_quiet {i : Cycle} (hi : Quiet i) (s : AutoTuner) :
    detect s i = if hitRateCollapse s i then (raiseTTLs s, true) else (s, false) := by
  have hstuck : ¬ stuckQueue s i := by
    rintro ⟨hload, -⟩
    have hzero := hi.load
    omega
  have hspike : ¬ errorSpike s i := fun h =>
    Double.not_lt_of_gt (by decide +kernel : (0.01 : Double) < 0.03) h.1 hi.err
  unfold detect
  simp only [if_neg hstuck, if_neg hspike]

theorem size_detect_of_quiet {i : Cycle} (hi : Quiet i) (s : AutoTuner) :
    size (detect s i).1 = size s := by
  rw [detect_of_quiet hi]
  split <;> rfl

/-- Quiet cycles are counted. -/
theorem lowLoad_tune_of_quiet {s : AutoTuner} {i : Cycle} (hi : Quiet i)
    (hpos : 0 ≤ s.consecutiveLowLoad) (hlt : s.consecutiveLowLoad < INT_MAX) :
    (tune s i).consecutiveLowLoad = s.consecutiveLowLoad + 1 := by
  rw [lowLoad_tune]
  show count (i.lat < 50 ∧ i.err < 0.01) s.consecutiveLowLoad = _
  rw [count, if_pos ⟨hi.lat, hi.err⟩, wrap_of_lt hpos hlt]

/-- After seven quiet cycles one more takes a connection and a thread away. -/
theorem size_tune {s : AutoTuner} {i : Cycle} (hi : Quiet i) (hcount : 7 ≤ s.consecutiveLowLoad)
    (hlt : s.consecutiveLowLoad < INT_MAX) :
    (tune s i).connCount = max (s.connCount - 1) MIN_CONNS ∧
      (tune s i).threadCount = max (s.threadCount - 1) MIN_THREADS := by
  have hidle : idle (track s i) i := by
    refine ⟨hi.load, ?_⟩
    show count (i.lat < 50 ∧ i.err < 0.01) s.consecutiveLowLoad ≥ 8
    rw [count, if_pos ⟨hi.lat, hi.err⟩, wrap_of_lt (by omega) hlt]
    omega
  have hbefore : beforeAnomalies s i = recoverIdle (track s i) := by
    simp only [beforeAnomalies, if_pos hidle]
  have hrecover : (recoverIdle (track s i)).connCount = max (s.connCount - 1) MIN_CONNS ∧
      (recoverIdle (track s i)).threadCount = max (s.threadCount - 1) MIN_THREADS := ⟨rfl, rfl⟩
  by_cases hanomaly : anomaly s i
  · have hdetect := size_detect_of_quiet hi (beforeAnomalies s i)
    rw [tune_of_anomaly hanomaly, hbefore] at *
    have hconn : (detect (recoverIdle (track s i)) i).1.connCount =
        (recoverIdle (track s i)).connCount := congrArg Prod.fst hdetect
    have hthread : (detect (recoverIdle (track s i)) i).1.threadCount =
        (recoverIdle (track s i)).threadCount := congrArg (fun c => c.2.1) hdetect
    exact ⟨hconn.trans hrecover.1, hthread.trans hrecover.2⟩
  · have hskips : skips s i := .inr (.inl hidle)
    have hsize : size (cooled (boostTTLs (beforeAnomalies s i) i)) =
        size (recoverIdle (track s i)) := by
      rw [size_cooled, size_boostTTLs, hbefore]
    rw [tune_of_not_anomaly hanomaly, if_pos hskips]
    have hconn : (cooled (boostTTLs (beforeAnomalies s i) i)).connCount =
        (recoverIdle (track s i)).connCount := congrArg Prod.fst hsize
    have hthread : (cooled (boostTTLs (beforeAnomalies s i) i)).threadCount =
        (recoverIdle (track s i)).threadCount := congrArg (fun c => c.2.1) hsize
    exact ⟨hconn.trans hrecover.1, hthread.trans hrecover.2⟩

/-- The state after `n` quiet cycles. -/
structure Resting (n : Nat) (s : AutoTuner) : Prop where
  lowLoad : (n : Int) ≤ s.consecutiveLowLoad
  conn : s.connCount ≤ max (MAX_CONNS + 7 - n) MIN_CONNS
  thread : s.threadCount ≤ max (MAX_THREADS + 7 - n) MIN_THREADS

theorem resting_tune {n : Nat} {s : AutoTuner} {i : Cycle} (hi : Quiet i) (hlimits : Limits s)
    (hlt : s.consecutiveLowLoad < INT_MAX) (h : Resting n s) : Resting (n + 1) (tune s i) := by
  have hlow := h.lowLoad
  have hcount := lowLoad_tune_of_quiet hi (by omega) hlt
  have hconn := h.conn
  have hthread := h.thread
  have hnext := limits_tune i hlimits
  have hnextConn := hnext.conn
  have hnextThread := hnext.thread
  refine ⟨by rw [hcount]; omega, ?_, ?_⟩
  · by_cases hseven : 7 ≤ s.consecutiveLowLoad
    · rw [(size_tune hi hseven hlt).1]
      omega
    · omega
  · by_cases hseven : 7 ≤ s.consecutiveLowLoad
    · rw [(size_tune hi hseven hlt).2]
      omega
    · omega

theorem resting_run {s : AutoTuner} (hlimits : Limits s) (hpos : 0 ≤ s.consecutiveLowLoad)
    {cycles : List Cycle} (hquiet : ∀ i ∈ cycles, Quiet i)
    (hshort : s.consecutiveLowLoad + cycles.length ≤ INT_MAX) :
    Limits (run tune s cycles) ∧
      (run tune s cycles).consecutiveLowLoad = s.consecutiveLowLoad + cycles.length ∧
      Resting cycles.length (run tune s cycles) := by
  induction cycles using List.reverseRecOn with
  | nil =>
    have hconn := hlimits.conn
    have hthread := hlimits.thread
    refine ⟨hlimits, by simp [run], ⟨hpos, ?_, ?_⟩⟩
    · show s.connCount ≤ max (MAX_CONNS + 7 - (0 : Nat)) MIN_CONNS
      omega
    · show s.threadCount ≤ max (MAX_THREADS + 7 - (0 : Nat)) MIN_THREADS
      omega
  | append_singleton cycles i ih =>
    rw [List.forall_mem_append, List.forall_mem_singleton] at hquiet
    rw [List.length_append, List.length_singleton, Nat.cast_add, Nat.cast_one] at hshort
    obtain ⟨hprev, hcount, hresting⟩ := ih hquiet.1 (by omega)
    rw [run_snoc, List.length_append, List.length_singleton]
    refine ⟨limits_tune i hprev, ?_, resting_tune hquiet.2 hprev (by omega) hresting⟩
    rw [lowLoad_tune_of_quiet hquiet.2 (by omega) (by omega), hcount]
    push_cast
    omega

/-- The tuner is at its minimum. -/
structure AtRest (s : AutoTuner) : Prop where
  conn : s.connCount = MIN_CONNS
  thread : s.threadCount = MIN_THREADS

/-- After 31 quiet cycles. -/
theorem atRest_of_quiet {s : AutoTuner} (hlimits : Limits s) (hpos : 0 ≤ s.consecutiveLowLoad)
    {cycles : List Cycle} (hquiet : ∀ i ∈ cycles, Quiet i)
    (hshort : s.consecutiveLowLoad + cycles.length ≤ INT_MAX) (hlong : 31 ≤ cycles.length) :
    AtRest (run tune s cycles) := by
  obtain ⟨hafter, -, hresting⟩ := resting_run hlimits hpos hquiet hshort
  have hconn := hresting.conn
  have hthread := hresting.thread
  have hminConn := hafter.conn.1
  have hminThread := hafter.thread.1
  unfold MAX_CONNS MIN_CONNS at *
  unfold MAX_THREADS MIN_THREADS at *
  constructor
  · show (run tune s cycles).connCount = 24
    omega
  · show (run tune s cycles).threadCount = 16
    omega

end AutoTuner
end Dnss
