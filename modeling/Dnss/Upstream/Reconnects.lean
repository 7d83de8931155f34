/-
The count of connected entries, and the reconnects that are under way.

`connectedCount_` should be the number of managed entries whose flag is set, and an entry
with `reconnectPending` should have one reconnect somewhere: in the queue, in a worker, or
with the maintenance loop, which carries the indices of the entries it has marked.  The
first rests on the second, since a worker adds one to the count without a look at the flag:
two reconnects of one entry count it twice.

The carried indices are what can go wrong.  The loop lets go of the mutex before it uses
them, and an entry that is erased in the meantime moves the later ones.  After its health
checks the loop compares the stream, and for these indices it does not: the marked entry
loses its reconnect, and the one that has come to its place has one too many.
`consistent_of_not_displaces` says that nothing else goes wrong: a run in which no carried
index comes to stand for another entry is consistent in all its states.
-/
import Dnss.Library.Slots
import Dnss.Upstream.ConnectionController

namespace Dnss
namespace ConnectionController

open Machine

/-- How many reconnects of the stream are queued or in progress. -/
def inWork (s : ConnectionController) (stream : Nat) : Nat :=
  s.reconnectQueue.countP (fun work => work.stream == stream) +
    s.workers.countP (fun worker => worker.stream == some stream)

/-- The same for the entry `k`, with those that the maintenance loop is about to enqueue. -/
def items (s : ConnectionController) (k : Nat) (mc : ManagedConn) : Nat :=
  s.inWork mc.stream + s.reconnects.count k

structure Consistent (s : ConnectionController) : Prop where
  counted : s.connectedCount = s.managed.countP (fun mc => mc.connected)
  once : ∀ k mc, s.managed[k]? = some mc → mc.reconnectPending = true → s.items k mc = 1

/-- The step moves an entry away from its carried index, or puts another one there: an entry
before a marked one is erased, or a marked one that is not the last, or a new one is added
at an index that is still carried. -/
def Displaces (s : ConnectionController) : Action → Prop
  | .manage _ _ _ => s.managed.length ∈ s.reconnects
  | .unmanage stream => ∃ e ∈ s.lookup stream, ∃ i ∈ s.reconnects,
      e.1 < i ∧ i < s.managed.length ∨ i = e.1 ∧ e.1 + 1 < s.managed.length
  | _ => False

instance (s : ConnectionController) : ∀ action, Decidable (s.Displaces action)
  | .manage _ _ _ => inferInstanceAs (Decidable (s.managed.length ∈ s.reconnects))
  | .unmanage stream => inferInstanceAs (Decidable (∃ e ∈ s.lookup stream, ∃ i ∈ s.reconnects,
      e.1 < i ∧ i < s.managed.length ∨ i = e.1 ∧ e.1 + 1 < s.managed.length))
  | .notifyUsed _ _ | .notifyFailure _ | .probeAllIdle _ | .probe _ _ | .maintain _ _
  | .workerStep _ _ _ => instDecidableFalse

/-! ## What is kept -/

/-- An entry that is not pending has no reconnects, and a pending one is closed. -/
structure Tracked (s : ConnectionController) : Prop where
  counted : s.connectedCount = s.managed.countP (fun mc => mc.connected)
  distinct : (s.managed.map fun mc => mc.stream).Nodup
  made : ∀ mc ∈ s.managed, mc.stream < s.streams
  fresh : ∀ stream, s.streams ≤ stream → s.inWork stream = 0
  closed : ∀ mc ∈ s.managed, mc.reconnectPending = true → mc.connected = false
  once : ∀ k mc, s.managed[k]? = some mc → s.items k mc = if mc.reconnectPending then 1 else 0

theorem Tracked.consistent {s : ConnectionController} (h : s.Tracked) : s.Consistent where
  counted := h.counted
  once := by
    intro k mc hk hpending
    rw [h.once k mc hk, if_pos hpending]

theorem tracked_initial : Tracked {} where
  counted := rfl
  distinct := List.nodup_nil
  made := fun _ hmem => absurd hmem List.not_mem_nil
  fresh := fun _ _ => rfl
  closed := fun _ hmem => absurd hmem List.not_mem_nil
  once := by
    intro k mc hk
    simp at hk

variable {s s' : ConnectionController} {k : Nat} {mc mc' : ManagedConn}

theorem Tracked.stream_ne (h : s.Tracked) {j : Nat} {other : ManagedConn}
    (hj : s.managed[j]? = some other) (hk : s.managed[k]? = some mc) (hne : j ≠ k) :
    other.stream ≠ mc.stream := by
  intro heq
  have hlt : j < (s.managed.map fun mc => mc.stream).length := by
    rw [List.length_map]
    exact (List.getElem?_eq_some_iff.mp hj).1
  refine hne ((List.getElem?_inj hlt h.distinct).mp ?_)
  rw [List.getElem?_map, List.getElem?_map, hj, hk, Option.map_some, Option.map_some, heq]

/-- A reconnect that is queued or in progress is the only one of its entry. -/
theorem Tracked.pending_of_inWork (h : s.Tracked) (hk : s.managed[k]? = some mc)
    (hpos : 0 < s.inWork mc.stream) :
    mc.reconnectPending = true ∧ mc.connected = false ∧ s.items k mc = 1 := by
  have honce := h.once k mc hk
  have hitems : s.items k mc = s.inWork mc.stream + s.reconnects.count k := rfl
  have hpending : mc.reconnectPending = true := by
    by_contra hnot
    rw [if_neg hnot] at honce
    omega
  rw [if_pos hpending] at honce
  exact ⟨hpending, h.closed mc (List.mem_of_getElem? hk) hpending, honce⟩

/-! ## Blocks that keep the entries -/

/-- The block moves reconnects about, or drops those of streams that are not managed. -/
structure Keeps (s s' : ConnectionController) : Prop where
  managed : s'.managed = s.managed
  connectedCount : s'.connectedCount = s.connectedCount
  streams : s'.streams = s.streams
  fresh : ∀ stream, s.streams ≤ stream → s'.inWork stream ≤ s.inWork stream
  same : ∀ k mc, s.managed[k]? = some mc → s'.items k mc = s.items k mc

theorem Tracked.of_keeps (h : s.Tracked) (hkeeps : Keeps s s') : s'.Tracked where
  counted := by rw [hkeeps.connectedCount, hkeeps.managed, h.counted]
  distinct := by rw [hkeeps.managed]; exact h.distinct
  made := by rw [hkeeps.managed, hkeeps.streams]; exact h.made
  fresh := by
    intro stream hge
    rw [hkeeps.streams] at hge
    have hle := hkeeps.fresh stream hge
    rw [h.fresh stream hge] at hle
    omega
  closed := by rw [hkeeps.managed]; exact h.closed
  once := by
    intro k mc hk
    rw [hkeeps.managed] at hk
    rw [hkeeps.same k mc hk, h.once k mc hk]

/-! ## Blocks that change one entry -/

/-- The block writes `mc'` over the entry `mc` at `k`, and leaves the reconnects of the other
entries alone. -/
structure Changes (s s' : ConnectionController) (k : Nat) (mc mc' : ManagedConn) : Prop where
  entry : s.managed[k]? = some mc
  managed : s'.managed = s.managed.set k mc'
  stream : mc'.stream = mc.stream
  streams : s'.streams = s.streams
  count : s'.connectedCount + (if mc.connected then 1 else 0 : Nat) =
    s.connectedCount + (if mc'.connected then 1 else 0 : Nat)
  closed : mc'.reconnectPending = true → mc'.connected = false
  elsewhere : ∀ stream, stream ≠ mc.stream → s'.inWork stream = s.inWork stream
  carried : ∀ j, j ≠ k → s'.reconnects.count j = s.reconnects.count j
  own : s'.items k mc = if mc'.reconnectPending then 1 else 0

theorem Changes.counted (hch : Changes s s' k mc mc') (h : s.Tracked) :
    s'.connectedCount = s'.managed.countP (fun mc => mc.connected) := by
  have hset := Slots.countP_set_add (fun mc => mc.connected) hch.entry mc'
  have hcount := hch.count
  rw [h.counted] at hcount
  rw [hch.managed]
  omega

theorem Changes.mem (hch : Changes s s' k mc mc') {other : ManagedConn}
    (hmem : other ∈ s'.managed) : other ∈ s.managed ∨ other = mc' := by
  rw [hch.managed] at hmem
  exact List.mem_or_eq_of_mem_set hmem

theorem Tracked.of_changes (h : s.Tracked) (hch : Changes s s' k mc mc') : s'.Tracked where
  counted := hch.counted h
  distinct := by
    obtain ⟨hlt, hget⟩ := List.getElem?_eq_some_iff.mp hch.entry
    have hsame : s'.managed.map (fun mc => mc.stream) = s.managed.map fun mc => mc.stream := by
      rw [hch.managed, List.map_set, hch.stream, ← hget, ← List.map_set, List.set_getElem_self]
    rw [hsame]
    exact h.distinct
  made := by
    intro other hmem
    rw [hch.streams]
    rcases hch.mem hmem with hold | rfl
    · exact h.made other hold
    · rw [hch.stream]
      exact h.made mc (List.mem_of_getElem? hch.entry)
  fresh := by
    intro stream hge
    rw [hch.streams] at hge
    have hmade := h.made mc (List.mem_of_getElem? hch.entry)
    rw [hch.elsewhere stream (by omega), h.fresh stream hge]
  closed := by
    intro other hmem
    rcases hch.mem hmem with hold | rfl
    · exact h.closed other hold
    · exact hch.closed
  once := by
    intro j other hj
    rw [hch.managed, Slots.getElem?_set_eq hch.entry] at hj
    by_cases hjk : k = j
    · subst hjk
      rw [if_pos rfl, Option.some.injEq] at hj
      subst hj
      rw [← hch.own, items, items, hch.stream]
    · rw [if_neg hjk] at hj
      have hne := h.stream_ne hj hch.entry fun hjk' => hjk hjk'.symm
      rw [← h.once j other hj, items, items, hch.elsewhere _ hne,
        hch.carried j fun hjk' => hjk hjk'.symm]

/-! ## Lookups, the queue and the workers -/

theorem lookup_eq_some {stream : Nat} (h : s.lookup stream = some (k, mc)) :
    s.managed[k]? = some mc ∧ mc.stream = stream := by
  obtain ⟨i, hfind, hmap⟩ := Option.bind_eq_some_iff.mp h
  obtain ⟨found, hget, hpair⟩ := Option.map_eq_some_iff.mp hmap
  rw [Prod.mk.injEq] at hpair
  obtain ⟨rfl, rfl⟩ := hpair
  obtain ⟨hlt, hp, -⟩ := List.findIdx?_eq_some_iff_getElem.mp hfind
  obtain ⟨_, hfound⟩ := List.getElem?_eq_some_iff.mp hget
  rw [hfound] at hp
  exact ⟨hget, beq_iff_eq.mp hp⟩

theorem lookup_eq_none {stream : Nat} (h : s.lookup stream = none) :
    ∀ mc ∈ s.managed, mc.stream ≠ stream := by
  intro mc hmem heq
  cases hfind : s.managed.findIdx? fun mc => mc.stream == stream with
  | none =>
    have hnot := List.findIdx?_eq_none_iff.mp hfind mc hmem
    rw [heq, beq_self_eq_true] at hnot
    cases hnot
  | some i =>
    obtain ⟨hlt, -, -⟩ := List.findIdx?_eq_some_iff_getElem.mp hfind
    rw [lookup, hfind, Option.bind_some, List.getElem?_eq_getElem hlt, Option.map_some] at h
    cases h

theorem inWork_enqueue (s : ConnectionController) (work : ReconnectWork) (stream : Nat) :
    (s.enqueue work).inWork stream =
      s.inWork stream + if work.stream = stream then 1 else 0 := by
  have hone : [work].countP (fun work => work.stream == stream) =
      if work.stream = stream then 1 else 0 := by
    rw [List.countP_singleton]
    simp only [beq_iff_eq]
  show (s.reconnectQueue ++ [work]).countP _ + s.workers.countP _ = _
  rw [List.countP_append, hone, inWork]
  omega

theorem inWork_setWorker {w : Nat} {worker : ReconnectWorker} (hw : s.workers[w]? = some worker)
    (worker' : ReconnectWorker) (stream : Nat) :
    (s.setWorker w worker').inWork stream + (if worker.stream = some stream then 1 else 0) =
      s.inWork stream + if worker'.stream = some stream then 1 else 0 := by
  have hset := Slots.countP_set_add (fun worker => worker.stream == some stream) hw worker'
  simp only [beq_iff_eq] at hset
  show s.reconnectQueue.countP _ + (s.workers.set w worker').countP _ + _ = _
  rw [inWork]
  omega

/-- What a worker has is in work. -/
theorem inWork_pos {w : Nat} {worker : ReconnectWorker} {stream : Nat}
    (hw : s.workers[w]? = some worker) (hstream : worker.stream = some stream) :
    0 < s.inWork stream := by
  have hpos : 0 < s.workers.countP fun worker => worker.stream == some stream :=
    List.countP_pos_iff.mpr ⟨worker, List.mem_of_getElem? hw, by simp [hstream]⟩
  unfold inWork
  omega

/-! ## The blocks -/

theorem Tracked.of_work (h : s.Tracked) (hmanaged : s'.managed = s.managed)
    (hcount : s'.connectedCount = s.connectedCount) (hstreams : s'.streams = s.streams)
    (hreconnects : s'.reconnects = s.reconnects)
    (hle : ∀ stream, s'.inWork stream ≤ s.inWork stream)
    (hsame : ∀ mc ∈ s.managed, s'.inWork mc.stream = s.inWork mc.stream) : s'.Tracked := by
  refine h.of_keeps ⟨hmanaged, hcount, hstreams, fun stream _ => hle stream, fun k mc hk => ?_⟩
  rw [items, items, hsame mc (List.mem_of_getElem? hk), hreconnects]

theorem Tracked.of_same (h : s.Tracked) (hmanaged : s'.managed = s.managed)
    (hcount : s'.connectedCount = s.connectedCount) (hstreams : s'.streams = s.streams)
    (hreconnects : s'.reconnects = s.reconnects)
    (hwork : ∀ stream, s'.inWork stream = s.inWork stream) : s'.Tracked :=
  h.of_work hmanaged hcount hstreams hreconnects (fun stream => Nat.le_of_eq (hwork stream))
    fun mc _ => hwork mc.stream

theorem Tracked.notifyUsed (h : s.Tracked) (stream : Nat) (now : Int) :
    (s.notifyUsed stream now).Tracked := by
  unfold ConnectionController.notifyUsed
  split
  · exact h
  · rename_i k mc hlookup
    obtain ⟨hk, -⟩ := lookup_eq_some hlookup
    refine h.of_changes ⟨hk, rfl, rfl, rfl, rfl, ?_, fun _ _ => rfl, fun _ _ => rfl, h.once k mc hk⟩
    exact h.closed mc (List.mem_of_getElem? hk)

theorem Tracked.fail (h : s.Tracked) (hk : s.managed[k]? = some mc) (failures : Int) :
    (s.fail k { mc with failures }).Tracked := by
  have honce := h.once k mc hk
  have hcount : (if mc.connected then s.connectedCount - 1 else s.connectedCount) +
      (if mc.connected then 1 else 0 : Nat) = s.connectedCount + (0 : Nat) := by
    split <;> simp
  unfold ConnectionController.fail
  by_cases hpending : mc.reconnectPending = true
  · rw [if_pos hpending]
    exact h.of_changes ⟨hk, rfl, rfl, rfl, hcount, fun _ => rfl, fun _ _ => rfl, fun _ _ => rfl,
      honce⟩
  · rw [if_neg hpending] at honce ⊢
    refine h.of_changes ⟨hk, rfl, rfl, rfl, hcount, fun _ => rfl, fun stream hne => ?_,
      fun _ _ => rfl, ?_⟩
    · refine (inWork_enqueue _ _ stream).trans ?_
      exact congrArg (s.inWork stream + ·) (if_neg fun heq => hne heq.symm)
    · show inWork (enqueue _ _) mc.stream + s.reconnects.count k = 1
      rw [inWork_enqueue]
      show s.inWork mc.stream + (if mc.stream = mc.stream then 1 else 0) + s.reconnects.count k = 1
      rw [if_pos rfl]
      rw [items] at honce
      omega

theorem Tracked.notifyFailure (h : s.Tracked) (stream : Nat) :
    (s.notifyFailure stream).Tracked := by
  unfold ConnectionController.notifyFailure
  split
  · exact h
  · rename_i k mc hlookup
    exact h.fail (lookup_eq_some hlookup).1 _

theorem Tracked.afterCheck (h : s.Tracked) (check : HealthCheck) (healthy : Bool) :
    (s.afterCheck check healthy).Tracked := by
  unfold ConnectionController.afterCheck
  split
  · exact h
  · split
    · exact h
    · rename_i mc hk
      split
      · exact h.fail hk mc.failures
      · exact h

theorem Tracked.probe (h : s.Tracked) (k : Nat) (healthy : Bool) :
    (s.probe k healthy).Tracked := by
  unfold ConnectionController.probe
  split
  · rename_i check rest _
    have hnext : Tracked { s with probes := s.probes.set k rest } :=
      h.of_same rfl rfl rfl rfl fun _ => rfl
    exact hnext.afterCheck check healthy
  · exact h

theorem Tracked.scanEntry (h : s.Tracked) (now : Int) (k : Nat) :
    (s.scanEntry now k).Tracked := by
  unfold ConnectionController.scanEntry
  split
  · exact h
  · rename_i mc hk
    split
    · exact h
    · rename_i hpending
      have honce := h.once k mc hk
      rw [if_neg hpending, items] at honce
      split
      · split
        · exact h.of_same rfl rfl rfl rfl fun _ => rfl
        · exact h
      · rename_i hconnected
        refine h.of_changes ⟨hk, rfl, rfl, rfl, rfl, fun _ => Bool.eq_false_iff.mpr hconnected,
          fun _ _ => rfl, fun j hne => ?_, ?_⟩
        · show (s.reconnects ++ [k]).count j = s.reconnects.count j
          rw [List.count_append, List.count_singleton, if_neg (by simpa using hne.symm)]
          rfl
        · show s.inWork mc.stream + (s.reconnects ++ [k]).count k = 1
          rw [List.count_append, List.count_singleton_self]
          omega

theorem Tracked.scan (h : s.Tracked) (now : Int) : (s.scan now).Tracked := by
  unfold ConnectionController.scan
  generalize List.range s.managed.length = ks
  induction ks generalizing s with
  | nil => exact h
  | cons k ks ih => exact ih (h.scanEntry now k)

/-- A carried index becomes work in the queue. -/
theorem Tracked.enqueueAt (h : s.Tracked) {idx : Nat} {rest : List Nat}
    (hreconnects : s.reconnects = idx :: rest) :
    (enqueueAt { s with reconnects := rest } idx).Tracked := by
  have hcount : ∀ j, s.reconnects.count j = rest.count j + if idx = j then 1 else 0 := by
    intro j
    rw [hreconnects, List.count_cons]
    simp only [beq_iff_eq]
  unfold ConnectionController.enqueueAt
  split
  · rename_i hnone
    refine h.of_keeps ⟨rfl, rfl, rfl, fun _ _ => Nat.le_refl _, fun k mc hk => ?_⟩
    have hne : idx ≠ k := by
      rintro rfl
      rw [show s.managed[idx]? = none from hnone] at hk
      cases hk
    show s.inWork mc.stream + rest.count k = s.inWork mc.stream + s.reconnects.count k
    rw [hcount, if_neg hne, Nat.add_zero]
  · rename_i other hother
    have hidx : s.managed[idx]? = some other := hother
    refine h.of_keeps ⟨rfl, rfl, rfl, fun stream hge => ?_, fun k mc hk => ?_⟩
    · have hmade := h.made other (List.mem_of_getElem? hidx)
      have hne : ¬ other.stream = stream := by omega
      refine Nat.le_of_eq ((inWork_enqueue _ _ stream).trans ?_)
      exact congrArg (s.inWork stream + ·) (if_neg hne)
    · show inWork (enqueue _ _) mc.stream + rest.count k = s.inWork mc.stream + s.reconnects.count k
      rw [inWork_enqueue, hcount]
      show s.inWork mc.stream + (if other.stream = mc.stream then 1 else 0) + _ = _
      by_cases hik : idx = k
      · subst hik
        obtain rfl : other = mc := by
          rw [hidx] at hk
          exact Option.some.inj hk
        rw [if_pos rfl, if_pos rfl]
        omega
      · rw [if_neg hik, if_neg (h.stream_ne hidx hk hik)]
        omega

theorem Tracked.maintain (h : s.Tracked) (now : Int) (healthy : Bool) :
    (s.maintain now healthy).Tracked := by
  unfold ConnectionController.maintain
  split
  · rename_i check rest _
    have hnext : Tracked { s with checks := rest } := h.of_same rfl rfl rfl rfl fun _ => rfl
    exact hnext.afterCheck check healthy
  · split
    · rename_i hreconnects
      exact h.enqueueAt hreconnects
    · exact h.scan now

/-! ## The blocks of a worker -/

section Worker

variable {w : Nat} {worker : ReconnectWorker} {work : ReconnectWork}

/-- A worker lets go of its work. -/
theorem inWork_waiting (hw : s.workers[w]? = some worker)
    (hstream : worker.stream = some work.stream) (stream : Nat) :
    (s.setWorker w .waiting).inWork stream + (if work.stream = stream then 1 else 0) =
      s.inWork stream := by
  have hset := inWork_setWorker hw .waiting stream
  simp only [hstream, Option.some.injEq] at hset
  exact hset

theorem Tracked.take (h : s.Tracked) {rest : List ReconnectWork}
    (hw : s.workers[w]? = some .waiting) (hqueue : s.reconnectQueue = work :: rest) :
    (setWorker { s with reconnectQueue := rest } w (.took work)).Tracked := by
  have hwork : ∀ stream,
      (setWorker { s with reconnectQueue := rest } w (.took work)).inWork stream =
        s.inWork stream := by
    intro stream
    have hset := inWork_setWorker (s := { s with reconnectQueue := rest }) hw (.took work) stream
    simp only [ReconnectWorker.stream, Option.some.injEq] at hset
    refine hset.trans ?_
    show rest.countP _ + s.workers.countP _ + _ = _
    rw [inWork, hqueue, List.countP_cons]
    simp only [beq_iff_eq]
    omega
  exact h.of_same rfl rfl rfl rfl hwork

/-- Work whose stream is not managed is dropped. -/
theorem Tracked.drop (h : s.Tracked) (hw : s.workers[w]? = some worker)
    (hstream : worker.stream = some work.stream) (hnone : s.lookup work.stream = none) :
    (s.setWorker w .waiting).Tracked := by
  have hwork := inWork_waiting hw hstream
  refine h.of_work rfl rfl rfl rfl (fun stream => Nat.le.intro (hwork stream)) fun mc hmem => ?_
  have hne := lookup_eq_none hnone mc hmem
  have hsame := hwork mc.stream
  rwa [if_neg fun heq => hne heq.symm] at hsame

theorem Tracked.lookUp (h : s.Tracked) (hw : s.workers[w]? = some (.took work)) :
    (s.lookUp w work).Tracked := by
  unfold ConnectionController.lookUp
  split
  · rename_i hnone
    exact h.drop hw rfl hnone
  · rename_i k mc hlookup
    obtain ⟨hk, hstream⟩ := lookup_eq_some hlookup
    have hpos : 0 < s.inWork mc.stream := inWork_pos hw (congrArg some hstream.symm)
    -- The entry is pending, so it is not connected.
    obtain ⟨-, hconnected, -⟩ := h.pending_of_inWork hk hpos
    rw [hconnected, if_neg (by decide)]
    have hwork : ∀ stream, (s.setWorker w (.opening work)).inWork stream = s.inWork stream :=
      fun stream => Nat.add_right_cancel (inWork_setWorker hw (.opening work) stream)
    exact h.of_same rfl rfl rfl rfl hwork

theorem Tracked.finish (h : s.Tracked) (hw : s.workers[w]? = some (.opening work)) (ok : Bool)
    (now : Int) : ((s.setWorker w .waiting).finish work ok now).Tracked := by
  unfold ConnectionController.finish
  have hwork := inWork_waiting hw rfl
  split
  · rename_i hnone
    exact h.drop hw rfl hnone
  · rename_i k mc hlookup
    obtain ⟨hk, hstream⟩ := lookup_eq_some hlookup
    have hk : s.managed[k]? = some mc := hk
    have hpos : 0 < s.inWork mc.stream := inWork_pos hw (congrArg some hstream.symm)
    obtain ⟨-, hconnected, honce⟩ := h.pending_of_inWork hk hpos
    have helsewhere : ∀ stream, stream ≠ mc.stream →
        (s.setWorker w .waiting).inWork stream = s.inWork stream := by
      intro stream hne
      have hsame := hwork stream
      rwa [if_neg (by omega)] at hsame
    -- Without the work of this worker nothing is left.
    have hnone : (s.setWorker w .waiting).inWork mc.stream + s.reconnects.count k = 0 := by
      have hown := hwork mc.stream
      rw [if_pos hstream.symm] at hown
      rw [items] at honce
      omega
    split
    · refine h.of_changes ⟨hk, rfl, rfl, rfl, ?_, fun hpending' => ?_, helsewhere, fun _ _ => rfl,
        hnone⟩
      · show s.connectedCount + 1 + (if mc.connected then 1 else 0 : Nat) =
          s.connectedCount + (1 : Nat)
        rw [hconnected]
        exact Int.add_zero _
      · cases hpending'
    · split
      · refine h.of_same rfl rfl rfl rfl fun stream => ?_
        exact (inWork_enqueue _ _ stream).trans (hwork stream)
      · exact h.of_changes ⟨hk, rfl, rfl, rfl, rfl, fun _ => hconnected, helsewhere,
          fun _ _ => rfl, hnone⟩

end Worker

theorem Tracked.workerStep (h : s.Tracked) (w : Nat) (ok : Bool) (now : Int) :
    (s.workerStep w ok now).Tracked := by
  unfold ConnectionController.workerStep
  split
  · exact h
  · rename_i hw
    split
    · exact h
    · rename_i work rest hqueue
      exact h.take hw hqueue
  · rename_i work hw
    exact h.lookUp hw
  · rename_i work hw
    exact h.finish hw ok now

/-! ## Entries that come and go -/

theorem Tracked.manage (h : s.Tracked) (hfree : s.managed.length ∉ s.reconnects)
    (endpoint : Endpoint) (connected : Bool) (now : Int) :
    Tracked { s.manage endpoint s.streams connected now with streams := s.streams + 1 } where
  counted := by
    show (if connected then s.connectedCount + 1 else s.connectedCount) =
      ((s.managed ++ [_]).countP (fun mc : ManagedConn => mc.connected) : Nat)
    rw [h.counted, List.countP_append, List.countP_singleton]
    cases connected <;> rfl
  distinct := by
    show ((s.managed ++ [_]).map fun mc : ManagedConn => mc.stream).Nodup
    rw [List.map_append, List.map_singleton]
    refine List.nodup_append.mpr ⟨h.distinct, List.pairwise_singleton _ _, ?_⟩
    intro old hold new hnew
    obtain ⟨mc, hmem, rfl⟩ := List.mem_map.mp hold
    rw [List.mem_singleton.mp hnew]
    exact Nat.ne_of_lt (h.made mc hmem)
  made := by
    intro mc hmem
    show mc.stream < s.streams + 1
    rcases List.mem_append.mp hmem with hold | hnew
    · have hmade := h.made mc hold
      omega
    · rw [List.mem_singleton.mp hnew]
      exact Nat.lt_succ_self _
  fresh := fun stream hge => h.fresh stream (Nat.le_of_succ_le hge)
  closed := by
    intro mc hmem
    rcases List.mem_append.mp hmem with hold | hnew
    · exact h.closed mc hold
    · rw [List.mem_singleton.mp hnew]
      exact fun hpending => absurd hpending Bool.false_ne_true
  once := by
    intro k mc hk
    have hk : (s.managed ++ [_])[k]? = some mc := hk
    rcases Nat.lt_or_ge k s.managed.length with hlt | hge
    · rw [List.getElem?_append_left hlt] at hk
      exact h.once k mc hk
    · rw [List.getElem?_append_right hge] at hk
      obtain ⟨hlt, -⟩ := List.getElem?_eq_some_iff.mp hk
      rw [List.length_singleton] at hlt
      obtain rfl : k = s.managed.length := by omega
      rw [Nat.sub_self, List.getElem?_cons_zero, Option.some.injEq] at hk
      subst hk
      show s.inWork s.streams + s.reconnects.count s.managed.length = 0
      rw [h.fresh s.streams (Nat.le_refl _), List.count_eq_zero_of_not_mem hfree]

theorem inWork_cancel_le (s : ConnectionController) (stream other : Nat) :
    (s.cancel stream).inWork other ≤ s.inWork other := by
  have hle := (List.filter_sublist (p := fun work => work.stream != stream)
    (l := s.reconnectQueue)).countP_le (p := fun work => work.stream == other)
  exact Nat.add_le_add_right hle _

theorem inWork_cancel (s : ConnectionController) {stream other : Nat} (hne : other ≠ stream) :
    (s.cancel stream).inWork other = s.inWork other := by
  show (s.reconnectQueue.filter _).countP _ + s.workers.countP _ = _
  rw [inWork, List.countP_filter]
  congr 1
  refine List.countP_congr fun work _ => ?_
  rw [Bool.and_eq_true, beq_iff_eq, bne_iff_ne]
  constructor
  · exact fun h => h.1
  · rintro rfl
    exact ⟨rfl, hne⟩

theorem Tracked.cancel (h : s.Tracked) {stream : Nat}
    (hgone : ∀ mc ∈ s.managed, mc.stream ≠ stream) : (s.cancel stream).Tracked := by
  refine h.of_work rfl rfl rfl rfl (inWork_cancel_le s stream) fun mc hmem => ?_
  exact inWork_cancel s (hgone mc hmem)

/-- No carried index is at the erased entry or behind it, unless it is the last. -/
theorem Tracked.eraseEntry (h : s.Tracked) {j : Nat} (hj : s.managed[j]? = some mc)
    (hbehind : ∀ i, j < i → i < s.managed.length → i ∉ s.reconnects)
    (hat : j + 1 < s.managed.length → j ∉ s.reconnects) : (s.eraseEntry j mc).Tracked where
  counted := by
    have hold := Slots.countP_eraseIdx_add (fun mc => mc.connected) hj
    have hcounted := h.counted
    show (if mc.connected then s.connectedCount - 1 else s.connectedCount) =
      ((s.managed.eraseIdx j).countP (fun mc => mc.connected) : Nat)
    split
    · rename_i hconnected
      rw [if_pos hconnected] at hold
      omega
    · rename_i hconnected
      rw [if_neg hconnected] at hold
      omega
  distinct := h.distinct.sublist ((List.eraseIdx_sublist _ j).map _)
  made := fun other hmem => h.made other ((List.eraseIdx_sublist _ j).subset hmem)
  fresh := h.fresh
  closed := fun other hmem => h.closed other ((List.eraseIdx_sublist _ j).subset hmem)
  once := by
    intro k other hk
    have hk : (s.managed.eraseIdx j)[k]? = some other := hk
    rw [List.getElem?_eraseIdx] at hk
    split at hk
    · exact h.once k other hk
    · rename_i hge
      obtain ⟨hlt, -⟩ := List.getElem?_eq_some_iff.mp hk
      have hnext : s.reconnects.count (k + 1) = 0 :=
        List.count_eq_zero_of_not_mem (hbehind (k + 1) (by omega) hlt)
      have hhere : s.reconnects.count k = 0 := by
        rcases Nat.eq_or_lt_of_le (Nat.le_of_not_lt hge) with rfl | hgt
        · exact List.count_eq_zero_of_not_mem (hat hlt)
        · exact List.count_eq_zero_of_not_mem (hbehind k hgt (by omega))
      have honce := h.once (k + 1) other hk
      rw [items, hnext] at honce
      show s.inWork other.stream + s.reconnects.count k = _
      rw [hhere, honce]

theorem Tracked.unmanage (h : s.Tracked) {stream : Nat}
    (hdisplaces : ¬ s.Displaces (.unmanage stream)) : (s.unmanage stream).Tracked := by
  unfold ConnectionController.unmanage
  split
  · rename_i hnone
    exact h.cancel (lookup_eq_none hnone)
  · rename_i j mc hlookup
    obtain ⟨hj, rfl⟩ := lookup_eq_some hlookup
    have hcarried : ∀ i ∈ s.reconnects,
        ¬ (j < i ∧ i < s.managed.length ∨ i = j ∧ j + 1 < s.managed.length) :=
      fun i hi hdisplaced => hdisplaces ⟨(j, mc), hlookup, i, hi, hdisplaced⟩
    refine (h.eraseEntry hj ?_ ?_).cancel ?_
    · exact fun i hlt hlast hi => hcarried i hi (Or.inl ⟨hlt, hlast⟩)
    · exact fun hlast hi => hcarried j hi (Or.inr ⟨rfl, hlast⟩)
    · intro other hmem
      obtain ⟨i, hne, hi⟩ := List.mem_eraseIdx_iff_getElem?.mp hmem
      exact h.stream_ne hi hj hne

/-! ## Runs -/

theorem Tracked.step (h : s.Tracked) {action : Action} (hdisplaces : ¬ s.Displaces action) :
    (step s action).Tracked := by
  cases action with
  | manage endpoint connected now => exact h.manage hdisplaces endpoint connected now
  | unmanage stream => exact h.unmanage hdisplaces
  | notifyUsed stream now => exact h.notifyUsed stream now
  | notifyFailure stream => exact h.notifyFailure stream
  | probeAllIdle now => exact h.of_same rfl rfl rfl rfl fun _ => rfl
  | probe k healthy => exact h.probe k healthy
  | maintain now healthy => exact h.maintain now healthy
  | workerStep w ok now => exact h.workerStep w ok now

/-- Every state of a run is consistent if no step of it displaces a carried index. -/
theorem consistent_of_not_displaces {actions : List Action}
    (h : ∀ s action, Visits step {} actions s action → ¬ s.Displaces action) :
    ∀ before after, actions = before ++ after → Consistent (run step {} before) := by
  rintro before after rfl
  have htracked : Tracked (run step {} before) :=
    run_invariant_of_visits tracked_initial fun s action hvisit htracked =>
      htracked.step (h s action (hvisit.append after))
  exact htracked.consistent

def dnsGoogle : Endpoint := ⟨"dns.google", "443", "/dns-query"⟩

/-- A marked entry keeps its index when a later one is erased. -/
def keptRun : List Action :=
  [.manage dnsGoogle false 0, .maintain 0 true, .manage dnsGoogle true 0, .unmanage 1,
    .maintain 0 true, .workerStep 0 true 0, .workerStep 0 true 0, .workerStep 0 true 0]

theorem keptRun_consistent : Consistent (run step {} keptRun) := by
  have hkept : ∀ s action, Visits step {} keptRun s action → ¬ s.Displaces action := by
    intro s action hvisit
    simp only [keptRun, visits_cons_iff, not_visits_nil, or_false] at hvisit
    rcases hvisit with ⟨rfl, rfl⟩ | ⟨rfl, rfl⟩ | ⟨rfl, rfl⟩ | ⟨rfl, rfl⟩ | ⟨rfl, rfl⟩ |
      ⟨rfl, rfl⟩ | ⟨rfl, rfl⟩ | ⟨rfl, rfl⟩ <;> decide
  exact consistent_of_not_displaces hkept keptRun [] rfl

/-- The second of three entries fails and cannot be reopened in six attempts.  The loop marks
it again.  Before it uses the index, the first entry is erased and the third one fails, and
two workers reopen the third one. -/
def displacedRun : List Action :=
  [.manage dnsGoogle true 0, .manage dnsGoogle true 0, .manage dnsGoogle true 0,
    .notifyFailure 1] ++ List.replicate 18 (.workerStep 0 false 0) ++
  [.maintain 0 true, .unmanage 0, .notifyFailure 2, .maintain 0 true, .workerStep 0 true 0,
    .workerStep 1 true 0, .workerStep 0 true 0, .workerStep 1 true 0, .workerStep 0 true 0,
    .workerStep 1 true 0]

/-- The count is two with one entry connected, and the marked entry has no reconnect. -/
theorem displacedRun_not_consistent :
    (run step {} displacedRun).connectedCount = 2 ∧
    (run step {} displacedRun).managed.countP (fun mc => mc.connected) = 1 ∧
    (∃ mc, (run step {} displacedRun).managed[0]? = some mc ∧ mc.reconnectPending = true ∧
      (run step {} displacedRun).items 0 mc = 0) ∧
    ¬ Consistent (run step {} displacedRun) := by
  have hcount : (run step {} displacedRun).connectedCount = 2 := by decide
  have hconnected :
      (run step {} displacedRun).managed.countP (fun mc => mc.connected) = 1 := by decide
  refine ⟨hcount, hconnected, ⟨_, rfl, by decide, by decide⟩, fun h => ?_⟩
  have hcounted := h.counted
  rw [hcount, hconnected] at hcounted
  exact absurd hcounted (by decide)

end ConnectionController
end Dnss
