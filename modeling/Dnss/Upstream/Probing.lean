/-
The probe thread of `SystemResolver`, and the queries that run beside it.

Both write the same flags.  The thread tries `getaddrinfo` once at the start, and six more times,
at every fifth pass, as long as it has not worked; the first queries try it too.  The thread
stores what its first try came to, also where a query has found in the meantime that it works:
`works_after_first_iff` says that this is forgotten.

`retries_eq` counts the tries and `given_up` says what is left when all have failed: no query uses
`getaddrinfo` again.  A try that takes longer than two seconds counts as failed, but the thread
waits for it at the end of the block, in the destructor of its future.  `frozen` says that nothing
is probed until the call returns.

The flag `running_` is left out; it stops the loop.
-/
import Dnss.Library.Machine
import Dnss.Upstream.SystemResolver

namespace Dnss
namespace Probing

open Machine

/-! ## The thread and the queries -/

/-- Where the thread is. -/
inductive Phase where
  | start
  /-- `udpWorks_` has its first value. -/
  | probed
  /-- The first try is under way. -/
  | waiting
  /-- Its result is stored and `getaddrinfoTested_` is not yet. -/
  | storing (late : Bool)
  /-- A try that was too late has not returned. -/
  | joining
  | loop
  deriving DecidableEq

structure State where
  resolver : SystemResolver
  phase : Phase := .start
  probeCycles : Nat := 0
  getaddrinfoRetries : Nat := 0
  /-- The queries that have seen `getaddrinfoTested_` unset and call `getaddrinfo`. -/
  trying : List Nat := []
  /-- The queries that have set `getaddrinfoWorks_` and not yet `getaddrinfoTested_`. -/
  marking : List Nat := []

inductive Action where
  | firstProbe (udp : Bool)
  | readTested
  /-- The first try; `none` when it takes too long. -/
  | firstTry (found : Option Bool)
  | storeTested
  /-- The call that was too late returns. -/
  | returned
  /-- A pass of the loop; `found` is what a try comes to if there is one. -/
  | pass (udp : Bool) (found : Option Bool)
  /-- A query for an address. -/
  | ask (t : Nat)
  | answered (t : Nat) (found : Bool)
  | mark (t : Nat)

namespace State

def setWorks (s : State) (b : Bool) : State :=
  { s with resolver := { s.resolver with getaddrinfoWorks := b } }

def setTested (s : State) : State :=
  { s with resolver := { s.resolver with getaddrinfoTested := true } }

def setUdp (s : State) (b : Bool) : State := { s with resolver := { s.resolver with udpWorks := b } }

/-- The pass that is the `n`th one tries `getaddrinfo`. -/
def retriesAt (s : State) (n : Nat) : Bool :=
  !s.resolver.getaddrinfoWorks && decide (s.getaddrinfoRetries < 6) && decide (n % 5 = 0)

/-- The body of the loop. -/
def pass (s : State) (udp : Bool) (found : Option Bool) : State :=
  let n := s.probeCycles + 1
  let s' := { s.setUdp udp with probeCycles := n }
  if s.retriesAt n then
    let s' := { s' with getaddrinfoRetries := s.getaddrinfoRetries + 1 }
    match found with
    | some true => s'.setWorks true
    | some false => s'
    | none => { s' with phase := .joining }
  else s'

def step (s : State) : Action → State
  | .firstProbe udp => if s.phase = .start then { s.setUdp udp with phase := .probed } else s
  | .readTested =>
    if s.phase = .probed then
      { s with phase := if s.resolver.getaddrinfoTested then .loop else .waiting }
    else s
  | .firstTry found =>
    if s.phase = .waiting then
      { s.setWorks (found = some true) with phase := .storing (found = none) }
    else s
  | .storeTested =>
    match s.phase with
    | .storing late => { s.setTested with phase := if late then .joining else .loop }
    | _ => s
  | .returned => if s.phase = .joining then { s with phase := .loop } else s
  | .pass udp found => if s.phase = .loop then s.pass udp found else s
  | .ask t => if s.resolver.getaddrinfoTested then s else { s with trying := t :: s.trying }
  | .answered t found =>
    if t ∈ s.trying then
      let s' := { s with trying := s.trying.erase t }
      if found then { s'.setWorks true with marking := t :: s.marking } else s'
    else s
  | .mark t => if t ∈ s.marking then { s.setTested with marking := s.marking.erase t } else s

/-- The flag that the queries read. -/
abbrev works (s : State) : Bool := s.resolver.getaddrinfoWorks

abbrev tested (s : State) : Bool := s.resolver.getaddrinfoTested

/-- The first try is over, or there was none. -/
def Past (s : State) : Prop :=
  match s.phase with
  | .start | .probed | .waiting => False
  | .storing _ | .joining | .loop => True

/-- The action finds that `getaddrinfo` works. -/
def Finds (s : State) : Action → Prop
  | .pass _ found =>
    s.phase = .loop ∧ s.retriesAt (s.probeCycles + 1) = true ∧ found = some true
  | .answered t found => t ∈ s.trying ∧ found = true
  | _ => False

/-! ## One step -/

/-- What a pass leaves. -/
structure Passed (s : State) (udp : Bool) (found : Option Bool) (s' : State) : Prop where
  works : s'.works = (s.works || s.retriesAt (s.probeCycles + 1) && found = some true)
  tested : s'.tested = s.tested
  udp : s'.resolver.udpWorks = udp
  phase : s'.phase = if s.retriesAt (s.probeCycles + 1) && found = none then .joining else s.phase
  cycles : s'.probeCycles = s.probeCycles + 1
  retries : s'.getaddrinfoRetries =
    s.getaddrinfoRetries + if s.retriesAt (s.probeCycles + 1) then 1 else 0
  trying : s'.trying = s.trying

theorem passed (s : State) (udp : Bool) (found : Option Bool) : Passed s udp found (s.pass udp found) := by
  cases hretry : s.retriesAt (s.probeCycles + 1) with
  | false =>
    have hpass : s.pass udp found = { s.setUdp udp with probeCycles := s.probeCycles + 1 } := by
      simp only [pass, hretry, Bool.false_eq_true, if_false]
    rw [hpass]
    constructor <;> simp [setUdp, hretry]
  | true =>
    have hnot : s.works = false := by
      simp only [retriesAt, Bool.and_eq_true, Bool.not_eq_true'] at hretry
      exact hretry.1.1
    unfold pass
    rw [if_pos hretry]
    cases found with
    | none => constructor <;> simp [setUdp, hretry]
    | some found =>
      cases found with
      | false => constructor <;> simp [setUdp, hretry]
      | true => constructor <;> simp [setUdp, setWorks, hretry]

variable {s : State} {action : Action}

/-- After its first try the thread does not write `false` again. -/
theorem past_step (action : Action) (h : s.Past) :
    (s.step action).Past ∧ ((s.step action).works = true ↔ s.works = true ∨ s.Finds action) := by
  have hstart : s.phase ≠ .start := by
    rintro heq
    simp only [Past, heq] at h
  have hprobed : s.phase ≠ .probed := by
    rintro heq
    simp only [Past, heq] at h
  have hwaiting : s.phase ≠ .waiting := by
    rintro heq
    simp only [Past, heq] at h
  have hsame : s.works = true ↔ s.works = true ∨ False := by rw [or_false]
  cases action with
  | firstProbe udp =>
    simp only [step, if_neg hstart]
    exact ⟨h, hsame⟩
  | readTested =>
    simp only [step, if_neg hprobed]
    exact ⟨h, hsame⟩
  | firstTry found =>
    simp only [step, if_neg hwaiting]
    exact ⟨h, hsame⟩
  | storeTested =>
    simp only [step]
    split
    · rename_i late hphase
      refine ⟨?_, hsame⟩
      cases late <;> trivial
    · exact ⟨h, hsame⟩
  | returned =>
    simp only [step]
    split
    · exact ⟨trivial, hsame⟩
    · exact ⟨h, hsame⟩
  | pass udp found =>
    simp only [step]
    by_cases hloop : s.phase = .loop
    · have hpassed := passed s udp found
      rw [if_pos hloop]
      refine ⟨?_, ?_⟩
      · have hphase := hpassed.phase
        rw [hloop] at hphase
        unfold Past
        split at hphase
        · rw [hphase]
          trivial
        · rw [hphase]
          trivial
      · rw [hpassed.works, Bool.or_eq_true, Bool.and_eq_true, decide_eq_true_iff]
        exact or_congr Iff.rfl ⟨fun hfound => ⟨hloop, hfound⟩, fun hfinds => hfinds.2⟩
    · rw [if_neg hloop]
      exact ⟨h, ⟨.inl, fun hor => hor.resolve_right fun hfinds => hloop hfinds.1⟩⟩
  | ask t =>
    simp only [step]
    split
    · exact ⟨h, hsame⟩
    · exact ⟨h, hsame⟩
  | answered t found =>
    simp only [step]
    by_cases ht : t ∈ s.trying
    · rw [if_pos ht]
      cases found with
      | false => exact ⟨h, ⟨.inl, fun hor => hor.resolve_right fun hfinds => by cases hfinds.2⟩⟩
      | true => exact ⟨h, ⟨fun _ => .inr ⟨ht, rfl⟩, fun _ => rfl⟩⟩
    · rw [if_neg ht]
      exact ⟨h, ⟨.inl, fun hor => hor.resolve_right fun hfinds => ht hfinds.1⟩⟩
  | mark t =>
    simp only [step]
    split
    · exact ⟨h, hsame⟩
    · exact ⟨h, hsame⟩

/-! ## The flag -/

theorem past_run (h : s.Past) (actions : List Action) :
    (run step s actions).Past ∧
      ((run step s actions).works = true ↔ s.works = true ∨ Happened step s Finds actions) := by
  induction actions using List.reverseRecOn with
  | nil =>
    have hnever : ¬ Happened step s Finds [] := by
      rintro ⟨s', action, hvisit, -⟩
      exact not_visits_nil s' action hvisit
    exact ⟨h, ⟨.inl, fun hor => hor.resolve_right hnever⟩⟩
  | append_singleton actions action ih =>
    obtain ⟨hpast, hworks⟩ := past_step action ih.1
    rw [run_snoc, hworks, ih.2, happened_snoc_iff, or_assoc]
    exact ⟨hpast, Iff.rfl⟩

/-- Whether `getaddrinfo` is used depends on the first try of the thread and on what has been found
since then; what the queries found before is forgotten. -/
theorem works_after_first_iff {before after : List Action} {found : Option Bool}
    (hwaiting : (run step s before).phase = .waiting) :
    (run step s (before ++ .firstTry found :: after)).works = true ↔
      found = some true ∨
        Happened step (run step s (before ++ [.firstTry found])) Finds after := by
  have hstep : run step s (before ++ [.firstTry found]) =
      { (run step s before).setWorks (found = some true) with phase := .storing (found = none) } := by
    rw [run_snoc]
    simp only [step, if_pos hwaiting]
  have hpast : (run step s (before ++ [.firstTry found])).Past := by
    rw [hstep]
    trivial
  have hworks : (run step s (before ++ [.firstTry found])).works = decide (found = some true) := by
    rw [hstep]
    rfl
  rw [List.append_cons, run_append, (past_run hpast after).2, hworks, decide_eq_true_iff]

/-- A query has found that it works while the first try of the thread was under way. -/
theorem works_after_late_try :
    (run step { resolver := { servers := [], dohUrls := [] } }
        ([.ask 7, .firstProbe false, .readTested, .answered 7 true] ++
          .firstTry none :: [.mark 7, .storeTested])).works = true ↔
      none = some true ∨
        Happened step (run step { resolver := { servers := [], dohUrls := [] } }
          ([.ask 7, .firstProbe false, .readTested, .answered 7 true] ++ [.firstTry none])) Finds
          [.mark 7, .storeTested] :=
  works_after_first_iff (by decide)

/-! ## The tries -/

/-- The thread has not begun its loop, or has counted its tries. -/
structure Counted (s : State) : Prop where
  before : ¬ s.Past → s.probeCycles = 0 ∧ s.getaddrinfoRetries = 0
  after : s.Past → s.works = false → s.getaddrinfoRetries = min 6 (s.probeCycles / 5)

theorem counts_step (action : Action)
    (h : ∀ udp found, action = .pass udp found → s.phase ≠ .loop) :
    (s.step action).probeCycles = s.probeCycles ∧
      (s.step action).getaddrinfoRetries = s.getaddrinfoRetries := by
  cases action with
  | pass udp found =>
    have hstep : s.step (.pass udp found) = s := if_neg (h udp found rfl)
    rw [hstep]
    exact ⟨rfl, rfl⟩
  | answered t found =>
    simp only [step]
    split
    · cases found <;> exact ⟨rfl, rfl⟩
    · exact ⟨rfl, rfl⟩
  | _ =>
    simp only [step]
    split <;> exact ⟨rfl, rfl⟩

theorem past_of_loop (h : s.phase = .loop) : s.Past := by
  unfold Past
  rw [h]
  trivial

theorem counted_step (h : Counted s) : Counted (s.step action) := by
  by_cases hpass : ∃ udp found, action = .pass udp found ∧ s.phase = .loop
  · obtain ⟨udp, found, rfl, hloop⟩ := hpass
    have hpast := past_of_loop hloop
    have hstep : s.step (.pass udp found) = s.pass udp found := if_pos hloop
    obtain ⟨hafter, hworks⟩ := past_step (.pass udp found) hpast
    refine ⟨fun hnot => absurd hafter hnot, fun _ hfalse => ?_⟩
    have hold : s.works = false := by
      rw [← Bool.not_eq_true] at hfalse ⊢
      exact fun htrue => hfalse (hworks.mpr (.inl htrue))
    have hcount := h.after hpast hold
    have hpassed := passed s udp found
    have hretry : s.retriesAt (s.probeCycles + 1) = true ↔
        s.getaddrinfoRetries < 6 ∧ (s.probeCycles + 1) % 5 = 0 := by
      change s.resolver.getaddrinfoWorks = false at hold
      simp only [retriesAt, hold, Bool.not_false, Bool.true_and, Bool.and_eq_true, decide_eq_true_iff]
    rw [hstep, hpassed.retries, hpassed.cycles]
    by_cases htry : s.retriesAt (s.probeCycles + 1) = true
    · rw [if_pos htry]
      have htimes := hretry.mp htry
      omega
    · rw [if_neg htry]
      rw [hretry] at htry
      omega
  · obtain ⟨hcycles, hretries⟩ := counts_step action
      fun udp found heq hloop => hpass ⟨udp, found, heq, hloop⟩
    by_cases hpast : s.Past
    · obtain ⟨hafter, hworks⟩ := past_step action hpast
      refine ⟨fun hnot => absurd hafter hnot, fun _ hfalse => ?_⟩
      have hold : s.works = false := by
        rw [← Bool.not_eq_true] at hfalse ⊢
        exact fun htrue => hfalse (hworks.mpr (.inl htrue))
      rw [hcycles, hretries]
      exact h.after hpast hold
    · obtain ⟨hzero, hnone⟩ := h.before hpast
      rw [hzero] at hcycles
      rw [hnone] at hretries
      refine ⟨fun _ => ⟨hcycles, hretries⟩, fun _ _ => ?_⟩
      rw [hcycles, hretries]
      rfl

/-- The resolver as it is constructed. -/
def fresh (servers : List (Bytes × UInt16)) (dohUrls : List Bytes) : State :=
  { resolver := { servers, dohUrls } }

theorem counted_run (servers : List (Bytes × UInt16)) (dohUrls : List Bytes)
    (actions : List Action) : Counted (run step (fresh servers dohUrls) actions) := by
  refine run_invariant ⟨fun _ => ⟨rfl, rfl⟩, fun h => ?_⟩ fun _ _ _ hs => counted_step hs
  exact h.elim

/-- As long as nothing has been found, every fifth pass has tried, up to six of them. -/
theorem retries_eq {servers : List (Bytes × UInt16)} {dohUrls : List Bytes}
    {actions : List Action} (hloop : (run step (fresh servers dohUrls) actions).phase = .loop)
    (hworks : (run step (fresh servers dohUrls) actions).works = false) :
    (run step (fresh servers dohUrls) actions).getaddrinfoRetries =
      min 6 ((run step (fresh servers dohUrls) actions).probeCycles / 5) :=
  (counted_run servers dohUrls actions).after (past_of_loop hloop) hworks

/-! ## Giving up -/

/-- The thread has come to its loop. -/
def Begun (s : State) : Prop := s.phase = .joining ∨ s.phase = .loop

theorem past_of_begun (h : s.Begun) : s.Past := by
  rcases h with h | h
  · unfold Past
    rw [h]
    trivial
  · exact past_of_loop h

theorem tested_step (h : s.tested = true) : (s.step action).tested = true := by
  cases action with
  | pass udp found =>
    simp only [step]
    split
    · rw [(passed s udp found).tested]
      exact h
    · exact h
  | answered t found =>
    simp only [step]
    split
    · cases found <;> exact h
    · exact h
  | storeTested =>
    simp only [step]
    split
    · rfl
    · exact h
  | mark t =>
    simp only [step]
    split
    · rfl
    · exact h
  | _ =>
    simp only [step]
    split <;> exact h

theorem begun_step (h : s.Begun) : (s.step action).Begun := by
  cases action with
  | pass udp found =>
    simp only [step]
    split
    · rename_i hloop
      have hphase := (passed s udp found).phase
      unfold Begun
      rw [hphase, hloop]
      split
      · exact .inl rfl
      · exact .inr rfl
    · exact h
  | answered t found =>
    simp only [step]
    split
    · cases found <;> exact h
    · exact h
  | firstProbe udp =>
    simp only [step]
    split
    · rename_i hphase
      unfold Begun at h
      rw [hphase] at h
      rcases h with h | h <;> cases h
    · exact h
  | readTested =>
    simp only [step]
    split
    · rename_i hphase
      unfold Begun at h
      rw [hphase] at h
      rcases h with h | h <;> cases h
    · exact h
  | firstTry found =>
    simp only [step]
    split
    · rename_i hphase
      unfold Begun at h
      rw [hphase] at h
      rcases h with h | h <;> cases h
    · exact h
  | storeTested =>
    simp only [step]
    split
    · rename_i late hphase
      cases late
      · exact .inr rfl
      · exact .inl rfl
    · exact h
  | returned =>
    simp only [step]
    split
    · exact .inr rfl
    · exact h
  | ask t =>
    simp only [step]
    split <;> exact h
  | mark t =>
    simp only [step]
    split <;> exact h

/-- The loop begins with `getaddrinfoTested_` set. -/
theorem begun_of_step (h : (s.step action).Begun) :
    s.Begun ∨ (s.step action).tested = true := by
  cases action with
  | storeTested =>
    simp only [step] at h ⊢
    split at h
    · exact .inr rfl
    · exact .inl h
  | readTested =>
    simp only [step] at h ⊢
    by_cases hphase : s.phase = .probed
    · right
      rw [if_pos hphase] at h ⊢
      by_contra hno
      rw [Bool.not_eq_true] at hno
      change s.resolver.getaddrinfoTested = false at hno
      simp only [hno, Bool.false_eq_true, if_false] at h
      rcases h with h | h <;> cases h
    · rw [if_neg hphase] at h
      exact .inl h
  | firstProbe udp =>
    simp only [step] at h
    split at h
    · rcases h with h | h <;> cases h
    · exact .inl h
  | firstTry found =>
    simp only [step] at h
    split at h
    · rcases h with h | h <;> cases h
    · exact .inl h
  | returned =>
    simp only [step] at h
    split at h
    · rename_i hphase
      exact .inl (.inl hphase)
    · exact .inl h
  | pass udp found =>
    simp only [step] at h
    split at h
    · rename_i hphase
      exact .inl (.inr hphase)
    · exact .inl h
  | answered t found =>
    simp only [step] at h
    split at h
    · cases found <;> exact .inl h
    · exact .inl h
  | ask t =>
    simp only [step] at h
    split at h <;> exact .inl h
  | mark t =>
    simp only [step] at h
    split at h <;> exact .inl h

structure Marked (s : State) : Prop where
  tested : s.Begun → s.tested = true
  begun : 0 < s.probeCycles → s.Begun

theorem marked_step (h : Marked s) : Marked (s.step action) := by
  by_cases hbegun : s.Begun
  · exact ⟨fun _ => tested_step (h.tested hbegun), fun _ => begun_step hbegun⟩
  · have hcycles : (s.step action).probeCycles = s.probeCycles :=
      (counts_step _ fun udp found _ hloop => hbegun (.inr hloop)).1
    refine ⟨fun hafter => (begun_of_step hafter).resolve_left hbegun, fun hpos => ?_⟩
    rw [hcycles] at hpos
    exact absurd (h.begun hpos) hbegun

/-- All tries have failed, and no query is still trying. -/
structure GivenUp (s : State) : Prop where
  begun : s.Begun
  tested : s.tested = true
  works : s.works = false
  retries : s.getaddrinfoRetries = 6
  trying : s.trying = []

theorem trying_step (htested : s.tested = true) (h : s.trying = []) :
    (s.step action).trying = [] := by
  cases action with
  | pass udp found =>
    simp only [step]
    split
    · rw [(passed s udp found).trying, h]
    · exact h
  | ask t =>
    have hstep : s.step (.ask t) = s := if_pos htested
    rw [hstep, h]
  | answered t found =>
    have hnobody : t ∉ s.trying := by
      rw [h]
      exact List.not_mem_nil
    have hstep : s.step (.answered t found) = s := if_neg hnobody
    rw [hstep, h]
  | _ =>
    simp only [step]
    split <;> exact h

theorem givenUp_step (h : GivenUp s) : GivenUp (s.step action) := by
  have hretry : ∀ n, s.retriesAt n = false := by
    intro n
    have hsix : ¬ s.getaddrinfoRetries < 6 := by
      rw [h.retries]
      omega
    simp only [retriesAt, hsix, decide_false, Bool.and_false, Bool.false_and]
  have hnever : ¬ s.Finds action := by
    intro hfinds
    cases action with
    | pass udp found =>
      rw [Finds, hretry] at hfinds
      exact Bool.false_ne_true hfinds.2.1
    | answered t found =>
      rw [Finds, h.trying] at hfinds
      exact absurd hfinds.1 List.not_mem_nil
    | _ => exact hfinds
  refine ⟨begun_step h.begun, tested_step h.tested, ?_, ?_, trying_step h.tested h.trying⟩
  · rw [← Bool.not_eq_true, (past_step _ (past_of_begun h.begun)).2, h.works]
    exact fun hor => hor.elim Bool.false_ne_true hnever
  · by_cases hpass : ∃ udp found, action = .pass udp found ∧ s.phase = .loop
    · obtain ⟨udp, found, rfl, hloop⟩ := hpass
      have hstep : s.step (.pass udp found) = s.pass udp found := if_pos hloop
      rw [hstep, (passed s udp found).retries, hretry, h.retries]
      rfl
    · rw [(counts_step _ fun udp found heq hloop => hpass ⟨udp, found, heq, hloop⟩).2, h.retries]

/-- A query that finds the flags so does not depend on what `getaddrinfo` would say. -/
theorem query_of_not_works {r : SystemResolver} (htested : r.getaddrinfoTested = true)
    (hworks : r.getaddrinfoWorks = false) (net : Network)
    (answer : Bytes → Option (List SockAddr)) (req : DnsMessage) :
    r.query { net with getaddrinfo := answer } req = r.query net req := by
  unfold SystemResolver.query
  cases req.questions with
  | nil => rfl
  | cons q qs =>
    dsimp only
    rw [htested, hworks]
    rfl

/-- After thirty passes without success, and when no early query is still trying, `getaddrinfo` is
not used again in any run: no query depends on what it would say. -/
theorem given_up {servers : List (Bytes × UInt16)} {dohUrls : List Bytes} {actions : List Action}
    (hpasses : 30 ≤ (run step (fresh servers dohUrls) actions).probeCycles)
    (hworks : (run step (fresh servers dohUrls) actions).works = false)
    (htrying : (run step (fresh servers dohUrls) actions).trying = []) (more : List Action)
    (net : Network) (answer : Bytes → Option (List SockAddr)) (req : DnsMessage) :
    let r := (run step (fresh servers dohUrls) (actions ++ more)).resolver
    r.query { net with getaddrinfo := answer } req = r.query net req := by
  have hmarked : Marked (run step (fresh servers dohUrls) actions) := by
    refine run_invariant ⟨fun h => ?_, fun h => ?_⟩ fun _ _ _ hs => marked_step hs
    · rcases h with h | h <;> cases h
    · cases h
  have hbegun := hmarked.begun (Nat.lt_of_lt_of_le (by decide) hpasses)
  have hretries := (counted_run servers dohUrls actions).after (past_of_begun hbegun) hworks
  have hgivenUp : GivenUp (run step (fresh servers dohUrls) actions) :=
    ⟨hbegun, hmarked.tested hbegun, hworks, by omega, htrying⟩
  have hafter : GivenUp (run step (fresh servers dohUrls) (actions ++ more)) := by
    rw [run_append]
    exact run_invariant hgivenUp fun _ _ _ hs => givenUp_step hs
  exact query_of_not_works hafter.tested hafter.works net answer req

/-- Nothing is found at the start, in thirty passes, and in a query that came early. -/
def allFail : List Action :=
  [.ask 7, .firstProbe false, .readTested, .answered 7 false, .firstTry none, .storeTested,
    .returned] ++ List.replicate 30 (.pass true (some false))

theorem given_up_allFail :
    let r := (run step (fresh [] []) (allFail ++ [.ask 8, .pass true (some true)])).resolver
    r.query
        { getaddrinfo := fun _ => some [.other], udp := fun _ _ => none, doh := fun _ _ => none,
          udpWorksLater := true } (DnsMessage.createQuery [0x61] 1) =
      r.query
        { getaddrinfo := fun _ => none, udp := fun _ _ => none, doh := fun _ _ => none,
          udpWorksLater := true } (DnsMessage.createQuery [0x61] 1) :=
  given_up (by decide) (by decide) (by decide) [.ask 8, .pass true (some true)]
    { getaddrinfo := fun _ => none, udp := fun _ _ => none, doh := fun _ _ => none,
      udpWorksLater := true } (fun _ => some [.other]) (DnsMessage.createQuery [0x61] 1)

/-! ## A call that does not return -/

theorem joining_step (h : s.phase = .joining) (hreturned : action ≠ .returned) :
    (s.step action).phase = .joining ∧
      (s.step action).resolver.udpWorks = s.resolver.udpWorks ∧
      (s.step action).probeCycles = s.probeCycles := by
  cases action with
  | returned => exact absurd rfl hreturned
  | answered t found =>
    simp only [step]
    split
    · cases found <;> exact ⟨h, rfl, rfl⟩
    · exact ⟨h, rfl, rfl⟩
  | ask t =>
    simp only [step]
    split <;> exact ⟨h, rfl, rfl⟩
  | mark t =>
    simp only [step]
    split <;> exact ⟨h, rfl, rfl⟩
  | _ => simp [step, h]

/-- A call of `getaddrinfo` that is late holds the thread up: until it returns there is no pass, and
`udpWorks_` keeps its value whatever happens to the network. -/
theorem frozen {actions : List Action} (h : s.phase = .joining) (hreturned : .returned ∉ actions) :
    (run step s actions).phase = .joining ∧
      (run step s actions).resolver.udpWorks = s.resolver.udpWorks ∧
      (run step s actions).probeCycles = s.probeCycles := by
  refine run_invariant (P := fun s' : State => s'.phase = .joining ∧
    s'.resolver.udpWorks = s.resolver.udpWorks ∧ s'.probeCycles = s.probeCycles)
    ⟨h, rfl, rfl⟩ fun action hmem s' hs' => ?_
  have hnot : action ≠ .returned := fun heq => hreturned (heq ▸ hmem)
  obtain ⟨hphase, hudp, hcycles⟩ := joining_step hs'.1 hnot
  exact ⟨hphase, hudp.trans hs'.2.1, hcycles.trans hs'.2.2⟩

theorem frozen_late_try :
    let s := run step (fresh [] [])
      [.firstProbe false, .readTested, .firstTry none, .storeTested]
    (run step s [.ask 7, .pass true none]).phase = .joining ∧
      (run step s [.ask 7, .pass true none]).resolver.udpWorks = s.resolver.udpWorks ∧
      (run step s [.ask 7, .pass true none]).probeCycles = s.probeCycles :=
  frozen (by decide) (by simp)

end State
end Probing
end Dnss
