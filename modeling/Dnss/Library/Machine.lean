/-
Runs of a deterministic machine.

A machine is a step function on states, and a run is a list of actions taken from
an initial state.  `Visits` names the moments of a run: the state before an action
together with the action.  `Happened` is the past of a run as seen from its end,
and grows by one moment with each action.

`tally` adds up a cost over the moments of a run.

`run_invariant` is the rule for facts about states, `run_invariant_of_visits` the same for
runs of whose moments something is known, and `run_past` the rule for facts that relate a
state to the actions before it.  `happened_of_run` is the rule for where things come from,
and `counts_iff` the rule for counters.  `trace` is a run without an end, and
`eventually_of_measure` the rule for what a fair one comes to.

`answers` is the list of what a machine answers.  `answers_of_component` is the rule for
independence: where the actions of one kind use a part of the state that no other action
touches, their answers are those of a machine that is only this part.
-/
import Mathlib.Algebra.GroupWithZero.Nat
import Mathlib.Data.List.Induction

namespace Dnss
namespace Machine

variable {σ α : Type}

/-- The state after the actions `as`. -/
def run (step : σ → α → σ) (init : σ) (as : List α) : σ :=
  as.foldl step init

/-- The run takes action `a` in state `s`. -/
def Visits (step : σ → α → σ) (init : σ) (as : List α) (s : σ) (a : α) : Prop :=
  ∃ before after, as = before ++ a :: after ∧ s = run step init before

/-- Some moment of the run satisfies `E`. -/
def Happened (step : σ → α → σ) (init : σ) (E : σ → α → Prop) (as : List α) : Prop :=
  ∃ s a, Visits step init as s a ∧ E s a

variable {step : σ → α → σ} {init : σ}

theorem run_snoc (as : List α) (a : α) :
    run step init (as ++ [a]) = step (run step init as) a := by
  simp [run]

theorem run_append (as bs : List α) :
    run step init (as ++ bs) = run step (run step init as) bs :=
  List.foldl_append

/-- What holds at the start and is kept by every action of the run holds at the
end. -/
theorem run_invariant {P : σ → Prop} {as : List α} (hinit : P init)
    (hstep : ∀ a ∈ as, ∀ s, P s → P (step s a)) : P (run step init as) := by
  induction as using List.reverseRecOn with
  | nil => exact hinit
  | append_singleton as a ih =>
    rw [List.forall_mem_append, List.forall_mem_singleton] at hstep
    rw [run_snoc]
    exact hstep.2 _ (ih hstep.1)

/-- The same, where the fact may mention the actions taken so far. -/
theorem run_past {P : List α → σ → Prop} (hinit : P [] init)
    (hstep : ∀ as a, P as (run step init as) → P (as ++ [a]) (step (run step init as) a))
    (as : List α) : P as (run step init as) := by
  induction as using List.reverseRecOn with
  | nil => exact hinit
  | append_singleton as a ih =>
    rw [run_snoc]
    exact hstep as a ih

theorem not_visits_nil (s : σ) (a : α) : ¬ Visits step init [] s a := by
  rintro ⟨before, after, h, -⟩
  simp at h

theorem visits_cons_iff {b : α} {as : List α} {s : σ} {a : α} :
    Visits step init (b :: as) s a ↔ s = init ∧ a = b ∨ Visits step (step init b) as s a := by
  constructor
  · rintro ⟨before, after, h, rfl⟩
    rcases List.cons_eq_append_iff.mp h with ⟨rfl, hcons⟩ | ⟨before, rfl, hrest⟩
    · rw [List.cons.injEq] at hcons
      exact Or.inl ⟨rfl, hcons.1⟩
    · exact Or.inr ⟨before, after, hrest, rfl⟩
  · rintro (⟨rfl, rfl⟩ | ⟨before, after, rfl, rfl⟩)
    · exact ⟨[], as, rfl, rfl⟩
    · exact ⟨b :: before, after, rfl, rfl⟩

theorem visits_snoc (as : List α) (a : α) :
    Visits step init (as ++ [a]) (run step init as) a :=
  ⟨as, [], rfl, rfl⟩

theorem Visits.append {as : List α} {s : σ} {a : α} (h : Visits step init as s a) (bs : List α) :
    Visits step init (as ++ bs) s a := by
  obtain ⟨before, after, rfl, rfl⟩ := h
  exact ⟨before, after ++ bs, by simp, rfl⟩

theorem Visits.snoc {as : List α} {s : σ} {a : α} (h : Visits step init as s a) (b : α) :
    Visits step init (as ++ [b]) s a :=
  h.append [b]

theorem Visits.mem {as : List α} {s : σ} {a : α} (h : Visits step init as s a) : a ∈ as := by
  obtain ⟨before, after, rfl, -⟩ := h
  simp

/-- What holds at the start and is kept at every moment of the run holds at the end. -/
theorem run_invariant_of_visits {P : σ → Prop} {as : List α} (hinit : P init)
    (hstep : ∀ s a, Visits step init as s a → P s → P (step s a)) : P (run step init as) := by
  refine run_past (P := fun as s => (∀ s a, Visits step init as s a → P s → P (step s a)) → P s)
    (fun _ => hinit) ?_ as hstep
  intro as a ih hstep
  have hpast := ih fun s b hvisit => hstep s b (hvisit.snoc a)
  exact hstep _ a (visits_snoc as a) hpast

theorem Happened.snoc {E : σ → α → Prop} {as : List α} (h : Happened step init E as) (a : α) :
    Happened step init E (as ++ [a]) := by
  obtain ⟨s, b, hvisit, hE⟩ := h
  exact ⟨s, b, hvisit.snoc a, hE⟩

theorem happened_snoc {E : σ → α → Prop} {as : List α} {a : α} (h : E (run step init as) a) :
    Happened step init E (as ++ [a]) :=
  ⟨_, a, visits_snoc as a, h⟩

theorem happened_snoc_iff {E : σ → α → Prop} {as : List α} {a : α} :
    Happened step init E (as ++ [a]) ↔ Happened step init E as ∨ E (run step init as) a := by
  constructor
  · rintro ⟨s, b, ⟨before, after, heq, rfl⟩, hE⟩
    rcases List.eq_nil_or_concat after with rfl | ⟨after, last, rfl⟩
    · obtain ⟨rfl, hlast⟩ := List.append_inj' heq rfl
      rw [List.cons.injEq] at hlast
      rw [hlast.1]
      exact .inr hE
    · rw [List.concat_eq_append, ← List.cons_append, ← List.append_assoc] at heq
      obtain ⟨rfl, -⟩ := List.append_inj' heq rfl
      exact .inl ⟨_, b, ⟨before, after, rfl, rfl⟩, hE⟩
  · rintro (h | h)
    · exact h.snoc a
    · exact happened_snoc h

/-- What a state has and the initial state had not was brought about by a moment of
the run. -/
theorem happened_of_run {H : σ → Prop} {E : σ → α → Prop} {as : List α} (hinit : ¬H init)
    (hstep : ∀ a ∈ as, ∀ s, H (step s a) → E s a ∨ H s) (h : H (run step init as)) :
    Happened step init E as := by
  refine run_past (P := fun as s => (∀ a ∈ as, ∀ s, H (step s a) → E s a ∨ H s) → H s →
    Happened step init E as) ?_ ?_ as hstep h
  · exact fun _ h => absurd h hinit
  · intro as a ih hstep hafter
    rw [List.forall_mem_append, List.forall_mem_singleton] at hstep
    rcases hstep.2 _ hafter with hE | hH
    · exact happened_snoc hE
    · exact (ih hstep.1 hH).snoc a

/-- A counter is the total of the costs at every moment of a run exactly when every
action adds its own cost. -/
theorem counts_iff (count : σ → Nat) (cost : α → Nat) {as : List α} :
    (∀ before after, as = before ++ after →
        count (run step init before) = count init + (before.map cost).sum) ↔
      ∀ s a, Visits step init as s a → count (step s a) = count s + cost a := by
  constructor
  · intro h s a hvisit
    obtain ⟨before, after, rfl, rfl⟩ := hvisit
    have hbefore := h before (a :: after) rfl
    have hafter := h (before ++ [a]) after (by simp)
    rw [run_snoc, List.map_append, List.sum_append, List.map_singleton,
      List.sum_singleton] at hafter
    omega
  · intro h before
    induction before using List.reverseRecOn with
    | nil =>
      intro after _
      rfl
    | append_singleton before a ih =>
      intro after hsplit
      rw [List.append_assoc, List.singleton_append] at hsplit
      have hbefore := ih (a :: after) hsplit
      have hstep := h _ a ⟨before, after, hsplit, rfl⟩
      rw [run_snoc, List.map_append, List.sum_append, List.map_singleton, List.sum_singleton]
      omega

/-- The total of what the actions cost where they are taken. -/
def tally (step : σ → α → σ) (cost : σ → α → Nat) (init : σ) : List α → Nat
  | [] => 0
  | a :: as => cost init a + tally step cost (step init a) as

theorem tally_snoc (cost : σ → α → Nat) (as : List α) (a : α) :
    tally step cost init (as ++ [a]) = tally step cost init as + cost (run step init as) a := by
  induction as generalizing init with
  | nil => exact (Nat.zero_add _).symm
  | cons b as ih =>
    show cost init b + tally step cost (step init b) (as ++ [a]) = _
    rw [ih]
    exact (Nat.add_assoc _ _ _).symm

/-! ## Runs without an end -/

/-- The state after the first actions of a schedule. -/
def trace (step : σ → α → σ) (init : σ) (schedule : Nat → α) : Nat → σ
  | 0 => init
  | n + 1 => step (trace step init schedule n) (schedule n)

theorem trace_eq_run (schedule : Nat → α) (n : Nat) :
    trace step init schedule n = run step init ((List.range n).map schedule) := by
  induction n with
  | zero => rfl
  | succ n ih => rw [trace, ih, List.range_succ, List.map_append, List.map_singleton, run_snoc]

theorem trace_add (schedule : Nat → α) (k n : Nat) :
    trace step init schedule (k + n) =
      trace step (trace step init schedule k) (fun j => schedule (k + j)) n := by
  induction n with
  | zero => rfl
  | succ n ih => rw [← Nat.add_assoc, trace, trace, ih]

theorem trace_invariant {P : σ → Prop} {schedule : Nat → α} {n : Nat} (hinit : P init)
    (hstep : ∀ j s, P s → P (step s (schedule j))) : P (trace step init schedule n) := by
  induction n with
  | zero => exact hinit
  | succ n ih => exact hstep n _ ih

/-- Where an action of the schedule lowers a measure or does nothing, and in each state that is
not done some action lowers it, a schedule that takes each such action again and again comes to
a state that is done. -/
theorem eventually_of_measure {μ : Type} {r : μ → μ → Prop} (hwf : WellFounded r) (measure : σ → μ)
    (P done : σ → Prop) {schedule : Nat → α} (hinit : P init)
    (hstep : ∀ s n, P s → P (step s (schedule n)))
    (hquiet : ∀ s n, P s → step s (schedule n) = s ∨ r (measure (step s (schedule n))) (measure s))
    (hfair : ∀ s, P s → ¬done s →
      ∃ a, r (measure (step s a)) (measure s) ∧ ∀ k, ∃ n, k ≤ n ∧ schedule n = a) :
    ∃ n, done (trace step init schedule n) := by
  have hP : ∀ n, P (trace step init schedule n) := fun n =>
    trace_invariant hinit fun j s h => hstep s j h
  suffices h : ∀ m k, measure (trace step init schedule k) = m →
      ∃ n, done (trace step init schedule n) from h _ 0 rfl
  intro m
  induction m using hwf.induction with
  | _ m ih =>
    rintro k rfl
    by_cases hdone : done (trace step init schedule k)
    · exact ⟨k, hdone⟩
    obtain ⟨a, hlower, hagain⟩ := hfair _ (hP k) hdone
    obtain ⟨n, hkn, ha⟩ := hagain k
    -- Up to the action nothing happens, or something lowers the measure before it.
    have hwait : ∀ d, trace step init schedule (k + d) = trace step init schedule k ∨
        ∃ n, r (measure (trace step init schedule n)) (measure (trace step init schedule k)) := by
      intro d
      induction d with
      | zero => exact .inl rfl
      | succ d ihd =>
        rcases ihd with hsame | hlow
        · rcases hquiet _ (k + d) (hP (k + d)) with hstay | hless
          · exact .inl (hstay.trans hsame)
          · refine .inr ⟨k + d + 1, ?_⟩
            rw [hsame] at hless
            show r (measure (step (trace step init schedule (k + d)) (schedule (k + d)))) _
            rw [hsame]
            exact hless
        · exact .inr hlow
    have hlow : ∃ n,
        r (measure (trace step init schedule n)) (measure (trace step init schedule k)) := by
      obtain ⟨d, rfl⟩ := Nat.exists_eq_add_of_le hkn
      rcases hwait d with hsame | hlow
      · refine ⟨k + d + 1, ?_⟩
        show r (measure (step (trace step init schedule (k + d)) (schedule (k + d)))) _
        rw [hsame, ha]
        exact hlower
      · exact hlow
    obtain ⟨n, hn⟩ := hlow
    exact ih _ hn n rfl

/-! ## Answers -/

variable {β τ : Type}

/-- What a machine answers to the actions `as`. -/
def answers (step : σ → α → σ × β) : σ → List α → List β
  | _, [] => []
  | s, a :: as => (step s a).2 :: answers step (step s a).1 as

/-- The answers to the actions of one kind. -/
def answersTo (mine : α → Bool) (step : σ → α → σ × β) (s : σ) (as : List α) : List β :=
  ((as.zip (answers step s as)).filter (fun e => mine e.1)).map Prod.snd

theorem answersTo_cons (mine : α → Bool) (step : σ → α → σ × β) (s : σ) (a : α) (as : List α) :
    answersTo mine step s (a :: as) =
      if mine a then (step s a).2 :: answersTo mine step (step s a).1 as
      else answersTo mine step (step s a).1 as := by
  simp only [answersTo, answers, List.zip_cons_cons, List.filter_cons]
  split <;> rfl

theorem answersTo_of_forall {mine : α → Bool} (step : σ → α → σ × β) (s : σ) {as : List α}
    (h : ∀ a ∈ as, mine a = true) : answersTo mine step s as = answers step s as := by
  induction as generalizing s with
  | nil => rfl
  | cons a as ih =>
    rw [List.forall_mem_cons] at h
    rw [answersTo_cons, if_pos h.1, ih _ h.2, answers]

/-- The actions of one kind are answered from the part `comp` of the state, which the other
actions leave alone. -/
theorem answers_of_component {step : σ → α → σ × β} {mine : α → Bool} {comp : σ → τ}
    {part : τ → α → τ × β}
    (hmine : ∀ s a, mine a = true →
      comp (step s a).1 = (part (comp s) a).1 ∧ (step s a).2 = (part (comp s) a).2)
    (hother : ∀ s a, mine a = false → comp (step s a).1 = comp s) (s : σ) (as : List α) :
    answersTo mine step s as = answers part (comp s) (as.filter mine) := by
  induction as generalizing s with
  | nil => rfl
  | cons a as ih =>
    rw [answersTo_cons]
    by_cases ha : mine a = true
    · obtain ⟨hcomp, hanswer⟩ := hmine s a ha
      rw [if_pos ha, List.filter_cons_of_pos ha, answers, ih, hcomp, hanswer]
    · rw [if_neg ha, List.filter_cons_of_neg ha, ih, hother s a (by simpa using ha)]

end Machine
end Dnss
