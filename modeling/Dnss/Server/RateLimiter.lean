/-
`RateLimiter`: a hundred queries in a second for each client address.

An address hashes to one of sixteen shards, and its entry holds the time at which its
window began and the number of calls since.  A call more than a second after the beginning
starts a new window.  Refused calls count too.

`limited_of_ordered` is the result.  The answers to one address are those of a limiter that
sees no other address, since a call writes only the entry of its own address
(`entryOf_allow_self`, `entryOf_allow_of_ne`).  A window allows the first hundred of its
calls, and an interval of one second meets at most two windows.

The counter is an `int`.  It is a wrapping word here, and the bound on the calls of a
window keeps it below the wrap.
-/
import Mathlib.Data.List.AList
import Dnss.Library.Machine
import Dnss.Protocol.Message

namespace Dnss
namespace RateLimiter

open Machine

/-! ## The limiter -/

/-- Nanoseconds. -/
def second : Int := 1000000000

structure Entry where
  last : Int := 0
  count : Int32 := 0

abbrev Shard := AList (fun _ : Bytes => Entry)

def SHARDS : Nat := 16

end RateLimiter

structure RateLimiter where
  shards : Fin RateLimiter.SHARDS → RateLimiter.Shard := fun _ => ∅

namespace RateLimiter

open Machine

def fnv1a (s : Bytes) : UInt64 :=
  s.foldl (fun h c => (h ^^^ c.toUInt64) * 1099511628211) 14695981039346656037

theorem and_shards_lt (h : UInt64) : (h &&& 15).toNat < SHARDS := by
  have hle : h.toNat &&& 15 ≤ 15 := Nat.and_le_right
  rw [UInt64.toNat_and]
  exact Nat.lt_succ_of_le hle

/-- `fnv1a(ip) & (SHARDS - 1)`. -/
def shardOf (ip : Bytes) : Fin SHARDS := ⟨(fnv1a ip &&& 15).toNat, and_shards_lt _⟩

/-- `127.0.0.1` and `::1`. -/
def isLoopback (ip : Bytes) : Bool :=
  ip = [0x31, 0x32, 0x37, 0x2E, 0x30, 0x2E, 0x30, 0x2E, 0x31] ∨ ip = [0x3A, 0x3A, 0x31]

/-- What `allow` does to the entry of the address. -/
def touch (entry : Entry) (now : Int) : Entry × Bool :=
  let entry := if now - entry.last > second then { last := now, count := 0 } else entry
  let entry := { entry with count := entry.count + 1 }
  if entry.count > 100 then (entry, false) else (entry, true)

/-- `s.clients[ip]`, which makes an entry where there is none. -/
def entryOf (l : RateLimiter) (ip : Bytes) : Entry :=
  ((l.shards (shardOf ip)).lookup ip).getD {}

def allow (l : RateLimiter) (ip : Bytes) (now : Int) : RateLimiter × Bool :=
  if isLoopback ip then (l, true)
  else
    let shard := shardOf ip
    let (entry, allowed) := touch (l.entryOf ip) now
    ({ shards := Function.update l.shards shard ((l.shards shard).insert ip entry) }, allowed)

/-- A call, with the time that it reads. -/
structure Call where
  ip : Bytes
  now : Int
  deriving DecidableEq

def call (l : RateLimiter) (c : Call) : RateLimiter × Bool := l.allow c.ip c.now

/-! ## Windows -/

def isFrom (ip : Bytes) (c : Call) : Bool := c.ip = ip

/-- The answers to the calls of one address, among all calls. -/
def decisionsOf (ip : Bytes) (calls : List Call) : List Bool :=
  answersTo (isFrom ip) call {} calls

def timesOf (ip : Bytes) (calls : List Call) : List Int :=
  (calls.filter (isFrom ip)).map Call.now

/-- A call more than a second after the beginning of the window begins a new one. -/
def nextStart (start now : Int) : Int := if now - start > second then now else start

/-- The beginnings of the windows of calls at these times.  The first window is that of the
clock's epoch. -/
def starts : Int → List Int → List Int
  | _, [] => []
  | start, now :: nows => nextStart start now :: starts (nextStart start now) nows

/-- The calls of one address: the time, the beginning of the window and the answer. -/
def marks (ip : Bytes) (calls : List Call) : List (Int × Int × Bool) :=
  (timesOf ip calls).zip ((starts 0 (timesOf ip calls)).zip (decisionsOf ip calls))

/-- What the limiter promises to an address. -/
structure Limited (ip : Bytes) (calls : List Call) : Prop where
  alone : decisionsOf ip calls = answers call {} (calls.filter (isFrom ip))
  perWindow : ∀ start, (marks ip calls).countP (fun m => m.2.1 = start ∧ m.2.2) ≤ 100
  perSecond : ∀ t, (marks ip calls).countP (fun m => t ≤ m.1 ∧ m.1 ≤ t + second ∧ m.2.2) ≤ 200

/-! ## One address -/

theorem allow_of_not_loopback {l : RateLimiter} {ip : Bytes} (h : isLoopback ip = false)
    (now : Int) : (l.allow ip now).2 = (touch (l.entryOf ip) now).2 := by
  simp [allow, h]

theorem entryOf_allow_self {l : RateLimiter} {ip : Bytes} (h : isLoopback ip = false) (now : Int) :
    (l.allow ip now).1.entryOf ip = (touch (l.entryOf ip) now).1 := by
  rw [allow, if_neg (by rw [h]; exact Bool.false_ne_true)]
  simp only [entryOf, Function.update_self, AList.lookup_insert, Option.getD_some]

/-- The entry of another address stays, also in a shard that both share. -/
theorem entryOf_allow_of_ne {l : RateLimiter} {ip other : Bytes} (hne : other ≠ ip) (now : Int) :
    (l.allow other now).1.entryOf ip = l.entryOf ip := by
  unfold allow
  split
  · rfl
  · by_cases hshard : shardOf ip = shardOf other
    · simp only [entryOf, hshard, Function.update_self]
      rw [AList.lookup_insert_ne hne.symm]
    · simp only [entryOf, Function.update_of_ne hshard]

/-- The answers to one address depend on its own entry and calls. -/
theorem answersTo_isFrom {ip : Bytes} (h : isLoopback ip = false) (l : RateLimiter)
    (calls : List Call) :
    answersTo (isFrom ip) call l calls =
      answers (fun entry c => touch entry (Call.now c)) (l.entryOf ip)
        (calls.filter (isFrom ip)) := by
  apply answers_of_component
  · intro l c hc
    have hip : c.ip = ip := by simpa [isFrom] using hc
    rw [call, hip]
    exact ⟨entryOf_allow_self h c.now, allow_of_not_loopback h c.now⟩
  · intro l c hc
    have hip : c.ip ≠ ip := by simpa [isFrom] using hc
    exact entryOf_allow_of_ne hip c.now

theorem answers_touch_map (entry : Entry) (calls : List Call) :
    answers (fun entry c => touch entry (Call.now c)) entry calls =
      answers touch entry (calls.map Call.now) := by
  induction calls generalizing entry with
  | nil => rfl
  | cons c calls ih => rw [List.map_cons, answers, answers, ih]

theorem decisionsOf_eq {ip : Bytes} (h : isLoopback ip = false) (calls : List Call) :
    decisionsOf ip calls = answers touch {} (timesOf ip calls) := by
  rw [decisionsOf, answersTo_isFrom h, answers_touch_map]
  rfl

theorem decisionsOf_eq_alone {ip : Bytes} (h : isLoopback ip = false) (calls : List Call) :
    decisionsOf ip calls = answers call {} (calls.filter (isFrom ip)) := by
  have hown : ∀ c ∈ calls.filter (isFrom ip), isFrom ip c = true := fun c hc =>
    (List.mem_filter.mp hc).2
  rw [← answersTo_of_forall call {} hown, answersTo_isFrom h, List.filter_filter, decisionsOf,
    answersTo_isFrom h]
  simp

/-! ## One window -/

/-- The entry of a window that began at `start` and has had `calls` calls. -/
structure At (entry : Entry) (start : Int) (calls : Nat) : Prop where
  last : entry.last = start
  count : entry.count.toInt = calls

theorem at_initial : At {} 0 0 := ⟨rfl, rfl⟩

theorem toInt_add_one {c : Int32} {n : Nat} (hc : c.toInt = n) (hn : n + 1 < 2 ^ 31) :
    (c + 1).toInt = (n + 1 : Nat) := by
  have hone : (1 : Int32).toInt = 1 := by decide
  rw [Int32.toInt_add, hc, hone, Int.bmod_eq_of_le]
  · rfl
  · omega
  · omega

/-- A call that finds the window over begins one, from a count of zero. -/
theorem touch_eq (entry : Entry) (now : Int) :
    touch entry now =
      let count := (if now - entry.last > second then 0 else entry.count) + 1
      ({ last := nextStart entry.last now, count := count }, decide (¬ count > 100)) := by
  unfold touch nextStart
  by_cases hreset : now - entry.last > second
  · simp only [if_pos hreset]
    rfl
  · simp only [if_neg hreset]
    split
    · next hgt => rw [decide_eq_false (not_not_intro hgt)]
    · next hgt => rw [decide_eq_true hgt]

/-- A call counts itself, and is allowed when the count is at most a hundred. -/
theorem touch_spec {entry : Entry} {start now : Int} {calls calls' : Nat}
    (hat : At entry start calls)
    (hcalls : calls' = (if now - start > second then 0 else calls) + 1) (hfew : calls' < 2 ^ 31) :
    At (touch entry now).1 (nextStart start now) calls' ∧
      (touch entry now).2 = decide (calls' ≤ 100) := by
  obtain ⟨rfl, hcount⟩ := hat
  have hbefore : (if now - entry.last > second then 0 else entry.count : Int32).toInt =
      ((if now - entry.last > second then 0 else calls : Nat) : Int) := by
    split
    · rfl
    · exact hcount
  have hafter := toInt_add_one hbefore (by omega)
  rw [← hcalls] at hafter
  have hhundred : (100 : Int32).toInt = 100 := by decide
  rw [touch_eq]
  refine ⟨⟨rfl, hafter⟩, ?_⟩
  refine decide_eq_decide.mpr ?_
  rw [gt_iff_lt, Int32.lt_iff_toInt_lt, hafter, hhundred]
  omega

theorem start_le_nextStart (start now : Int) : start ≤ nextStart start now := by
  unfold nextStart second
  split <;> omega

theorem le_of_mem_starts {start w : Int} {nows : List Int} (h : w ∈ starts start nows) :
    start ≤ w := by
  induction nows generalizing start with
  | nil => cases h
  | cons now nows ih =>
    have hle := start_le_nextStart start now
    rcases List.mem_cons.mp h with rfl | h
    · exact hle
    · exact Int.le_trans hle (ih h)

/-- The calls of a limiter that is at `entry`. -/
def marksFrom (entry : Entry) (start : Int) (nows : List Int) : List (Int × Int × Bool) :=
  nows.zip ((starts start nows).zip (answers touch entry nows))

theorem marksFrom_cons (entry : Entry) (start now : Int) (nows : List Int) :
    marksFrom entry start (now :: nows) =
      (now, nextStart start now, (touch entry now).2) ::
        marksFrom (touch entry now).1 (nextStart start now) nows := rfl

theorem marks_eq {ip : Bytes} (h : isLoopback ip = false) (calls : List Call) :
    marks ip calls = marksFrom {} 0 (timesOf ip calls) := by
  rw [marks, decisionsOf_eq h]
  rfl

theorem start_mem_of_mem_marksFrom {entry : Entry} {start : Int} {nows : List Int}
    {m : Int × Int × Bool} (h : m ∈ marksFrom entry start nows) : m.2.1 ∈ starts start nows :=
  (List.of_mem_zip (List.of_mem_zip h).2).1

/-- No later call belongs to a window that began before the current one. -/
theorem countP_earlier_eq_zero (entry : Entry) {start w : Int} (nows : List Int) (h : w < start) :
    (marksFrom entry start nows).countP (fun m => m.2.1 = w ∧ m.2.2) = 0 := by
  rw [List.countP_eq_zero]
  intro m hm hw
  have hle := le_of_mem_starts (start_mem_of_mem_marksFrom hm)
  have hstart : m.2.1 = w := (decide_eq_true_iff.mp hw).1
  omega

/-- Either the window goes on with one more call or a later one begins. -/
theorem nextStart_cases {start now : Int} {calls calls' : Nat}
    (hcalls : calls' = (if now - start > second then 0 else calls) + 1) :
    (nextStart start now = start ∧ calls' = calls + 1) ∨
      (start < nextStart start now ∧ calls' = 1) := by
  unfold nextStart
  unfold second at *
  split at hcalls
  · next h => rw [if_pos h]; omega
  · next h => rw [if_neg h]; omega

/-- Counting the first call to its window leaves the totals of the windows as they are. -/
theorem few_next {start now : Int} {calls calls' : Nat} {nows : List Int}
    (hwindow : (nextStart start now = start ∧ calls' = calls + 1) ∨
      (start < nextStart start now ∧ calls' = 1))
    (hfew : ∀ w, (if w = start then calls else 0) + (starts start (now :: nows)).count w < 2 ^ 31)
    (w : Int) :
    (if w = nextStart start now then calls' else 0) +
      (starts (nextStart start now) nows).count w < 2 ^ 31 := by
  have h := hfew w
  rw [starts, List.count_cons] at h
  simp only [beq_iff_eq] at h
  rcases hwindow with ⟨hstart, hn⟩ | ⟨hlt, hn⟩
  · rw [hstart] at h ⊢
    by_cases hw : w = start
    · rw [if_pos hw, if_pos hw.symm] at h
      rw [if_pos hw]
      omega
    · rw [if_neg hw] at h ⊢
      omega
  · by_cases hw : w = nextStart start now
    · rw [if_pos hw.symm] at h
      rw [if_pos hw]
      omega
    · rw [if_neg hw]
      omega

/-- The calls that a window allows, together with those that it had before.  The induction
is on the calls; `calls` is the number of calls that the current window has had, and its
counter must not wrap. -/
theorem countP_window_le {entry : Entry} {start : Int} {calls : Nat} {nows : List Int}
    (hat : At entry start calls)
    (hfew : ∀ w, (if w = start then calls else 0) + (starts start nows).count w < 2 ^ 31)
    (w : Int) :
    (if w = start then min calls 100 else 0) +
      (marksFrom entry start nows).countP (fun m => m.2.1 = w ∧ m.2.2) ≤ 100 := by
  induction nows generalizing entry start calls with
  | nil =>
    rw [show marksFrom entry start [] = [] from rfl, List.countP_nil]
    split <;> omega
  | cons now nows ih =>
    obtain ⟨calls', hcalls⟩ : ∃ n, n = (if now - start > second then 0 else calls) + 1 := ⟨_, rfl⟩
    have hwindow := nextStart_cases hcalls
    have hfew' := few_next hwindow hfew
    have hlt : calls' < 2 ^ 31 := by
      have h := hfew' (nextStart start now)
      rw [if_pos rfl] at h
      omega
    obtain ⟨hat', hok⟩ := touch_spec hat hcalls hlt
    have hrest := ih hat' hfew'
    have hearlier : w < nextStart start now → _ :=
      countP_earlier_eq_zero (touch entry now).1 nows
    rw [marksFrom_cons, List.countP_cons, hok]
    simp only [decide_eq_true_eq]
    generalize (marksFrom (touch entry now).1 (nextStart start now) nows).countP
      (fun m => m.2.1 = w ∧ m.2.2) = rest at hrest hearlier ⊢
    by_cases hw : w = nextStart start now
    · rw [if_pos hw] at hrest
      simp only [← hw, true_and]
      rcases hwindow with ⟨hstart, hn⟩ | ⟨hlt, hn⟩
      · rw [if_pos (hw.trans hstart)]
        split <;> omega
      · rw [if_neg (by omega)]
        split <;> omega
    · have hne : ¬ (nextStart start now = w ∧ calls' ≤ 100) := fun h => hw h.1.symm
      rw [if_neg hw] at hrest
      rw [if_neg hne]
      by_cases hstart : w = start
      · have hlater : w < nextStart start now := by omega
        rw [hearlier hlater]
        split <;> omega
      · rw [if_neg hstart]
        omega

/-! ## One second -/

/-- The calls in the second from `t` on. -/
def InSecond (t : Int) (m : Int × Int × Bool) : Prop := t ≤ m.1 ∧ m.1 ≤ t + second

theorem time_mem_of_mem_marksFrom {entry : Entry} {start : Int} {nows : List Int}
    {m : Int × Int × Bool} (h : m ∈ marksFrom entry start nows) : m.1 ∈ nows :=
  (List.of_mem_zip h).1

/-- A window that begins in the second lasts to its end. -/
theorem start_eq_of_inSecond {entry : Entry} {start t : Int} {nows : List Int}
    (hordered : nows.Pairwise (· ≤ ·)) (hstart : t ≤ start) {m : Int × Int × Bool}
    (hm : m ∈ marksFrom entry start nows) (hsecond : InSecond t m) : m.2.1 = start := by
  induction nows generalizing entry with
  | nil => cases hm
  | cons now nows ih =>
    rw [List.pairwise_cons] at hordered
    have htime : now ≤ m.1 := by
      rcases List.mem_cons.mp (time_mem_of_mem_marksFrom hm) with h | h
      · exact Int.le_of_eq h.symm
      · exact hordered.1 m.1 h
    have hsame : nextStart start now = start := by
      have hle := hsecond.2
      exact if_neg (by omega)
    rw [marksFrom_cons, hsame] at hm
    rcases List.mem_cons.mp hm with rfl | hm
    · rfl
    · exact ih hordered.2 hm

/-- From the second on there are the current window and one more. -/
theorem start_eq_or_of_inSecond (entry : Entry) (start : Int) {t : Int} {nows : List Int}
    (hordered : nows.Pairwise (· ≤ ·)) (hnows : ∀ now ∈ nows, t ≤ now) :
    ∃ w, ∀ m ∈ marksFrom entry start nows, InSecond t m → m.2.1 = start ∨ m.2.1 = w := by
  induction nows generalizing entry with
  | nil => exact ⟨0, fun m hm => by cases hm⟩
  | cons now nows ih =>
    rw [List.pairwise_cons] at hordered
    rw [List.forall_mem_cons] at hnows
    by_cases hreset : now - start > second
    · have hnew : nextStart start now = now := if_pos hreset
      refine ⟨now, fun m hm hsecond => .inr ?_⟩
      rw [marksFrom_cons, hnew] at hm
      rcases List.mem_cons.mp hm with rfl | hm
      · rfl
      · exact start_eq_of_inSecond hordered.2 hnows.1 hm hsecond
    · have hsame : nextStart start now = start := if_neg hreset
      obtain ⟨w, hw⟩ := ih (touch entry now).1 hordered.2 hnows.2
      refine ⟨w, fun m hm hsecond => ?_⟩
      rw [marksFrom_cons, hsame] at hm
      rcases List.mem_cons.mp hm with rfl | hm
      · exact .inl rfl
      · exact hw m hm hsecond

/-- A second meets at most two windows. -/
theorem two_windows (entry : Entry) (start : Int) {nows : List Int}
    (hordered : nows.Pairwise (· ≤ ·)) (t : Int) :
    ∃ w w', ∀ m ∈ marksFrom entry start nows, InSecond t m → m.2.1 = w ∨ m.2.1 = w' := by
  induction nows generalizing entry start with
  | nil => exact ⟨0, 0, fun m hm => by cases hm⟩
  | cons now nows ih =>
    by_cases hbefore : now < t
    · obtain ⟨w, w', hw⟩ := ih (touch entry now).1 (nextStart start now)
        (List.pairwise_cons.mp hordered).2
      refine ⟨w, w', fun m hm hsecond => ?_⟩
      rw [marksFrom_cons] at hm
      rcases List.mem_cons.mp hm with rfl | hm
      · exact absurd hsecond.1 (Int.not_le.mpr hbefore)
      · exact hw m hm hsecond
    · have hnows : ∀ n ∈ now :: nows, t ≤ n := by
        rw [List.forall_mem_cons]
        refine ⟨Int.not_lt.mp hbefore, fun n hn => ?_⟩
        exact Int.le_trans (Int.not_lt.mp hbefore) ((List.pairwise_cons.mp hordered).1 n hn)
      obtain ⟨w', hw⟩ := start_eq_or_of_inSecond entry start hordered hnows
      exact ⟨start, w', hw⟩

theorem countP_le_add {α : Type} {p q r : α → Bool} {xs : List α}
    (h : ∀ x ∈ xs, p x = true → q x = true ∨ r x = true) :
    xs.countP p ≤ xs.countP q + xs.countP r := by
  induction xs with
  | nil => rfl
  | cons x xs ih =>
    rw [List.forall_mem_cons] at h
    have hrest := ih h.2
    rw [List.countP_cons, List.countP_cons, List.countP_cons]
    by_cases hp : p x = true
    · rcases h.1 hp with hq | hr
      · rw [if_pos hp, if_pos hq]
        omega
      · rw [if_pos hp, if_pos hr]
        omega
    · rw [if_neg hp]
      omega

/-! ## The limits -/

theorem pairwise_timesOf (ip : Bytes) {calls : List Call}
    (hordered : calls.Pairwise (·.now ≤ ·.now)) : (timesOf ip calls).Pairwise (· ≤ ·) := by
  rw [timesOf, List.pairwise_map]
  exact hordered.sublist List.filter_sublist

/-- In every run with ordered times an address is limited by its own calls alone, as long as
no window has calls enough to wrap its counter. -/
theorem limited_of_ordered {ip : Bytes} {calls : List Call} (hip : isLoopback ip = false)
    (hordered : calls.Pairwise (·.now ≤ ·.now))
    (hfew : ∀ start, (starts 0 (timesOf ip calls)).count start < 2 ^ 31) : Limited ip calls := by
  have hfew' : ∀ w, (if w = 0 then 0 else 0) + (starts 0 (timesOf ip calls)).count w < 2 ^ 31 := by
    intro w
    rw [ite_self, Nat.zero_add]
    exact hfew w
  have hwindow : ∀ w, (marks ip calls).countP (fun m => m.2.1 = w ∧ m.2.2) ≤ 100 := by
    intro w
    have h := countP_window_le at_initial hfew' w
    rw [marks_eq hip]
    omega
  refine ⟨decisionsOf_eq_alone hip calls, hwindow, fun t => ?_⟩
  obtain ⟨w, w', hw⟩ := two_windows {} 0 (pairwise_timesOf ip hordered) t
  rw [← marks_eq hip] at hw
  have hsplit : (marks ip calls).countP (fun m => t ≤ m.1 ∧ m.1 ≤ t + second ∧ m.2.2) ≤
      (marks ip calls).countP (fun m => m.2.1 = w ∧ m.2.2) +
        (marks ip calls).countP (fun m => m.2.1 = w' ∧ m.2.2) := by
    apply countP_le_add
    intro m hm h
    obtain ⟨hfrom, hto, hok⟩ := decide_eq_true_iff.mp h
    rcases hw m hm ⟨hfrom, hto⟩ with hstart | hstart
    · exact .inl (decide_eq_true_iff.mpr ⟨hstart, hok⟩)
    · exact .inr (decide_eq_true_iff.mpr ⟨hstart, hok⟩)
  have hfirst := hwindow w
  have hsecond := hwindow w'
  omega

/-- Two addresses, one of which calls again after its window. -/
theorem two_addresses_limited :
    Limited [0x61] [⟨[0x61], 5⟩, ⟨[0x62], 5⟩, ⟨[0x61], 2 * second⟩] := by
  refine limited_of_ordered (by decide) (by decide) fun start => ?_
  have hlen : (starts 0 (timesOf [0x61]
      [⟨[0x61], 5⟩, ⟨[0x62], 5⟩, ⟨[0x61], 2 * second⟩])).length = 2 := by decide
  exact Nat.lt_of_le_of_lt List.count_le_length (by rw [hlen]; decide)

end RateLimiter
end Dnss
