/-
`getNextConnection`: the indices of the round robin.

A call adds one to the counter of its pool, an `atomic<int>`, which wraps.  The scan begins at
the remainder of the counter and takes the connections in a row from there.  In C++ a remainder
has the sign of the dividend, so after 2^31 calls the scan begins at a negative index, and
`connections[idx]` is read outside the vector.  Only a counter that the number of connections
divides is spared.

The sum `start + i` is an `int` too.  In a pool of more than 2^30 connections it can be too
large, and then there is no index at all.

`inTurn_iff` says for every number of calls and every pool that there is no third way to go
wrong.  `getNextConnection_eq` is the connection to `HttpResolver`, where the counter is a
natural number: a call that goes well takes what it takes there.  Both ways to go wrong are far
off, `inTurn_of_moves_lt`.
-/
import Dnss.Library.Machine
import Dnss.Library.Ring
import Dnss.Upstream.HttpResolver

namespace Dnss
namespace RoundRobin

open Machine
open HttpResolver (Flags)

/-! ## The scan -/

/-- The connections of a pool, with their flags as the scan reads them.  Their number is an
`int`. -/
structure Connections where
  flags : List Flags
  length_lt : flags.length < 2 ^ 31

namespace Connections

def numConns (conns : Connections) : Nat := conns.flags.length

/-- `connections[idx]`, unless that is outside the vector. -/
def get? (conns : Connections) (idx : Int) : Option Flags :=
  if 0 ≤ idx then conns.flags[idx.toNat]? else none

/-- The connection can be taken. -/
def free (conns : Connections) (idx : Int) : Bool := (conns.get? idx).any Flags.free

end Connections

inductive Ending where
  | null
  /-- The connection is returned, and its `inUse` is set. -/
  | taken (idx : Int)
  /-- A read outside the vector. -/
  | outside
  /-- `start + i` is not an `int`. -/
  | overflow
  deriving DecidableEq

structure Scan where
  visited : List Int
  ending : Ending
  deriving DecidableEq

/-- The loop, over the values of `i` that are left.  `start` is above -2^31, so the sum can be
too large and not too small. -/
def scan (conns : Connections) (start : Int) : List Nat → Scan
  | [] => ⟨[], .null⟩
  | i :: rest =>
    if start + i < 2 ^ 31 then
      let idx := (start + i).tmod conns.numConns
      match conns.get? idx with
      | none => ⟨[idx], .outside⟩
      | some conn =>
        if conn.free then ⟨[idx], .taken idx⟩
        else ⟨idx :: (scan conns start rest).visited, (scan conns start rest).ending⟩
    else ⟨[], .overflow⟩

/-- The counter after the call, and what the call does. -/
def getNextConnection (nextConn : Int32) (conns : Connections) : Int32 × Scan :=
  if conns.numConns = 0 then (nextConn, ⟨[], .null⟩)
  else
    let start := nextConn.toInt.tmod conns.numConns
    (nextConn + 1, scan conns start (List.range conns.numConns))

/-- The counter of a pool after calls that found these connections. -/
def nextConnAfter (previous : List Connections) : Int32 :=
  run (fun nextConn conns => (getNextConnection nextConn conns).1) 0 previous

/-! ## What it should be -/

/-- The call uses indices of the pool only, none of them twice, and all of them before it
gives up. -/
structure InTurn (conns : Connections) (s : Scan) : Prop where
  defined : s.ending ≠ .overflow
  inside : ∀ idx ∈ s.visited, 0 ≤ idx ∧ idx < conns.numConns
  once : s.visited.Nodup
  all : s.ending = .null → s.visited.Perm ((List.range conns.numConns).map Nat.cast)

/-- How often the calls before have moved the counter: an empty pool leaves it. -/
def moves (previous : List Connections) : Nat :=
  previous.countP fun conns => conns.numConns ≠ 0

/-- The counter as a number. -/
def counter (k : Nat) : Int := (k : Int).bmod (2 ^ 32)

/-- The counter modulo the number of connections, which is not negative. -/
def first (k : Nat) (conns : Connections) : Nat := (counter k % conns.numConns).toNat

/-- The counter is not negative, or a multiple of the number of connections; and a sum that is
too large is not reached. -/
structure Fits (k : Nat) (conns : Connections) : Prop where
  sign : 0 ≤ counter k ∨ (conns.numConns : Int) ∣ counter k
  sum : 2 ^ 31 < first k conns + conns.numConns →
    ∃ i, first k conns + i < 2 ^ 31 ∧
      conns.free ((first k conns + i) % conns.numConns : Nat) = true

/-! ## The counter -/

theorem moves_snoc (previous : List Connections) (conns : Connections) :
    moves (previous ++ [conns]) = moves previous + if conns.numConns = 0 then 0 else 1 := by
  unfold moves
  rw [List.countP_append, List.countP_singleton]
  by_cases hzero : conns.numConns = 0 <;> simp [hzero]

theorem nextConnAfter_eq (previous : List Connections) :
    nextConnAfter previous = Int32.ofNat (moves previous) := by
  refine run_past (P := fun previous nextConn => nextConn = Int32.ofNat (moves previous))
    ?_ ?_ previous
  · rfl
  · intro previous conns ih
    rw [moves_snoc, ih, getNextConnection]
    split
    · rfl
    · rw [Int32.ofNat_add]
      rfl

theorem toInt_ofNat (k : Nat) : (Int32.ofNat k).toInt = counter k := Int32.toInt_ofNat'

/-! ## One scan -/

/-- The index in step `i` of a scan that begins at `st`. -/
def index (conns : Connections) (st i : Nat) : Int := ((st + i) % conns.numConns : Nat)

theorem range_split {i m : Nat} (h : i < m) :
    ∃ rest, List.range m = List.range i ++ i :: rest := by
  obtain ⟨k, rfl⟩ : ∃ k, m = i + 1 + k := ⟨m - (i + 1), by omega⟩
  refine ⟨(List.range k).map (i + 1 + ·), ?_⟩
  rw [List.range_add, List.range_succ, List.append_assoc, List.singleton_append]

theorem nodup_indices {conns : Connections} {st m : Nat} (hm : m ≤ conns.numConns) :
    ((List.range m).map (index conns st)).Nodup := by
  refine List.Nodup.map_on ?_ List.nodup_range
  intro i hi j hj h
  rw [List.mem_range] at hi hj
  exact Ring.add_mod_inj (by omega) (by omega) (Int.ofNat_inj.mp h)

section Begun

variable {conns : Connections} (hpos : 0 < conns.numConns) {st : Nat}

include hpos

theorem index_lt (i : Nat) : index conns st i < conns.numConns :=
  Int.ofNat_lt.mpr (Nat.mod_lt _ hpos)

theorem scan_cons {i : Nat} (hi : st + i < 2 ^ 31) (rest : List Nat) :
    scan conns st (i :: rest) =
      if conns.free (index conns st i) then ⟨[index conns st i], .taken (index conns st i)⟩
      else ⟨index conns st i :: (scan conns st rest).visited, (scan conns st rest).ending⟩ := by
  have hsum : (st : Int) + i < 2 ^ 31 := by omega
  have hidx : ((st : Int) + i).tmod conns.numConns = index conns st i :=
    (Int.ofNat_tmod (st + i) conns.numConns).symm
  have hlt : (st + i) % conns.numConns < conns.flags.length := Nat.mod_lt _ hpos
  have hget : conns.get? (index conns st i) =
      some (conns.flags[(st + i) % conns.numConns]) := by
    unfold Connections.get? index
    rw [if_pos (Int.natCast_nonneg _), Int.toNat_natCast, List.getElem?_eq_getElem hlt]
  rw [scan, if_pos hsum]
  simp only [hidx, Connections.free, hget, Option.any_some]

/-- Steps that find nothing to take. -/
theorem scan_append {is : List Nat}
    (his : ∀ i ∈ is, st + i < 2 ^ 31 ∧ conns.free (index conns st i) = false) (js : List Nat) :
    scan conns st (is ++ js) =
      ⟨is.map (index conns st) ++ (scan conns st js).visited, (scan conns st js).ending⟩ := by
  induction is with
  | nil => rfl
  | cons i is ih =>
    rw [List.forall_mem_cons] at his
    rw [List.cons_append, scan_cons hpos his.1.1, his.1.2, ih his.2]
    rfl

theorem scan_null {m : Nat}
    (hm : ∀ i < m, st + i < 2 ^ 31 ∧ conns.free (index conns st i) = false) :
    scan conns st (List.range m) = ⟨(List.range m).map (index conns st), .null⟩ := by
  have hscan := scan_append hpos (fun i hi => hm i (List.mem_range.mp hi)) []
  rw [List.append_nil] at hscan
  rw [hscan, scan, List.append_nil]

theorem scan_taken {i m : Nat} (him : i < m)
    (hbefore : ∀ j < i, conns.free (index conns st j) = false)
    (hsum : st + i < 2 ^ 31) (hfree : conns.free (index conns st i) = true) :
    scan conns st (List.range m) =
      ⟨(List.range (i + 1)).map (index conns st), .taken (index conns st i)⟩ := by
  obtain ⟨rest, hrest⟩ := range_split him
  have hi : ∀ j ∈ List.range i, st + j < 2 ^ 31 ∧ conns.free (index conns st j) = false := by
    intro j hj
    rw [List.mem_range] at hj
    exact ⟨by omega, hbefore j hj⟩
  rw [hrest, scan_append hpos hi, scan_cons hpos hsum, if_pos hfree, List.range_succ,
    List.map_append, List.map_singleton]

theorem scan_overflow {m : Nat} (hst : st < 2 ^ 31) (hm : 2 ^ 31 < st + m)
    (hbefore : ∀ i, st + i < 2 ^ 31 → conns.free (index conns st i) = false) :
    (scan conns st (List.range m)).ending = .overflow := by
  -- The first sum that is too large is that of step `2 ^ 31 - st`.
  obtain ⟨rest, hrest⟩ := range_split (i := 2 ^ 31 - st) (m := m) (by omega)
  have hi : ∀ i ∈ List.range (2 ^ 31 - st),
      st + i < 2 ^ 31 ∧ conns.free (index conns st i) = false := by
    intro i hi
    rw [List.mem_range] at hi
    have hsum : st + i < 2 ^ 31 := by omega
    exact ⟨hsum, hbefore i hsum⟩
  rw [hrest, scan_append hpos hi, scan, if_neg (by omega)]

theorem indices_inside {m : Nat} :
    ∀ idx ∈ (List.range m).map (index conns st), 0 ≤ idx ∧ idx < conns.numConns := by
  intro idx hidx
  obtain ⟨i, -, rfl⟩ := List.mem_map.mp hidx
  exact ⟨Int.natCast_nonneg _, index_lt hpos i⟩

variable (hsum : 2 ^ 31 < st + conns.numConns →
  ∃ i, st + i < 2 ^ 31 ∧ conns.free (index conns st i) = true)

include hsum

/-- The scan up to the first connection that it can take. -/
theorem scan_range :
    scan conns st (List.range conns.numConns) =
      match (List.range conns.numConns).find? fun i => conns.free (index conns st i) with
      | none => ⟨(List.range conns.numConns).map (index conns st), .null⟩
      | some i => ⟨(List.range (i + 1)).map (index conns st), .taken (index conns st i)⟩ := by
  cases hfind : (List.range conns.numConns).find? fun i => conns.free (index conns st i) with
  | none =>
    simp only [List.find?_range_eq_none, Bool.not_eq_true'] at hfind
    have hsmall : st + conns.numConns ≤ 2 ^ 31 := by
      by_contra hlarge
      obtain ⟨i, hi, hfree⟩ := hsum (by omega)
      rw [hfind i (by omega)] at hfree
      cases hfree
    exact scan_null hpos fun i hi => ⟨by omega, hfind i hi⟩
  | some i =>
    simp only [List.find?_range_eq_some, List.mem_range, Bool.not_eq_true'] at hfind
    obtain ⟨hfree, hi, hbefore⟩ := hfind
    have hfits : st + i < 2 ^ 31 := by
      -- Otherwise `hsum` gives an earlier connection that could be taken.
      by_contra hlarge
      obtain ⟨j, hj, hfirst⟩ := hsum (by omega)
      rw [hbefore j (by omega)] at hfirst
      cases hfirst
    exact scan_taken hpos hi hbefore hfits hfree

theorem inTurn_range :
    InTurn conns (scan conns st (List.range conns.numConns)) := by
  rw [scan_range hpos hsum]
  split
  · refine ⟨Ending.noConfusion, indices_inside hpos, nodup_indices (Nat.le_refl _), ?_⟩
    intro _
    have hperm := (Ring.rotation_perm st conns.numConns).map (Nat.cast : Nat → Int)
    rw [List.map_map] at hperm
    exact hperm
  · next i hfind =>
    have hi := List.mem_range.mp (List.mem_of_find?_eq_some hfind)
    exact ⟨Ending.noConfusion, indices_inside hpos, nodup_indices hi, Ending.noConfusion⟩

end Begun

/-! ## Where the scan begins -/

section Start

variable {conns : Connections} {c : Int}

theorem tmod_eq (h : 0 ≤ c ∨ (conns.numConns : Int) ∣ c) (hpos : 0 < conns.numConns) :
    c.tmod conns.numConns = ((c % conns.numConns).toNat : Int) := by
  have hnonneg : 0 ≤ c % (conns.numConns : Int) := Int.emod_nonneg c (by omega)
  rw [Int.tmod_eq_emod, if_pos h]
  omega

theorem tmod_neg (h : ¬ (0 ≤ c ∨ (conns.numConns : Int) ∣ c)) (hpos : 0 < conns.numConns) :
    c.tmod conns.numConns < 0 := by
  have hlt : c % (conns.numConns : Int) < conns.numConns := Int.emod_lt_of_pos c (by omega)
  rw [Int.tmod_eq_emod, if_neg h]
  omega

/-- The first read of a scan that begins below zero is outside the vector. -/
theorem scan_outside (h : c.tmod conns.numConns < 0) (hpos : 0 < conns.numConns) :
    scan conns (c.tmod conns.numConns) (List.range conns.numConns) =
      ⟨[c.tmod conns.numConns], .outside⟩ := by
  obtain ⟨rest, hrest⟩ := range_split hpos
  have hidx : (c.tmod conns.numConns + (0 : Nat)).tmod conns.numConns =
      c.tmod conns.numConns := by
    rw [Int.natCast_zero, Int.add_zero, Int.tmod_tmod]
  have hget : conns.get? (c.tmod conns.numConns) = none := if_neg (by omega)
  rw [hrest, List.range_zero, List.nil_append, scan, if_pos (by omega)]
  simp only [hidx, hget]

end Start

/-! ## The calls -/

theorem first_lt (k : Nat) {conns : Connections} (hpos : 0 < conns.numConns) :
    first k conns < conns.numConns := by
  have hlt : counter k % (conns.numConns : Int) < conns.numConns :=
    Int.emod_lt_of_pos _ (by omega)
  unfold first
  omega

theorem scan_getNextConnection {nextConn : Int32} {conns : Connections}
    (hpos : 0 < conns.numConns) :
    (getNextConnection nextConn conns).2 =
      scan conns (nextConn.toInt.tmod conns.numConns) (List.range conns.numConns) := by
  rw [getNextConnection, if_neg (by omega)]

/-- A call at any value of the counter. -/
theorem inTurn_ofNat_iff (k : Nat) {conns : Connections} (hpos : 0 < conns.numConns) :
    InTurn conns (getNextConnection (Int32.ofNat k) conns).2 ↔ Fits k conns := by
  rw [scan_getNextConnection hpos, toInt_ofNat]
  by_cases hsign : 0 ≤ counter k ∨ (conns.numConns : Int) ∣ counter k
  · have hstart : (counter k).tmod conns.numConns = (first k conns : Int) := tmod_eq hsign hpos
    have hfirst := first_lt k hpos
    have hlt : conns.numConns < 2 ^ 31 := conns.length_lt
    rw [hstart]
    constructor
    · intro h
      refine ⟨hsign, ?_⟩
      intro hlarge
      by_contra hnone
      refine h.defined (scan_overflow hpos (by omega) hlarge ?_)
      intro i hi
      rw [Bool.eq_false_iff]
      exact fun hfree => hnone ⟨i, hi, hfree⟩
    · intro h
      exact inTurn_range hpos h.sum
  · rw [scan_outside (tmod_neg hsign hpos) hpos]
    constructor
    · intro h
      have hneg := tmod_neg hsign hpos
      have hinside := (h.inside _ (List.mem_singleton_self _)).1
      omega
    · intro h
      exact absurd h.sign hsign

/-- For every number of calls before and every pool that is not empty. -/
theorem inTurn_iff (previous : List Connections) (conns : Connections)
    (hpos : 1 ≤ conns.numConns) :
    InTurn conns (getNextConnection (nextConnAfter previous) conns).2 ↔
      Fits (moves previous) conns := by
  rw [nextConnAfter_eq]
  exact inTurn_ofNat_iff (moves previous) hpos

/-- Three connections, all of them connected and not in use. -/
def three : Connections := ⟨List.replicate 3 ⟨true, false⟩, by decide⟩

/-- The third call on a pool of three. -/
theorem inTurn_third :
    Fits 2 three ∧ InTurn three (getNextConnection (nextConnAfter [three, three]) three).2 := by
  have hfits : Fits 2 three := ⟨by decide, fun h => absurd h (by decide)⟩
  exact ⟨hfits, (inTurn_iff [three, three] three (by decide)).mpr hfits⟩

/-- After 2^31 calls the next one reads `connections[-2]`. -/
theorem not_inTurn_after_two_pow :
    (getNextConnection (nextConnAfter (List.replicate (2 ^ 31) three)) three).2 =
        ⟨[-2], .outside⟩ ∧
      ¬ InTurn three
        (getNextConnection (nextConnAfter (List.replicate (2 ^ 31) three)) three).2 := by
  have hmoves : moves (List.replicate (2 ^ 31) three) = 2 ^ 31 := by
    rw [moves, List.countP_replicate, if_pos (by decide)]
  -- The list is too long to run; its length is enough.
  have hscan : (getNextConnection (nextConnAfter (List.replicate (2 ^ 31) three)) three).2 =
      ⟨[-2], .outside⟩ := by
    rw [nextConnAfter_eq, hmoves]
    decide +kernel
  refine ⟨hscan, ?_⟩
  intro h
  rw [hscan] at h
  have hinside := (h.inside (-2) (List.mem_singleton_self _)).1
  omega

/-- The first 2^31 calls are in turn, in pools of at most 2^30 connections. -/
theorem inTurn_of_moves_lt {previous : List Connections} {conns : Connections}
    (hmoves : moves previous < 2 ^ 31) (hsize : conns.numConns ≤ 2 ^ 30)
    (hpos : 0 < conns.numConns) :
    InTurn conns (getNextConnection (nextConnAfter previous) conns).2 := by
  have hcounter : counter (moves previous) = moves previous :=
    Int.bmod_eq_of_le (by omega) (by omega)
  have hfirst := first_lt (moves previous) hpos
  rw [nextConnAfter_eq, inTurn_ofNat_iff _ hpos]
  exact ⟨Or.inl (by omega), fun hlarge => by omega⟩

/-! ## The scan of `HttpResolver` -/

/-- A call that fits takes the connection that it takes with a counter that is a natural
number. -/
theorem getNextConnection_eq {k : Nat} {conns : Connections} (h : Fits k conns) {id : Nat}
    {flags : HttpResolver.ConnId → Flags}
    (hflags : ∀ idx < conns.numConns, (flags (id, idx)).free = conns.free idx) :
    (getNextConnection (Int32.ofNat k) conns).2.ending =
      match HttpResolver.getNextConnection flags (first k conns) ⟨id, conns.numConns⟩ with
      | none => .null
      | some c => .taken c.2 := by
  unfold HttpResolver.getNextConnection
  by_cases hzero : conns.numConns = 0
  · rw [getNextConnection, if_pos hzero, if_pos hzero]
  · have hpos : 0 < conns.numConns := by omega
    have hstart : (counter k).tmod conns.numConns = (first k conns : Int) := tmod_eq h.sign hpos
    have hfree : (fun i => (flags (id, (first k conns + i) % conns.numConns)).free) =
        fun i => conns.free (index conns (first k conns) i) :=
      funext fun i => hflags _ (Nat.mod_lt _ hpos)
    rw [scan_getNextConnection hpos, toInt_ofNat, hstart, scan_range hpos h.sum, if_neg hzero,
      Nat.mod_eq_of_lt (first_lt k hpos), List.find?_map, Function.comp_def, hfree]
    cases (List.range conns.numConns).find? fun i =>
        conns.free (index conns (first k conns) i) with
    | none => rfl
    | some i => rfl

end RoundRobin
end Dnss
