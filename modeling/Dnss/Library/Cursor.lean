/-
Decoders that move a cursor over a list.

A decoder reads `data` at a cursor and returns a value with the cursor after it.
Reads are checked: `readAt` and `readSlice` return the caller's `oob` error when
they leave the list, which makes memory safety a statement about which error is
reachable.  `repeatAt` is the counted loop that collects values.

Three descriptions of a decoder are used.  `SegAt data p seg` says that the list
carries `seg` at `p`, which is what an encoder guarantees.  `SeqAt R` iterates a
relation between a cursor, a value, and the next cursor, which is what a grammar
supplies.  The theorems about `repeatAt` connect both to the loop.
-/
import Mathlib.Tactic.Common

namespace Dnss
namespace Cursor

variable {α β γ ε : Type}

/-! ## Sequencing -/

theorem bind_eq_ok_iff {x : Except ε α} {f : α → Except ε β} {b : β} :
    (x >>= f) = .ok b ↔ ∃ a, x = .ok a ∧ f a = .ok b := by
  constructor
  · intro h
    cases x with
    | error e => cases h
    | ok a => exact ⟨a, rfl, h⟩
  · intro h
    obtain ⟨a, rfl, h⟩ := h
    exact h

theorem bind_eq_error_iff {x : Except ε α} {f : α → Except ε β} {e : ε} :
    (x >>= f) = .error e ↔ x = .error e ∨ ∃ a, x = .ok a ∧ f a = .error e := by
  constructor
  · intro h
    cases x with
    | error e' =>
      cases h
      exact Or.inl rfl
    | ok a => exact Or.inr ⟨a, rfl, h⟩
  · intro h
    rcases h with rfl | ⟨a, rfl, h⟩
    · rfl
    · exact h

@[simp] theorem ok_bind (a : α) (f : α → Except ε β) : (Except.ok a >>= f) = f a := rfl

/-! ## Checked reads -/

/-- The element at `p`, or `oob` when `p` is past the end. -/
def readAt (oob : ε) (data : List α) (p : Nat) : Except ε α :=
  match data[p]? with
  | some a => .ok a
  | none => .error oob

/-- The `n` elements from `p` on, or `oob` when they are not all there. -/
def readSlice (oob : ε) (data : List α) (p n : Nat) : Except ε (List α) :=
  if p + n ≤ data.length then .ok ((data.drop p).take n) else .error oob

theorem readAt_eq_ok_iff {oob : ε} {data : List α} {p : Nat} {a : α} :
    readAt oob data p = .ok a ↔ data[p]? = some a := by
  unfold readAt
  cases h : data[p]? with
  | none => simp
  | some b => simp

theorem readAt_of_lt {oob : ε} {data : List α} {p : Nat} (h : p < data.length) :
    readAt oob data p = .ok data[p] :=
  readAt_eq_ok_iff.mpr (List.getElem?_eq_getElem h)

theorem readSlice_of_le {oob : ε} {data : List α} {p n : Nat} (h : p + n ≤ data.length) :
    readSlice oob data p n = .ok ((data.drop p).take n) :=
  if_pos h

theorem readSlice_eq_ok_iff {oob : ε} {data : List α} {p n : Nat} {seg : List α} :
    readSlice oob data p n = .ok seg ↔ p + n ≤ data.length ∧ seg = (data.drop p).take n := by
  unfold readSlice
  by_cases h : p + n ≤ data.length
  · rw [if_pos h, Except.ok.injEq]
    exact ⟨fun he => ⟨h, he.symm⟩, fun he => he.2.symm⟩
  · simp [h]

/-! ## Segments -/

/-- The list carries `seg` at offset `p`. -/
def SegAt (data : List α) (p : Nat) (seg : List α) : Prop :=
  seg <+: data.drop p

theorem segAt_self (data : List α) : SegAt data 0 data := by
  show data <+: data
  exact List.prefix_rfl

theorem SegAt.length_le {data : List α} {p : Nat} {seg : List α} (h : SegAt data p seg)
    (hne : seg ≠ []) : p + seg.length ≤ data.length := by
  have hle : seg.length ≤ (data.drop p).length := List.IsPrefix.length_le h
  have hpos : 0 < seg.length := List.length_pos_iff.mpr hne
  rw [List.length_drop] at hle
  omega

theorem segAt_append_iff {data : List α} {p : Nat} {s t : List α} :
    SegAt data p (s ++ t) ↔ SegAt data p s ∧ SegAt data (p + s.length) t := by
  unfold SegAt
  rw [← List.drop_drop]
  constructor
  · intro h
    obtain ⟨rest, hrest⟩ := h
    rw [← hrest, List.append_assoc, List.drop_left]
    exact ⟨List.prefix_append _ _, List.prefix_append _ _⟩
  · intro h
    obtain ⟨⟨u, hu⟩, v, hv⟩ := h
    rw [← hu, List.drop_left] at hv
    exact ⟨v, by rw [← hu, ← hv, List.append_assoc]⟩

theorem segAt_cons_iff {data : List α} {p : Nat} {a : α} {s : List α} :
    SegAt data p (a :: s) ↔ data[p]? = some a ∧ SegAt data (p + 1) s := by
  rw [← List.singleton_append, segAt_append_iff, List.length_singleton]
  refine and_congr_left fun _ => ?_
  unfold SegAt
  constructor
  · intro h
    obtain ⟨rest, hrest⟩ := h
    have h0 : (data.drop p)[0]? = some a := by rw [← hrest]; rfl
    rwa [List.getElem?_drop, Nat.add_zero] at h0
  · intro h
    obtain ⟨hp, hget⟩ := List.getElem?_eq_some_iff.mp h
    rw [List.drop_eq_getElem_cons hp, hget]
    exact ⟨_, rfl⟩

theorem SegAt.readSlice {data : List α} {p : Nat} {seg : List α} (h : SegAt data p seg)
    (oob : ε) (hp : p ≤ data.length) :
    readSlice oob data p seg.length = .ok seg := by
  have hle : seg.length ≤ (data.drop p).length := List.IsPrefix.length_le h
  rw [List.length_drop] at hle
  rw [readSlice_of_le (by omega), ← List.prefix_iff_eq_take.mp h]

theorem segAt_take_drop (data : List α) (p n : Nat) : SegAt data p ((data.drop p).take n) :=
  List.take_prefix n _

/-- What stands in a list stands in every list that begins with it. -/
theorem SegAt.append {data : List α} {p : Nat} {seg : List α} (h : SegAt data p seg)
    (rest : List α) : SegAt (data ++ rest) p seg := by
  show seg <+: (data ++ rest).drop p
  rw [List.drop_append]
  exact List.IsPrefix.trans h (List.prefix_append _ _)

/-! ## Streams -/

/-- The first `n` elements of a stream and what follows them, if they are there. -/
def takeN (n : Nat) (stream : List α) : Option (List α × List α) :=
  if n ≤ stream.length then some (stream.take n, stream.drop n) else none

theorem takeN_append (s t : List α) : takeN s.length (s ++ t) = some (s, t) := by
  rw [takeN, if_pos (by rw [List.length_append]; omega), List.take_left, List.drop_left]

theorem takeN_eq_some_iff {n : Nat} {stream s t : List α} :
    takeN n stream = some (s, t) ↔ s.length = n ∧ stream = s ++ t := by
  constructor
  · intro h
    rw [takeN] at h
    by_cases hn : n ≤ stream.length
    · rw [if_pos hn, Option.some.injEq, Prod.mk.injEq] at h
      obtain ⟨rfl, rfl⟩ := h
      exact ⟨List.length_take_of_le hn, (List.take_append_drop n stream).symm⟩
    · rw [if_neg hn] at h
      cases h
  · intro h
    obtain ⟨rfl, rfl⟩ := h
    exact takeN_append s t

/-! ## Counted loops -/

/-- Run `dec` `n` times from cursor `p` and collect the values. -/
def repeatAt (dec : Nat → Except ε (β × Nat)) : Nat → Nat → Except ε (List β × Nat)
  | 0, p => .ok ([], p)
  | n + 1, p => do
    let (x, q) ← dec p
    let (xs, r) ← repeatAt dec n q
    .ok (x :: xs, r)

/-- The values `xs` stand one after the other from cursor `p` to cursor `r`,
each related to its own two cursors by `R`. -/
def SeqAt (R : Nat → β → Nat → Prop) : Nat → List β → Nat → Prop
  | p, [], r => p = r
  | p, x :: xs, r => ∃ q, R p x q ∧ SeqAt R q xs r

theorem seqAt_append_iff {R : Nat → β → Nat → Prop} {xs ys : List β} {p r : Nat} :
    SeqAt R p (xs ++ ys) r ↔ ∃ q, SeqAt R p xs q ∧ SeqAt R q ys r := by
  induction xs generalizing p with
  | nil => simp [SeqAt]
  | cons x xs ih =>
    simp only [List.cons_append, SeqAt, ih]
    constructor
    · intro h
      obtain ⟨q, hx, q', hxs, hys⟩ := h
      exact ⟨q', ⟨q, hx, hxs⟩, hys⟩
    · intro h
      obtain ⟨q', ⟨q, hx, hxs⟩, hys⟩ := h
      exact ⟨q, hx, q', hxs, hys⟩

/-- Relating through a function is mapping that function over the values. -/
theorem seqAt_map_iff {R : Nat → β → Nat → Prop} {f : β → γ} {ys : List γ} {p r : Nat} :
    SeqAt (fun p y q => ∃ x, R p x q ∧ y = f x) p ys r ↔
      ∃ xs, SeqAt R p xs r ∧ ys = xs.map f := by
  induction ys generalizing p with
  | nil =>
    constructor
    · intro h
      exact ⟨[], h, rfl⟩
    · intro h
      obtain ⟨xs, hxs, hmap⟩ := h
      rw [List.nil_eq, List.map_eq_nil_iff] at hmap
      subst hmap
      exact hxs
  | cons y ys ih =>
    constructor
    · intro h
      obtain ⟨q, ⟨x, hx, rfl⟩, hys⟩ := h
      obtain ⟨xs, hxs, rfl⟩ := ih.mp hys
      exact ⟨x :: xs, ⟨q, hx, hxs⟩, rfl⟩
    · intro h
      obtain ⟨xs, hxs, hmap⟩ := h
      cases xs with
      | nil => cases hmap
      | cons x xs =>
        rw [List.map_cons, List.cons.injEq] at hmap
        obtain ⟨q, hx, hrest⟩ := hxs
        exact ⟨q, ⟨x, hx, hmap.1⟩, ih.mpr ⟨xs, hrest, hmap.2⟩⟩

theorem seqAt_congr {R S : Nat → β → Nat → Prop} (h : ∀ p x q, R p x q ↔ S p x q)
    {xs : List β} {p r : Nat} : SeqAt R p xs r ↔ SeqAt S p xs r := by
  induction xs generalizing p with
  | nil => exact Iff.rfl
  | cons x xs ih => simp only [SeqAt, h, ih]

theorem SeqAt.mono {R S : Nat → β → Nat → Prop} (h : ∀ p x q, R p x q → S p x q) {xs : List β}
    {p r : Nat} (hxs : SeqAt R p xs r) : SeqAt S p xs r := by
  induction xs generalizing p with
  | nil => exact hxs
  | cons x xs ih =>
    obtain ⟨q, hx, hrest⟩ := hxs
    exact ⟨q, h p x q hx, ih hrest⟩

/-- A sequence ends in the list if each of its values does. -/
theorem SeqAt.le {R : Nat → β → Nat → Prop} {n : Nat} (h : ∀ p x q, R p x q → q ≤ n)
    {xs : List β} {p r : Nat} (hp : p ≤ n) (hxs : SeqAt R p xs r) : r ≤ n := by
  induction xs generalizing p with
  | nil =>
    have hend : p = r := hxs
    omega
  | cons x xs ih =>
    obtain ⟨q, hx, hrest⟩ := hxs
    exact ih (h p x q hx) hrest

/-- Every value of a sequence stands between two cursors of its own. -/
theorem SeqAt.exists_of_mem {R : Nat → β → Nat → Prop} {xs : List β} {p r : Nat}
    (h : SeqAt R p xs r) {x : β} (hx : x ∈ xs) : ∃ q q', R q x q' := by
  induction xs generalizing p with
  | nil => cases hx
  | cons y ys ih =>
    obtain ⟨q, hy, hrest⟩ := h
    rcases List.mem_cons.mp hx with rfl | hmem
    · exact ⟨p, q, hy⟩
    · exact ih hrest hmem

/-- A loop returns the values of a sequence of that many steps. -/
theorem repeatAt_eq_ok_iff {dec : Nat → Except ε (β × Nat)} {n p r : Nat} {xs : List β} :
    repeatAt dec n p = .ok (xs, r) ↔
      xs.length = n ∧ SeqAt (fun p x q => dec p = .ok (x, q)) p xs r := by
  induction n generalizing p xs with
  | zero =>
    constructor
    · intro h
      simp only [repeatAt, Except.ok.injEq, Prod.mk.injEq] at h
      obtain ⟨rfl, rfl⟩ := h
      exact ⟨rfl, rfl⟩
    · intro h
      obtain ⟨hlen, hseq⟩ := h
      have hnil : xs = [] := List.eq_nil_of_length_eq_zero hlen
      subst hnil
      rw [repeatAt, show p = r from hseq]
  | succ n ih =>
    rw [repeatAt, bind_eq_ok_iff]
    constructor
    · intro h
      obtain ⟨⟨x, q⟩, hx, hrest⟩ := h
      obtain ⟨⟨ys, r'⟩, hys, hret⟩ := bind_eq_ok_iff.mp hrest
      simp only [Except.ok.injEq, Prod.mk.injEq] at hret
      obtain ⟨rfl, rfl⟩ := hret
      obtain ⟨hlen, hseq⟩ := ih.mp hys
      exact ⟨by simp [hlen], q, hx, hseq⟩
    · intro h
      obtain ⟨hlen, hseq⟩ := h
      cases xs with
      | nil => simp at hlen
      | cons x ys =>
        obtain ⟨q, hx, hys⟩ := hseq
        have hlen' : ys.length = n := by simpa using hlen
        refine ⟨(x, q), hx, ?_⟩
        exact bind_eq_ok_iff.mpr ⟨(ys, r), ih.mpr ⟨hlen', hys⟩, rfl⟩

/-- A loop over a decoder of `R` that flattens its values by `f` returns the flat values of
a sequence. -/
theorem repeatAt_eq_ok_iff_map {dec : Nat → Except ε (γ × Nat)} {R : Nat → β → Nat → Prop}
    {f : β → γ} (hdec : ∀ p y q, dec p = .ok (y, q) ↔ ∃ x, R p x q ∧ y = f x) {n p r : Nat}
    {ys : List γ} :
    repeatAt dec n p = .ok (ys, r) ↔ ∃ xs, xs.length = n ∧ SeqAt R p xs r ∧ ys = xs.map f := by
  rw [repeatAt_eq_ok_iff, seqAt_congr hdec, seqAt_map_iff]
  constructor
  · intro h
    obtain ⟨hlen, xs, hxs, rfl⟩ := h
    exact ⟨xs, by simpa using hlen, hxs, rfl⟩
  · intro h
    obtain ⟨xs, hlen, hxs, rfl⟩ := h
    exact ⟨by simpa using hlen, xs, hxs, rfl⟩

/-- A loop fails with the error of the first step that fails, after a sequence
of successful ones. -/
theorem repeatAt_eq_error_iff {dec : Nat → Except ε (β × Nat)} {n p : Nat} {e : ε} :
    repeatAt dec n p = .error e ↔
      ∃ xs q, xs.length < n ∧ SeqAt (fun p x q => dec p = .ok (x, q)) p xs q ∧
        dec q = .error e := by
  induction n generalizing p with
  | zero => simp [repeatAt]
  | succ n ih =>
    rw [repeatAt, bind_eq_error_iff]
    constructor
    · intro h
      rcases h with hfirst | ⟨⟨x, q⟩, hx, hrest⟩
      · exact ⟨[], p, Nat.succ_pos n, rfl, hfirst⟩
      · rcases bind_eq_error_iff.mp hrest with hloop | ⟨⟨ys, r⟩, -, hret⟩
        · obtain ⟨xs, q', hlen, hseq, herr⟩ := ih.mp hloop
          exact ⟨x :: xs, q', Nat.succ_lt_succ hlen, ⟨q, hx, hseq⟩, herr⟩
        · cases hret
    · intro h
      obtain ⟨xs, q', hlen, hseq, herr⟩ := h
      cases xs with
      | nil =>
        have hpq : p = q' := hseq
        subst hpq
        exact Or.inl herr
      | cons x xs =>
        obtain ⟨q, hx, hrest⟩ := hseq
        refine Or.inr ⟨(x, q), hx, ?_⟩
        have hloop := ih.mpr ⟨xs, q', Nat.lt_of_succ_lt_succ hlen, hrest, herr⟩
        exact bind_eq_error_iff.mpr (Or.inl hloop)

/-- A loop followed by something that fails as a second loop does fails as one
longer loop does. -/
theorem repeatAt_bind_eq_error_iff {dec : Nat → Except ε (β × Nat)} {m n p : Nat} {e : ε}
    {f : List β × Nat → Except ε γ}
    (hf : ∀ x, f x = .error e ↔ repeatAt dec n x.2 = .error e) :
    (repeatAt dec m p >>= f) = .error e ↔ repeatAt dec (m + n) p = .error e := by
  rw [bind_eq_error_iff, repeatAt_eq_error_iff, repeatAt_eq_error_iff]
  constructor
  · intro h
    rcases h with ⟨xs, q, hlen, hseq, herr⟩ | ⟨⟨xs, q⟩, hok, herr⟩
    · exact ⟨xs, q, by omega, hseq, herr⟩
    · obtain ⟨hlen, hseq⟩ := repeatAt_eq_ok_iff.mp hok
      obtain ⟨ys, r, hlen', hseq', herr'⟩ := repeatAt_eq_error_iff.mp ((hf _).mp herr)
      refine ⟨xs ++ ys, r, ?_, seqAt_append_iff.mpr ⟨q, hseq, hseq'⟩, herr'⟩
      rw [List.length_append]
      omega
  · intro h
    obtain ⟨xs, r, hlen, hseq, herr⟩ := h
    by_cases hshort : xs.length < m
    · exact Or.inl ⟨xs, r, hshort, hseq, herr⟩
    · -- The failing step lies in the second loop, after the first `m` values.
      rw [← List.take_append_drop m xs, seqAt_append_iff] at hseq
      obtain ⟨q, hfirst, hsecond⟩ := hseq
      have htake : (xs.take m).length = m := by
        rw [List.length_take]
        omega
      refine Or.inr ⟨(xs.take m, q), repeatAt_eq_ok_iff.mpr ⟨htake, hfirst⟩, (hf _).mpr ?_⟩
      refine repeatAt_eq_error_iff.mpr ⟨xs.drop m, r, ?_, hsecond, herr⟩
      rw [List.length_drop]
      omega

/-- A concatenation of encodings is a sequence of the values encoded, when one
encoding is one value. -/
theorem seqAt_of_segAt {data : List α} {R : Nat → β → Nat → Prop} {enc : β → List α} {xs : List β}
    (henc : ∀ x ∈ xs, ∀ p, SegAt data p (enc x) → R p x (p + (enc x).length))
    {p : Nat} (hseg : SegAt data p (xs.flatMap enc)) :
    SeqAt R p xs (p + (xs.flatMap enc).length) := by
  induction xs generalizing p with
  | nil => rfl
  | cons x xs ih =>
    rw [List.flatMap_cons, segAt_append_iff] at hseg
    have hrest := ih (fun y hy => henc y (List.mem_cons_of_mem x hy)) hseg.2
    refine ⟨p + (enc x).length, henc x List.mem_cons_self p hseg.1, ?_⟩
    rwa [List.flatMap_cons, List.length_append, ← Nat.add_assoc]

/-- Two sequences of the same length from the same cursor agree when each step
does. -/
theorem SeqAt.eq_of_functional {R : Nat → β → Nat → Prop}
    (hR : ∀ p x q y r, R p x q → R p y r → x = y ∧ q = r) {xs ys : List β} {p q r : Nat}
    (hxs : SeqAt R p xs q) (hys : SeqAt R p ys r) (hlen : xs.length = ys.length) :
    xs = ys ∧ q = r := by
  induction xs generalizing p ys with
  | nil =>
    have hnil : ys = [] := List.eq_nil_of_length_eq_zero hlen.symm
    subst hnil
    exact ⟨rfl, hxs.symm.trans hys⟩
  | cons x xs ih =>
    cases ys with
    | nil => cases hlen
    | cons y ys =>
      obtain ⟨p₁, hx, hxs⟩ := hxs
      obtain ⟨p₂, hy, hys⟩ := hys
      obtain ⟨rfl, rfl⟩ := hR _ _ _ _ _ hx hy
      obtain ⟨rfl, rfl⟩ := ih hxs hys (by simpa using hlen)
      exact ⟨rfl, rfl⟩

/-- Segments of one length at one place are equal. -/
theorem SegAt.eq_of_length_eq {data : List α} {p : Nat} {s t : List α} (hs : SegAt data p s)
    (ht : SegAt data p t) (hlen : s.length = t.length) : s = t := by
  rw [List.prefix_iff_eq_take.mp hs, List.prefix_iff_eq_take.mp ht, hlen]

end Cursor
end Dnss
