/-
The first occurrence of a pattern in a list.

`find pat xs` is the position at which `pat` first occurs, as the search functions of string
libraries give it.  `FirstAt` says the same without a search: what stands before the
occurrence and what stands behind it.

What a reader needs who searches a buffer that grows is `find_of_append`: the search in the
part that has arrived gives the final position once the occurrence has arrived in full, and
nothing before.
-/
import Mathlib.Data.List.Infix

namespace Dnss
namespace Occurrence

variable {α : Type} [DecidableEq α]

def find (pat : List α) : List α → Option Nat
  | [] => if pat = [] then some 0 else none
  | x :: xs => if pat <+: x :: xs then some 0 else (find pat xs).map (· + 1)

/-- `pat` first occurs in `xs` between `before` and `behind`. -/
structure FirstAt (pat xs before behind : List α) : Prop where
  split : xs = before ++ pat ++ behind
  first : ∀ j < before.length, ¬ pat <+: xs.drop j

theorem find_eq_some_iff {pat xs : List α} {i : Nat} :
    find pat xs = some i ↔ i ≤ xs.length ∧ pat <+: xs.drop i ∧ ∀ j < i, ¬ pat <+: xs.drop j := by
  induction xs generalizing i with
  | nil =>
    by_cases hpat : pat = []
    · simp [find, hpat, eq_comm]
      omega
    · simp [find, hpat]
  | cons x xs ih =>
    rw [find]
    by_cases hhere : pat <+: x :: xs
    · rw [if_pos hhere, Option.some.injEq]
      constructor
      · rintro rfl
        exact ⟨Nat.zero_le _, hhere, fun j hj => absurd hj (Nat.not_lt_zero j)⟩
      · rintro ⟨-, -, hfirst⟩
        cases i with
        | zero => rfl
        | succ i => exact absurd hhere (hfirst 0 (Nat.succ_pos i))
    · rw [if_neg hhere, Option.map_eq_some_iff]
      constructor
      · rintro ⟨k, hk, rfl⟩
        obtain ⟨hle, hocc, hfirst⟩ := ih.mp hk
        refine ⟨Nat.succ_le_succ hle, hocc, fun j hj => ?_⟩
        cases j with
        | zero => exact hhere
        | succ j => exact hfirst j (Nat.lt_of_succ_lt_succ hj)
      · rintro ⟨hle, hocc, hfirst⟩
        cases i with
        | zero => exact absurd hocc hhere
        | succ i =>
          refine ⟨i, ih.mpr ⟨Nat.le_of_succ_le_succ hle, hocc, fun j hj => ?_⟩, rfl⟩
          exact hfirst (j + 1) (Nat.succ_lt_succ hj)

theorem length_le_of_find {pat xs : List α} {i : Nat} (h : find pat xs = some i) :
    i + pat.length ≤ xs.length := by
  obtain ⟨hle, hocc, -⟩ := find_eq_some_iff.mp h
  have hlen := hocc.length_le
  rw [List.length_drop] at hlen
  omega

theorem firstAt_of_find {pat xs : List α} {i : Nat} (h : find pat xs = some i) :
    FirstAt pat xs (xs.take i) (xs.drop (i + pat.length)) := by
  obtain ⟨hle, ⟨behind, hbehind⟩, hfirst⟩ := find_eq_some_iff.mp h
  refine ⟨?_, ?_⟩
  · have hdrop : xs.drop (i + pat.length) = behind := by
      rw [← List.drop_drop, ← hbehind, List.drop_left]
    rw [hdrop, List.append_assoc, hbehind, List.take_append_drop]
  · rw [List.length_take, Nat.min_eq_left hle]
    exact hfirst

theorem FirstAt.find_eq {pat xs before behind : List α} (h : FirstAt pat xs before behind) :
    find pat xs = some before.length := by
  refine find_eq_some_iff.mpr ⟨?_, ?_, h.first⟩
  · rw [h.split]
    simp only [List.length_append]
    omega
  · rw [h.split, List.append_assoc, List.drop_left]
    exact List.prefix_append pat behind

/-- The parts of a first occurrence are unique. -/
theorem FirstAt.unique {pat xs before behind : List α} (h : FirstAt pat xs before behind) {i : Nat}
    (hi : find pat xs = some i) : before = xs.take i ∧ behind = xs.drop (i + pat.length) := by
  have hlen : before.length = i := Option.some.inj (h.find_eq.symm.trans hi)
  rw [← hlen]
  constructor
  · rw [h.split, List.append_assoc, List.take_left]
  · rw [h.split, ← List.length_append, List.drop_left]

theorem find_ne_none_iff {pat xs : List α} : find pat xs ≠ none ↔ pat <:+: xs := by
  constructor
  · intro h
    obtain ⟨i, hi⟩ := Option.ne_none_iff_exists'.mp h
    exact ⟨_, _, (firstAt_of_find hi).split.symm⟩
  · rintro ⟨before, behind, rfl⟩
    induction before with
    | nil =>
      cases hlist : [] ++ pat ++ behind with
      | nil =>
        have hpat : pat = [] := by simp at hlist; exact hlist.1
        simp [find, hpat]
      | cons x xs =>
        have hhere : pat <+: x :: xs := by
          rw [← hlist]
          exact List.prefix_append pat behind
        simp [find, hhere]
    | cons x before ih =>
      rw [List.cons_append, List.cons_append, find]
      split
      · simp
      · simpa using ih

theorem find_append {pat xs : List α} {i : Nat} (h : find pat xs = some i) (ys : List α) :
    find pat (xs ++ ys) = some i := by
  have hlen := length_le_of_find h
  obtain ⟨hle, hocc, hfirst⟩ := find_eq_some_iff.mp h
  have hdrop : ∀ j ≤ i, (xs ++ ys).drop j = xs.drop j ++ ys := fun j hj =>
    List.drop_append_of_le_length (Nat.le_trans hj hle)
  refine find_eq_some_iff.mpr ⟨?_, ?_, fun j hj hpat => hfirst j hj ?_⟩
  · rw [List.length_append]
    omega
  · rw [hdrop i (Nat.le_refl i)]
    exact hocc.trans (List.prefix_append _ _)
  · -- An earlier occurrence would end before the first one, inside `xs`.
    rw [hdrop j (Nat.le_of_lt hj)] at hpat
    refine List.prefix_of_prefix_length_le hpat (List.prefix_append _ _) ?_
    rw [List.length_drop]
    omega

/-- The search in the part of a list that has arrived. -/
theorem find_of_append {pat xs ys : List α} {i : Nat} (h : find pat (xs ++ ys) = some i) :
    find pat xs = if i + pat.length ≤ xs.length then some i else none := by
  cases hfind : find pat xs with
  | some k =>
    have hsame : k = i := Option.some.inj ((find_append hfind ys).symm.trans h)
    have hlen := length_le_of_find hfind
    rw [hsame] at hlen
    rw [if_pos hlen, hsame]
  | none =>
    by_cases hlen : i + pat.length ≤ xs.length
    · obtain ⟨-, hocc, hfirst⟩ := find_eq_some_iff.mp h
      have hdrop : ∀ j ≤ i, (xs ++ ys).drop j = xs.drop j ++ ys := fun j hj =>
        List.drop_append_of_le_length (by omega)
      have hfound : find pat xs = some i := by
        refine find_eq_some_iff.mpr ⟨by omega, ?_, fun j hj hpat => hfirst j hj ?_⟩
        · rw [hdrop i (Nat.le_refl i)] at hocc
          refine List.prefix_of_prefix_length_le hocc (List.prefix_append _ _) ?_
          rw [List.length_drop]
          omega
        · rw [hdrop j (Nat.le_of_lt hj)]
          exact hpat.trans (List.prefix_append _ _)
      rw [hfind] at hfound
      cases hfound
    · rw [if_neg hlen]

theorem ne_nil_of_find_eq_none {pat xs : List α} (h : find pat xs = none) : pat ≠ [] := by
  intro hnil
  rw [hnil] at h
  cases xs with
  | nil => cases h
  | cons x xs => simp [find] at h

/-- A pattern with nothing of `ys` in it first occurs behind `ys` if it does not occur before. -/
theorem firstAt_append {pat xs ys : List α} (hys : ys ≠ []) (hdisj : ∀ y ∈ ys, y ∉ pat)
    (hnone : find pat xs = none) (behind : List α) :
    FirstAt pat (xs ++ ys ++ pat ++ behind) (xs ++ ys) behind := by
  refine ⟨rfl, fun j hj hocc => ?_⟩
  obtain ⟨rest, hrest⟩ := hocc
  have hpos : 0 < ys.length := List.length_pos_iff.mpr hys
  rw [List.length_append] at hj
  have hat : ∀ k < pat.length, (xs ++ ys ++ pat ++ behind)[j + k]? = pat[k]? := by
    intro k hk
    rw [← List.getElem?_drop, ← hrest, List.getElem?_append_left hk]
  by_cases hbefore : j + pat.length ≤ xs.length
  · -- All of it stands in `xs`.
    have hdrop : (xs ++ ys ++ pat ++ behind).drop j = xs.drop j ++ (ys ++ pat ++ behind) := by
      rw [List.append_assoc, List.append_assoc, List.drop_append_of_le_length (by omega),
        List.append_assoc]
    have hpat : pat <+: xs.drop j := by
      have hlong : pat <+: xs.drop j ++ (ys ++ pat ++ behind) := ⟨rest, by rw [hrest, hdrop]⟩
      refine List.prefix_of_prefix_length_le hlong (List.prefix_append _ _) ?_
      rw [List.length_drop]
      omega
    exact find_ne_none_iff.mpr (hpat.isInfix.trans (List.drop_suffix j xs).isInfix) hnone
  · -- One of its elements stands in `ys`.
    have hin : ∃ k < pat.length, xs.length ≤ j + k ∧ j + k < xs.length + ys.length := by
      by_cases hle : xs.length ≤ j
      · have hlen := List.length_pos_iff.mpr (ne_nil_of_find_eq_none hnone)
        exact ⟨0, by omega, by omega, by omega⟩
      · exact ⟨xs.length - j, by omega, by omega, by omega⟩
    obtain ⟨k, hk, hlo, hhi⟩ := hin
    have helem := hat k hk
    rw [List.append_assoc, List.append_assoc, List.getElem?_append_right hlo,
      List.getElem?_append_left (by omega), List.getElem?_eq_getElem (by omega),
      List.getElem?_eq_getElem hk, Option.some.injEq] at helem
    have hmem : ys[j + k - xs.length] ∈ ys := List.getElem_mem (by omega)
    rw [helem] at hmem
    exact hdisj _ hmem (List.getElem_mem hk)

/-- A pattern with nothing of `ys` in it does not occur because of `ys`. -/
theorem find_append_eq_none {pat xs ys : List α} (hdisj : ∀ y ∈ ys, y ∉ pat)
    (hnone : find pat xs = none) : find pat (xs ++ ys) = none := by
  by_cases hys : ys = []
  · rw [hys, List.append_nil]
    exact hnone
  · by_contra hsome
    obtain ⟨i, hi⟩ := Option.ne_none_iff_exists'.mp hsome
    have hlater := (firstAt_append hys hdisj hnone []).find_eq
    have hsame := find_append hi (pat ++ [])
    rw [← List.append_assoc, hlater, Option.some.injEq] at hsame
    have hle := length_le_of_find hi
    have hpos := List.length_pos_iff.mpr (ne_nil_of_find_eq_none hnone)
    omega

end Occurrence
end Dnss
