/-
Reading a text from the front: up to a mark, without its padding, and piece by piece.

`cut` is the search for one character that string libraries have, with what stands before and
behind it.  `trim` takes the padding off both ends, and `trim_pad` says that it finds what
was padded.  `readAll` calls a reader again and again on what it has left over; `readAll_some` and
`readAll_none` are its equations, for every reader that makes the text shorter.
-/
import Mathlib.Data.List.DropRight

namespace Dnss
namespace Scan

variable {α β : Type}

/-! ## A mark -/

/-- What stands before and behind the first character with `p`. -/
def cut (p : α → Bool) : List α → Option (List α × List α)
  | [] => none
  | x :: xs => if p x then some ([], xs) else (cut p xs).map fun r => (x :: r.1, r.2)

variable {p : α → Bool} {x : α} {xs before behind : List α}

theorem cut_append (hbefore : ∀ y ∈ before, p y = false) (hx : p x = true) :
    cut p (before ++ x :: behind) = some (before, behind) := by
  induction before with
  | nil => rw [List.nil_append, cut, if_pos hx]
  | cons y before ih =>
    rw [List.forall_mem_cons] at hbefore
    rw [List.cons_append, cut, hbefore.1, if_neg Bool.false_ne_true, ih hbefore.2]
    rfl

theorem cut_eq_some_iff :
    cut p xs = some (before, behind) ↔
      ∃ x, xs = before ++ x :: behind ∧ p x = true ∧ ∀ y ∈ before, p y = false := by
  constructor
  · intro h
    induction xs generalizing before with
    | nil => cases h
    | cons y xs ih =>
      rw [cut] at h
      by_cases hy : p y = true
      · rw [if_pos hy, Option.some.injEq, Prod.mk.injEq] at h
        obtain ⟨rfl, rfl⟩ := h
        exact ⟨y, rfl, hy, List.forall_mem_nil _⟩
      · rw [if_neg hy, Option.map_eq_some_iff] at h
        obtain ⟨⟨front, rest⟩, hcut, heq⟩ := h
        rw [Prod.mk.injEq] at heq
        obtain ⟨rfl, rfl⟩ := heq
        obtain ⟨x, rfl, hx, hfront⟩ := ih hcut
        rw [Bool.not_eq_true] at hy
        exact ⟨x, rfl, hx, List.forall_mem_cons.mpr ⟨hy, hfront⟩⟩
  · rintro ⟨x, rfl, hx, hbefore⟩
    exact cut_append hbefore hx

theorem cut_eq_none_iff : cut p xs = none ↔ ∀ y ∈ xs, p y = false := by
  induction xs with
  | nil => exact ⟨fun _ => List.forall_mem_nil _, fun _ => rfl⟩
  | cons y xs ih =>
    rw [List.forall_mem_cons, ← ih, cut]
    by_cases hy : p y = true
    · simp [hy]
    · simp [hy]

theorem length_lt_of_cut (h : cut p xs = some (before, behind)) : behind.length < xs.length := by
  obtain ⟨x, rfl, -, -⟩ := cut_eq_some_iff.mp h
  rw [List.length_append, List.length_cons]
  omega

/-- A run of characters ends at one that stops it, whatever stands behind that. -/
theorem span_append (hx : p x = false) :
    (xs ++ x :: behind).takeWhile p = xs.takeWhile p ∧
      (xs ++ x :: behind).dropWhile p = xs.dropWhile p ++ x :: behind := by
  have hstop : ¬ p x = true := by
    rw [hx]
    exact Bool.false_ne_true
  induction xs with
  | nil => exact ⟨List.takeWhile_cons_of_neg hstop, List.dropWhile_cons_of_neg hstop⟩
  | cons y xs ih =>
    rw [List.cons_append]
    by_cases hy : p y = true
    · rw [List.takeWhile_cons_of_pos hy, List.takeWhile_cons_of_pos hy,
        List.dropWhile_cons_of_pos hy, List.dropWhile_cons_of_pos hy, ih.1, ih.2]
      exact ⟨rfl, rfl⟩
    · rw [List.takeWhile_cons_of_neg hy, List.takeWhile_cons_of_neg hy,
        List.dropWhile_cons_of_neg hy, List.dropWhile_cons_of_neg hy]
      exact ⟨rfl, rfl⟩

/-! ## Padding -/

/-- The text without the padding at its ends. -/
def trim (p : α → Bool) (xs : List α) : List α := (xs.dropWhile p).rdropWhile p

/-- There is no padding at the ends. -/
structure Trimmed (p : α → Bool) (xs : List α) : Prop where
  head : ∀ x ∈ xs.head?, p x = false
  last : ∀ x ∈ xs.getLast?, p x = false

theorem dropWhile_of_head (h : ∀ x ∈ xs.head?, p x = false) : xs.dropWhile p = xs := by
  cases xs with
  | nil => rfl
  | cons x xs =>
    refine List.dropWhile_cons_of_neg ?_
    rw [h x rfl]
    exact Bool.false_ne_true

theorem rdropWhile_append (hpad : ∀ y ∈ behind, p y = true)
    (hlast : ∀ x ∈ xs.getLast?, p x = false) : (xs ++ behind).rdropWhile p = xs := by
  rw [List.rdropWhile, List.reverse_append,
    List.dropWhile_append_of_pos fun y hy => hpad y (List.mem_reverse.mp hy),
    dropWhile_of_head (by rw [List.head?_reverse]; exact hlast), List.reverse_reverse]

/-- What has been padded is found again. -/
theorem trim_pad (hbefore : ∀ y ∈ before, p y = true) (hbehind : ∀ y ∈ behind, p y = true)
    (h : Trimmed p xs) : trim p (before ++ xs ++ behind) = xs := by
  rw [trim, List.append_assoc, List.dropWhile_append_of_pos hbefore]
  cases hxs : xs with
  | nil =>
    have hall : behind.dropWhile p = [] := List.dropWhile_eq_nil_iff.mpr hbehind
    rw [List.nil_append, hall]
    rfl
  | cons x rest =>
    rw [← hxs]
    have hhead : ∀ y ∈ (xs ++ behind).head?, p y = false := by
      rw [hxs, List.cons_append, List.head?_cons]
      exact fun y hy => h.head y (by rw [hxs]; exact hy)
    rw [dropWhile_of_head hhead, rdropWhile_append hbehind h.last]

theorem trim_isInfix (p : α → Bool) (xs : List α) : trim p xs <:+: xs :=
  (List.rdropWhile_prefix p (xs.dropWhile p)).isInfix.trans (List.dropWhile_suffix p).isInfix

theorem trimmed_trim (p : α → Bool) (xs : List α) : Trimmed p (trim p xs) where
  head := by
    intro x hx
    have hfront := List.head?_dropWhile_not p xs
    obtain ⟨behind, hbehind⟩ := List.rdropWhile_prefix p (xs.dropWhile p)
    rw [Option.mem_def] at hx
    have hhead : ((xs.dropWhile p).rdropWhile p).head? = some x := hx
    rw [← hbehind, List.head?_append, hhead] at hfront
    simpa using hfront
  last := by
    intro x hx
    obtain ⟨front, hfront⟩ := List.getLast?_eq_some_iff.mp hx
    have hne : (xs.dropWhile p).rdropWhile p ≠ [] := by
      rw [show (xs.dropWhile p).rdropWhile p = front ++ [x] from hfront]
      exact List.concat_ne_nil _ _
    have hlast := List.rdropWhile_last_not p (xs.dropWhile p) hne
    rw [Bool.not_eq_true] at hlast
    rw [← hlast]
    congr 1
    have hsame := (List.getLast?_eq_some_getLast hne).symm.trans hx
    exact (Option.some.inj hsame).symm

/-! ## Piece by piece -/

/-- What the reader finds in up to `n` calls. -/
def readUpTo (next : List α → Option (β × List α)) : Nat → List α → List β
  | 0, _ => []
  | n + 1, xs =>
    match next xs with
    | none => []
    | some (piece, rest) => piece :: readUpTo next n rest

/-- What it finds until it finds nothing more. -/
def readAll (next : List α → Option (β × List α)) (xs : List α) : List β :=
  readUpTo next xs.length xs

/-- The reader takes something away. -/
def Shortens (next : List α → Option (β × List α)) : Prop :=
  ∀ xs piece rest, next xs = some (piece, rest) → rest.length < xs.length

variable {next : List α → Option (β × List α)}

theorem readUpTo_eq (hshort : Shortens next) {n m : Nat} (hn : xs.length ≤ n) (hm : xs.length ≤ m) :
    readUpTo next n xs = readUpTo next m xs := by
  induction n generalizing m xs with
  | zero =>
    cases m with
    | zero => rfl
    | succ m =>
      rw [readUpTo, readUpTo]
      cases h : next xs with
      | none => rfl
      | some r =>
        have hless := hshort xs r.1 r.2 h
        omega
  | succ n ih =>
    cases m with
    | zero =>
      rw [readUpTo, readUpTo]
      cases h : next xs with
      | none => rfl
      | some r =>
        have hless := hshort xs r.1 r.2 h
        omega
    | succ m =>
      rw [readUpTo, readUpTo]
      cases h : next xs with
      | none => rfl
      | some r =>
        have hless := hshort xs r.1 r.2 h
        exact congrArg (r.1 :: ·) (ih (by omega) (by omega))

theorem readAll_none (h : next xs = none) : readAll next xs = [] := by
  rw [readAll]
  cases xs with
  | nil => rfl
  | cons x xs => rw [List.length_cons, readUpTo, h]

theorem readAll_some (hshort : Shortens next) {piece : β} {rest : List α}
    (h : next xs = some (piece, rest)) : readAll next xs = piece :: readAll next rest := by
  have hless := hshort xs piece rest h
  have henough : readAll next xs = readUpTo next (rest.length + 1) xs := by
    rw [readAll]
    cases xs with
    | nil => cases hless
    | cons x xs =>
      rw [List.length_cons] at hless ⊢
      rw [readUpTo, readUpTo, h]
      exact congrArg (piece :: ·) (readUpTo_eq hshort (by omega) (Nat.le_refl _))
  rw [henough, readUpTo, h]
  rfl

end Scan
end Dnss
