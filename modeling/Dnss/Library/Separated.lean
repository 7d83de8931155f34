/-
Lists of words flattened with a separator, and read back.

`[sep].intercalate ls` is the flat form of the words `ls`.  It loses information:
a word may itself contain the separator, and splitting a flat list may give empty
words.  `splitWords sep xs` is the list of non-empty pieces of `xs`, which is what
an encoder that skips empty pieces writes.

The results say when the flat form is faithful.  `splitWords_intercalate` gives
the pieces of a flat list from the pieces of its words, and
`flatMap_splitWords_eq_self_iff` says that they are the words themselves exactly
when no word contains the separator.

`pieces sep xs` keeps the empty pieces, and nothing is lost: `isSuffix_pieces_iff` reads
a suffix of the list of pieces as a suffix of the flat list that begins after a
separator.
-/
import Mathlib.Tactic.Common

namespace Dnss
namespace Separated

variable {α : Type}

/-! ## Flattening with an accumulator -/

/-- Add one word to a flat list, with a separator unless the list is empty. -/
def appendWord (sep : α) (acc word : List α) : List α :=
  if acc.isEmpty then word else acc ++ sep :: word

theorem foldl_appendWord_of_ne_nil {sep : α} {acc : List α} (hacc : acc ≠ []) (ls : List (List α)) :
    ls.foldl (appendWord sep) acc = acc ++ ls.flatMap (sep :: ·) := by
  induction ls generalizing acc with
  | nil => simp
  | cons l ls ih =>
    have hstep : appendWord sep acc l = acc ++ sep :: l := by simp [appendWord, hacc]
    rw [List.foldl_cons, hstep, ih (by simp)]
    simp

theorem intercalate_cons_eq_append_flatMap (sep : α) (l : List α) (ls : List (List α)) :
    [sep].intercalate (l :: ls) = l ++ ls.flatMap (sep :: ·) := by
  induction ls generalizing l with
  | nil => simp
  | cons m ms ih =>
    rw [List.intercalate_cons_cons, ih]
    simp

theorem intercalate_append_cons (sep : α) (p : List α) (ps : List (List α)) (l : List α)
    (ls : List (List α)) :
    [sep].intercalate (p :: ps ++ l :: ls) =
      [sep].intercalate (p :: ps) ++ sep :: [sep].intercalate (l :: ls) := by
  simp [intercalate_cons_eq_append_flatMap]

/-- Adding non-empty words one at a time gives the flat form. -/
theorem foldl_appendWord (sep : α) {ls : List (List α)} (hls : ∀ l ∈ ls, l ≠ []) :
    ls.foldl (appendWord sep) [] = [sep].intercalate ls := by
  cases ls with
  | nil => rfl
  | cons l ls =>
    have hl : l ≠ [] := hls l List.mem_cons_self
    rw [List.foldl_cons, show appendWord sep [] l = l from rfl, foldl_appendWord_of_ne_nil hl,
      intercalate_cons_eq_append_flatMap]

/-- Adding non-empty words makes a flat list longer. -/
theorem length_lt_foldl_appendWord {sep : α} {acc : List α} {ls : List (List α)}
    (hls : ∀ l ∈ ls, l ≠ []) (hne : ls ≠ []) :
    acc.length < (ls.foldl (appendWord sep) acc).length := by
  induction ls generalizing acc with
  | nil => exact absurd rfl hne
  | cons l ls ih =>
    have hl : 0 < l.length := List.length_pos_iff.mpr (hls l List.mem_cons_self)
    have hstep : acc.length < (appendWord sep acc l).length := by
      unfold appendWord
      cases acc with
      | nil => simpa using hl
      | cons a as => simp
    rw [List.foldl_cons]
    by_cases hnil : ls = []
    · rw [hnil]
      exact hstep
    · exact Nat.lt_trans hstep (ih (fun m hm => hls m (List.mem_cons_of_mem l hm)) hnil)

/-! ## Non-empty pieces -/

/-- The words of a list that are not empty. -/
def dropEmpty (ls : List (List α)) : List (List α) :=
  ls.filter (fun l => !l.isEmpty)

theorem dropEmpty_cons_of_ne_nil {l : List α} (h : l ≠ []) (ls : List (List α)) :
    dropEmpty (l :: ls) = l :: dropEmpty ls := by
  simp [dropEmpty, h]

variable [BEq α]

/-- The non-empty pieces between separators. -/
def splitWords (sep : α) (xs : List α) : List (List α) :=
  dropEmpty (xs.splitOn sep)

theorem splitWords_nil (sep : α) : splitWords sep ([] : List α) = [] := by
  simp [splitWords, dropEmpty]

theorem ne_nil_of_mem_splitWords {sep : α} {xs word : List α} (h : word ∈ splitWords sep xs) :
    word ≠ [] := by
  rw [splitWords, dropEmpty, List.mem_filter] at h
  simpa using h.2

/-- All pieces between separators, empty ones too.  The empty list has none. -/
def pieces (sep : α) (xs : List α) : List (List α) :=
  if xs.isEmpty then [] else xs.splitOn sep

@[simp] theorem pieces_nil (sep : α) : pieces sep [] = [] := rfl

theorem pieces_of_ne_nil {sep : α} {xs : List α} (h : xs ≠ []) :
    pieces sep xs = xs.splitOn sep := by
  simp [pieces, h]

theorem length_splitOn (sep : α) (xs : List α) : (xs.splitOn sep).length = xs.count sep + 1 := by
  induction xs with
  | nil => simp
  | cons x xs ih =>
    rw [List.splitOn_cons_eq_if_modifyHead, List.count_cons]
    by_cases hx : x == sep
    · rw [if_pos hx, if_pos hx, List.length_cons, ih]
    · rw [if_neg hx, if_neg hx, List.length_modifyHead, ih, Nat.add_zero]

variable [LawfulBEq α]

theorem splitWords_append_cons (sep : α) (xs ys : List α) :
    splitWords sep (xs ++ sep :: ys) = splitWords sep xs ++ splitWords sep ys := by
  rw [splitWords, List.splitOn_append_cons_self, dropEmpty, List.filter_append]
  rfl

theorem splitWords_of_notMem {sep : α} {word : List α} (h : sep ∉ word) (hne : word ≠ []) :
    splitWords sep word = [word] := by
  rw [splitWords, List.splitOn_eq_singleton h]
  simp [dropEmpty, hne]

/-- The pieces of a flat list are the pieces of its words. -/
theorem splitWords_intercalate (sep : α) (ls : List (List α)) :
    splitWords sep ([sep].intercalate ls) = ls.flatMap (splitWords sep) := by
  induction ls with
  | nil => exact splitWords_nil sep
  | cons l ls ih =>
    cases ls with
    | nil => simp
    | cons m ms =>
      rw [List.intercalate_cons_cons, List.append_assoc, List.singleton_append,
        splitWords_append_cons, ih]
      rfl

omit [BEq α] [LawfulBEq α] in
theorem isInfix_intercalate {sep word : List α} {ls : List (List α)} (h : word ∈ ls) :
    word <:+: sep.intercalate ls := by
  induction ls with
  | nil => cases h
  | cons l ls ih =>
    cases ls with
    | nil =>
      have hword : word = l := List.mem_singleton.mp h
      have hself : sep.intercalate [l] = l := List.intercalate_singleton
      refine ⟨[], [], ?_⟩
      rw [hword, hself, List.nil_append, List.append_nil]
    | cons m ms =>
      rw [List.intercalate_cons_cons, List.append_assoc]
      cases List.mem_cons.mp h with
      | inl heq =>
        rw [heq]
        exact (List.prefix_append l _).isInfix
      | inr hmem =>
        exact (ih hmem).trans ((List.suffix_append sep _).trans (List.suffix_append l _)).isInfix

/-- A word stands in the list in one piece. -/
theorem isInfix_of_mem_splitWords {sep : α} {xs word : List α} (h : word ∈ splitWords sep xs) :
    word <:+: xs := by
  have hmem : word ∈ xs.splitOn sep := (List.mem_filter.mp h).1
  have hflat : [sep].intercalate (xs.splitOn sep) = xs := List.intercalate_splitOn sep
  have hpart : word <:+: [sep].intercalate (xs.splitOn sep) := isInfix_intercalate hmem
  rwa [hflat] at hpart

theorem notMem_of_mem_splitOn {sep : α} {xs word : List α} (h : word ∈ xs.splitOn sep) :
    sep ∉ word := by
  induction xs generalizing word with
  | nil =>
    have hword : word = [] := by simpa using h
    simp [hword]
  | cons x xs ih =>
    rw [List.splitOn_cons_eq_if_modifyHead] at h
    by_cases hx : x == sep
    · rw [if_pos hx] at h
      rcases List.mem_cons.mp h with rfl | hmem
      · simp
      · exact ih hmem
    · rw [if_neg hx] at h
      -- Only the first piece of the tail grows, by an element other than the separator.
      cases hsplit : xs.splitOn sep with
      | nil => exact absurd hsplit (List.splitOn_ne_nil sep xs)
      | cons first others =>
        rw [hsplit, List.modifyHead_cons] at h
        rcases List.mem_cons.mp h with rfl | hmem
        · have hfirst : sep ∉ first := ih (by rw [hsplit]; exact List.mem_cons_self)
          have hne : sep ≠ x := fun he => hx (by rw [he]; exact beq_self_eq_true x)
          simp [hne, hfirst]
        · exact ih (by rw [hsplit]; exact List.mem_cons_of_mem first hmem)

theorem notMem_of_mem_splitWords {sep : α} {xs word : List α} (h : word ∈ splitWords sep xs) :
    sep ∉ word :=
  notMem_of_mem_splitOn ((List.mem_filter.mp h).1)

/-- Splitting every word changes nothing exactly when no word contains the
separator. -/
theorem flatMap_splitWords_eq_self_iff {sep : α} {ls : List (List α)} (hls : ∀ l ∈ ls, l ≠ []) :
    ls.flatMap (splitWords sep) = ls ↔ ∀ l ∈ ls, sep ∉ l := by
  constructor
  · intro h l hl
    rw [← h, List.mem_flatMap] at hl
    obtain ⟨m, -, hm⟩ := hl
    exact notMem_of_mem_splitWords hm
  · intro h
    induction ls with
    | nil => rfl
    | cons l ls ih =>
      rw [List.flatMap_cons,
        splitWords_of_notMem (h l List.mem_cons_self) (hls l List.mem_cons_self),
        ih (fun m hm => hls m (List.mem_cons_of_mem l hm))
          (fun m hm => h m (List.mem_cons_of_mem l hm))]
      rfl

/-! ## All pieces -/

@[simp] theorem intercalate_pieces (sep : α) (xs : List α) :
    [sep].intercalate (pieces sep xs) = xs := by
  by_cases h : xs = []
  · rw [h]
    rfl
  · rw [pieces_of_ne_nil h, List.intercalate_splitOn]

theorem pieces_inj {sep : α} {xs ys : List α} (h : pieces sep xs = pieces sep ys) : xs = ys := by
  rw [← intercalate_pieces sep xs, h, intercalate_pieces]

theorem pieces_append_cons {sep : α} (xs : List α) {ys : List α} (hys : ys ≠ []) :
    pieces sep (xs ++ sep :: ys) = xs.splitOn sep ++ pieces sep ys := by
  have hne : xs ++ sep :: ys ≠ [] := by simp
  rw [pieces_of_ne_nil hne, pieces_of_ne_nil hys, List.splitOn_append_cons_self]

theorem isSuffix_pieces_iff {sep : α} {xs ys : List α} (hys : ys ≠ []) :
    pieces sep ys <:+ pieces sep xs ↔ xs = ys ∨ ∃ before, xs = before ++ sep :: ys := by
  constructor
  · rintro ⟨front, hfront⟩
    have hflat : [sep].intercalate (front ++ pieces sep ys) = xs := by
      rw [hfront, intercalate_pieces]
    cases front with
    | nil =>
      left
      rw [← hflat, List.nil_append, intercalate_pieces]
    | cons p ps =>
      cases hsplit : pieces sep ys with
      | nil =>
        have hnil : ys = [] := by rw [← intercalate_pieces sep ys, hsplit]; rfl
        exact absurd hnil hys
      | cons l ls =>
        right
        rw [hsplit, intercalate_append_cons, ← hsplit, intercalate_pieces] at hflat
        exact ⟨_, hflat.symm⟩
  · rintro (rfl | ⟨before, rfl⟩)
    · exact List.suffix_refl _
    · rw [pieces_append_cons before hys]
      exact List.suffix_append _ _

/-- The last piece is empty when the list ends in a separator. -/
theorem getLast_pieces_eq_nil_iff {sep : α} {xs : List α} :
    (pieces sep xs).getLast? = some [] ↔ xs.getLast? = some sep := by
  constructor
  · intro h
    obtain ⟨front, hfront⟩ := List.getLast?_eq_some_iff.mp h
    have hflat : [sep].intercalate (front ++ [[]]) = xs := by rw [← hfront, intercalate_pieces]
    cases front with
    | nil =>
      rw [show xs = [] from hflat.symm] at h
      cases h
    | cons p ps =>
      rw [intercalate_append_cons] at hflat
      rw [← hflat]
      simp
  · intro h
    obtain ⟨front, rfl⟩ := List.getLast?_eq_some_iff.mp h
    rw [pieces_of_ne_nil (by simp), List.splitOn_append_cons_self]
    simp

end Separated
end Dnss
