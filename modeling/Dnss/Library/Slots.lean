/-
Lists that are written in place.

The workers of a pool and the entries of a table are lists of slots, and a step writes one
slot or removes it.  What is counted or collected over the list then changes by what the old
element and the new one contribute (`countP_set_add`, `filterMap_set_perm`).  The equations
are additive, so that no subtraction of natural numbers is left to the proofs that use them.
-/
import Mathlib.Data.List.Induction
import Mathlib.Data.List.Perm.Basic

namespace Dnss
namespace Slots

variable {α β : Type} {l : List α} {i : Nat} {a : α}

theorem perm_cons_eraseIdx (h : l[i]? = some a) : l.Perm (a :: l.eraseIdx i) := by
  obtain ⟨hlt, rfl⟩ := List.getElem?_eq_some_iff.mp h
  exact (List.getElem_cons_eraseIdx_perm hlt).symm

theorem set_perm (h : l[i]? = some a) (b : α) : (l.set i b).Perm (b :: l.eraseIdx i) :=
  List.set_perm_cons_eraseIdx (List.getElem?_eq_some_iff.mp h).1 b

theorem getElem?_set_eq (h : l[i]? = some a) (b : α) (j : Nat) :
    (l.set i b)[j]? = if i = j then some b else l[j]? := by
  rw [List.getElem?_set, if_pos (List.getElem?_eq_some_iff.mp h).1]

theorem countP_eraseIdx_add (p : α → Bool) (h : l[i]? = some a) :
    (l.eraseIdx i).countP p + (if p a then 1 else 0) = l.countP p := by
  rw [(perm_cons_eraseIdx h).countP_eq p, List.countP_cons]

theorem countP_set_add (p : α → Bool) (h : l[i]? = some a) (b : α) :
    (l.set i b).countP p + (if p a then 1 else 0) = l.countP p + if p b then 1 else 0 := by
  have hrest := countP_eraseIdx_add p h
  rw [(set_perm h b).countP_eq p, List.countP_cons]
  omega

/-- Slots with different numbers count one each. -/
theorem length_le_countP (p : α → Bool) {b : α} (hb : p b = false) {is : List Nat}
    (hnodup : is.Nodup) (his : ∀ i ∈ is, ∃ a, l[i]? = some a ∧ p a = true) :
    is.length ≤ l.countP p := by
  induction is generalizing l with
  | nil => exact Nat.zero_le _
  | cons i is ih =>
    rw [List.nodup_cons] at hnodup
    rw [List.forall_mem_cons] at his
    obtain ⟨⟨a, hi, ha⟩, his⟩ := his
    -- Without slot `i` the others are still there.
    have hrest : ∀ j ∈ is, ∃ a, (l.set i b)[j]? = some a ∧ p a = true := by
      intro j hj
      have hne : i ≠ j := fun h => hnodup.1 (h ▸ hj)
      rw [getElem?_set_eq hi, if_neg hne]
      exact his j hj
    have hle := ih hnodup.2 hrest
    have hset := countP_set_add p hi b
    rw [ha, hb, if_pos rfl, if_neg (by decide)] at hset
    rw [List.length_cons]
    omega

/-- Numbers that cover the slots are at least as many. -/
theorem countP_le_length (p : α → Bool) {is : List Nat}
    (his : ∀ i a, l[i]? = some a → p a = true → i ∈ is) : l.countP p ≤ is.length := by
  induction l using List.reverseRecOn generalizing is with
  | nil => exact Nat.zero_le _
  | append_singleton l a ih =>
    have hold : ∀ i b, l[i]? = some b → p b = true → i ∈ is.erase l.length := by
      intro i b hi hb
      have hlt := (List.getElem?_eq_some_iff.mp hi).1
      have hmem := his i b (by rw [List.getElem?_append_left hlt, hi]) hb
      exact (List.mem_erase_of_ne (Nat.ne_of_lt hlt)).mpr hmem
    have hle := ih hold
    rw [List.countP_append, List.countP_singleton]
    by_cases ha : p a = true
    · have hlast : l.length ∈ is := his l.length a List.getElem?_concat_length ha
      have hpos := List.length_pos_of_mem hlast
      rw [List.length_erase_of_mem hlast] at hle
      rw [if_pos ha]
      omega
    · have hsub := List.length_erase_le (a := l.length) (l := is)
      rw [if_neg ha]
      omega

theorem filterMap_cons_eq (f : α → Option β) (a : α) (l : List α) :
    (a :: l).filterMap f = (f a).toList ++ l.filterMap f := by
  rw [List.filterMap_cons]
  cases f a <;> rfl

theorem filterMap_set_perm (f : α → Option β) (h : l[i]? = some a) (b : α) :
    ((f a).toList ++ (l.set i b).filterMap f).Perm ((f b).toList ++ l.filterMap f) := by
  have hold := (perm_cons_eraseIdx h).filterMap f
  have hnew := (set_perm h b).filterMap f
  rw [filterMap_cons_eq] at hold hnew
  -- Both sides are the rest of the list with the old and the new contribution.
  refine (hnew.append_left _).trans ?_
  refine (List.perm_append_comm_assoc _ _ _).trans ?_
  exact hold.symm.append_left _

end Slots
end Dnss
