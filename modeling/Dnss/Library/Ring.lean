/-
Rings: indices that run on and are taken modulo the number of slots.

A ring of `w` slots is written with an index that only grows, and write `k` goes to slot
`k % w`.  `Holds` says what is left of a sequence of writes: the last `w` of them, each in its
slot.  It is kept by every write (`Holds.push`), and reading back from the index gives the end
of the sequence (`Holds.window`).

`w` indices in a row meet every slot once, wherever they begin (`rotation_perm`).
-/
import Mathlib.Data.List.Perm.Subperm
import Mathlib.Data.List.Nodup
import Mathlib.Data.List.Range
import Mathlib.Data.Nat.ModEq

namespace Dnss
namespace Ring

/-- Two indices less than `w` apart are in different slots. -/
theorem add_mod_inj {w start i j : Nat} (hi : i < w) (hj : j < w)
    (h : (start + i) % w = (start + j) % w) : i = j := by
  have hmod : Nat.ModEq w i j := Nat.ModEq.add_left_cancel' start h
  rwa [Nat.ModEq, Nat.mod_eq_of_lt hi, Nat.mod_eq_of_lt hj] at hmod

theorem rotation_perm (start w : Nat) :
    ((List.range w).map fun i => (start + i) % w).Perm (List.range w) := by
  have hnodup : ((List.range w).map fun i => (start + i) % w).Nodup := by
    refine List.Nodup.map_on ?_ List.nodup_range
    intro i hi j hj h
    exact add_mod_inj (List.mem_range.mp hi) (List.mem_range.mp hj) h
  have hsubset : ((List.range w).map fun i => (start + i) % w) ⊆ List.range w := by
    intro k hk
    obtain ⟨i, hi, rfl⟩ := List.mem_map.mp hk
    rw [List.mem_range] at hi ⊢
    exact Nat.mod_lt _ (by omega)
  have hlength : ((List.range w).map fun i => (start + i) % w).length = (List.range w).length := by
    rw [List.length_map]
  exact (List.subperm_of_subset hnodup hsubset).perm_of_length_le (Nat.le_of_eq hlength.symm)

section Slots

variable {α : Type} {w : Nat}

theorem get_set (slots : Vector α w) (i j : Fin w) (a : α) :
    (slots.set i a i.isLt).get j = if i = j then a else slots.get j := by
  show (slots.set i a i.isLt)[j.val] = _
  rw [Vector.getElem_set]
  simp only [Fin.ext_iff]
  rfl

variable [NeZero w]

/-- The slot of write `k`. -/
def slot (k : Nat) : Fin w := Fin.ofNat w k

/-- The slots hold the last `w` elements of `xs`, each in the slot of its number. -/
def Holds (slots : Vector α w) (xs : List α) : Prop :=
  ∀ k x, xs[k]? = some x → xs.length ≤ k + w → slots.get (slot k) = x

theorem holds_nil (slots : Vector α w) : Holds slots [] := by
  intro k x hk
  simp at hk

theorem Holds.push {slots : Vector α w} {xs : List α} (h : Holds slots xs) (a : α) :
    Holds (slots.set (slot xs.length : Fin w) a (slot xs.length : Fin w).isLt) (xs ++ [a]) := by
  intro k x hk hlast
  rw [List.length_append, List.length_singleton] at hlast
  rw [get_set]
  rcases Nat.lt_trichotomy k xs.length with hlt | rfl | hgt
  · have hne : ¬ (slot xs.length : Fin w) = slot k := by
      intro heq
      -- The old element would have to be in the slot that is written.
      have hmod : (k + (xs.length - k)) % w = (k + 0) % w := by
        rw [Nat.add_sub_cancel' (Nat.le_of_lt hlt)]
        exact congrArg Fin.val heq
      have hzero := add_mod_inj (by omega) (by omega) hmod
      omega
    rw [List.getElem?_append_left hlt] at hk
    rw [if_neg hne]
    exact h k x hk (by omega)
  · rw [List.getElem?_concat_length, Option.some.injEq] at hk
    rw [if_pos rfl, hk]
  · rw [List.getElem?_eq_none (by simp; omega)] at hk
    cases hk

/-- Reading `c` slots up to the index gives the last `c` elements, oldest first. -/
theorem Holds.window {slots : Vector α w} {xs : List α} {c : Nat} (h : Holds slots xs)
    (hslots : c ≤ w) (hxs : c ≤ xs.length) :
    ((List.range c).map fun i => slots.get (slot (xs.length - c + i))) =
      xs.drop (xs.length - c) := by
  refine List.ext_getElem? fun i => ?_
  rcases Nat.lt_or_ge i c with hlt | hge
  · have hin : xs.length - c + i < xs.length := by omega
    rw [List.getElem?_map, List.getElem?_range hlt, Option.map_some, List.getElem?_drop,
      List.getElem?_eq_getElem hin]
    congr 1
    exact h _ _ (List.getElem?_eq_getElem hin) (by omega)
  · rw [List.getElem?_eq_none, List.getElem?_eq_none]
    · rw [List.length_drop]
      omega
    · rw [List.length_map, List.length_range]
      exact hge

end Slots

end Ring
end Dnss
