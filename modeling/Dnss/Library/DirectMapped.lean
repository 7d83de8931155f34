/-
A direct-mapped table.

Every tag has one slot, given by `index`, and a slot remembers the tag and the
value of its last insertion.  A lookup compares tags, so it never returns a value
inserted under another tag; insertions under a tag that shares the slot only make
it miss.
-/
import Mathlib.Tactic.Common
import Mathlib.Logic.Function.Basic

namespace Dnss
namespace DirectMapped

variable {ι τ ν : Type}

structure Slot (τ ν : Type) where
  tag : τ
  value : Option ν

/-- One slot for each index. -/
abbrev Table (ι τ ν : Type) := ι → Slot τ ν

variable [DecidableEq ι] [DecidableEq τ]

def lookup (index : τ → ι) (t : Table ι τ ν) (tag : τ) : Option ν :=
  if (t (index tag)).tag = tag then (t (index tag)).value else none

def insert (index : τ → ι) (t : Table ι τ ν) (tag : τ) (v : ν) : Table ι τ ν :=
  Function.update t (index tag) ⟨tag, some v⟩

variable {index : τ → ι} {t : Table ι τ ν}

omit [DecidableEq ι] in
theorem lookup_of_empty (tag : τ) (h : ∀ i, (t i).value = none) : lookup index t tag = none := by
  rw [lookup, h]
  exact ite_self none

@[simp] theorem lookup_insert_self (tag : τ) (v : ν) :
    lookup index (insert index t tag v) tag = some v := by
  rw [lookup, insert, Function.update_self, if_pos rfl]

/-- After an insertion a lookup returns the new value, or what it returned
before, or nothing. -/
theorem lookup_insert_eq_some {tag tag' : τ} {v w : ν}
    (h : lookup index (insert index t tag v) tag' = some w) :
    (tag' = tag ∧ w = v) ∨ (tag' ≠ tag ∧ lookup index t tag' = some w) := by
  by_cases htag : tag' = tag
  · subst htag
    rw [lookup_insert_self, Option.some.injEq] at h
    exact Or.inl ⟨rfl, h.symm⟩
  · refine Or.inr ⟨htag, ?_⟩
    by_cases hslot : index tag' = index tag
    · -- The other insertion took the slot, so the tags differ and the lookup misses.
      rw [lookup, insert, hslot, Function.update_self, if_neg (Ne.symm htag)] at h
      cases h
    · rwa [lookup, insert, Function.update_of_ne hslot] at h

/-- An insertion into another slot does not show. -/
theorem lookup_insert_of_ne {tag tag' : τ} (v : ν) (h : index tag' ≠ index tag) :
    lookup index (insert index t tag v) tag' = lookup index t tag' := by
  rw [lookup, lookup, insert, Function.update_of_ne h]

end DirectMapped
end Dnss
