/-
Association maps: sizes, lookups after an update, and what loops over a list of keys
leave in a map.  `lastOf` is what stays of a list of assignments.
-/
import Mathlib.Data.List.AList
import Mathlib.Data.List.Induction

namespace Dnss
namespace Assoc

variable {α γ ι : Type}

/-! ## Sizes -/

theorem length_entries (m : AList (fun _ : α => γ)) : m.entries.length = m.keys.length :=
  (List.length_map _).symm

variable [DecidableEq α]

theorem length_erase_le (m : AList (fun _ : α => γ)) (a : α) :
    (m.erase a).entries.length ≤ m.entries.length :=
  (List.kerase_sublist a m.entries).length_le

theorem length_erase_of_mem {m : AList (fun _ : α => γ)} {a : α} (h : a ∈ m) :
    (m.erase a).entries.length + 1 = m.entries.length := by
  obtain ⟨b, before, after, -, hentries, herase⟩ := List.exists_of_kerase h
  show (List.kerase a m.entries).length + 1 = m.entries.length
  rw [herase, hentries, List.length_append, List.length_append, List.length_cons]
  omega

theorem length_insert (m : AList (fun _ : α => γ)) (a : α) (c : γ) :
    (m.insert a c).entries.length = (m.erase a).entries.length + 1 :=
  congrArg List.length AList.entries_insert

theorem length_insert_le (m : AList (fun _ : α => γ)) (a : α) (c : γ) :
    (m.insert a c).entries.length ≤ m.entries.length + 1 := by
  rw [length_insert]
  exact Nat.succ_le_succ (length_erase_le m a)

/-! ## Lookups -/

theorem lookup_insert_eq_some {m : AList (fun _ : α => γ)} {a b : α} {c d : γ}
    (h : (m.insert a c).lookup b = some d) : (b = a ∧ d = c) ∨ m.lookup b = some d := by
  by_cases hb : b = a
  · rw [hb, AList.lookup_insert, Option.some.injEq] at h
    exact Or.inl ⟨hb, h.symm⟩
  · rw [AList.lookup_insert_ne hb] at h
    exact Or.inr h

theorem lookup_erase_eq_some {m : AList (fun _ : α => γ)} {a b : α} {d : γ}
    (h : (m.erase a).lookup b = some d) : m.lookup b = some d := by
  by_cases hb : b = a
  · rw [hb, AList.lookup_erase] at h
    cases h
  · rwa [AList.lookup_erase_ne hb] at h

/-! ## Loops -/

/-- Erasing the keys of some elements of a list. -/
theorem lookup_foldl_erase (key : ι → α) (drop : ι → Bool) (is : List ι)
    (m : AList (fun _ : α => γ)) {a : α} {c : γ} :
    (is.foldl (fun m i => if drop i then m.erase (key i) else m) m).lookup a = some c ↔
      m.lookup a = some c ∧ ∀ i ∈ is, key i = a → drop i = false := by
  induction is generalizing m with
  | nil => simp
  | cons i is ih =>
    rw [List.foldl_cons, ih, List.forall_mem_cons]
    by_cases hdrop : drop i = true
    · rw [if_pos hdrop]
      by_cases ha : a = key i
      · subst ha
        simp [hdrop, AList.lookup_erase]
      · have hne : key i ≠ a := fun h => ha h.symm
        simp [AList.lookup_erase_ne ha, hne]
    · rw [if_neg hdrop]
      rw [Bool.not_eq_true] at hdrop
      simp [hdrop]

theorem length_foldl_erase_le (key : ι → α) (drop : ι → Bool) (is : List ι)
    (m : AList (fun _ : α => γ)) :
    (is.foldl (fun m i => if drop i then m.erase (key i) else m) m).entries.length ≤
      m.entries.length := by
  induction is generalizing m with
  | nil => exact Nat.le_refl _
  | cons i is ih =>
    rw [List.foldl_cons]
    by_cases hdrop : drop i = true
    · rw [if_pos hdrop]
      exact Nat.le_trans (ih _) (length_erase_le m (key i))
    · rw [if_neg hdrop]
      exact ih m

/-- Inserting the elements of a list under distinct keys. -/
theorem lookup_foldl_insert {key : ι → α} (value : ι → γ) {is : List ι}
    (hkeys : (is.map key).Nodup) (m : AList (fun _ : α => γ)) {a : α} {c : γ} :
    (is.foldl (fun m i => m.insert (key i) (value i)) m).lookup a = some c ↔
      (∃ i ∈ is, key i = a ∧ value i = c) ∨ (a ∉ is.map key ∧ m.lookup a = some c) := by
  induction is generalizing m with
  | nil => simp
  | cons i is ih =>
    rw [List.map_cons, List.nodup_cons] at hkeys
    rw [List.foldl_cons, ih hkeys.2, List.exists_mem_cons_iff, List.map_cons, List.mem_cons, not_or]
    by_cases ha : a = key i
    · -- The later elements have other keys, so the first one decides.
      have hlater : ¬∃ j ∈ is, key j = a ∧ value j = c := by
        intro hex
        obtain ⟨j, hj, hja, -⟩ := hex
        exact hkeys.1 (ha ▸ hja ▸ List.mem_map_of_mem hj)
      rw [ha, AList.lookup_insert, Option.some.injEq]
      rw [ha] at hlater
      simp [hlater, hkeys.1]
    · rw [AList.lookup_insert_ne ha]
      have hne : key i ≠ a := fun h => ha h.symm
      simp [ha, hne]

/-! ## The last value -/

/-- The last value that the elements of a list give. -/
def lastOf (value : ι → Option γ) (is : List ι) : Option γ :=
  is.foldl (fun last i => (value i).or last) none

omit [DecidableEq α] in
theorem lastOf_snoc (value : ι → Option γ) (is : List ι) (i : ι) :
    lastOf value (is ++ [i]) = (value i).or (lastOf value is) := by
  rw [lastOf, List.foldl_append, List.foldl_cons, List.foldl_nil]
  rfl

omit [DecidableEq α] in
theorem lastOf_cons (value : ι → Option γ) (i : ι) (is : List ι) :
    lastOf value (i :: is) = (lastOf value is).or (value i) := by
  induction is using List.reverseRecOn with
  | nil => exact Option.or_none
  | append_singleton is j ih =>
    rw [← List.cons_append, lastOf_snoc, lastOf_snoc, ih, Option.or_assoc]

omit [DecidableEq α] in
theorem lastOf_map {δ : Type} (g : γ → δ) (value : ι → Option γ) (is : List ι) :
    lastOf (fun i => (value i).map g) is = (lastOf value is).map g := by
  induction is using List.reverseRecOn with
  | nil => rfl
  | append_singleton is i ih =>
    rw [lastOf_snoc, lastOf_snoc, ih]
    cases value i with
    | none => rfl
    | some c => rfl

omit [DecidableEq α] in
/-- A setting after a loop each of whose steps gives it a value or leaves it alone. -/
theorem get_foldl {σ : Type} (get : σ → γ) {step : σ → ι → σ} {value : ι → Option γ}
    (hstep : ∀ s i, get (step s i) = (value i).getD (get s)) (s : σ) (is : List ι) :
    get (is.foldl step s) = (lastOf value is).getD (get s) := by
  induction is using List.reverseRecOn with
  | nil => rfl
  | append_singleton is i ih =>
    rw [List.foldl_append, List.foldl_cons, List.foldl_nil, hstep, lastOf_snoc, ih]
    cases value i with
    | none => rfl
    | some c => rfl

/-- Of the assignments that a map was made from it has the last ones. -/
theorem lookup_foldl_pairs (is : List (α × γ)) (a : α) :
    (is.foldl (fun m i => m.insert i.1 i.2) (∅ : AList (fun _ : α => γ))).lookup a =
      lastOf (fun i => if i.1 = a then some i.2 else none) is := by
  induction is using List.reverseRecOn with
  | nil => exact AList.lookup_empty a
  | append_singleton is i ih =>
    rw [List.foldl_append, List.foldl_cons, List.foldl_nil, lastOf_snoc]
    by_cases ha : i.1 = a
    · rw [if_pos ha, ← ha, AList.lookup_insert]
      rfl
    · rw [if_neg ha, AList.lookup_insert_ne (Ne.symm ha), ih]
      rfl

/-- In a map every key has one value, so the last one is that of a lookup. -/
theorem lastOf_entries (m : AList (fun _ : α => γ)) (a : α) :
    lastOf (fun i : (_ : α) × γ => if i.1 = a then some i.2 else none) m.entries = m.lookup a := by
  obtain ⟨entries, hnodup⟩ := m
  show _ = List.dlookup a entries
  induction entries with
  | nil => rfl
  | cons i entries ih =>
    rw [List.nodupKeys_cons] at hnodup
    rw [lastOf_cons, ih hnodup.2]
    by_cases ha : i.1 = a
    · have hnone : List.dlookup a entries = none := by
        rw [List.dlookup_eq_none, ← ha]
        exact hnodup.1
      rw [if_pos ha, hnone, ← ha]
      exact (List.dlookup_cons_eq entries i.1 i.2).symm
    · rw [if_neg ha, Option.or_none, List.dlookup_cons_ne entries i (Ne.symm ha)]

end Assoc
end Dnss
