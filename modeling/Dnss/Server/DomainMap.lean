/-
`DomainMap`: the override servers, by domain.

Keys are kept in the canonical form that `canonicalize` gives a domain, lower case
with a dot at the end.  `getMostSpecific` walks the whole map and keeps the covering
key with the most labels.  The `std::map` is an association list here; the walk
prefers a key only for its label count, and `getMostSpecific_eq_none_iff` does not
depend on the order.
-/
import Mathlib.Data.List.AList
import Dnss.Protocol.Message

namespace Dnss

def canonicalize (domain : Bytes) : Bytes :=
  if domain = [] then [dot]
  else (if domain.getLast? = some dot then domain else domain ++ [dot]).map tolower

def countLabels (domain : Bytes) : Nat := domain.count dot

/-- `sub` is `domain` or lies under it; both are canonical. -/
def isSubDomain (sub domain : Bytes) : Bool :=
  if sub = domain then true
  else if sub.length ≤ domain.length then false
  else if sub.drop (sub.length - domain.length) ≠ domain then false
  else sub[sub.length - domain.length - 1]? = some dot

/-- The map, whose keys are canonical. -/
structure DomainMap where
  map : AList (fun _ : Bytes => Bytes)
  canonical : ∀ key ∈ map, ∃ domain, key = canonicalize domain

namespace DomainMap

def empty : DomainMap := { map := ∅, canonical := fun _ h => by cases h }

def set (m : DomainMap) (domain value : Bytes) : DomainMap where
  map := m.map.insert (canonicalize domain) value
  canonical := by
    intro key hkey
    rcases (AList.mem_insert m.map).mp hkey with rfl | hold
    · exact ⟨domain, rfl⟩
    · exact m.canonical key hold

/-- One pass of the loop of `getMostSpecific`, over `bestCount` and the value found
so far. -/
def mostSpecificStep (d : Bytes) (best : Nat × Option Bytes) (item : (_ : Bytes) × Bytes) :
    Nat × Option Bytes :=
  if !isSubDomain d item.1 then best
  else if best.1 < countLabels item.1 then (countLabels item.1, some item.2)
  else best

def getMostSpecific (m : DomainMap) (domain : Bytes) : Option Bytes :=
  (m.map.entries.foldl (mostSpecificStep (canonicalize domain)) (0, none)).2

/-! ## When nothing covers a name -/

theorem getLast_canonicalize (domain : Bytes) :
    (canonicalize domain).getLast? = some dot := by
  have htolower : tolower dot = dot := by decide
  unfold canonicalize
  by_cases hnil : domain = []
  · rw [if_pos hnil]
    rfl
  · rw [if_neg hnil]
    by_cases hdot : domain.getLast? = some dot
    · rw [if_pos hdot, List.getLast?_map, hdot, Option.map_some, htolower]
    · rw [if_neg hdot, List.getLast?_map, List.getLast?_concat, Option.map_some, htolower]

/-- A canonical domain has a dot, so it counts at least one label. -/
theorem countLabels_canonicalize_pos (domain : Bytes) : 0 < countLabels (canonicalize domain) :=
  List.count_pos_iff.mpr (List.mem_of_getLast? (getLast_canonicalize domain))

/-- A walk that has found something ends with something. -/
theorem foldl_mostSpecificStep_ne_none {d : Bytes} {items : List ((_ : Bytes) × Bytes)}
    {best : Nat × Option Bytes} (h : best.2 ≠ none) :
    (items.foldl (mostSpecificStep d) best).2 ≠ none := by
  induction items generalizing best with
  | nil => exact h
  | cons item items ih =>
    rw [List.foldl_cons]
    apply ih
    unfold mostSpecificStep
    split
    · exact h
    · split
      · exact Option.some_ne_none _
      · exact h

theorem foldl_mostSpecificStep_eq_none_iff {d : Bytes} {items : List ((_ : Bytes) × Bytes)}
    (hcount : ∀ item ∈ items, 0 < countLabels item.1) :
    (items.foldl (mostSpecificStep d) (0, none)).2 = none ↔
      ∀ item ∈ items, isSubDomain d item.1 = false := by
  induction items with
  | nil => simp
  | cons item items ih =>
    rw [List.forall_mem_cons] at hcount
    rw [List.foldl_cons, List.forall_mem_cons, ← ih hcount.2]
    by_cases hsub : isSubDomain d item.1 = true
    · -- The first covering key has a label, so it is taken.
      have hstep : mostSpecificStep d (0, none) item = (countLabels item.1, some item.2) := by
        simp [mostSpecificStep, hsub, hcount.1]
      rw [hstep]
      have hfound : (items.foldl (mostSpecificStep d) (countLabels item.1, some item.2)).2 ≠ none :=
        foldl_mostSpecificStep_ne_none (Option.some_ne_none _)
      simp [hfound, hsub]
    · rw [Bool.not_eq_true] at hsub
      have hstep : mostSpecificStep d (0, none) item = (0, none) := by
        simp [mostSpecificStep, hsub]
      rw [hstep]
      simp [hsub]

/-- No server is found exactly when no key covers the name. -/
theorem getMostSpecific_eq_none_iff {m : DomainMap} {domain : Bytes} :
    m.getMostSpecific domain = none ↔
      ∀ key ∈ m.map, isSubDomain (canonicalize domain) key = false := by
  have hmem : ∀ item ∈ m.map.entries, item.1 ∈ m.map := fun item h =>
    List.mem_map_of_mem (f := Sigma.fst) h
  have hcount : ∀ item ∈ m.map.entries, 0 < countLabels item.1 := by
    intro item hitem
    obtain ⟨domain', hkey⟩ := m.canonical item.1 (hmem item hitem)
    rw [hkey]
    exact countLabels_canonicalize_pos domain'
  rw [getMostSpecific, foldl_mostSpecificStep_eq_none_iff hcount]
  constructor
  · intro h key hkey
    obtain ⟨item, hitem, rfl⟩ := List.mem_map.mp hkey
    exact h item hitem
  · intro h item hitem
    exact h item.1 (hmem item hitem)

end DomainMap
end Dnss
