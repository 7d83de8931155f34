/-
What `getMostSpecific` finds, in terms of labels.

`labelList` is the list of the labels of a domain in lower case, and it is empty for the
root.  A key covers a domain when its labels are a suffix of the labels of the domain, and
the most specific key is the longest one.  The code compares the canonical texts.  For a
key with labels this is the same, and the number of dots is the number of labels.

The root is the exception.  Its key is the lone dot, and `isSubDomain` wants one more dot
in front of the key, so the root covers only the root and the names that end in an empty
label.  `getMostSpecific_isMostSpecific_iff` says for every sequence of `set` calls and every
domain that this is all that goes wrong.
-/
import Mathlib.Data.List.Induction
import Dnss.Library.Separated
import Dnss.Server.DomainMap

namespace Dnss

open Separated

/-! ## Labels -/

/-- The canonical form without its last dot. -/
def stem (domain : Bytes) : Bytes :=
  (if domain.getLast? = some dot then domain.dropLast else domain).map tolower

/-- The labels in lower case; the root has none. -/
def labelList (domain : Bytes) : List Bytes := pieces dot (stem domain)

theorem tolower_eq_dot_iff (c : UInt8) : tolower c = dot ↔ c = dot := by
  revert c
  refine Word.forall_byte ?_
  decide +kernel

theorem canonicalize_eq_stem (domain : Bytes) : canonicalize domain = stem domain ++ [dot] := by
  have htolower : tolower dot = dot := (tolower_eq_dot_iff dot).mpr rfl
  unfold canonicalize stem
  by_cases hnil : domain = []
  · rw [hnil]
    rfl
  · rw [if_neg hnil]
    by_cases hdot : domain.getLast? = some dot
    · obtain ⟨front, rfl⟩ := List.getLast?_eq_some_iff.mp hdot
      simp [htolower]
    · rw [if_neg hdot, if_neg hdot, List.map_append, List.map_singleton, htolower]

theorem labelList_inj {d d' : Bytes} (h : labelList d = labelList d') : stem d = stem d' :=
  pieces_inj h

theorem canonicalize_eq_iff {d d' : Bytes} :
    canonicalize d = canonicalize d' ↔ labelList d = labelList d' := by
  rw [canonicalize_eq_stem, canonicalize_eq_stem, List.append_left_inj]
  constructor
  · intro h
    rw [labelList, h, labelList]
  · exact labelList_inj

theorem labelList_eq_nil_iff {d : Bytes} : labelList d = [] ↔ stem d = [] := by
  constructor
  · intro h
    exact pieces_inj (h.trans (pieces_nil dot).symm)
  · intro h
    rw [labelList, h, pieces_nil]

theorem length_labelList {d : Bytes} (h : labelList d ≠ []) :
    (labelList d).length = (stem d).count dot + 1 := by
  rw [labelList, pieces_of_ne_nil (fun hnil => h (labelList_eq_nil_iff.mpr hnil)), length_splitOn]

theorem countLabels_canonicalize (d : Bytes) :
    countLabels (canonicalize d) = (stem d).count dot + 1 := by
  rw [countLabels, canonicalize_eq_stem, List.count_append]
  rfl

/-- The number of dots is the number of labels, and one for the root. -/
theorem countLabels_eq_length {d : Bytes} (h : labelList d ≠ []) :
    countLabels (canonicalize d) = (labelList d).length := by
  rw [countLabels_canonicalize, length_labelList h]

theorem countLabels_root {d : Bytes} (h : labelList d = []) :
    countLabels (canonicalize d) = 1 := by
  rw [countLabels_canonicalize, labelList_eq_nil_iff.mp h]
  rfl

/-! ## Covering keys -/

/-- What `isSubDomain` decides: the key begins at the start of the domain or right after a
dot. -/
theorem isSubDomain_iff {sub domain : Bytes} :
    isSubDomain sub domain = true ↔ sub = domain ∨ ∃ front, sub = front ++ dot :: domain := by
  unfold isSubDomain
  constructor
  · intro h
    split at h
    · next heq => exact .inl heq
    · split at h
      · cases h
      · next hlen =>
        split at h
        · cases h
        · next hdrop =>
          right
          rw [not_not] at hdrop
          have hlast : sub[sub.length - domain.length - 1]? = some dot := by simpa using h
          obtain ⟨hi, hget⟩ := List.getElem?_eq_some_iff.mp hlast
          have hsucc : sub.length - domain.length - 1 + 1 = sub.length - domain.length := by omega
          have hcons := List.drop_eq_getElem_cons hi
          rw [hget, hsucc, hdrop] at hcons
          refine ⟨sub.take (sub.length - domain.length - 1), ?_⟩
          rw [← hcons, List.take_append_drop]
  · rintro (rfl | ⟨front, rfl⟩)
    · rw [if_pos rfl]
    · have hdiff : (front ++ dot :: domain).length - domain.length = front.length + 1 := by
        rw [List.length_append, List.length_cons]
        omega
      have hne : front ++ dot :: domain ≠ domain := by
        intro heq
        have hlen := congrArg List.length heq
        rw [List.length_append, List.length_cons] at hlen
        omega
      have hlen : ¬ (front ++ dot :: domain).length ≤ domain.length := by
        rw [List.length_append, List.length_cons]
        omega
      rw [if_neg hne, if_neg hlen, hdiff]
      simp

theorem isSubDomain_canonicalize_iff {d key : Bytes} :
    isSubDomain (canonicalize d) (canonicalize key) = true ↔
      stem d = stem key ∨ ∃ front, stem d = front ++ dot :: stem key := by
  rw [isSubDomain_iff, canonicalize_eq_stem, canonicalize_eq_stem, List.append_left_inj]
  refine or_congr Iff.rfl (exists_congr fun front => ?_)
  rw [← List.cons_append, ← List.append_assoc, List.append_left_inj]

/-- A key with labels covers a domain exactly when its labels are a suffix. -/
theorem isSubDomain_iff_isSuffix {d key : Bytes} (hkey : labelList key ≠ []) :
    isSubDomain (canonicalize d) (canonicalize key) = true ↔ labelList key <:+ labelList d := by
  have hne : stem key ≠ [] := fun h => hkey (labelList_eq_nil_iff.mpr h)
  rw [isSubDomain_canonicalize_iff, labelList, labelList, isSuffix_pieces_iff hne]

/-- The root covers only the root and the names that end in an empty label. -/
theorem isSubDomain_root_iff {d key : Bytes} (hkey : labelList key = []) :
    isSubDomain (canonicalize d) (canonicalize key) = true ↔
      labelList d = [] ∨ (labelList d).getLast? = some [] := by
  rw [isSubDomain_canonicalize_iff, labelList_eq_nil_iff.mp hkey, labelList_eq_nil_iff, labelList,
    getLast_pieces_eq_nil_iff, List.getLast?_eq_some_iff]

theorem isSuffix_of_isSubDomain {d key : Bytes}
    (h : isSubDomain (canonicalize d) (canonicalize key) = true) :
    labelList key <:+ labelList d := by
  by_cases hkey : labelList key = []
  · rw [hkey]
    exact List.nil_suffix
  · exact (isSubDomain_iff_isSuffix hkey).mp h

/-- A label list does not end in an empty label and in a lone label that is not empty, so
the root and a key of one label do not cover the same domain. -/
theorem two_le_of_root_covers {d key : Bytes} (hkey : labelList key ≠ [])
    (hcovers : labelList key <:+ labelList d)
    (hroot : labelList d = [] ∨ (labelList d).getLast? = some []) :
    2 ≤ (labelList key).length := by
  have hpos : 0 < (labelList key).length := List.length_pos_iff.mpr hkey
  by_contra hlt
  obtain ⟨label, hlabel⟩ := List.length_eq_one_iff.mp (show (labelList key).length = 1 by omega)
  have hlast : (labelList d).getLast? = some label := by
    obtain ⟨front, hfront⟩ := hcovers
    rw [← hfront, hlabel, List.getLast?_concat]
  rcases hroot with hroot | hroot
  · rw [hroot] at hlast
    cases hlast
  · rw [hlast, Option.some.injEq] at hroot
    -- The only label would be empty, and the key would be the root.
    have hstem : stem key = [] := by
      rw [← intercalate_pieces dot (stem key)]
      rw [show pieces dot (stem key) = [label] from hlabel, hroot]
      rfl
    exact hkey (labelList_eq_nil_iff.mpr hstem)

/-! ## The specification -/

/-- What a lookup of `d` must find among entries that give values to label lists. -/
def IsMostSpecific (entry : List Bytes → Bytes → Prop) (d : Bytes) : Option Bytes → Prop
  | none => ∀ ls v, entry ls v → ¬ ls <:+ labelList d
  | some v => ∃ ls, entry ls v ∧ ls <:+ labelList d ∧
      ∀ ls' v', entry ls' v' → ls' <:+ labelList d → ls'.length ≤ ls.length

/-- The root is not set, or something covers `d` in the code too. -/
def RootReaches (entry : List Bytes → Bytes → Prop) (d : Bytes) : Prop :=
  (∃ v, entry [] v) →
    labelList d = [] ∨ (labelList d).getLast? = some [] ∨
      ∃ ls v, entry ls v ∧ ls ≠ [] ∧ ls <:+ labelList d

namespace DomainMap

/-- The map gives `v` to the domains with these labels. -/
def Entry (m : DomainMap) (ls : List Bytes) (v : Bytes) : Prop :=
  ∃ domain, labelList domain = ls ∧ m.map.lookup (canonicalize domain) = some v

/-- The map that a sequence of `set` calls builds. -/
def ofSets (sets : List (Bytes × Bytes)) : DomainMap :=
  sets.foldl (fun m s => m.set s.1 s.2) empty

/-- The value that was last set for a label list. -/
def lastSet (sets : List (Bytes × Bytes)) (ls : List Bytes) : Option Bytes :=
  (sets.reverse.find? (fun s => labelList s.1 = ls)).map Prod.snd

/-! ## The walk -/

/-- The walk ends with a covering key of the largest count, if one covers. -/
structure Best (d : Bytes) (items : List ((_ : Bytes) × Bytes)) (best : Nat × Option Bytes) :
    Prop where
  found : ∀ v, best.2 = some v → ∃ item ∈ items,
    item.2 = v ∧ isSubDomain d item.1 = true ∧ countLabels item.1 = best.1
  largest : ∀ item ∈ items, isSubDomain d item.1 = true → countLabels item.1 ≤ best.1

theorem best_foldl (d : Bytes) (items : List ((_ : Bytes) × Bytes)) :
    Best d items (items.foldl (mostSpecificStep d) (0, none)) := by
  induction items using List.reverseRecOn with
  | nil =>
    refine ⟨fun v h => ?_, fun item h => ?_⟩
    · cases h
    · cases h
  | append_singleton items item ih =>
    rw [List.foldl_append, List.foldl_cons, List.foldl_nil]
    generalize items.foldl (mostSpecificStep d) (0, none) = best at ih
    have hold : ∀ v, best.2 = some v → ∃ i ∈ items ++ [item],
        i.2 = v ∧ isSubDomain d i.1 = true ∧ countLabels i.1 = best.1 := by
      intro v hv
      obtain ⟨i, hi, hrest⟩ := ih.found v hv
      exact ⟨i, List.mem_append_left _ hi, hrest⟩
    have hlargest : ∀ n, best.1 ≤ n → (isSubDomain d item.1 = true → countLabels item.1 ≤ n) →
        ∀ i ∈ items ++ [item], isSubDomain d i.1 = true → countLabels i.1 ≤ n := by
      intro n hn hlast i hi hsub
      rcases List.mem_append.mp hi with hi | hi
      · exact Nat.le_trans (ih.largest i hi hsub) hn
      · rw [List.mem_singleton.mp hi] at hsub ⊢
        exact hlast hsub
    unfold mostSpecificStep
    by_cases hsub : isSubDomain d item.1 = true
    · rw [hsub, Bool.not_true, if_neg Bool.false_ne_true]
      by_cases hlt : best.1 < countLabels item.1
      · rw [if_pos hlt]
        refine ⟨fun v hv => ⟨item, by simp, ?_, hsub, rfl⟩,
          hlargest _ (Nat.le_of_lt hlt) fun _ => Nat.le_refl _⟩
        exact Option.some.inj hv
      · rw [if_neg hlt]
        exact ⟨hold, hlargest _ (Nat.le_refl _) fun _ => Nat.le_of_not_lt hlt⟩
    · have hfalse : isSubDomain d item.1 = false := by simpa using hsub
      rw [hfalse, Bool.not_false, if_pos rfl]
      exact ⟨hold, hlargest _ (Nat.le_refl _) fun h => absurd h hsub⟩

/-! ## Entries of the map -/

theorem entry_of_mem {m : DomainMap} {item : (_ : Bytes) × Bytes} (h : item ∈ m.map.entries) :
    ∃ domain, item.1 = canonicalize domain ∧ m.Entry (labelList domain) item.2 := by
  obtain ⟨domain, hdomain⟩ := m.canonical item.1 (List.mem_map_of_mem (f := Sigma.fst) h)
  refine ⟨domain, hdomain, domain, rfl, ?_⟩
  rw [← hdomain]
  exact AList.mem_lookup_iff.mpr h

theorem mem_of_lookup {m : DomainMap} {domain v : Bytes}
    (h : m.map.lookup (canonicalize domain) = some v) :
    (⟨canonicalize domain, v⟩ : (_ : Bytes) × Bytes) ∈ m.map.entries :=
  AList.mem_lookup_iff.mp h

theorem lookup_ofSets (sets : List (Bytes × Bytes)) (domain : Bytes) :
    (ofSets sets).map.lookup (canonicalize domain) = lastSet sets (labelList domain) := by
  induction sets using List.reverseRecOn with
  | nil => rfl
  | append_singleton sets s ih =>
    have hstep : (ofSets (sets ++ [s])).map = (ofSets sets).map.insert (canonicalize s.1) s.2 := by
      rw [ofSets, List.foldl_append]
      rfl
    rw [hstep, lastSet, List.reverse_append, List.reverse_singleton, List.singleton_append,
      List.find?_cons]
    by_cases heq : labelList s.1 = labelList domain
    · rw [← canonicalize_eq_iff.mpr heq, AList.lookup_insert]
      simp [heq]
    · have hne : canonicalize domain ≠ canonicalize s.1 := by
        intro h
        exact heq (canonicalize_eq_iff.mp h).symm
      rw [AList.lookup_insert_ne hne, ih]
      simp [heq, lastSet]

/-- The entries of the map are the last values that were set. -/
theorem entry_ofSets_iff {sets : List (Bytes × Bytes)} {ls : List Bytes} {v : Bytes} :
    (ofSets sets).Entry ls v ↔ lastSet sets ls = some v := by
  constructor
  · rintro ⟨domain, rfl, hlookup⟩
    rw [← hlookup, lookup_ofSets]
  · intro h
    obtain ⟨s, hs, -⟩ := Option.map_eq_some_iff.mp h
    have hls : labelList s.1 = ls := by simpa using List.find?_some hs
    refine ⟨s.1, hls, ?_⟩
    rw [lookup_ofSets, hls, h]

/-! ## The lookup -/

/-- A value that is found comes from a covering entry with the largest count. -/
theorem getMostSpecific_eq_some {m : DomainMap} {d v : Bytes} (h : m.getMostSpecific d = some v) :
    ∃ key, m.Entry (labelList key) v ∧ isSubDomain (canonicalize d) (canonicalize key) = true ∧
      ∀ key' v', m.map.lookup (canonicalize key') = some v' →
        isSubDomain (canonicalize d) (canonicalize key') = true →
        countLabels (canonicalize key') ≤ countLabels (canonicalize key) := by
  have hbest := best_foldl (canonicalize d) m.map.entries
  obtain ⟨item, hitem, rfl, hsub, hcount⟩ := hbest.found v h
  obtain ⟨key, hkey, hentry⟩ := entry_of_mem hitem
  rw [hkey] at hsub hcount
  refine ⟨key, hentry, hsub, fun key' v' hlookup hsub' => ?_⟩
  rw [hcount]
  exact hbest.largest _ (mem_of_lookup hlookup) hsub'

theorem getMostSpecific_ne_none_of_covers {m : DomainMap} {d key v : Bytes}
    (hlookup : m.map.lookup (canonicalize key) = some v)
    (hsub : isSubDomain (canonicalize d) (canonicalize key) = true) :
    m.getMostSpecific d ≠ none := by
  intro hnone
  have hmem : canonicalize key ∈ m.map := AList.lookup_isSome.mp (by rw [hlookup]; rfl)
  have hfalse := getMostSpecific_eq_none_iff.mp hnone _ hmem
  rw [hsub] at hfalse
  cases hfalse

/-- The lookup finds the most specific entry of the map unless the root is set and must be
reached. -/
theorem isMostSpecific_iff {m : DomainMap} {d : Bytes} :
    IsMostSpecific m.Entry d (m.getMostSpecific d) ↔ RootReaches m.Entry d := by
  cases hfound : m.getMostSpecific d with
  | none =>
    constructor
    · rintro h ⟨v, hroot⟩
      exact absurd List.nil_suffix (h [] v hroot)
    · rintro h ls v ⟨key, rfl, hlookup⟩ hsuffix
      by_cases hkey : labelList key = []
      · -- The root is set, and so something covers the domain.
        rcases h ⟨v, key, hkey, hlookup⟩ with
          hd | hd | ⟨ls', v', ⟨key', rfl, hlookup'⟩, hne, hsuffix'⟩
        · exact getMostSpecific_ne_none_of_covers hlookup
            ((isSubDomain_root_iff hkey).mpr (.inl hd)) hfound
        · exact getMostSpecific_ne_none_of_covers hlookup
            ((isSubDomain_root_iff hkey).mpr (.inr hd)) hfound
        · exact getMostSpecific_ne_none_of_covers hlookup'
            ((isSubDomain_iff_isSuffix hne).mpr hsuffix') hfound
      · exact getMostSpecific_ne_none_of_covers hlookup
          ((isSubDomain_iff_isSuffix hkey).mpr hsuffix) hfound
  | some v =>
    obtain ⟨key, hentry, hsub, hlargest⟩ := getMostSpecific_eq_some hfound
    have hsuffix := isSuffix_of_isSubDomain hsub
    constructor
    · rintro - -
      by_cases hkey : labelList key = []
      · rcases (isSubDomain_root_iff hkey).mp hsub with hd | hd
        · exact .inl hd
        · exact .inr (.inl hd)
      · exact .inr (.inr ⟨labelList key, v, hentry, hkey, hsuffix⟩)
    · intro _
      refine ⟨labelList key, hentry, hsuffix, ?_⟩
      rintro ls' v' ⟨key', rfl, hlookup'⟩ hsuffix'
      by_cases hkey' : labelList key' = []
      · rw [hkey']
        exact Nat.zero_le _
      · have hcount := hlargest key' v' hlookup' ((isSubDomain_iff_isSuffix hkey').mpr hsuffix')
        rw [countLabels_eq_length hkey'] at hcount
        by_cases hkey : labelList key = []
        · -- The root counts one label, and a key that covers besides it has two.
          have htwo := two_le_of_root_covers hkey' hsuffix' ((isSubDomain_root_iff hkey).mp hsub)
          rw [countLabels_root hkey] at hcount
          omega
        · rwa [countLabels_eq_length hkey] at hcount

/-- After any `set` calls the lookup finds the last value of the longest key that covers the
domain, exactly when it need not fall back on the root. -/
theorem getMostSpecific_isMostSpecific_iff (sets : List (Bytes × Bytes)) (d : Bytes) :
    IsMostSpecific (fun ls v => lastSet sets ls = some v) d ((ofSets sets).getMostSpecific d) ↔
      RootReaches (fun ls v => lastSet sets ls = some v) d := by
  have hentry : (ofSets sets).Entry = fun ls v => lastSet sets ls = some v := by
    funext ls v
    exact propext entry_ofSets_iff
  rw [← hentry]
  exact isMostSpecific_iff

/-- The root is set and does not cover the name `a`. -/
theorem root_misses_a :
    lastSet [([dot], [0x31])] [] = some [0x31] ∧
    (ofSets [([dot], [0x31])]).getMostSpecific [0x61] = none ∧
    ¬ IsMostSpecific (fun ls v => lastSet [([dot], [0x31])] ls = some v) [0x61]
        ((ofSets [([dot], [0x31])]).getMostSpecific [0x61]) := by
  have hroot : lastSet [([dot], [0x31])] [] = some [0x31] := by decide
  have hnone : (ofSets [([dot], [0x31])]).getMostSpecific [0x61] = none := by decide
  refine ⟨hroot, hnone, ?_⟩
  rw [hnone]
  intro h
  exact h [] [0x31] hroot List.nil_suffix

end DomainMap
end Dnss
