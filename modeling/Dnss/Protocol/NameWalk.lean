/-
`wireToName` decodes the names of the grammar and reads nothing else.

The loop carries an accumulator, a saved cursor, and a jump count, so the
induction is about the loop from an arbitrary state: it succeeds exactly when
`Wire.NameAt` holds at its cursor within the jumps it has left, it appends the
labels to the accumulator, and it returns the saved cursor if there is one.
`wireToName_eq_ok_iff` is the instance at the initial state.
-/
import Dnss.Protocol.Name
import Dnss.Wire.Grammar

namespace Dnss
namespace DnsHelpers

open Cursor Separated

/-! ## Length bytes -/

theorem byteTable : ∀ i : Fin 256,
    ((UInt8.ofNat i.val &&& 0xC0 = 0xC0) ↔ 192 ≤ i.val) ∧
      (UInt8.ofNat i.val &&& 0x3F).toNat = i.val % 64 := by
  decide +kernel

theorem isPointer_iff (len : UInt8) : len &&& 0xC0 = 0xC0 ↔ 192 ≤ len.toNat := by
  have h := (byteTable ⟨len.toNat, len.toNat_lt⟩).1
  simpa using h

theorem pointerOffset_eq {hi : UInt8} (hge : 192 ≤ hi.toNat) (lo : UInt8) :
    pointerOffset hi lo = (hi.toNat - 192) * 256 + lo.toNat := by
  have hlow : (hi &&& 0x3F).toNat = hi.toNat % 64 := by
    have h := (byteTable ⟨hi.toNat, hi.toNat_lt⟩).2
    simpa using h
  have hlt : hi.toNat < 256 := hi.toNat_lt
  rw [pointerOffset, Word.be16_toNat, hlow]
  have hmod : hi.toNat % 64 = hi.toNat - 192 := by omega
  rw [hmod]

theorem toNat_pos_of_ne_zero {len : UInt8} (h : len ≠ 0) : 0 < len.toNat := by
  by_contra hc
  refine h (UInt8.toNat_inj.mp ?_)
  show len.toNat = 0
  omega

/-! ## The loop -/

/-- What the loop returns, read as a walk of the grammar. -/
def LoopResult (data : Bytes) (p : Nat) (name : Bytes) (saved : Option Nat) (jumpCount : Nat)
    (out : Bytes) (r : Nat) : Prop :=
  ∃ jumps ls q, Wire.NameAt data jumps p ls q ∧ jumpCount + jumps ≤ Wire.maxJumps ∧
    out = ls.foldl (appendWord dot) name ∧ r = saved.getD q

theorem loopResult_of_eq_ok {data : Bytes} {p : Nat} {name : Bytes} {saved : Option Nat}
    {jumpCount : Nat} (hj : jumpCount ≤ Wire.maxJumps) {out : Bytes} {r : Nat}
    (h : wireToNameLoop data p name saved jumpCount = .ok (out, r)) :
    LoopResult data p name saved jumpCount out r := by
  fun_induction wireToNameLoop data p name saved jumpCount with
  | case1 => simp at h
  | case2 => simp at h
  | case3 p name saved jumpCount hp hread =>
    simp only [Except.ok.injEq, Prod.mk.injEq] at h
    obtain ⟨rfl, rfl⟩ := h
    exact ⟨0, [], p + 1, .root (readAt_eq_ok_iff.mp hread), hj, rfl, rfl⟩
  | case4 => simp at h
  | case5 => simp at h
  | case6 => simp at h
  | case7 p name saved jumpCount hp len hread hne hptr hp1 hjumps lo hlo ih =>
    have hge : 192 ≤ len.toNat := (isPointer_iff len).mp hptr
    obtain ⟨jumps, ls, q, hname, hle, hout, hr⟩ :=
      ih (by simp only [Wire.maxJumps]; omega) h
    rw [pointerOffset_eq hge] at hname
    refine ⟨jumps + 1, ls, p + 2, ?_, by omega, hout, hr⟩
    exact .pointer (readAt_eq_ok_iff.mp hread) hge (readAt_eq_ok_iff.mp hlo) hname
  | case8 => simp at h
  | case9 => simp at h
  | case10 p name saved jumpCount hp len hread hne hptr hfit label hlabel ih =>
    have hlt : len.toNat < 192 := by
      by_contra hc
      exact hptr ((isPointer_iff len).mpr (by omega))
    obtain ⟨hle, hseg⟩ := readSlice_eq_ok_iff.mp hlabel
    obtain ⟨jumps, ls, q, hname, hjle, hout, hr⟩ := ih hj h
    refine ⟨jumps, label :: ls, q, ?_, hjle, hout, hr⟩
    refine .label (readAt_eq_ok_iff.mp hread) (toNat_pos_of_ne_zero hne) hlt ?_ ?_ hname
    · rw [hseg, List.length_take, List.length_drop]
      omega
    · rw [hseg]
      exact segAt_take_drop data (p + 1) len.toNat

theorem eq_ok_of_nameAt {data : Bytes} {jumps p q : Nat} {ls : List Bytes}
    (h : Wire.NameAt data jumps p ls q) (name : Bytes) (saved : Option Nat) {jumpCount : Nat}
    (hj : jumpCount + jumps ≤ Wire.maxJumps) :
    wireToNameLoop data p name saved jumpCount =
      .ok (ls.foldl (appendWord dot) name, saved.getD q) := by
  induction h generalizing name saved jumpCount with
  | @root p hzero =>
    have hp := (List.getElem?_eq_some_iff.mp hzero).1
    rw [wireToNameLoop, dif_neg (by omega), readAt_eq_ok_iff.mpr hzero]
    rfl
  | @label jumps p q len label ls hlen hpos hlt hlabel hseg hrest ih =>
    have hp := (List.getElem?_eq_some_iff.mp hlen).1
    have hne : len ≠ 0 := by
      intro he
      rw [he] at hpos
      exact absurd hpos (by decide)
    have hptr : ¬len &&& 0xC0 = 0xC0 := by
      rw [isPointer_iff]
      omega
    have hfit : p + 1 + label.length ≤ data.length :=
      hseg.length_le (List.length_pos_iff.mp (by omega))
    have hslice := hseg.readSlice Fault.outOfRange (by omega)
    rw [hlabel] at hslice
    rw [wireToNameLoop, dif_neg (by omega), readAt_eq_ok_iff.mpr hlen]
    simp only [hne, hptr, if_false]
    rw [if_neg (by omega), hslice]
    exact ih (appendWord dot name label) saved hj
  | @pointer jumps p q hi lo ls hhi hge hlo hrest ih =>
    have hp := (List.getElem?_eq_some_iff.mp hlo).1
    have hne : hi ≠ 0 := by
      intro he
      rw [he] at hge
      exact absurd hge (by decide)
    have hptr : hi &&& 0xC0 = 0xC0 := (isPointer_iff hi).mpr hge
    have hjump : jumpCount + 1 + jumps ≤ Wire.maxJumps := by omega
    simp only [Wire.maxJumps] at hj
    rw [wireToNameLoop, dif_neg (by omega), readAt_eq_ok_iff.mpr hhi]
    simp only [hne, hptr, if_false, if_true]
    rw [if_neg (by omega), dif_neg (by omega), readAt_eq_ok_iff.mpr hlo]
    rw [← pointerOffset_eq hge] at ih
    exact ih name (some (saved.getD (p + 2))) hjump

/-- Every read of the loop is guarded. -/
theorem wireToNameLoop_ne_outOfRange (data : Bytes) (p : Nat) (name : Bytes) (saved : Option Nat)
    (jumpCount : Nat) : wireToNameLoop data p name saved jumpCount ≠ .error .outOfRange := by
  fun_induction wireToNameLoop data p name saved jumpCount with
  | case1 => simp
  | case2 p name saved jumpCount hp e hread =>
    rw [readAt_of_lt (by omega)] at hread
    simp at hread
  | case3 => simp
  | case4 => simp
  | case5 => simp
  | case6 p name saved jumpCount hp len hread hne hptr hp1 hjumps e hlo =>
    rw [readAt_of_lt (by omega)] at hlo
    simp at hlo
  | case7 p name saved jumpCount hp len hread hne hptr hp1 hjumps lo hlo ih => exact ih
  | case8 => simp
  | case9 p name saved jumpCount hp len hread hne hptr hfit e hlabel =>
    rw [readSlice_of_le (by omega)] at hlabel
    simp at hlabel
  | case10 p name saved jumpCount hp len hread hne hptr hfit label hlabel ih => exact ih

/-! ## The function -/

/-- `wireToName` succeeds exactly on the names of the grammar.  It returns their
dotted form and the end of their bytes in place. -/
theorem wireToName_eq_ok_iff {data : Bytes} {p : Nat} {name : Bytes} {r : Nat} :
    wireToName data p = .ok (name, r) ↔ ∃ ls, Wire.Name data p ls r ∧ name = Wire.dotted ls := by
  constructor
  · intro h
    obtain ⟨jumps, ls, q, hname, hj, hout, hr⟩ := loopResult_of_eq_ok (Nat.zero_le _) h
    rw [foldl_appendWord dot hname.label_ne_nil] at hout
    refine ⟨ls, ⟨jumps, by omega, ?_⟩, hout⟩
    rwa [show r = q from hr]
  · intro h
    obtain ⟨ls, ⟨jumps, hj, hname⟩, rfl⟩ := h
    rw [wireToName, eq_ok_of_nameAt hname [] none (by omega),
      foldl_appendWord dot hname.label_ne_nil]
    rfl

theorem wireToName_ne_outOfRange (data : Bytes) (p : Nat) :
    wireToName data p ≠ .error .outOfRange :=
  wireToNameLoop_ne_outOfRange data p [] none 0

/-! ## Encoding -/

theorem piecesToWire_eq (pieces : List Bytes) :
    piecesToWire pieces =
      if ∀ piece ∈ dropEmpty pieces, piece.length ≤ 63 then
        .ok (Wire.encodeLabels (dropEmpty pieces))
      else .error .labelTooLong := by
  induction pieces with
  | nil => rfl
  | cons piece rest ih =>
    rw [piecesToWire]
    by_cases hpos : 0 < piece.length
    · rw [if_pos hpos, dropEmpty_cons_of_ne_nil (List.length_pos_iff.mp hpos)]
      by_cases hlong : 63 < piece.length
      · rw [if_pos hlong, if_neg]
        intro hall
        have := hall piece List.mem_cons_self
        omega
      · rw [if_neg hlong, ih]
        by_cases hrest : ∀ p ∈ dropEmpty rest, p.length ≤ 63
        · rw [if_pos hrest, if_pos, Wire.encodeLabels_cons]
          · rfl
          · intro p hp
            rcases List.mem_cons.mp hp with rfl | hmem
            · omega
            · exact hrest p hmem
        · rw [if_neg hrest, if_neg]
          · rfl
          · exact fun hall => hrest fun p hp => hall p (List.mem_cons_of_mem piece hp)
    · have hempty : piece = [] := List.eq_nil_of_length_eq_zero (by omega)
      rw [if_neg hpos, ih, hempty]
      rfl

/-- `nameToWire` encodes the non-empty pieces between dots, if each fits. -/
theorem nameToWire_eq (name : Bytes) :
    nameToWire name =
      if ∀ piece ∈ splitWords dot name, piece.length ≤ 63 then
        .ok (Wire.encodeLabels (splitWords dot name))
      else .error .labelTooLong := by
  rw [nameToWire]
  by_cases hroot : name = [dot] ∨ name = []
  · have hwords : splitWords dot name = [] := by
      rcases hroot with rfl | rfl <;> decide
    rw [if_pos hroot, hwords]
    exact (if_pos (by simp)).symm
  · rw [if_neg hroot, piecesToWire_eq]
    rfl

theorem nameToWire_eq_ok_iff_words {name wire : Bytes} :
    nameToWire name = .ok wire ↔
      (∀ piece ∈ splitWords dot name, piece.length ≤ 63) ∧
        wire = Wire.encodeLabels (splitWords dot name) := by
  rw [nameToWire_eq]
  by_cases h : ∀ piece ∈ splitWords dot name, piece.length ≤ 63
  · rw [if_pos h, Except.ok.injEq]
    exact ⟨fun he => ⟨h, he.symm⟩, fun he => he.2.symm⟩
  · rw [if_neg h]
    refine ⟨fun he => ?_, fun he => absurd he.1 h⟩
    cases he

/-- `nameToWire` on the dotted form of a list of labels. -/
theorem nameToWire_dotted_eq_ok_iff {ls : List Bytes} {wire : Bytes} :
    nameToWire (Wire.dotted ls) = .ok wire ↔
      Wire.Encodable ls ∧ wire = Wire.encodeLabels (Wire.redotted ls) := by
  have hwords : splitWords dot (Wire.dotted ls) = Wire.redotted ls := splitWords_intercalate dot ls
  rw [nameToWire_eq_ok_iff_words, hwords]
  rfl

end DnsHelpers
end Dnss
