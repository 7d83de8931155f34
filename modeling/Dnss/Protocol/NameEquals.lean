/-
`nameEquals`: two names up to the case of their ASCII letters.

The portable version compares byte by byte.  The SSE version compares sixteen bytes at a
time: where two bytes differ, the difference must be the case bit alone, and the byte must
be a letter.  A vector is its sixteen bytes here, and an intrinsic does to each of them
what its documentation says.

`nameEquals_iff` says what the portable version decides, and `nameEquals_agree` that the
two versions decide the same for all names.
-/
import Dnss.Protocol.Message
import Mathlib.Data.List.FinRange

namespace Dnss
namespace DnsHelpers

/-! ## The portable version -/

/-- `ca >= 'A' && ca <= 'Z'`; a `char` is signed. -/
def isUpper (c : UInt8) : Bool := 0x41 ≤ c.toInt8 ∧ c.toInt8 ≤ 0x5A

/-- `ciEq`, which is also the body of the tail loop of the SSE version. -/
def ciEq (ca cb : UInt8) : Bool :=
  if ca = cb then true
  else
    let ca := if isUpper ca then ca ||| 0x20 else ca
    let cb := if isUpper cb then cb ||| 0x20 else cb
    ca == cb

/-- The loop over the bytes of two strings of equal length, from `i` on. -/
def scalarLoop (a b : Bytes) (h : a.length = b.length) (i : Nat) : Bool :=
  if hi : i < a.length then
    if !ciEq (a.get ⟨i, hi⟩) (b.get ⟨i, h ▸ hi⟩) then false else scalarLoop a b h (i + 1)
  else true
termination_by a.length - i

def nameEquals (a b : Bytes) : Bool :=
  if h : a.length = b.length then scalarLoop a b h 0 else false

/-! ## Intrinsics -/

/-- The bytes of an `__m128i`. -/
abbrev M128 := Fin 16 → UInt8

/-- The number whose bits are `bs`, from the least significant one. -/
def maskOf : List Bool → Nat
  | [] => 0
  | b :: bs => b.toNat + 2 * maskOf bs

namespace M128

def loadu (p : Bytes) (i : Nat) (h : i + 16 ≤ p.length) : M128 :=
  fun k => p.get ⟨i + k.val, by omega⟩

def set1 (c : UInt8) : M128 := fun _ => c

def setzero : M128 := fun _ => 0

def xor (a b : M128) : M128 := fun k => a k ^^^ b k

def and (a b : M128) : M128 := fun k => a k &&& b k

def or (a b : M128) : M128 := fun k => a k ||| b k

def cmpeq (a b : M128) : M128 := fun k => if a k = b k then 0xFF else 0

def maxEpu8 (a b : M128) : M128 := fun k => if a k < b k then b k else a k

def minEpu8 (a b : M128) : M128 := fun k => if b k < a k then b k else a k

/-- `_mm_testz_si128`: the bitwise and is zero everywhere. -/
def testz (a b : M128) : Bool := ∀ k, a k &&& b k = 0

/-- The top bits of the bytes. -/
def movemask (a : M128) : Nat := maskOf ((List.finRange 16).map fun k => 0x80 ≤ a k)

end M128

/-! ## The SSE version -/

open M128

/-- The body of the vector loop; `false` is its `return false`. -/
def sseBlock (va vb : M128) : Bool :=
  let diff := va.xor vb
  if testz diff diff then true
  else
    let nonCaseMask := set1 (~~~0x20)
    let nonCaseDiff := diff.and nonCaseMask
    if !testz nonCaseDiff nonCaseDiff then false
    else
      let caseMask := set1 0x20
      let lowVa := va.or caseMask
      let geA := cmpeq (maxEpu8 lowVa (set1 0x61)) lowVa
      let leZ := cmpeq (minEpu8 lowVa (set1 0x7A)) lowVa
      let letter := geA.and leZ
      let exact := cmpeq diff setzero
      let ok := exact.or letter
      movemask ok == 0xFFFF

def sseLoop (a b : Bytes) (h : a.length = b.length) (i : Nat) : Bool :=
  if hi : i + 16 ≤ a.length then
    if !sseBlock (loadu a i hi) (loadu b i (h ▸ hi)) then false else sseLoop a b h (i + 16)
  else scalarLoop a b h i
termination_by a.length - i

def nameEqualsSse (a b : Bytes) : Bool :=
  if h : a.length = b.length then sseLoop a b h 0 else false

/-! ## One byte -/

/-- Setting the case bit of an upper-case letter is folding it. -/
theorem ite_isUpper_eq_tolower (c : UInt8) : (if isUpper c then c ||| 0x20 else c) = tolower c := by
  revert c
  refine Word.forall_byte ?_
  decide +kernel

theorem ciEq_iff (x y : UInt8) : ciEq x y = true ↔ tolower x = tolower y := by
  unfold ciEq
  by_cases hxy : x = y
  · simp [hxy]
  · simp [hxy, ite_isUpper_eq_tolower]

/-- The lane test of the vector loop on the bytes `x` and `y`. -/
def laneOk (x y : UInt8) : Prop := x = y ∨ (x ^^^ y = 0x20 ∧ 0x61 ≤ x ||| 0x20 ∧ x ||| 0x20 ≤ 0x7A)

theorem and_nonCase_eq_zero_iff (d : UInt8) : d &&& ~~~0x20 = 0 ↔ d = 0 ∨ d = 0x20 := by
  revert d
  refine Word.forall_byte ?_
  decide +kernel

theorem tolower_xor_iff (x : UInt8) :
    tolower x = tolower (x ^^^ 0x20) ↔ 0x61 ≤ x ||| 0x20 ∧ x ||| 0x20 ≤ 0x7A := by
  revert x
  refine Word.forall_byte ?_
  decide +kernel

/-- Bytes that fold to the same byte differ in the case bit at most. -/
theorem eq_or_xor_of_tolower_eq {x y : UInt8} (h : tolower x = tolower y) :
    x = y ∨ x ^^^ y = 0x20 := by
  have hcase : ∀ c : UInt8, tolower c = c ∨ tolower c = c ^^^ 0x20 := by
    refine Word.forall_byte ?_
    decide +kernel
  rcases hcase x with hx | hx
  · rcases hcase y with hy | hy
    · exact Or.inl (hx.symm.trans (h.trans hy))
    · right
      rw [← hx, h, hy, UInt8.xor_comm y, UInt8.xor_assoc, UInt8.xor_self, UInt8.xor_zero]
  · rcases hcase y with hy | hy
    · right
      rw [← hy, ← h, hx, ← UInt8.xor_assoc, UInt8.xor_self, UInt8.zero_xor]
    · left
      rw [hx, hy] at h
      have hback := congrArg (· ^^^ 0x20) h
      simpa only [UInt8.xor_assoc, UInt8.xor_self, UInt8.xor_zero] using hback

theorem laneOk_iff (x y : UInt8) : laneOk x y ↔ tolower x = tolower y := by
  have hxor : x ^^^ y = 0x20 → y = x ^^^ 0x20 := by
    intro hd
    rw [← hd, ← UInt8.xor_assoc, UInt8.xor_self, UInt8.zero_xor]
  constructor
  · rintro (rfl | ⟨hd, hletter⟩)
    · rfl
    · rw [hxor hd]
      exact (tolower_xor_iff x).mpr hletter
  · intro h
    rcases eq_or_xor_of_tolower_eq h with hxy | hd
    · exact Or.inl hxy
    · rw [hxor hd] at h
      exact Or.inr ⟨hd, (tolower_xor_iff x).mp h⟩

/-! ## One block -/

theorem maskOf_lt (bs : List Bool) : maskOf bs < 2 ^ bs.length := by
  induction bs with
  | nil => decide
  | cons b bs ih =>
    have hb : b.toNat ≤ 1 := Bool.toNat_le b
    rw [maskOf, List.length_cons, Nat.pow_succ]
    omega

theorem maskOf_eq_iff (bs : List Bool) : maskOf bs + 1 = 2 ^ bs.length ↔ ∀ b ∈ bs, b = true := by
  induction bs with
  | nil => simp [maskOf]
  | cons b bs ih =>
    have hlt := maskOf_lt bs
    rw [List.forall_mem_cons, ← ih, maskOf, List.length_cons, Nat.pow_succ]
    cases b with
    | true =>
      simp only [Bool.toNat_true, true_and]
      omega
    | false =>
      simp only [Bool.toNat_false, Bool.false_eq_true, false_and, iff_false]
      omega

theorem movemask_eq_iff (a : M128) : movemask a = 0xFFFF ↔ ∀ k, 0x80 ≤ a k := by
  have hmask := maskOf_eq_iff ((List.finRange 16).map fun k => decide (0x80 ≤ a k))
  rw [List.length_map, List.length_finRange] at hmask
  have hcount : movemask a = 0xFFFF ↔ movemask a + 1 = 2 ^ 16 := by omega
  rw [hcount]
  refine hmask.trans ?_
  simp

theorem testz_self_iff (a : M128) : testz a a = true ↔ ∀ k, a k = 0 := by
  simp [testz]

/-- The byte that the vector loop computes for a lane has its top bit set exactly when the
lane matches. -/
theorem lane_iff (x y : UInt8) :
    (0x80 ≤ (if x ^^^ y = 0 then 0xFF else (0 : UInt8)) |||
      ((if (if x ||| 0x20 < 0x61 then 0x61 else x ||| 0x20) = x ||| 0x20 then 0xFF else 0) &&&
        (if (if 0x7A < x ||| 0x20 then 0x7A else x ||| 0x20) = x ||| 0x20 then 0xFF else 0))) ↔
      x = y ∨ (0x61 ≤ x ||| 0x20 ∧ x ||| 0x20 ≤ 0x7A) := by
  have hletter : ∀ low : UInt8,
      ((if (if low < 0x61 then 0x61 else low) = low then 0xFF else 0) &&&
        (if (if 0x7A < low then 0x7A else low) = low then 0xFF else (0 : UInt8))) =
      if 0x61 ≤ low ∧ low ≤ 0x7A then 0xFF else 0 := by
    refine Word.forall_byte ?_
    decide +kernel
  rw [hletter]
  by_cases hxy : x = y
  · subst hxy
    simp only [UInt8.xor_self, if_true, true_or, iff_true]
    split <;> decide
  · have hdiff : x ^^^ y ≠ 0 := fun h => hxy (UInt8.xor_eq_zero_iff.mp h)
    rw [if_neg hdiff]
    by_cases hlow : 0x61 ≤ x ||| 0x20 ∧ x ||| 0x20 ≤ 0x7A
    · rw [if_pos hlow]
      simp only [hlow, and_self, or_true, iff_true]
      decide
    · rw [if_neg hlow]
      simp only [hxy, hlow, or_self, iff_false]
      decide

theorem sseBlock_iff (va vb : M128) :
    sseBlock va vb = true ↔ ∀ k, tolower (va k) = tolower (vb k) := by
  have hsame : testz (va.xor vb) (va.xor vb) = true ↔ ∀ k, va k = vb k := by
    rw [testz_self_iff]
    exact forall_congr' fun k => UInt8.xor_eq_zero_iff
  have hcase : testz ((va.xor vb).and (set1 (~~~0x20))) ((va.xor vb).and (set1 (~~~0x20))) = true ↔
      ∀ k, va k = vb k ∨ va k ^^^ vb k = 0x20 := by
    rw [testz_self_iff]
    refine forall_congr' fun k => (and_nonCase_eq_zero_iff (va k ^^^ vb k)).trans ?_
    rw [UInt8.xor_eq_zero_iff]
  unfold sseBlock
  by_cases heq : ∀ k, va k = vb k
  · simp only [hsame.mpr heq, if_true, true_iff]
    intro k
    rw [heq k]
  · simp only [Bool.eq_false_iff.mpr fun h => heq (hsame.mp h)]
    by_cases hbits : ∀ k, va k = vb k ∨ va k ^^^ vb k = 0x20
    · simp only [hcase.mpr hbits, Bool.not_true, Bool.false_eq_true, if_false, beq_iff_eq]
      rw [movemask_eq_iff]
      refine forall_congr' fun k => (lane_iff (va k) (vb k)).trans ?_
      rw [← laneOk_iff, laneOk]
      rcases hbits k with hk | hk
      · simp [hk]
      · simp [hk]
    · simp only [Bool.eq_false_iff.mpr fun h => hbits (hcase.mp h), Bool.not_false, if_true]
      refine iff_of_false Bool.false_ne_true fun hfold => hbits fun k => ?_
      exact eq_or_xor_of_tolower_eq (hfold k)

/-! ## The loops -/

/-- The bytes of both strings from `i` on fold to the same. -/
def FoldsFrom (a b : Bytes) (h : a.length = b.length) (i : Nat) : Prop :=
  ∀ (j : Nat) (hj : j < a.length), i ≤ j →
    tolower (a.get ⟨j, hj⟩) = tolower (b.get ⟨j, h ▸ hj⟩)

theorem foldsFrom_succ_iff {a b : Bytes} (h : a.length = b.length) {i : Nat} (hi : i < a.length) :
    FoldsFrom a b h i ↔
      tolower (a.get ⟨i, hi⟩) = tolower (b.get ⟨i, h ▸ hi⟩) ∧ FoldsFrom a b h (i + 1) := by
  constructor
  · intro hfolds
    exact ⟨hfolds i hi (Nat.le_refl i), fun j hj hle => hfolds j hj (by omega)⟩
  · rintro ⟨hfirst, hrest⟩ j hj hle
    rcases Nat.eq_or_lt_of_le hle with rfl | hlt
    · exact hfirst
    · exact hrest j hj hlt

theorem foldsFrom_block_iff {a b : Bytes} (h : a.length = b.length) {i : Nat}
    (hi : i + 16 ≤ a.length) :
    FoldsFrom a b h i ↔
      (∀ k, tolower (loadu a i hi k) = tolower (loadu b i (h ▸ hi) k)) ∧
        FoldsFrom a b h (i + 16) := by
  constructor
  · intro hfolds
    exact ⟨fun k => hfolds (i + k.val) (by omega) (Nat.le_add_right i k.val),
      fun j hj hle => hfolds j hj (by omega)⟩
  · rintro ⟨hblock, hrest⟩ j hj hle
    by_cases hlt : j < i + 16
    · have hk := hblock ⟨j - i, by omega⟩
      simp only [loadu, Nat.add_sub_cancel' hle] at hk
      exact hk
    · exact hrest j hj (by omega)

theorem scalarLoop_iff {a b : Bytes} (h : a.length = b.length) (i : Nat) :
    scalarLoop a b h i = true ↔ FoldsFrom a b h i := by
  fun_induction scalarLoop a b h i with
  | case1 i hi hne =>
    rw [Bool.not_eq_true'] at hne
    rw [foldsFrom_succ_iff h hi, ← ciEq_iff, hne]
    exact iff_of_false Bool.false_ne_true fun hfolds => Bool.false_ne_true hfolds.1
  | case2 i hi heq ih =>
    rw [Bool.not_eq_true', Bool.not_eq_false] at heq
    rw [ih, foldsFrom_succ_iff h hi, ← ciEq_iff, heq]
    exact (and_iff_right rfl).symm
  | case3 i hi =>
    refine iff_of_true rfl fun j hj hle => ?_
    omega

theorem sseLoop_iff {a b : Bytes} (h : a.length = b.length) (i : Nat) :
    sseLoop a b h i = true ↔ FoldsFrom a b h i := by
  fun_induction sseLoop a b h i with
  | case1 i hi hne =>
    rw [foldsFrom_block_iff h hi, ← sseBlock_iff]
    simp only [Bool.not_eq_true'] at hne
    simp [hne]
  | case2 i hi heq ih =>
    rw [ih, foldsFrom_block_iff h hi, ← sseBlock_iff]
    simp only [Bool.not_eq_true', Bool.not_eq_false] at heq
    simp [heq]
  | case3 i hi => exact scalarLoop_iff h i

theorem foldsFrom_zero_iff {a b : Bytes} (h : a.length = b.length) :
    FoldsFrom a b h 0 ↔ a.map tolower = b.map tolower := by
  constructor
  · intro hfolds
    refine List.ext_getElem (by simp [h]) fun j hj hj' => ?_
    rw [List.length_map] at hj
    simpa using hfolds j hj (Nat.zero_le j)
  · intro hmap j hj _
    have hj' : j < b.length := h ▸ hj
    have hget : (a.map tolower)[j]? = (b.map tolower)[j]? := by rw [hmap]
    simpa [hj, hj'] using hget

/-- The portable version folds case. -/
theorem nameEquals_iff (a b : Bytes) :
    nameEquals a b = true ↔ a.length = b.length ∧ a.map tolower = b.map tolower := by
  unfold nameEquals
  by_cases h : a.length = b.length
  · rw [dif_pos h, scalarLoop_iff, foldsFrom_zero_iff]
    simp [h]
  · rw [dif_neg h]
    simp [h]

/-- The SSE version returns what the portable version returns, and both fold case. -/
theorem nameEquals_agree (a b : Bytes) :
    nameEqualsSse a b = nameEquals a b ∧
      (nameEqualsSse a b = true ↔ a.length = b.length ∧ a.map tolower = b.map tolower) ∧
      (nameEquals a b = true ↔ a.length = b.length ∧ a.map tolower = b.map tolower) := by
  have hsame : nameEqualsSse a b = nameEquals a b := by
    unfold nameEqualsSse nameEquals
    by_cases h : a.length = b.length
    · rw [dif_pos h, dif_pos h, Bool.eq_iff_iff, sseLoop_iff, scalarLoop_iff]
    · rw [dif_neg h, dif_neg h]
  exact ⟨hsame, hsame ▸ nameEquals_iff a b, nameEquals_iff a b⟩

end DnsHelpers
end Dnss
