/-
Fixed-width words as byte strings, in both byte orders.

`be16` and `be32` assemble a word from its bytes with shifts and bitwise or, and
`be16Bytes`, `be32Bytes`, `le16Bytes`, and `le32Bytes` take one apart.  Every
proof goes through `toNat`, where a word is a sum of its bytes at powers of 256,
so the bitwise forms appear in this file only.
-/
import Mathlib.Algebra.Group.Int.Defs
import Mathlib.Algebra.Group.Nat.Defs
import Mathlib.Tactic.Common

namespace Dnss
namespace Word

/-- A property of all bytes, as one that `decide` can check. -/
theorem forall_byte {P : UInt8 → Prop} (h : ∀ n : Fin 256, P (UInt8.ofFin n)) (c : UInt8) : P c :=
  h c.toFin

/-! ## Assembling words -/

/-- The 16-bit word with high byte `hi` and low byte `lo`. -/
def be16 (hi lo : UInt8) : UInt16 :=
  (hi.toUInt16 <<< 8) ||| lo.toUInt16

/-- The 32-bit word whose bytes, from the most significant one, are the
arguments. -/
def be32 (b₃ b₂ b₁ b₀ : UInt8) : UInt32 :=
  (b₃.toUInt32 <<< 24) ||| (b₂.toUInt32 <<< 16) ||| (b₁.toUInt32 <<< 8) ||| b₀.toUInt32

/-! ## Taking words apart -/

/-- The bytes of a 16-bit word, most significant first. -/
def be16Bytes (v : UInt16) : List UInt8 :=
  [(v >>> 8).toUInt8, v.toUInt8]

/-- The bytes of a 32-bit word, most significant first. -/
def be32Bytes (v : UInt32) : List UInt8 :=
  [(v >>> 24).toUInt8, (v >>> 16).toUInt8, (v >>> 8).toUInt8, v.toUInt8]

/-- The bytes of a 16-bit word, least significant first. -/
def le16Bytes (v : UInt16) : List UInt8 :=
  (be16Bytes v).reverse

/-- The bytes of a 32-bit word, least significant first. -/
def le32Bytes (v : UInt32) : List UInt8 :=
  (be32Bytes v).reverse

@[simp] theorem be16Bytes_length (v : UInt16) : (be16Bytes v).length = 2 := rfl

/-! ## Words as sums -/

theorem or_shift_eq_add (hi : Nat) {lo k : Nat} (hlo : lo < 2 ^ k) :
    hi <<< k ||| lo = hi * 2 ^ k + lo := by
  rw [Nat.shiftLeft_eq, Nat.mul_comm, ← Nat.two_pow_add_eq_or_of_lt hlo]

theorem be16_toNat (hi lo : UInt8) : (be16 hi lo).toNat = hi.toNat * 256 + lo.toNat := by
  have hhi : hi.toNat < 256 := hi.toNat_lt
  have hlo : lo.toNat < 256 := lo.toNat_lt
  rw [be16, UInt16.toNat_or, UInt16.toNat_shiftLeft, UInt8.toNat_toUInt16, UInt8.toNat_toUInt16]
  have hshift : hi.toNat <<< ((8 : UInt16).toNat % 16) % 2 ^ 16 = hi.toNat <<< 8 := by
    show hi.toNat <<< 8 % 2 ^ 16 = hi.toNat <<< 8
    rw [Nat.shiftLeft_eq]
    omega
  rw [hshift]
  exact or_shift_eq_add hi.toNat (k := 8) hlo

theorem be32_toNat (b₃ b₂ b₁ b₀ : UInt8) :
    (be32 b₃ b₂ b₁ b₀).toNat =
      b₃.toNat * 2 ^ 24 + b₂.toNat * 2 ^ 16 + b₁.toNat * 2 ^ 8 + b₀.toNat := by
  have h₃ : b₃.toNat < 256 := b₃.toNat_lt
  have h₂ : b₂.toNat < 256 := b₂.toNat_lt
  have h₁ : b₁.toNat < 256 := b₁.toNat_lt
  have h₀ : b₀.toNat < 256 := b₀.toNat_lt
  have hs : ∀ (b : UInt8) (k : Nat), k ≤ 24 → b.toNat <<< k % 2 ^ 32 = b.toNat <<< k := by
    intro b k hk
    have hb : b.toNat < 256 := b.toNat_lt
    have hpow : 2 ^ k ≤ 2 ^ 24 := Nat.pow_le_pow_right (by omega) hk
    have hmul : b.toNat * 2 ^ k ≤ 255 * 2 ^ 24 := Nat.mul_le_mul (by omega) hpow
    rw [Nat.shiftLeft_eq]
    exact Nat.mod_eq_of_lt (by omega)
  rw [be32]
  simp only [UInt32.toNat_or, UInt32.toNat_shiftLeft, UInt8.toNat_toUInt32]
  show b₃.toNat <<< 24 % 2 ^ 32 ||| b₂.toNat <<< 16 % 2 ^ 32 ||| b₁.toNat <<< 8 % 2 ^ 32 |||
    b₀.toNat = _
  rw [hs b₃ 24 (by omega), hs b₂ 16 (by omega), hs b₁ 8 (by omega)]
  -- The or is reassociated to the right so that each step adds one byte below a shift.
  rw [Nat.or_assoc, Nat.or_assoc, or_shift_eq_add b₁.toNat (k := 8) (by omega),
    or_shift_eq_add b₂.toNat (k := 16) (by omega),
    or_shift_eq_add b₃.toNat (k := 24) (by omega)]
  omega

theorem toUInt8_toNat_of_shift16 (v : UInt16) (k : UInt16) :
    (v >>> k).toUInt8.toNat = v.toNat >>> (k.toNat % 16) % 256 := by
  rw [UInt16.toNat_toUInt8, UInt16.toNat_shiftRight]

theorem toUInt8_toNat_of_shift32 (v : UInt32) (k : UInt32) :
    (v >>> k).toUInt8.toNat = v.toNat >>> (k.toNat % 32) % 256 := by
  rw [UInt32.toNat_toUInt8, UInt32.toNat_shiftRight]

/-! ## Round trips -/

/-- Reassembling the bytes of a 16-bit word gives the word. -/
theorem be16_be16Bytes (v : UInt16) : be16 (v >>> 8).toUInt8 v.toUInt8 = v := by
  have hv : v.toNat < 65536 := v.toNat_lt
  apply UInt16.toNat_inj.mp
  rw [be16_toNat, toUInt8_toNat_of_shift16, UInt16.toNat_toUInt8]
  show v.toNat >>> 8 % 256 * 256 + v.toNat % 256 = v.toNat
  rw [Nat.shiftRight_eq_div_pow]
  omega

/-- Reassembling the bytes of a 32-bit word gives the word. -/
theorem be32_be32Bytes (v : UInt32) :
    be32 (v >>> 24).toUInt8 (v >>> 16).toUInt8 (v >>> 8).toUInt8 v.toUInt8 = v := by
  have hv : v.toNat < 4294967296 := v.toNat_lt
  apply UInt32.toNat_inj.mp
  rw [be32_toNat, toUInt8_toNat_of_shift32, toUInt8_toNat_of_shift32, toUInt8_toNat_of_shift32,
    UInt32.toNat_toUInt8]
  show v.toNat >>> 24 % 256 * 2 ^ 24 + v.toNat >>> 16 % 256 * 2 ^ 16 +
    v.toNat >>> 8 % 256 * 2 ^ 8 + v.toNat % 256 = v.toNat
  simp only [Nat.shiftRight_eq_div_pow]
  omega

/-- The bytes of an assembled word are the bytes it was assembled from. -/
theorem be16Bytes_be16 (hi lo : UInt8) : be16Bytes (be16 hi lo) = [hi, lo] := by
  have hhi : hi.toNat < 256 := hi.toNat_lt
  have hlo : lo.toNat < 256 := lo.toNat_lt
  have h₁ : (be16 hi lo >>> 8).toUInt8 = hi := by
    apply UInt8.toNat_inj.mp
    rw [toUInt8_toNat_of_shift16, be16_toNat]
    show (hi.toNat * 256 + lo.toNat) >>> 8 % 256 = hi.toNat
    rw [Nat.shiftRight_eq_div_pow]
    omega
  have h₀ : (be16 hi lo).toUInt8 = lo := by
    apply UInt8.toNat_inj.mp
    rw [UInt16.toNat_toUInt8, be16_toNat]
    omega
  rw [be16Bytes, h₁, h₀]

theorem be32Bytes_be32 (b₃ b₂ b₁ b₀ : UInt8) :
    be32Bytes (be32 b₃ b₂ b₁ b₀) = [b₃, b₂, b₁, b₀] := by
  have h₃ : b₃.toNat < 256 := b₃.toNat_lt
  have h₂ : b₂.toNat < 256 := b₂.toNat_lt
  have h₁ : b₁.toNat < 256 := b₁.toNat_lt
  have h₀ : b₀.toNat < 256 := b₀.toNat_lt
  have hbyte : ∀ (k : UInt32) (b : UInt8),
      (be32 b₃ b₂ b₁ b₀).toNat >>> (k.toNat % 32) % 256 = b.toNat →
        (be32 b₃ b₂ b₁ b₀ >>> k).toUInt8 = b := by
    intro k b h
    apply UInt8.toNat_inj.mp
    rw [toUInt8_toNat_of_shift32, h]
  have hlast : (be32 b₃ b₂ b₁ b₀).toUInt8 = b₀ := by
    apply UInt8.toNat_inj.mp
    rw [UInt32.toNat_toUInt8, be32_toNat]
    omega
  rw [be32Bytes, hlast, hbyte 24 b₃, hbyte 16 b₂, hbyte 8 b₁]
  · show (be32 b₃ b₂ b₁ b₀).toNat >>> 8 % 256 = b₁.toNat
    rw [be32_toNat, Nat.shiftRight_eq_div_pow]
    omega
  · show (be32 b₃ b₂ b₁ b₀).toNat >>> 16 % 256 = b₂.toNat
    rw [be32_toNat, Nat.shiftRight_eq_div_pow]
    omega
  · show (be32 b₃ b₂ b₁ b₀).toNat >>> 24 % 256 = b₃.toNat
    rw [be32_toNat, Nat.shiftRight_eq_div_pow]
    omega

theorem be16Bytes_inj {v w : UInt16} (h : be16Bytes v = be16Bytes w) : v = w := by
  simp only [be16Bytes, List.cons.injEq, and_true] at h
  rw [← be16_be16Bytes v, h.1, h.2, be16_be16Bytes]

theorem be32Bytes_inj {v w : UInt32} (h : be32Bytes v = be32Bytes w) : v = w := by
  simp only [be32Bytes, List.cons.injEq, and_true] at h
  rw [← be32_be32Bytes v, h.1, h.2.1, h.2.2.1, h.2.2.2, be32_be32Bytes]

/-! ## Unsigned lengths -/

/-- A signed difference converted to a 64-bit unsigned length. -/
def sizeT (d : Int) : Nat :=
  (d % 2 ^ 64).toNat

theorem sizeT_of_nonneg {d : Int} (h₀ : 0 ≤ d) (h : d < 2 ^ 64) : sizeT d = d.toNat := by
  rw [sizeT, Int.emod_eq_of_lt h₀ h]

theorem toNat_ofInt32 {n : Int} (h₀ : 0 ≤ n) (h : n < 2 ^ 32) :
    ((UInt32.ofInt n).toNat : Int) = n := by
  rw [UInt32.ofInt, UInt32.toNat_ofNat']
  omega

/-! ## Fields of a word

A setter clears a field with `&&& keep` and fills it with `||| value`. -/

theorem or_and_distrib (a b mask : UInt16) :
    (a ||| b) &&& mask = (a &&& mask) ||| (b &&& mask) := by
  apply UInt16.toNat_inj.mp
  simp only [UInt16.toNat_and, UInt16.toNat_or]
  exact Nat.and_or_distrib_right _ _ _

/-- Setting a field leaves the fields under a disjoint mask as they were. -/
theorem and_mask_of_disjoint {flags keep value mask : UInt16} (hkeep : keep &&& mask = mask)
    (hvalue : value &&& mask = 0) : (flags &&& keep ||| value) &&& mask = flags &&& mask := by
  rw [or_and_distrib, UInt16.and_assoc, hkeep, hvalue, UInt16.or_zero]

/-- Setting a field makes the value the content under the field's mask. -/
theorem and_mask_of_field {flags keep value mask : UInt16} (hkeep : keep &&& mask = 0)
    (hvalue : value &&& mask = value) : (flags &&& keep ||| value) &&& mask = value := by
  rw [or_and_distrib, UInt16.and_assoc, hkeep, hvalue, UInt16.and_zero, UInt16.zero_or]

/-- The same for a field that is read by shifting it down. -/
theorem shift_and_mask_of_disjoint {flags keep value k mask : UInt16}
    (hkeep : keep >>> k &&& mask = mask) (hvalue : value >>> k &&& mask = 0) :
    (flags &&& keep ||| value) >>> k &&& mask = flags >>> k &&& mask := by
  rw [UInt16.shiftRight_or, UInt16.shiftRight_and]
  exact and_mask_of_disjoint hkeep hvalue

theorem shift_and_mask_of_field {flags keep value k mask : UInt16}
    (hkeep : keep >>> k &&& mask = 0) (hvalue : value >>> k &&& mask = value >>> k) :
    (flags &&& keep ||| value) >>> k &&& mask = value >>> k := by
  rw [UInt16.shiftRight_or, UInt16.shiftRight_and]
  exact and_mask_of_field hkeep hvalue

end Word
end Dnss
