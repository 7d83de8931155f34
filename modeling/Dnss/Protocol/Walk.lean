/-
The names that `wireToName` decodes, as walks over the buffer.

A walk is a list of moves.  A label move steps over a length byte and its label, and a
pointer move goes wherever the pointer says: forwards, backwards, or back to itself.
`wireToName_decodes` says that the function succeeds exactly on the walks that come to
a zero byte within ten pointers, that it returns their labels joined by dots, and that
it otherwise throws.
-/
import Dnss.Protocol.NameWalk

namespace Dnss
namespace Wire

open Cursor

/-- A move of the walk: over a label, or through a compression pointer. -/
inductive Move where
  | label (bytes : Bytes)
  | pointer

/-- The move from one offset of the buffer to the next.  All bytes it looks at lie in the
buffer. -/
inductive MoveAt (data : Bytes) : Nat → Move → Nat → Prop where
  | label {p : Nat} {len : UInt8} (hlen : data[p]? = some len) (hpos : 1 ≤ len.toNat)
      (hle : len.toNat ≤ 191) (hfit : p + 1 + len.toNat ≤ data.length) :
      MoveAt data p (.label ((data.drop (p + 1)).take len.toNat)) (p + 1 + len.toNat)
  | pointer {p : Nat} {hi lo : UInt8} (hhi : data[p]? = some hi) (hge : 0xC0 ≤ hi.toNat)
      (hlo : data[p + 1]? = some lo) :
      MoveAt data p .pointer (hi.toNat % 64 * 256 + lo.toNat)

/-- The labels of a walk, in order. -/
def walkLabels : List Move → List Bytes
  | [] => []
  | .label bytes :: moves => bytes :: walkLabels moves
  | .pointer :: moves => walkLabels moves

def walkPointers : List Move → Nat
  | [] => 0
  | .label _ :: moves => walkPointers moves
  | .pointer :: moves => walkPointers moves + 1

/-- Where the bytes in place end: one past the zero byte if the walk has no pointer, and
otherwise two past its first pointer. -/
def walkEnd : Nat → List Move → Nat
  | p, [] => p + 1
  | p, .label bytes :: moves => walkEnd (p + 1 + bytes.length) moves
  | p, .pointer :: _ => p + 2

/-- The moves lead from `p` to a zero byte. -/
def Walk (data : Bytes) (p : Nat) (moves : List Move) : Prop :=
  ∃ z, SeqAt (MoveAt data) p moves z ∧ data[z]? = some 0

theorem walk_nil_iff {data : Bytes} {p : Nat} : Walk data p [] ↔ data[p]? = some 0 := by
  constructor
  · rintro ⟨z, rfl, hzero⟩
    exact hzero
  · intro hzero
    exact ⟨p, rfl, hzero⟩

theorem walk_cons_iff {data : Bytes} {p : Nat} {move : Move} {moves : List Move} :
    Walk data p (move :: moves) ↔ ∃ q, MoveAt data p move q ∧ Walk data q moves := by
  constructor
  · rintro ⟨z, ⟨q, hmove, hrest⟩, hzero⟩
    exact ⟨q, hmove, z, hrest, hzero⟩
  · rintro ⟨q, hmove, z, hrest, hzero⟩
    exact ⟨z, ⟨q, hmove, hrest⟩, hzero⟩

/-- A walk reads a name of the grammar. -/
theorem Walk.nameAt {data : Bytes} {p : Nat} {moves : List Move} (h : Walk data p moves) :
    NameAt data (walkPointers moves) p (walkLabels moves) (walkEnd p moves) := by
  induction moves generalizing p with
  | nil => exact .root (walk_nil_iff.mp h)
  | cons move moves ih =>
    obtain ⟨q, hmove, hrest⟩ := walk_cons_iff.mp h
    have hname := ih hrest
    cases hmove with
    | @label len hlen hpos hle hfit =>
      have hlabel : ((data.drop (p + 1)).take len.toNat).length = len.toNat := by
        rw [List.length_take, List.length_drop]
        omega
      rw [walkLabels, walkPointers, walkEnd, hlabel]
      exact .label hlen hpos (by omega) hlabel (segAt_take_drop data (p + 1) len.toNat) hname
    | @pointer hi lo hhi hge hlo =>
      have hlt : hi.toNat < 256 := hi.toNat_lt
      have hoffset : hi.toNat % 64 = hi.toNat - 192 := by omega
      rw [hoffset] at hname
      exact .pointer hhi hge hlo hname

/-- Every name of the grammar is read by a walk. -/
theorem NameAt.exists_walk {data : Bytes} {jumps p q : Nat} {ls : List Bytes}
    (h : NameAt data jumps p ls q) :
    ∃ moves, Walk data p moves ∧ walkPointers moves = jumps ∧ walkLabels moves = ls ∧
      walkEnd p moves = q := by
  induction h with
  | root hzero => exact ⟨[], walk_nil_iff.mpr hzero, rfl, rfl, rfl⟩
  | @label jumps p q len label ls hlen hpos hlt hlabel hseg hrest ih =>
    obtain ⟨moves, hwalk, hjumps, hlabels, hend⟩ := ih
    have hfit : p + 1 + label.length ≤ data.length :=
      hseg.length_le (List.length_pos_iff.mp (by omega))
    have hbytes : (data.drop (p + 1)).take len.toNat = label := by
      rw [← hlabel]
      exact (List.prefix_iff_eq_take.mp hseg).symm
    have hmove : MoveAt data p (.label label) (p + 1 + len.toNat) := by
      rw [← hbytes]
      exact .label hlen hpos (by omega) (by omega)
    refine ⟨.label label :: moves, walk_cons_iff.mpr ⟨_, hmove, hwalk⟩, hjumps, ?_, ?_⟩
    · rw [walkLabels, hlabels]
    · rw [walkEnd, hlabel, hend]
  | @pointer jumps p q hi lo ls hhi hge hlo hrest ih =>
    obtain ⟨moves, hwalk, hjumps, hlabels, -⟩ := ih
    have hlt : hi.toNat < 256 := hi.toNat_lt
    have hoffset : hi.toNat % 64 = hi.toNat - 192 := by omega
    have hmove : MoveAt data p .pointer ((hi.toNat - 192) * 256 + lo.toNat) := by
      rw [← hoffset]
      exact .pointer hhi hge hlo
    refine ⟨.pointer :: moves, walk_cons_iff.mpr ⟨_, hmove, hwalk⟩, ?_, hlabels, rfl⟩
    rw [walkPointers, hjumps]

end Wire

namespace DnsHelpers

/-- The result of decoding the name at `p`: the labels of the walk from there if it comes to
a zero byte within ten pointers, and otherwise one of the exceptions of the source. -/
structure Decodes (data : Bytes) (p : Nat) : Prop where
  succeeds : ∀ name r, wireToName data p = .ok (name, r) ↔
    ∃ moves, Wire.Walk data p moves ∧ Wire.walkPointers moves ≤ 10 ∧
      name = Wire.dotted (Wire.walkLabels moves) ∧ r = Wire.walkEnd p moves
  throws : (¬∃ moves, Wire.Walk data p moves ∧ Wire.walkPointers moves ≤ 10) →
    ∃ e, wireToName data p = .error (.thrown e)

theorem wireToName_eq_ok_iff_walk {data : Bytes} {p : Nat} {name : Bytes} {r : Nat} :
    wireToName data p = .ok (name, r) ↔
      ∃ moves, Wire.Walk data p moves ∧ Wire.walkPointers moves ≤ 10 ∧
        name = Wire.dotted (Wire.walkLabels moves) ∧ r = Wire.walkEnd p moves := by
  rw [wireToName_eq_ok_iff]
  constructor
  · rintro ⟨ls, ⟨jumps, hle, hname⟩, rfl⟩
    obtain ⟨moves, hwalk, rfl, rfl, rfl⟩ := hname.exists_walk
    exact ⟨moves, hwalk, hle, rfl, rfl⟩
  · rintro ⟨moves, hwalk, hle, rfl, rfl⟩
    exact ⟨_, ⟨_, hle, hwalk.nameAt⟩, rfl⟩

/-- For every buffer and every cursor. -/
theorem wireToName_decodes (data : Bytes) (p : Nat) : Decodes data p := by
  refine ⟨fun name r => wireToName_eq_ok_iff_walk, fun hnone => ?_⟩
  cases hresult : wireToName data p with
  | ok result =>
    obtain ⟨moves, hwalk, hle, -⟩ := wireToName_eq_ok_iff_walk.mp hresult
    exact absurd ⟨moves, hwalk, hle⟩ hnone
  | error f =>
    cases f with
    | thrown e => exact ⟨e, rfl⟩
    | outOfRange => exact absurd hresult (wireToName_ne_outOfRange data p)

end DnsHelpers
end Dnss
