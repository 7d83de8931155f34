/-
Names on the wire and as dotted strings.

`wireToName` follows the source's loop: a cursor that jumps on a compression
pointer, a saved cursor from the first jump, and a count of jumps.  Every byte is
read through `Cursor.readAt` or `Cursor.readSlice`, which fail with
`Fault.outOfRange` when the index is not below the buffer's length, so the guards
of the source and the reads they protect are separate steps of the model.

The recursion needs a measure because a pointer may lead anywhere.  A label moves
the cursor forward, and a jump uses up one of the ten the source allows.
-/
import Dnss.Library.Cursor
import Dnss.Library.Separated
import Dnss.Protocol.Message

namespace Dnss

/-- The `std::runtime_error`s of `dns_protocol.hpp` and `dns_protocol.cpp`. -/
inductive RuntimeError where
  | truncatedHeader
  | truncatedName
  | truncatedPointer
  | pointerCycle
  | truncatedLabel
  | labelTooLong
  | truncatedQuestion
  | truncatedRR
  | truncatedRdlen
  | truncatedMx
  | truncatedSoa
  deriving DecidableEq, Repr

def RuntimeError.what : RuntimeError → String
  | truncatedHeader => "truncated DNS header"
  | truncatedName => "truncated DNS name"
  | truncatedPointer => "truncated DNS pointer"
  | pointerCycle => "DNS compression pointer cycle"
  | truncatedLabel => "truncated DNS label"
  | labelTooLong => "label too long"
  | truncatedQuestion => "truncated question"
  | truncatedRR => "truncated RR"
  | truncatedRdlen => "truncated RDLEN"
  | truncatedMx => "truncated MX RDATA"
  | truncatedSoa => "truncated SOA RDATA"

/-- How a decoder stops early: with an exception of its own, or with a read
outside its buffer, which C++ leaves undefined. -/
inductive Fault where
  | thrown (e : RuntimeError)
  | outOfRange
  deriving DecidableEq, Repr

namespace DnsHelpers

open Cursor

/-- The 14-bit offset of a compression pointer. -/
def pointerOffset (len lo : UInt8) : Nat :=
  (Word.be16 (len &&& 0x3F) lo).toNat

/-- The loop of `wireToName`.  `saved` is the cursor after the first pointer, so
`jumped` is `saved.isSome`. -/
def wireToNameLoop (data : Bytes) (p : Nat) (name : Bytes) (saved : Option Nat)
    (jumpCount : Nat) : Except Fault (Bytes × Nat) :=
  if _hp : data.length ≤ p then .error (.thrown .truncatedName)
  else
    match readAt Fault.outOfRange data p with
    | .error e => .error e
    | .ok len =>
      if len = 0 then .ok (name, saved.getD (p + 1))
      else if len &&& 0xC0 = 0xC0 then
        if data.length ≤ p + 1 then .error (.thrown .truncatedPointer)
        else if _hj : 10 < jumpCount + 1 then .error (.thrown .pointerCycle)
        else
          match readAt Fault.outOfRange data (p + 1) with
          | .error e => .error e
          | .ok lo =>
            wireToNameLoop data (pointerOffset len lo) name (some (saved.getD (p + 2)))
              (jumpCount + 1)
      else if data.length < p + 1 + len.toNat then .error (.thrown .truncatedLabel)
      else
        match readSlice Fault.outOfRange data (p + 1) len.toNat with
        | .error e => .error e
        | .ok label =>
          wireToNameLoop data (p + 1 + len.toNat) (Separated.appendWord dot name label) saved
            jumpCount
termination_by (10 - jumpCount) * (data.length + 1) + (data.length + 1 - p)
decreasing_by
  · have hjumps : 10 - jumpCount = (10 - (jumpCount + 1)) + 1 := by omega
    rw [hjumps, Nat.add_mul]
    omega
  · omega

/-- Decode the name at cursor `p`; the result carries the cursor after it. -/
def wireToName (data : Bytes) (p : Nat) : Except Fault (Bytes × Nat) :=
  wireToNameLoop data p [] none 0

/-- The loop of `nameToWire` over the pieces between dots. -/
def piecesToWire : List Bytes → Except RuntimeError Bytes
  | [] => .ok [0]
  | piece :: rest =>
    if 0 < piece.length then
      if 63 < piece.length then .error .labelTooLong
      else do
        let out ← piecesToWire rest
        .ok (UInt8.ofNat piece.length :: piece ++ out)
    else piecesToWire rest

def nameToWire (name : Bytes) : Except RuntimeError Bytes :=
  if name = [dot] ∨ name = [] then .ok [0] else piecesToWire (name.splitOn dot)

end DnsHelpers
end Dnss
