/-
The L1 turbo cache.

Slots are matched on the 64-bit `turboHash` of a key and on nothing else.  The
spinlock of a slot makes each lookup and insertion one step, so the table is a
pure value here.  `turboFreq_` is written and never read, and is left out.

Instants are integers, in nanoseconds, as `steady_clock` counts them.
-/
import Dnss.Library.DirectMapped
import Dnss.Protocol.Message

namespace Dnss

structure CacheKey where
  name : Bytes
  type : UInt16
  qclass : UInt16
  deriving DecidableEq, Repr

def DnsQuestion.key (q : DnsQuestion) : CacheKey :=
  { name := q.qname, type := q.qtype, qclass := q.qclass }

/-- FNV-1a of the name, with the type and the class folded into the low 32 bits. -/
def turboHash (k : CacheKey) : UInt64 :=
  let h := k.name.foldl (fun h c => (h ^^^ c.toUInt64) * 1099511628211) 14695981039346656037
  h ^^^ (k.type.toUInt64 <<< 16) ^^^ k.qclass.toUInt64

abbrev turboSize : Nat := 4096

def turboIndex (h : UInt64) : Fin turboSize :=
  Fin.ofNat turboSize (h &&& 4095).toNat

structure TurboEntry where
  msg : DnsMessage
  expiresAt : Int
  deriving DecidableEq

/-- A slot whose `msg` is null holds no entry. -/
abbrev Turbo := DirectMapped.Table (Fin turboSize) UInt64 TurboEntry

def emptyTurbo : Turbo := fun _ => { tag := 0, value := none }

def turboLookup (t : Turbo) (h : UInt64) (now : Int) : Option DnsMessage :=
  match DirectMapped.lookup turboIndex t h with
  | none => none
  | some e => if e.expiresAt ≤ now then none else some e.msg

def turboInsert (t : Turbo) (h : UInt64) (msg : DnsMessage) (expiresAt : Int) : Turbo :=
  DirectMapped.insert turboIndex t h { msg, expiresAt }

/-- The table holds `msg` under the hash `h` until `expiresAt`. -/
def HoldsUntil (t : Turbo) (h : UInt64) (msg : DnsMessage) (expiresAt : Int) : Prop :=
  DirectMapped.lookup turboIndex t h = some { msg, expiresAt }

/-- The table holds `msg` under the hash `h`, expired or not. -/
def TurboHolds (t : Turbo) (h : UInt64) (msg : DnsMessage) : Prop :=
  ∃ expiresAt, DirectMapped.lookup turboIndex t h = some { msg, expiresAt }

theorem not_turboHolds_emptyTurbo (h : UInt64) (msg : DnsMessage) :
    ¬TurboHolds emptyTurbo h msg := by
  intro hholds
  obtain ⟨expiresAt, hlookup⟩ := hholds
  rw [DirectMapped.lookup_of_empty h fun _ => rfl] at hlookup
  cases hlookup

theorem turboLookup_eq_some_iff {t : Turbo} {h : UInt64} {now : Int} {msg : DnsMessage} :
    turboLookup t h now = some msg ↔
      ∃ expiresAt, HoldsUntil t h msg expiresAt ∧ now < expiresAt := by
  unfold turboLookup HoldsUntil
  cases hslot : DirectMapped.lookup turboIndex t h with
  | none => simp
  | some e =>
    show (if e.expiresAt ≤ now then none else some e.msg) = some msg ↔ _
    by_cases hexpired : e.expiresAt ≤ now
    · rw [if_pos hexpired]
      constructor
      · intro hmsg
        cases hmsg
      · intro hex
        obtain ⟨expiresAt, he, hnow⟩ := hex
        cases he
        exact absurd hexpired (Int.not_le.mpr hnow)
    · rw [if_neg hexpired, Option.some.injEq]
      constructor
      · intro hmsg
        exact ⟨e.expiresAt, by rw [← hmsg], Int.not_le.mp hexpired⟩
      · intro hex
        obtain ⟨expiresAt, he, -⟩ := hex
        cases he
        rfl

theorem turboLookup_emptyTurbo (h : UInt64) (now : Int) : turboLookup emptyTurbo h now = none := by
  rw [turboLookup, DirectMapped.lookup_of_empty _ fun _ => rfl]

theorem turboHolds_of_turboLookup {t : Turbo} {h : UInt64} {now : Int} {msg : DnsMessage}
    (hlookup : turboLookup t h now = some msg) : TurboHolds t h msg := by
  obtain ⟨expiresAt, hholds, -⟩ := turboLookup_eq_some_iff.mp hlookup
  exact ⟨expiresAt, hholds⟩

/-- What the table holds after an insertion is the new message under its hash, or
was there before. -/
theorem holdsUntil_turboInsert {t : Turbo} {h h' : UInt64} {msg msg' : DnsMessage}
    {expiresAt expiresAt' : Int}
    (hholds : HoldsUntil (turboInsert t h msg expiresAt) h' msg' expiresAt') :
    (h' = h ∧ msg' = msg ∧ expiresAt' = expiresAt) ∨ HoldsUntil t h' msg' expiresAt' := by
  rcases DirectMapped.lookup_insert_eq_some hholds with ⟨hh, he⟩ | ⟨-, hold⟩
  · exact Or.inl ⟨hh, congrArg TurboEntry.msg he, congrArg TurboEntry.expiresAt he⟩
  · exact Or.inr hold

theorem turboHolds_turboInsert {t : Turbo} {h h' : UInt64} {msg msg' : DnsMessage}
    {expiresAt : Int} (hholds : TurboHolds (turboInsert t h msg expiresAt) h' msg') :
    (h' = h ∧ msg' = msg) ∨ TurboHolds t h' msg' := by
  obtain ⟨expiresAt', hlookup⟩ := hholds
  rcases holdsUntil_turboInsert hlookup with ⟨hh, hmsg, -⟩ | hold
  · exact Or.inl ⟨hh, hmsg⟩
  · exact Or.inr ⟨expiresAt', hold⟩

theorem turboLookup_turboInsert_self {t : Turbo} {h : UInt64} {msg : DnsMessage}
    {expiresAt now : Int} (hnow : now < expiresAt) :
    turboLookup (turboInsert t h msg expiresAt) h now = some msg := by
  rw [turboLookup, turboInsert, DirectMapped.lookup_insert_self]
  exact if_neg (by show ¬expiresAt ≤ now; omega)

end Dnss
