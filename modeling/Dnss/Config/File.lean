/-
The config file.

`parseJson` does not read JSON.  It looks for a text in quotes, a colon and a value, and for the
next one behind it, and takes a quote for the end of a text whatever stands before it.  What is
between the two it does not look at.

`members_escaped_iff` says when a JSON object of texts and plain words comes out as it was meant,
wherever it has white space: exactly when no text in it needs an escape.
-/
import Dnss.Library.Scan
import Dnss.Protocol.Message
import Mathlib.Data.List.AList

namespace Dnss
namespace ConfigFile

open Scan

/-! ## The characters -/

/-- A literal of the source. -/
def ascii (s : String) : Bytes := s.toList.map fun c => c.toNat.toUInt8

def quote : UInt8 := 0x22
def colon : UInt8 := 0x3A
def comma : UInt8 := 0x2C
def openBrace : UInt8 := 0x7B
def closeBrace : UInt8 := 0x7D
def backslash : UInt8 := 0x5C

/-- `" \t\r\n"`. -/
def isBlank (c : UInt8) : Bool := c = 0x20 ∨ c = 0x09 ∨ c = 0x0D ∨ c = 0x0A

/-- `" \t"`. -/
def isPad (c : UInt8) : Bool := c = 0x20 ∨ c = 0x09

/-- `",}\n\r"`. -/
def endsWord (c : UInt8) : Bool := c = comma ∨ c = closeBrace ∨ c = 0x0A ∨ c = 0x0D

/-! ## The reader -/

/-- The value and what is behind it; the text begins behind the colon. -/
def readValue (text : Bytes) : Option (Bytes × Bytes) :=
  match text.dropWhile isBlank with
  | [] => none
  | c :: rest =>
    if c = quote then cut (· = quote) rest
    else
      some (trim isPad ((c :: rest).takeWhile fun c => !endsWord c),
        (c :: rest).dropWhile fun c => !endsWord c)

/-- One pass of the loop.  Where it breaks there is nothing. -/
def readMember (text : Bytes) : Option ((Bytes × Bytes) × Bytes) := do
  let (_, fromKey) ← cut (· = quote) text
  let (key, behindKey) ← cut (· = quote) fromKey
  let (_, fromValue) ← cut (· = colon) behindKey
  let (value, rest) ← readValue fromValue
  some ((key, value), rest)

/-- The assignments to `kv`, one after the other. -/
def members (content : Bytes) : List (Bytes × Bytes) := readAll readMember content

abbrev KeyValues := AList (fun _ : Bytes => Bytes)

def assign (kv : KeyValues) (member : Bytes × Bytes) : KeyValues := kv.insert member.1 member.2

/-- The content is that of the file, unless it cannot be opened. -/
def parseJson : Option Bytes → KeyValues
  | none => ∅
  | some content => (members content).foldl assign ∅

/-! ## One member -/

theorem readValue_shortens {text value rest : Bytes} (h : readValue text = some (value, rest)) :
    rest.length ≤ text.length := by
  have hdrop := (List.dropWhile_suffix isBlank (l := text)).length_le
  unfold readValue at h
  split at h
  · cases h
  · rename_i c behind hblank
    rw [hblank] at hdrop
    split at h
    · have hless := length_lt_of_cut h
      rw [List.length_cons] at hdrop
      omega
    · rw [Option.some.injEq, Prod.mk.injEq] at h
      rw [← h.2]
      exact (List.dropWhile_suffix _).length_le.trans hdrop

theorem readMember_eq_some_iff {text : Bytes} {member : Bytes × Bytes} {rest : Bytes} :
    readMember text = some (member, rest) ↔ ∃ front fromKey behindKey between fromValue,
      cut (· = quote) text = some (front, fromKey) ∧
      cut (· = quote) fromKey = some (member.1, behindKey) ∧
      cut (· = colon) behindKey = some (between, fromValue) ∧
      readValue fromValue = some (member.2, rest) := by
  unfold readMember
  simp only [Option.bind_eq_bind, Option.bind_eq_some_iff, Prod.exists]
  constructor
  · rintro ⟨front, fromKey, hfront, key, behindKey, hkey, between, fromValue, hcolon, value, rest',
      hvalue, heq⟩
    simp only [Option.some.injEq, Prod.mk.injEq] at heq
    obtain ⟨rfl, rfl⟩ := heq
    exact ⟨front, fromKey, behindKey, between, fromValue, hfront, hkey, hcolon, hvalue⟩
  · rintro ⟨front, fromKey, behindKey, between, fromValue, hfront, hkey, hcolon, hvalue⟩
    exact ⟨front, fromKey, hfront, member.1, behindKey, hkey, between, fromValue, hcolon, member.2,
      rest, hvalue, rfl⟩

theorem readMember_shortens : Shortens readMember := by
  intro text member rest h
  obtain ⟨front, fromKey, behindKey, between, fromValue, hfront, hkey, hcolon, hvalue⟩ :=
    readMember_eq_some_iff.mp h
  have hone := length_lt_of_cut hfront
  have htwo := length_lt_of_cut hkey
  have hthree := length_lt_of_cut hcolon
  have hfour := readValue_shortens hvalue
  omega

/-! ## An object -/

inductive Value where
  /-- In quotes. -/
  | text (s : Bytes)
  /-- A number, `true`, `false` or `null`. -/
  | word (s : Bytes)
  deriving DecidableEq

def Value.bytes : Value → Bytes
  | .text s => s
  | .word s => s

def Value.render : Value → Bytes
  | .text s => quote :: (s ++ [quote])
  | .word s => s

/-- A member with the white space that stands around its parts. -/
structure Member where
  key : Bytes
  value : Value
  beforeKey : Bytes := []
  behindKey : Bytes := []
  beforeValue : Bytes := []
  behindValue : Bytes := []

namespace Member

def assignment (m : Member) : Bytes × Bytes := (m.key, m.value.bytes)

def render (m : Member) : Bytes :=
  m.beforeKey ++ quote :: (m.key ++ quote :: (m.behindKey ++ colon :: (m.beforeValue ++
    (m.value.render ++ m.behindValue))))

end Member

/-- The members behind a first one, and the end of the object. -/
def renderRest (tail : Bytes) : List Member → Bytes
  | [] => closeBrace :: tail
  | m :: ms => comma :: (m.render ++ renderRest tail ms)

/-- An object with `tail` behind it. -/
def render (tail : Bytes) : List Member → Bytes
  | [] => openBrace :: closeBrace :: tail
  | m :: ms => openBrace :: (m.render ++ renderRest tail ms)

/-- There is no quote in it. -/
def Unquoted (s : Bytes) : Prop := ∀ c ∈ s, c ≠ quote

/-- A word is not empty and has none of the characters that come before or behind it. -/
structure IsWord (s : Bytes) : Prop where
  nonempty : s ≠ []
  inside : ∀ c ∈ s, c ≠ quote ∧ isBlank c = false ∧ c ≠ comma ∧ c ≠ closeBrace

/-- The white space is white space, and the text can be read back. -/
structure Member.Readable (m : Member) : Prop where
  blank : ∀ pad ∈ [m.beforeKey, m.behindKey, m.beforeValue, m.behindValue],
    ∀ c ∈ pad, isBlank c = true
  key : Unquoted m.key
  text : ∀ s, m.value = .text s → Unquoted s
  word : ∀ s, m.value = .word s → IsWord s

/-! ## What is read from an object -/

theorem ne_quote_of_isBlank {c : UInt8} (h : isBlank c = true) : c ≠ quote := by
  rintro rfl
  revert h
  decide

theorem ne_colon_of_isBlank {c : UInt8} (h : isBlank c = true) : c ≠ colon := by
  rintro rfl
  revert h
  decide

/-- Of the white space a word goes on over tabs and spaces. -/
theorem isPad_of_isBlank {c : UInt8} (h : isBlank c = true) (hgoes : (!endsWord c) = true) :
    isPad c = true := by
  simp only [isBlank, isPad, endsWord, Bool.not_eq_true', decide_eq_true_eq, decide_eq_false_iff_not]
    at h hgoes ⊢
  tauto

theorem not_endsWord {c : UInt8}
    (h : c ≠ quote ∧ isBlank c = false ∧ c ≠ comma ∧ c ≠ closeBrace) : (!endsWord c) = true := by
  obtain ⟨-, hblank, hcomma, hbrace⟩ := h
  simp only [isBlank, endsWord, Bool.not_eq_true', decide_eq_false_iff_not] at hblank ⊢
  tauto

theorem trimmed_word {s : Bytes}
    (h : ∀ c ∈ s, c ≠ quote ∧ isBlank c = false ∧ c ≠ comma ∧ c ≠ closeBrace) :
    Trimmed isPad s := by
  have hpad : ∀ c ∈ s, isPad c = false := by
    intro c hc
    have hblank := (h c hc).2.1
    simp only [isBlank, isPad, decide_eq_false_iff_not] at hblank ⊢
    tauto
  exact ⟨fun c hc => hpad c (List.mem_of_mem_head? hc), fun c hc =>
    hpad c (List.mem_of_mem_getLast? hc)⟩

/-- What is behind a value stops a word. -/
def Stops (post : Bytes) : Prop := ∃ c rest, post = c :: rest ∧ endsWord c = true ∧ c ≠ quote

theorem stops_renderRest (tail : Bytes) (ms : List Member) : Stops (renderRest tail ms) := by
  cases ms with
  | nil => exact ⟨closeBrace, tail, rfl, by decide, by decide⟩
  | cons m ms => exact ⟨comma, _, rfl, by decide, by decide⟩

/-- A value is read, and at most white space behind it. -/
theorem readValue_render {m : Member} (h : m.Readable) {post : Bytes} (hpost : Stops post) :
    ∃ pad, Unquoted pad ∧
      readValue (m.beforeValue ++ (m.value.render ++ (m.behindValue ++ post))) =
        some (m.value.bytes, pad ++ post) := by
  have hbefore : ∀ c ∈ m.beforeValue, isBlank c = true := h.blank _ (by simp)
  have hbehind : ∀ c ∈ m.behindValue, isBlank c = true := h.blank _ (by simp)
  unfold readValue
  rw [List.dropWhile_append_of_pos hbefore]
  cases hvalue : m.value with
  | text s =>
    have hquote : isBlank quote = false := by decide
    have hunquoted : ∀ c ∈ s, decide (c = quote) = false := fun c hc =>
      decide_eq_false (h.text s hvalue c hc)
    refine ⟨m.behindValue, fun c hc => ne_quote_of_isBlank (hbehind c hc), ?_⟩
    rw [Value.render, List.cons_append, List.dropWhile_cons_of_neg (by rw [hquote]; decide)]
    dsimp only
    rw [if_pos rfl, List.append_assoc, List.singleton_append]
    exact cut_append hunquoted (by decide)
  | word s =>
    obtain ⟨hne, hinside⟩ := h.word s hvalue
    obtain ⟨stop, rest, rfl, hstop, -⟩ := hpost
    have hends : (!endsWord stop) = false := by
      rw [hstop]
      rfl
    have hspan : (m.behindValue ++ stop :: rest).takeWhile (fun c => !endsWord c) = _ ∧ _ :=
      span_append hends
    obtain ⟨first, s', rfl⟩ := List.exists_cons_of_ne_nil hne
    have hfirst := hinside first List.mem_cons_self
    have hgoes : ∀ c ∈ first :: s', (!endsWord c) = true := fun c hc =>
      not_endsWord (hinside c hc)
    refine ⟨m.behindValue.dropWhile fun c => !endsWord c, fun c hc => ?_, ?_⟩
    · exact ne_quote_of_isBlank (hbehind c ((List.dropWhile_suffix _).subset hc))
    · rw [Value.render, List.cons_append,
        List.dropWhile_cons_of_neg (by rw [hfirst.2.1]; exact Bool.false_ne_true)]
      dsimp only
      rw [if_neg hfirst.1, ← List.cons_append, List.takeWhile_append_of_pos hgoes,
        List.dropWhile_append_of_pos hgoes, hspan.1, hspan.2]
      have hpads : ∀ c ∈ m.behindValue.takeWhile (fun c => !endsWord c), isPad c = true := by
        intro c hc
        exact isPad_of_isBlank (hbehind c ((List.takeWhile_prefix _).subset hc))
          (List.mem_takeWhile_imp (p := fun c => !endsWord c) hc)
      have htrim := trim_pad (List.forall_mem_nil _) hpads (trimmed_word hinside)
      rw [List.nil_append] at htrim
      rw [htrim]
      rfl

theorem readMember_render {m : Member} (h : m.Readable) {front post : Bytes}
    (hfront : Unquoted front) (hpost : Stops post) :
    ∃ pad, Unquoted pad ∧
      readMember (front ++ (m.render ++ post)) = some (m.assignment, pad ++ post) := by
  have hbehind : ∀ c ∈ m.behindKey, isBlank c = true := h.blank _ (by simp)
  have hbefore : ∀ c ∈ m.beforeKey, isBlank c = true := h.blank _ (by simp)
  obtain ⟨pad, hpad, hvalue⟩ := readValue_render h hpost
  refine ⟨pad, hpad, readMember_eq_some_iff.mpr
    ⟨front ++ m.beforeKey, _, _, m.behindKey, _, ?_, cut_append ?_ (decide_eq_true rfl),
      cut_append ?_ (decide_eq_true rfl), hvalue⟩⟩
  · have hskip : ∀ c ∈ front ++ m.beforeKey, decide (c = quote) = false := by
      intro c hc
      rw [decide_eq_false_iff_not]
      rcases List.mem_append.mp hc with hc | hc
      · exact hfront c hc
      · exact ne_quote_of_isBlank (hbefore c hc)
    have htext : front ++ (m.render ++ post) = front ++ m.beforeKey ++ quote :: (m.key ++ quote ::
        (m.behindKey ++ colon :: (m.beforeValue ++ (m.value.render ++ (m.behindValue ++ post))))) := by
      simp only [Member.render, List.append_assoc, List.cons_append]
    rw [htext]
    exact cut_append hskip (by decide)
  · exact fun c hc => decide_eq_false (h.key c hc)
  · exact fun c hc => decide_eq_false (ne_colon_of_isBlank (hbehind c hc))

theorem unquoted_append {s t : Bytes} (hs : Unquoted s) (ht : Unquoted t) : Unquoted (s ++ t) :=
  List.forall_mem_append.mpr ⟨hs, ht⟩

theorem members_none {text : Bytes} (h : Unquoted text) : members text = [] := by
  refine readAll_none ?_
  have hnone : cut (· = quote) text = none :=
    cut_eq_none_iff.mpr fun c hc => decide_eq_false (h c hc)
  unfold readMember
  rw [hnone]
  rfl

theorem members_renderRest {tail : Bytes} (htail : Unquoted tail) {ms : List Member}
    (h : ∀ m ∈ ms, m.Readable) {front : Bytes} (hfront : Unquoted front) :
    members (front ++ renderRest tail ms) = ms.map Member.assignment := by
  induction ms generalizing front with
  | nil =>
    refine members_none (unquoted_append hfront ?_)
    exact List.forall_mem_cons.mpr ⟨by decide, htail⟩
  | cons m ms ih =>
    rw [List.forall_mem_cons] at h
    have hcomma : Unquoted (front ++ [comma]) :=
      unquoted_append hfront (List.forall_mem_singleton.mpr (by decide))
    obtain ⟨pad, hpad, hread⟩ := readMember_render h.1 hcomma (stops_renderRest tail ms)
    rw [List.append_assoc, List.singleton_append] at hread
    show members (front ++ comma :: (m.render ++ renderRest tail ms)) = _
    rw [members, readAll_some readMember_shortens hread, List.map_cons]
    exact congrArg (m.assignment :: ·) (ih h.2 hpad)

/-- An object whose texts have no quotes is read as it was written. -/
theorem members_render {tail : Bytes} (htail : Unquoted tail) {ms : List Member}
    (h : ∀ m ∈ ms, m.Readable) : members (render tail ms) = ms.map Member.assignment := by
  cases ms with
  | nil =>
    refine members_none (List.forall_mem_cons.mpr ⟨by decide, List.forall_mem_cons.mpr ⟨by decide, htail⟩⟩)
  | cons m ms =>
    rw [List.forall_mem_cons] at h
    have hbrace : Unquoted [openBrace] := List.forall_mem_singleton.mpr (by decide)
    obtain ⟨pad, hpad, hread⟩ := readMember_render h.1 hbrace (stops_renderRest tail ms)
    show members ([openBrace] ++ (m.render ++ renderRest tail ms)) = _
    rw [members, readAll_some readMember_shortens hread, List.map_cons]
    exact congrArg (m.assignment :: ·) (members_renderRest htail h.2 hpad)

/-! ## Escapes -/

def hexDigit (n : UInt8) : UInt8 := if n < 10 then 0x30 + n else 0x57 + n

/-- A character as JSON writes it in a text. -/
def escape (c : UInt8) : Bytes :=
  if c = quote then [backslash, quote]
  else if c = backslash then [backslash, backslash]
  else if c < 0x20 then [backslash, 0x75, 0x30, 0x30, hexDigit (c / 16), hexDigit (c % 16)]
  else [c]

def escapeText (s : Bytes) : Bytes := s.flatMap escape

/-- JSON writes the character as it is. -/
def IsPlain (c : UInt8) : Prop := c ≠ quote ∧ c ≠ backslash ∧ ¬ c < 0x20

def Plain (s : Bytes) : Prop := ∀ c ∈ s, IsPlain c

def Value.escaped : Value → Value
  | .text s => .text (escapeText s)
  | .word s => .word s

def Member.escaped (m : Member) : Member :=
  { m with key := escapeText m.key, value := m.value.escaped }

/-- The white space is white space, and the words are words; the texts are any. -/
structure Member.Written (m : Member) : Prop where
  blank : ∀ pad ∈ [m.beforeKey, m.behindKey, m.beforeValue, m.behindValue],
    ∀ c ∈ pad, isBlank c = true
  word : ∀ s, m.value = .word s → IsWord s

/-- No text of it needs an escape. -/
structure Member.Plain (m : Member) : Prop where
  key : ConfigFile.Plain m.key
  text : ∀ s, m.value = .text s → ConfigFile.Plain s

theorem escape_of_isPlain {c : UInt8} (h : IsPlain c) : escape c = [c] := by
  unfold escape
  rw [if_neg h.1, if_neg h.2.1, if_neg h.2.2]

theorem two_le_length_escape {c : UInt8} (h : ¬ IsPlain c) : 2 ≤ (escape c).length := by
  unfold escape
  by_cases hquote : c = quote
  · rw [if_pos hquote]
    exact Nat.le_refl 2
  · by_cases hback : c = backslash
    · rw [if_neg hquote, if_pos hback]
      exact Nat.le_refl 2
    · have hcontrol : c < 0x20 := by
        by_contra hge
        exact h ⟨hquote, hback, hge⟩
      rw [if_neg hquote, if_neg hback, if_pos hcontrol]
      show 2 ≤ 6
      decide

theorem unquoted_escape {c : UInt8} (h : c ≠ quote) : Unquoted (escape c) := by
  have hall : ∀ c : UInt8, c ≠ quote → ∀ d ∈ escape c, d ≠ quote := by
    refine Word.forall_byte ?_
    decide +kernel
  exact hall c h

theorem escapeText_of_plain {s : Bytes} (h : Plain s) : escapeText s = s := by
  induction s with
  | nil => rfl
  | cons c s ih =>
    obtain ⟨hc, hs⟩ := List.forall_mem_cons.mp h
    rw [escapeText, List.flatMap_cons, escape_of_isPlain hc]
    exact congrArg (c :: ·) (ih hs)

theorem plain_of_length {s : Bytes} (h : (escapeText s).length ≤ s.length) : Plain s := by
  have hle : ∀ t : Bytes, t.length ≤ (escapeText t).length := by
    intro t
    induction t with
    | nil => exact Nat.le_refl 0
    | cons c t ih =>
      have hpos : 1 ≤ (escape c).length := by
        by_cases hc : IsPlain c
        · rw [escape_of_isPlain hc]
          exact Nat.le_refl 1
        · exact Nat.le_of_succ_le (two_le_length_escape hc)
      rw [escapeText, List.flatMap_cons, List.length_append, List.length_cons]
      change t.length ≤ (t.flatMap escape).length at ih
      omega
  induction s with
  | nil => exact List.forall_mem_nil _
  | cons c s ih =>
    have hrest := hle s
    rw [escapeText, List.flatMap_cons, List.length_append, List.length_cons] at h
    change s.length ≤ (s.flatMap escape).length at hrest
    have hc : IsPlain c := by
      by_contra hnot
      have htwo := two_le_length_escape hnot
      omega
    rw [escape_of_isPlain hc, List.length_singleton] at h
    exact List.forall_mem_cons.mpr ⟨hc, ih (show (s.flatMap escape).length ≤ s.length by omega)⟩

/-- A text that comes out as it was meant has been written as it is. -/
theorem plain_of_cut {s post rest : Bytes}
    (h : cut (· = quote) (escapeText s ++ quote :: post) = some (s, rest)) :
    Plain s ∧ rest = post := by
  obtain ⟨-, -, -, hunquoted⟩ := cut_eq_some_iff.mp h
  have hescaped : ∀ c ∈ escapeText s, decide (c = quote) = false := by
    intro c hc
    obtain ⟨c', hc', hmem⟩ := List.mem_flatMap.mp hc
    exact decide_eq_false (unquoted_escape (of_decide_eq_false (hunquoted c' hc')) c hmem)
  rw [cut_append hescaped (decide_eq_true rfl), Option.some.injEq, Prod.mk.injEq] at h
  exact ⟨plain_of_length (Nat.le_of_eq (congrArg List.length h.1)), h.2.symm⟩

theorem Member.escaped_of_plain {m : Member} (h : m.Plain) : m.escaped = m := by
  have hvalue : m.value.escaped = m.value := by
    cases hvalue : m.value with
    | text s => exact congrArg Value.text (escapeText_of_plain (h.text s hvalue))
    | word s => rfl
  rw [Member.escaped, escapeText_of_plain h.key, hvalue]

theorem unquoted_of_plain {s : Bytes} (h : ConfigFile.Plain s) : Unquoted s := fun c hc => (h c hc).1

theorem Member.readable_of_plain {m : Member} (hwritten : m.Written) (h : m.Plain) : m.Readable where
  blank := hwritten.blank
  key := unquoted_of_plain h.key
  text := fun s hs => unquoted_of_plain (h.text s hs)
  word := hwritten.word

theorem plain_of_readValue {m : Member} (hwritten : m.Written) {post rest : Bytes}
    (h : readValue (m.beforeValue ++ (m.value.escaped.render ++ post)) = some (m.value.bytes, rest))
    {s : Bytes} (hs : m.value = .text s) : ConfigFile.Plain s := by
  have hbefore : ∀ c ∈ m.beforeValue, isBlank c = true := hwritten.blank _ (by simp)
  have hquote : ¬ isBlank quote = true := by decide
  rw [hs, readValue, List.dropWhile_append_of_pos hbefore, Value.escaped, Value.render,
    List.cons_append, List.dropWhile_cons_of_neg hquote] at h
  dsimp only at h
  rw [if_pos rfl, List.append_assoc, List.singleton_append] at h
  exact (plain_of_cut h).1

/-- A member that comes out as it was meant has no escapes. -/
theorem plain_of_readMember {m : Member} (hwritten : m.Written) {front post rest : Bytes}
    (hfront : Unquoted front)
    (h : readMember (front ++ (m.escaped.render ++ post)) = some (m.assignment, rest)) :
    m.Plain := by
  have hbehind : ∀ c ∈ m.behindKey, isBlank c = true := hwritten.blank _ (by simp)
  have hbefore : ∀ c ∈ m.beforeKey, isBlank c = true := hwritten.blank _ (by simp)
  obtain ⟨front', fromKey, behindKey, between, fromValue, hskip, hkey, hcolon, hvalue⟩ :=
    readMember_eq_some_iff.mp h
  have hunquoted : ∀ c ∈ front ++ m.beforeKey, decide (c = quote) = false := by
    intro c hc
    rw [decide_eq_false_iff_not]
    rcases List.mem_append.mp hc with hc | hc
    · exact hfront c hc
    · exact ne_quote_of_isBlank (hbefore c hc)
  have htext : front ++ (m.escaped.render ++ post) = front ++ m.beforeKey ++ quote ::
      (escapeText m.key ++ quote :: (m.behindKey ++ colon :: (m.beforeValue ++
        (m.value.escaped.render ++ (m.behindValue ++ post))))) := by
    simp only [Member.render, Member.escaped, List.append_assoc, List.cons_append]
  rw [htext, cut_append hunquoted (decide_eq_true rfl), Option.some.injEq, Prod.mk.injEq] at hskip
  rw [← hskip.2] at hkey
  obtain ⟨hplain, hbehindKey⟩ := plain_of_cut hkey
  have hnocolon : ∀ c ∈ m.behindKey, decide (c = colon) = false := fun c hc =>
    decide_eq_false (ne_colon_of_isBlank (hbehind c hc))
  rw [hbehindKey, cut_append hnocolon (decide_eq_true rfl), Option.some.injEq,
    Prod.mk.injEq] at hcolon
  rw [← hcolon.2] at hvalue
  exact ⟨hplain, fun s hs => plain_of_readValue hwritten hvalue hs⟩

theorem readMember_of_members {text : Bytes} {member : Bytes × Bytes} {later : List (Bytes × Bytes)}
    (h : members text = member :: later) : ∃ rest, readMember text = some (member, rest) := by
  cases hread : readMember text with
  | none =>
    rw [members, readAll_none hread] at h
    cases h
  | some r =>
    rw [members, readAll_some readMember_shortens hread, List.cons.injEq] at h
    exact ⟨r.2, by rw [← h.1]⟩

/-- One member of an object that comes out as it was meant, and the others. -/
theorem plain_of_members {tail : Bytes} {m : Member} {ms : List Member} (hwritten : m.Written)
    {front : Bytes} (hfront : Unquoted front)
    (h : members (front ++ (m.escaped.render ++ renderRest tail (ms.map Member.escaped))) =
      m.assignment :: ms.map Member.assignment) :
    m.Plain ∧ ∃ pad, Unquoted pad ∧
      members (pad ++ renderRest tail (ms.map Member.escaped)) = ms.map Member.assignment := by
  obtain ⟨rest, hread⟩ := readMember_of_members h
  have hplain := plain_of_readMember hwritten hfront hread
  refine ⟨hplain, ?_⟩
  rw [Member.escaped_of_plain hplain] at h
  obtain ⟨pad, hpad, hread⟩ := readMember_render (Member.readable_of_plain hwritten hplain) hfront
    (stops_renderRest tail (ms.map Member.escaped))
  rw [members, readAll_some readMember_shortens hread, List.cons.injEq] at h
  exact ⟨pad, hpad, h.2⟩

theorem plain_of_renderRest {tail : Bytes} {ms : List Member} (hwritten : ∀ m ∈ ms, m.Written)
    {front : Bytes} (hfront : Unquoted front)
    (h : members (front ++ renderRest tail (ms.map Member.escaped)) =
      ms.map Member.assignment) : ∀ m ∈ ms, m.Plain := by
  induction ms generalizing front with
  | nil => exact List.forall_mem_nil _
  | cons m ms ih =>
    rw [List.forall_mem_cons] at hwritten
    have hcomma : Unquoted (front ++ [comma]) :=
      unquoted_append hfront (List.forall_mem_singleton.mpr (by decide))
    have htext : front ++ renderRest tail ((m :: ms).map Member.escaped) =
        (front ++ [comma]) ++ (m.escaped.render ++ renderRest tail (ms.map Member.escaped)) := by
      rw [List.append_assoc]
      rfl
    rw [htext] at h
    obtain ⟨hplain, pad, hpad, hlater⟩ := plain_of_members hwritten.1 hcomma h
    exact List.forall_mem_cons.mpr ⟨hplain, ih hwritten.2 hpad hlater⟩

theorem members_of_plain {tail : Bytes} (htail : Unquoted tail) {ms : List Member}
    (hwritten : ∀ m ∈ ms, m.Written) (hplain : ∀ m ∈ ms, m.Plain) :
    members (render tail (ms.map Member.escaped)) = ms.map Member.assignment := by
  have hsame : ms.map Member.escaped = ms := by
    rw [List.map_congr_left fun m hm => Member.escaped_of_plain (hplain m hm), List.map_id']
  rw [hsame]
  exact members_render htail fun m hm => Member.readable_of_plain (hwritten m hm) (hplain m hm)

/-- An object comes out as it was meant exactly when no text in it needs an escape. -/
theorem members_escaped_iff {tail : Bytes} (htail : Unquoted tail) {ms : List Member}
    (hwritten : ∀ m ∈ ms, m.Written) :
    members (render tail (ms.map Member.escaped)) = ms.map Member.assignment ↔
      ∀ m ∈ ms, m.Plain := by
  constructor
  · intro h
    cases ms with
    | nil => exact List.forall_mem_nil _
    | cons m ms =>
      rw [List.forall_mem_cons] at hwritten
      have hbrace : Unquoted [openBrace] := List.forall_mem_singleton.mpr (by decide)
      change members ([openBrace] ++ (m.escaped.render ++ renderRest tail (ms.map Member.escaped))) =
        m.assignment :: ms.map Member.assignment at h
      obtain ⟨hplain, pad, hpad, hlater⟩ := plain_of_members hwritten.1 hbrace h
      exact List.forall_mem_cons.mpr ⟨hplain, plain_of_renderRest hwritten.2 hpad hlater⟩
  · exact members_of_plain htail hwritten

/-- `"proxy": "a\"b"` and `"enable_cache" : true`. -/
def quotedProxy : List Member :=
  [{ key := ascii "proxy", value := .text [0x61, quote, 0x62], beforeValue := [0x20] },
    { key := ascii "enable_cache", value := .word (ascii "true"), behindKey := [0x20],
      beforeValue := [0x20], behindValue := [0x0A] }]

theorem written_quotedProxy : ∀ m ∈ quotedProxy, m.Written := by
  refine List.forall_mem_cons.mpr ⟨⟨by decide +kernel, fun s hs => by cases hs⟩,
    List.forall_mem_singleton.mpr ⟨by decide +kernel, fun s hs => ?_⟩⟩
  rw [← Value.word.inj hs]
  exact ⟨by decide +kernel, by decide +kernel⟩

theorem members_quotedProxy :
    members (render [0x0A] (quotedProxy.map Member.escaped)) =
      quotedProxy.map Member.assignment ↔ ∀ m ∈ quotedProxy, m.Plain :=
  members_escaped_iff (by unfold Unquoted; decide +kernel) written_quotedProxy

end ConfigFile
end Dnss
