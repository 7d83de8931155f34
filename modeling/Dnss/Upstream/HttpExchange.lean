/-
`Connection::exchange`: the body of an HTTP response out of a stream of reads.

The loop appends what `read_some` gives to a buffer until the header has arrived and, with a
content length, until the body has.  Then the header is parsed once more and the body is given
to `DnsMessage::parse` as a pointer and a length.

The state that the loop keeps from one read to the next is a function of the buffer
(`Tracks`), so what a read does is one too: `readLoop_eq_arrive`.  `Extracts` states what is
wanted of a stream for all the ways to receive it.

The sending of the request is left out, and the end of the reads is a given: the end of the
stream, or an error such as the time limit of the socket.
-/
import Dnss.Library.Occurrence
import Dnss.Protocol.Message

namespace Dnss
namespace HttpResolver

open Occurrence

/-! ## Texts -/

def crlf : Bytes := [0x0D, 0x0A]

def headerEndTag : Bytes := [0x0D, 0x0A, 0x0D, 0x0A]

/-- `Content-Length: `. -/
def clTag : Bytes :=
  [0x43, 0x6F, 0x6E, 0x74, 0x65, 0x6E, 0x74, 0x2D, 0x4C, 0x65, 0x6E, 0x67, 0x74, 0x68, 0x3A, 0x20]

/-- `chunked`. -/
def chunkedTag : Bytes := [0x63, 0x68, 0x75, 0x6E, 0x6B, 0x65, 0x64]

/-- `200`. -/
def code200 : Bytes := [0x32, 0x30, 0x30]

def isSpace (c : UInt8) : Bool := c = 0x20 ∨ (0x09 ≤ c ∧ c ≤ 0x0D)

def isDigit (c : UInt8) : Bool := 0x30 ≤ c ∧ c ≤ 0x39

def decimal (digits : Bytes) : Nat := digits.foldl (fun v d => 10 * v + (d.toNat - 0x30)) 0

/-- `std::stoul` on the text up to a zero byte; `none` is its exception. -/
def stoul (s : Bytes) : Option Nat :=
  let s := (s.takeWhile (· ≠ 0)).dropWhile isSpace
  let negative := s.head? = some 0x2D
  let s := if negative ∨ s.head? = some 0x2B then s.drop 1 else s
  let digits := s.takeWhile isDigit
  if digits = [] then none
  else if 2 ^ 64 ≤ decimal digits then none
  else some (if negative then (2 ^ 64 - decimal digits) % 2 ^ 64 else decimal digits)

/-! ## The header -/

/-- What the header says about the length of the body. -/
inductive Announced where
  | absent
  | invalid
  | length (n : Nat)
  deriving DecidableEq

/-- The code that stands in the loop and again behind it. -/
def contentLengthOf (hdr : Bytes) : Announced :=
  match find clTag hdr with
  | none => .absent
  | some i =>
    let behind := hdr.drop (i + clTag.length)
    match find crlf behind with
    | none => .absent
    | some j =>
      match stoul ((behind.take j).take 31) with
      | none => .invalid
      | some n => .length n

/-- `contentLength`, which is zero until one is found. -/
def Announced.value : Announced → Nat
  | .length n => n
  | _ => 0

def isChunkedHeader (hdr : Bytes) : Bool := (find chunkedTag hdr).isSome

def statusLine (hdr : Bytes) : Bytes := hdr.takeWhile (· ≠ 0x0D)

/-! ## The read loop -/

structure Reading where
  respBuf : Bytes := []
  headerDone : Bool := false
  headerEndPos : Nat := 0
  contentLength : Nat := 0
  isChunked : Bool := false

inductive Read where
  | threw
  | stop (respBuf : Bytes)
  | more (st : Reading)

/-- The end of the loop body. -/
def checkBody (st : Reading) : Read :=
  if st.contentLength > 0 then
    if st.respBuf.length - (st.headerEndPos + 4) ≥ st.contentLength then .stop st.respBuf
    else .more st
  else if !st.isChunked && st.headerDone then .stop st.respBuf
  else .more st

/-- The loop body after a successful `read_some`. -/
def receive (st : Reading) (chunk : Bytes) : Read :=
  let st := { st with respBuf := st.respBuf ++ chunk }
  if st.headerDone then checkBody st
  else
    match find headerEndTag st.respBuf with
    | none => checkBody st
    | some he =>
      let hdr := st.respBuf.take he
      if contentLengthOf hdr = .invalid then .threw
      else
        let st : Reading :=
          { st with
            headerDone := true, headerEndPos := he,
            contentLength := (contentLengthOf hdr).value, isChunked := isChunkedHeader hdr }
        if st.contentLength > 0 ∧ st.respBuf.length - (he + 4) ≥ st.contentLength then
          .stop st.respBuf
        else if !st.isChunked ∧ st.contentLength = 0 then .stop st.respBuf
        else checkBody st

/-- How the reads end when the loop does not stop before. -/
inductive End where
  | eof
  | error
  deriving DecidableEq

/-- How the loop is left: with an exception, with `return nullptr`, or with a buffer. -/
inductive Left where
  | threw
  | failed
  | done (respBuf : Bytes)
  deriving DecidableEq

def readLoop (e : End) : List Bytes → Reading → Left
  | [], st => if e = .eof then .done st.respBuf else .failed
  | chunk :: chunks, st =>
    match receive st chunk with
    | .threw => .threw
    | .stop respBuf => .done respBuf
    | .more st => readLoop e chunks st

/-! ## The body -/

/-- What `exchange` comes to.  `parse` is called with a pointer, behind which there are the
bytes `available`, and a length. -/
inductive Exchanged where
  | null
  | threw
  | parse (available : Bytes) (length : Nat)
  deriving DecidableEq

def extractBody (respBuf : Bytes) : Exchanged :=
  if respBuf = [] then .null
  else
    match find headerEndTag respBuf with
    | none => .null
    | some headerEnd =>
      let headerPart := respBuf.take headerEnd
      let available := respBuf.drop (headerEnd + 4)
      if find code200 (statusLine headerPart) = none then .null
      else
        match contentLengthOf headerPart with
        | .invalid => .threw
        | .absent => if available.length = 0 then .null else .parse available available.length
        | .length n => if n = 0 then .null else .parse available n

def exchange (chunks : List Bytes) (e : End) : Exchanged :=
  match readLoop e chunks {} with
  | .threw => .threw
  | .failed => .null
  | .done respBuf => extractBody respBuf

/-! ## What is wanted -/

/-- A way to receive the stream: each read gives between one and 4096 bytes. -/
structure Split (chunks : List Bytes) (stream : Bytes) : Prop where
  flatten : chunks.flatten = stream
  sizes : ∀ chunk ∈ chunks, 1 ≤ chunk.length ∧ chunk.length ≤ 4096

/-- A response with status 200, a header line `Content-Length: N` and `N` bytes of body. -/
structure Response (stream hdr body : Bytes) (N : Nat) : Prop where
  header : FirstAt headerEndTag stream hdr body
  status : ∃ version reason, statusLine hdr = version ++ 0x20 :: code200 ++ reason
  length : ∃ before digits behind, hdr = before ++ crlf ++ clTag ++ digits ++ behind ∧
    (behind = [] ∨ crlf <+: behind) ∧ digits ≠ [] ∧ (∀ d ∈ digits, isDigit d) ∧ decimal digits = N
  positive : 1 ≤ N
  complete : N ≤ body.length

/-- Only received bytes are parsed, and of a response the body. -/
structure Extracts (stream : Bytes) : Prop where
  received : ∀ chunks e available length, Split chunks stream →
    exchange chunks e = .parse available length → length ≤ available.length
  exact : ∀ hdr body N, Response stream hdr body N → ∀ chunks e, Split chunks stream →
    ∃ available, exchange chunks e = .parse available N ∧ N ≤ available.length ∧
      available.take N = body.take N

/-- The status line has the text `200` in it. -/
def Says200 (hdr : Bytes) : Prop := code200 <:+: statusLine hdr

/-- The first text `Content-Length: ` of the header block is followed by a line end in the
block, and the number between them is `n`. -/
def Announces (hdr : Bytes) (n : Nat) : Prop :=
  ∃ before behind text rest, FirstAt clTag hdr before behind ∧ FirstAt crlf behind text rest ∧
    stoul (text.take 31) = some n

theorem announces_iff {hdr : Bytes} {n : Nat} :
    Announces hdr n ↔ contentLengthOf hdr = .length n := by
  unfold contentLengthOf
  constructor
  · rintro ⟨before, behind, text, rest, htag, hline, hnumber⟩
    have hbehind := (htag.unique htag.find_eq).2
    have htext := (hline.unique hline.find_eq).1
    simp only [htag.find_eq, ← hbehind, hline.find_eq, ← htext, hnumber]
  · intro h
    cases htag : find clTag hdr with
    | none => simp [htag] at h
    | some i =>
      cases hline : find crlf (hdr.drop (i + clTag.length)) with
      | none => simp [htag, hline] at h
      | some j =>
        refine ⟨_, _, _, _, firstAt_of_find htag, firstAt_of_find hline, ?_⟩
        simp only [htag, hline] at h
        split at h
        · cases h
        · next m hnumber =>
          rw [hnumber, Announced.length.inj h]

/-! ## The loop by its buffer -/

/-- What the loop does with a buffer, whatever the reads it came in. -/
inductive Verdict where
  | threw
  | stop
  | more
  deriving DecidableEq

def verdictAt (buf hdr : Bytes) (he : Nat) : Verdict :=
  match contentLengthOf hdr with
  | .invalid => .threw
  | announced =>
    if announced.value > 0 then
      if buf.length - (he + 4) ≥ announced.value then .stop else .more
    else if isChunkedHeader hdr then .more
    else .stop

def verdict (buf : Bytes) : Verdict :=
  match find headerEndTag buf with
  | none => .more
  | some he => verdictAt buf (buf.take he) he

/-- The state of the loop is that of its buffer. -/
structure Tracks (st : Reading) : Prop where
  before : find headerEndTag st.respBuf = none →
    st.headerDone = false ∧ st.contentLength = 0 ∧ st.isChunked = false
  done : ∀ he, find headerEndTag st.respBuf = some he →
    st.headerDone = true ∧ st.headerEndPos = he ∧
    contentLengthOf (st.respBuf.take he) ≠ .invalid ∧
    st.contentLength = (contentLengthOf (st.respBuf.take he)).value ∧
    st.isChunked = isChunkedHeader (st.respBuf.take he)

theorem tracks_initial : Tracks {} := by
  refine ⟨fun _ => ⟨rfl, rfl, rfl⟩, fun he h => ?_⟩
  cases h

theorem verdictAt_of_valid {buf hdr : Bytes} {he : Nat} (h : contentLengthOf hdr ≠ .invalid) :
    verdictAt buf hdr he =
      if (contentLengthOf hdr).value > 0 then
        if buf.length - (he + 4) ≥ (contentLengthOf hdr).value then .stop else .more
      else if isChunkedHeader hdr then .more
      else .stop := by
  unfold verdictAt
  cases hannounced : contentLengthOf hdr with
  | absent => rfl
  | invalid => exact absurd hannounced h
  | length n => rfl

/-- A result of the loop body that is the one of the buffer. -/
def Follows (buf : Bytes) (r : Read) : Prop :=
  match verdict buf with
  | .threw => r = .threw
  | .stop => r = .stop buf
  | .more => ∃ st, r = .more st ∧ Tracks st ∧ st.respBuf = buf

/-- The end of the loop body decides as the buffer says. -/
theorem checkBody_follows {st : Reading} (h : Tracks st) : Follows st.respBuf (checkBody st) := by
  cases hfind : find headerEndTag st.respBuf with
  | none =>
    obtain ⟨hdone, hlength, -⟩ := h.before hfind
    have hmore : verdict st.respBuf = .more := by simp only [verdict, hfind]
    have hcheck : checkBody st = .more st := by simp [checkBody, hdone, hlength]
    rw [Follows, hmore]
    exact ⟨st, hcheck, h, rfl⟩
  | some he =>
    obtain ⟨hdone, hpos, hvalid, hlength, hchunked⟩ := h.done he hfind
    have hverdict : verdict st.respBuf = verdictAt st.respBuf (st.respBuf.take he) he := by
      simp only [verdict, hfind]
    rw [Follows, hverdict, verdictAt_of_valid hvalid, checkBody, hdone, hpos, ← hlength, ← hchunked]
    by_cases hpositive : st.contentLength > 0
    · by_cases hbody : st.respBuf.length - (he + 4) ≥ st.contentLength
      · simp only [if_pos hpositive, if_pos hbody]
      · simp only [if_pos hpositive, if_neg hbody]
        exact ⟨st, rfl, h, rfl⟩
    · cases hc : st.isChunked with
      | false => simp [hpositive]
      | true =>
        simp only [if_neg hpositive, if_true, Bool.not_true, Bool.false_and, Bool.false_eq_true,
          if_false]
        exact ⟨st, rfl, h, rfl⟩

theorem tracks_append {st : Reading} (h : Tracks st) {he : Nat}
    (hfind : find headerEndTag st.respBuf = some he) (chunk : Bytes) :
    Tracks { st with respBuf := st.respBuf ++ chunk } := by
  obtain ⟨hdone, hpos, hvalid, hlength, hchunked⟩ := h.done he hfind
  have hnew := find_append hfind chunk
  have htake : (st.respBuf ++ chunk).take he = st.respBuf.take he := by
    have hle := length_le_of_find hfind
    exact List.take_append_of_le_length (by omega)
  refine ⟨fun hnone => ?_, fun he' hsome => ?_⟩
  · rw [hnew] at hnone
    cases hnone
  · have hsame : he = he' := Option.some.inj (hnew.symm.trans hsome)
    rw [← hsame, htake]
    exact ⟨hdone, hpos, hvalid, hlength, hchunked⟩

/-- The state of the loop right after the header was found in `buf`. -/
def foundHeader (buf : Bytes) (he : Nat) : Reading :=
  { respBuf := buf, headerDone := true, headerEndPos := he,
    contentLength := (contentLengthOf (buf.take he)).value,
    isChunked := isChunkedHeader (buf.take he) }

theorem tracks_foundHeader {buf : Bytes} {he : Nat} (hfind : find headerEndTag buf = some he)
    (hvalid : contentLengthOf (buf.take he) ≠ .invalid) : Tracks (foundHeader buf he) := by
  refine ⟨fun hnone => ?_, fun he' hsome => ?_⟩
  · rw [show (foundHeader buf he).respBuf = buf from rfl, hfind] at hnone
    cases hnone
  · have hsame : he = he' := Option.some.inj (hfind.symm.trans hsome)
    rw [← hsame]
    exact ⟨rfl, rfl, hvalid, rfl, rfl⟩

/-- The two tests right after the header come to the same as those at the end of the loop
body. -/
theorem receive_eq_checkBody {st : Reading} {chunk : Bytes} {he : Nat}
    (hdone : st.headerDone = false) (hfind : find headerEndTag (st.respBuf ++ chunk) = some he)
    (hvalid : contentLengthOf ((st.respBuf ++ chunk).take he) ≠ .invalid) :
    receive st chunk = checkBody (foundHeader (st.respBuf ++ chunk) he) := by
  simp only [receive, hdone, hfind, if_neg hvalid, Bool.false_eq_true, if_false]
  by_cases hpositive : (contentLengthOf ((st.respBuf ++ chunk).take he)).value > 0
  · by_cases hbody : (st.respBuf ++ chunk).length - (he + 4) ≥
        (contentLengthOf ((st.respBuf ++ chunk).take he)).value
    · have hfull : (foundHeader (st.respBuf ++ chunk) he).respBuf.length -
          ((foundHeader (st.respBuf ++ chunk) he).headerEndPos + 4) ≥
          (foundHeader (st.respBuf ++ chunk) he).contentLength := hbody
      have hsome : (foundHeader (st.respBuf ++ chunk) he).contentLength > 0 := hpositive
      rw [if_pos ⟨hpositive, hbody⟩, checkBody, if_pos hsome, if_pos hfull]
      rfl
    · rw [if_neg fun hboth => hbody hboth.2, if_neg fun hboth => by omega]
      rfl
  · rw [if_neg fun hboth => hpositive hboth.1]
    split
    · next hstop =>
      have hnot : isChunkedHeader ((st.respBuf ++ chunk).take he) = false := by simpa using hstop.1
      simp [checkBody, foundHeader, hpositive, hnot]
    · rfl

/-- One read does what the buffer says. -/
theorem receive_follows {st : Reading} (h : Tracks st) (chunk : Bytes) :
    Follows (st.respBuf ++ chunk) (receive st chunk) := by
  cases hold : find headerEndTag st.respBuf with
  | some he =>
    have hreceive : receive st chunk = checkBody { st with respBuf := st.respBuf ++ chunk } := by
      simp only [receive, (h.done he hold).1, if_true]
    rw [hreceive]
    exact checkBody_follows (tracks_append h hold chunk)
  | none =>
    obtain ⟨hdone, hlength, hchunked⟩ := h.before hold
    cases hnew : find headerEndTag (st.respBuf ++ chunk) with
    | none =>
      have htracks : Tracks { st with respBuf := st.respBuf ++ chunk } := by
        refine ⟨fun _ => ⟨hdone, hlength, hchunked⟩, fun he hsome => ?_⟩
        rw [hnew] at hsome
        cases hsome
      have hreceive : receive st chunk = checkBody { st with respBuf := st.respBuf ++ chunk } := by
        simp only [receive, hdone, hnew, Bool.false_eq_true, if_false]
      rw [hreceive]
      exact checkBody_follows htracks
    | some he =>
      by_cases hvalid : contentLengthOf ((st.respBuf ++ chunk).take he) = .invalid
      · have hverdict : verdict (st.respBuf ++ chunk) = .threw := by
          simp only [verdict, hnew, verdictAt, hvalid]
        rw [Follows, hverdict]
        simp only [receive, hdone, hnew, hvalid, Bool.false_eq_true, if_false, if_true]
      · rw [receive_eq_checkBody hdone hnew hvalid]
        exact checkBody_follows (tracks_foundHeader hnew hvalid)

/-- The loop, by the buffer alone. -/
def arrive (e : End) : List Bytes → Bytes → Left
  | [], buf => if e = .eof then .done buf else .failed
  | chunk :: chunks, buf =>
    match verdict (buf ++ chunk) with
    | .threw => .threw
    | .stop => .done (buf ++ chunk)
    | .more => arrive e chunks (buf ++ chunk)

theorem readLoop_eq_arrive (e : End) (chunks : List Bytes) {st : Reading} (h : Tracks st) :
    readLoop e chunks st = arrive e chunks st.respBuf := by
  induction chunks generalizing st with
  | nil => rfl
  | cons chunk chunks ih =>
    have hfollows := receive_follows h chunk
    rw [readLoop, arrive]
    unfold Follows at hfollows
    cases hverdict : verdict (st.respBuf ++ chunk) with
    | threw =>
      rw [hverdict] at hfollows
      simp only [hfollows]
    | stop =>
      rw [hverdict] at hfollows
      simp only [hfollows]
    | more =>
      rw [hverdict] at hfollows
      obtain ⟨st', hreceive, htracks, hbuf⟩ := hfollows
      simp only [hreceive]
      rw [ih htracks, hbuf]

end HttpResolver
end Dnss
