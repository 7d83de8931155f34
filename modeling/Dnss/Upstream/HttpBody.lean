/-
Which bodies `exchange` extracts.

Two things go wrong.  The length is taken from the header without a look at the buffer, so a
stream that ends early makes `parse` read past what arrived.  And the length is found only
when a line end follows it inside the header block: as the last header it is not seen, the
loop stops at the header, and the body is whatever came along with it.

`extracts_iff` says for every stream and all the ways to receive it that these are the two
conditions.
-/
import Dnss.Upstream.HttpExchange

namespace Dnss
namespace HttpResolver

open Occurrence

/-! ## Parts of a stream -/

theorem length_headerEndTag : headerEndTag.length = 4 := rfl

/-- The header of a part of the stream is the header of the stream, once it is complete. -/
theorem find_part {stream buf rest : Bytes} {he : Nat} (hsplit : stream = buf ++ rest)
    (hfind : find headerEndTag stream = some he) :
    find headerEndTag buf = if he + 4 ≤ buf.length then some he else none := by
  rw [hsplit] at hfind
  exact find_of_append hfind

theorem take_part {stream buf rest : Bytes} {he : Nat} (hsplit : stream = buf ++ rest)
    (hle : he + 4 ≤ buf.length) : buf.take he = stream.take he := by
  rw [hsplit]
  exact (List.take_append_of_le_length (by omega)).symm

theorem verdict_part {stream buf rest : Bytes} {he : Nat} (hsplit : stream = buf ++ rest)
    (hfind : find headerEndTag stream = some he) :
    verdict buf = if he + 4 ≤ buf.length then verdictAt buf (stream.take he) he else .more := by
  unfold verdict
  rw [find_part hsplit hfind]
  by_cases hle : he + 4 ≤ buf.length
  · simp only [if_pos hle, take_part hsplit hle]
  · simp only [if_neg hle]

/-- The loop stops as soon as `need` bytes have arrived. -/
def StopsAt (stream : Bytes) (need : Nat) : Prop :=
  ∀ buf rest, stream = buf ++ rest → verdict buf = if need ≤ buf.length then .stop else .more

theorem stopsAt_of_length {stream : Bytes} {he n : Nat}
    (hfind : find headerEndTag stream = some he)
    (hlength : contentLengthOf (stream.take he) = .length n) (hn : 0 < n) :
    StopsAt stream (he + 4 + n) := by
  intro buf rest hsplit
  have hvalid : contentLengthOf (stream.take he) ≠ .invalid := by rw [hlength]; simp
  have hvalue : (contentLengthOf (stream.take he)).value = n := by rw [hlength]; rfl
  have hsome : (contentLengthOf (stream.take he)).value > 0 := by omega
  rw [verdict_part hsplit hfind, verdictAt_of_valid hvalid, if_pos hsome]
  by_cases hheader : he + 4 ≤ buf.length
  · rw [if_pos hheader]
    by_cases hbody : he + 4 + n ≤ buf.length
    · rw [if_pos hbody, if_pos (by omega)]
    · rw [if_neg hbody, if_neg (by omega)]
  · rw [if_neg hheader, if_neg (by omega)]

theorem stopsAt_of_not_chunked {stream : Bytes} {he : Nat}
    (hfind : find headerEndTag stream = some he)
    (hvalid : contentLengthOf (stream.take he) ≠ .invalid)
    (hzero : (contentLengthOf (stream.take he)).value = 0)
    (hchunked : isChunkedHeader (stream.take he) = false) : StopsAt stream (he + 4) := by
  intro buf rest hsplit
  have hnone : ¬ (contentLengthOf (stream.take he)).value > 0 := by omega
  rw [verdict_part hsplit hfind, verdictAt_of_valid hvalid, if_neg hnone, hchunked,
    if_neg Bool.false_ne_true]

/-- A stream whose parts never stop the loop is read to its end. -/
theorem arrive_to_end {stream : Bytes}
    (hmore : ∀ buf rest, stream = buf ++ rest → verdict buf = .more) (e : End) (chunks : List Bytes)
    {buf : Bytes} (hsplit : stream = buf ++ chunks.flatten) :
    arrive e chunks buf = if e = .eof then .done stream else .failed := by
  induction chunks generalizing buf with
  | nil =>
    have hall : stream = buf := by simpa using hsplit
    rw [arrive, hall]
  | cons chunk chunks ih =>
    have hnext : stream = (buf ++ chunk) ++ chunks.flatten := by simpa using hsplit
    rw [arrive, hmore _ _ hnext]
    exact ih hnext

theorem arrive_stops {stream : Bytes} {need : Nat} (hstops : StopsAt stream need)
    (hneed : need ≤ stream.length) (e : End) (chunks : List Bytes) {buf : Bytes}
    (hsplit : stream = buf ++ chunks.flatten) (hbuf : buf.length < need) :
    ∃ buf' rest, arrive e chunks buf = .done buf' ∧ stream = buf' ++ rest ∧ need ≤ buf'.length := by
  induction chunks generalizing buf with
  | nil =>
    have hall : stream = buf := by simpa using hsplit
    rw [hall] at hneed
    omega
  | cons chunk chunks ih =>
    have hnext : stream = (buf ++ chunk) ++ chunks.flatten := by simpa using hsplit
    rw [arrive, hstops _ _ hnext]
    by_cases henough : need ≤ (buf ++ chunk).length
    · rw [if_pos henough]
      exact ⟨_, _, rfl, hnext, henough⟩
    · rw [if_neg henough]
      exact ih hnext (by omega)

/-- With one byte in each read the loop stops exactly there. -/
theorem arrive_singles {stream : Bytes} {need : Nat} (hstops : StopsAt stream need)
    (hneed : need ≤ stream.length) (e : End) {buf rest : Bytes} (hsplit : stream = buf ++ rest)
    (hbuf : buf.length < need) :
    arrive e (rest.map fun b => [b]) buf = .done (stream.take need) := by
  induction rest generalizing buf with
  | nil =>
    rw [hsplit, List.append_nil] at hneed
    omega
  | cons b rest ih =>
    have hnext : stream = (buf ++ [b]) ++ rest := by simpa using hsplit
    have hlength : (buf ++ [b]).length = buf.length + 1 := by simp
    rw [List.map_cons, arrive, hstops _ _ hnext]
    by_cases henough : need ≤ (buf ++ [b]).length
    · have hexact : need = (buf ++ [b]).length := by omega
      rw [if_pos henough, hnext, hexact, List.take_left]
    · rw [if_neg henough]
      exact ih hnext (by omega)

theorem split_singles (stream : Bytes) : Split (stream.map fun b => [b]) stream := by
  constructor
  · induction stream with
    | nil => rfl
    | cons b stream ih => rw [List.map_cons, List.flatten_cons, ih, List.singleton_append]
  · intro chunk hchunk
    obtain ⟨b, -, rfl⟩ := List.mem_map.mp hchunk
    exact ⟨Nat.le_refl 1, by rw [List.length_singleton]; decide⟩

theorem arrive_throws {stream : Bytes} {he : Nat} (hfind : find headerEndTag stream = some he)
    (hinvalid : contentLengthOf (stream.take he) = .invalid) (e : End) (chunks : List Bytes)
    {buf : Bytes} (hsplit : stream = buf ++ chunks.flatten) (hbuf : buf.length < he + 4) :
    arrive e chunks buf = .threw := by
  induction chunks generalizing buf with
  | nil =>
    have hall : stream = buf := by simpa using hsplit
    have hle := length_le_of_find hfind
    rw [hall, length_headerEndTag] at hle
    omega
  | cons chunk chunks ih =>
    have hnext : stream = (buf ++ chunk) ++ chunks.flatten := by simpa using hsplit
    rw [arrive, verdict_part hnext hfind]
    by_cases hheader : he + 4 ≤ (buf ++ chunk).length
    · simp only [if_pos hheader, verdictAt, hinvalid]
    · rw [if_neg hheader]
      exact ih hnext (by omega)

theorem extractBody_part {stream buf rest : Bytes} {he : Nat} (hsplit : stream = buf ++ rest)
    (hfind : find headerEndTag stream = some he) (hle : he + 4 ≤ buf.length) :
    extractBody buf =
      if find code200 (statusLine (stream.take he)) = none then .null
      else
        match contentLengthOf (stream.take he) with
        | .invalid => .threw
        | .absent =>
          if (buf.drop (he + 4)).length = 0 then .null
          else .parse (buf.drop (he + 4)) (buf.drop (he + 4)).length
        | .length n => if n = 0 then .null else .parse (buf.drop (he + 4)) n := by
  have hne : buf ≠ [] := by
    intro hnil
    rw [hnil] at hle
    exact absurd hle (by simp)
  have hfound : find headerEndTag buf = some he := by rw [find_part hsplit hfind, if_pos hle]
  simp only [extractBody, if_neg hne, hfound]
  rewrite [take_part hsplit hle]
  rfl

/-! ## The whole exchange -/

section Stream

variable {stream : Bytes} {he : Nat} {chunks : List Bytes} (e : End)

theorem exchange_eq (chunks : List Bytes) (e : End) :
    exchange chunks e =
      match arrive e chunks [] with
      | .threw => .threw
      | .failed => .null
      | .done respBuf => extractBody respBuf := by
  have hloop : readLoop e chunks {} = arrive e chunks [] :=
    readLoop_eq_arrive e chunks tracks_initial
  rewrite [exchange, hloop]
  rfl

theorem Split.start (h : Split chunks stream) : stream = [] ++ chunks.flatten := by
  rw [List.nil_append, h.flatten]

theorem exchange_of_no_header (hfind : find headerEndTag stream = none)
    (hsplit : Split chunks stream) : exchange chunks e = .null := by
  have hmore : ∀ buf rest, stream = buf ++ rest → verdict buf = .more := by
    intro buf rest hpart
    cases hbuf : find headerEndTag buf with
    | none => simp only [verdict, hbuf]
    | some he =>
      rw [hpart, find_append hbuf rest] at hfind
      cases hfind
  have hextract : extractBody stream = .null := by
    unfold extractBody
    split
    · rfl
    · rw [hfind]
  rw [exchange_eq, arrive_to_end hmore e chunks hsplit.start]
  cases e with
  | eof => exact hextract
  | error => rfl

theorem exchange_of_invalid (hfind : find headerEndTag stream = some he)
    (hinvalid : contentLengthOf (stream.take he) = .invalid) (hsplit : Split chunks stream) :
    exchange chunks e = .threw := by
  rw [exchange_eq, arrive_throws hfind hinvalid e chunks hsplit.start (Nat.succ_pos _)]

/-- A length that the stream has: the loop waits for it, whatever the reads. -/
theorem exchange_of_fits {n : Nat} (hfind : find headerEndTag stream = some he)
    (hlength : contentLengthOf (stream.take he) = .length n) (hn : 0 < n)
    (hfits : he + 4 + n ≤ stream.length) (hsplit : Split chunks stream) :
    ∃ buf rest, stream = buf ++ rest ∧ he + 4 + n ≤ buf.length ∧
      exchange chunks e =
        if find code200 (statusLine (stream.take he)) = none then .null
        else .parse (buf.drop (he + 4)) n := by
  obtain ⟨buf, rest, harrive, hpart, hle⟩ := arrive_stops (stopsAt_of_length hfind hlength hn) hfits
    e chunks hsplit.start (by rw [List.length_nil]; omega)
  refine ⟨buf, rest, hpart, hle, ?_⟩
  rw [exchange_eq, harrive]
  simp only [extractBody_part hpart hfind (by omega), hlength, if_neg (Nat.ne_of_gt hn)]

/-- A length that the stream has not: at its end the body is parsed all the same. -/
theorem exchange_of_short {n : Nat} (hfind : find headerEndTag stream = some he)
    (hlength : contentLengthOf (stream.take he) = .length n)
    (hshort : stream.length < he + 4 + n) (hsplit : Split chunks stream) :
    exchange chunks e =
      if e = .error then .null
      else if find code200 (statusLine (stream.take he)) = none then .null
      else .parse (stream.drop (he + 4)) n := by
  have hheader := length_le_of_find hfind
  rw [length_headerEndTag] at hheader
  have hn : 0 < n := by omega
  have hmore : ∀ buf rest, stream = buf ++ rest → verdict buf = .more := by
    intro buf rest hpart
    have hle : buf.length ≤ stream.length := by
      rw [hpart, List.length_append]
      omega
    rw [stopsAt_of_length hfind hlength hn buf rest hpart, if_neg (by omega)]
  rw [exchange_eq, arrive_to_end hmore e chunks hsplit.start]
  cases e with
  | error => rfl
  | eof =>
    have hwhole : stream = stream ++ [] := (List.append_nil stream).symm
    simp only [if_true, extractBody_part hwhole hfind hheader, hlength, if_neg (Nat.ne_of_gt hn)]
    rfl

/-- The loop is left with a part of the stream. -/
theorem arrive_done {buf respBuf : Bytes} (h : arrive e chunks buf = .done respBuf) :
    ∃ rest, buf ++ chunks.flatten = respBuf ++ rest := by
  induction chunks generalizing buf with
  | nil =>
    rw [arrive] at h
    split at h
    · exact ⟨[], by rw [Left.done.inj h]; simp⟩
    · cases h
  | cons chunk chunks ih =>
    have hflat : buf ++ (chunk :: chunks).flatten = (buf ++ chunk) ++ chunks.flatten := by simp
    rw [arrive] at h
    split at h
    · cases h
    · exact ⟨chunks.flatten, by rw [hflat, Left.done.inj h]⟩
    · obtain ⟨rest, hrest⟩ := ih h
      exact ⟨rest, by rw [hflat, hrest]⟩

/-- Without a length the body is what has arrived. -/
theorem length_eq_of_no_length {available : Bytes} {length : Nat}
    (hfind : find headerEndTag stream = some he)
    (hzero : (contentLengthOf (stream.take he)).value = 0) (hsplit : Split chunks stream)
    (h : exchange chunks e = .parse available length) : length = available.length := by
  rw [exchange_eq] at h
  cases harrive : arrive e chunks [] with
  | threw => simp [harrive] at h
  | failed => simp [harrive] at h
  | done buf =>
    simp only [harrive] at h
    obtain ⟨rest, hrest⟩ := arrive_done e harrive
    have hpart : stream = buf ++ rest := hsplit.start.trans hrest
    by_cases hle : he + 4 ≤ buf.length
    · rw [extractBody_part hpart hfind hle] at h
      split at h
      · cases h
      · cases hlength : contentLengthOf (stream.take he) with
        | invalid => simp [hlength] at h
        | absent =>
          simp only [hlength] at h
          split at h
          · cases h
          · rw [Exchanged.parse.injEq] at h
            rw [← h.1, ← h.2]
        | length n =>
          rw [hlength] at hzero
          have hn : n = 0 := hzero
          simp [hlength, hn] at h
    · have hnone : find headerEndTag buf = none := by rw [find_part hpart hfind, if_neg hle]
      simp [extractBody, hnone] at h

/-- Without a length there are reads after which nothing is parsed. -/
theorem exchange_singles_of_no_length (hfind : find headerEndTag stream = some he)
    (hvalid : contentLengthOf (stream.take he) ≠ .invalid)
    (hzero : (contentLengthOf (stream.take he)).value = 0) :
    exchange (stream.map fun b => [b]) .error = .null := by
  have hheader := length_le_of_find hfind
  rw [length_headerEndTag] at hheader
  rw [exchange_eq]
  cases hchunked : isChunkedHeader (stream.take he) with
  | true =>
    have hmore : ∀ buf rest, stream = buf ++ rest → verdict buf = .more := by
      intro buf rest hpart
      have hnone : ¬ (contentLengthOf (stream.take he)).value > 0 := by omega
      rw [verdict_part hpart hfind, verdictAt_of_valid hvalid, if_neg hnone, if_pos hchunked,
        ite_self]
    rw [arrive_to_end hmore .error _ (split_singles stream).start]
    rfl
  | false =>
    have hstops := stopsAt_of_not_chunked hfind hvalid hzero hchunked
    rw [arrive_singles hstops hheader .error (List.nil_append stream).symm (Nat.succ_pos _)]
    have hpart : stream = stream.take (he + 4) ++ stream.drop (he + 4) :=
      (List.take_append_drop _ _).symm
    have hlen : (stream.take (he + 4)).length = he + 4 := List.length_take_of_le hheader
    simp only [extractBody_part hpart hfind (Nat.le_of_eq hlen.symm)]
    split
    · rfl
    · cases hlength : contentLengthOf (stream.take he) with
      | invalid => exact absurd hlength hvalid
      | absent =>
        have hempty : ((stream.take (he + 4)).drop (he + 4)).length = 0 := by
          rw [List.length_drop, hlen, Nat.sub_self]
        exact if_pos hempty
      | length n =>
        rw [hlength] at hzero
        have hn : n = 0 := hzero
        simp only [if_pos hn]

end Stream

theorem says200_iff {hdr : Bytes} : Says200 hdr ↔ find code200 (statusLine hdr) ≠ none :=
  find_ne_none_iff.symm

theorem Response.says200 {stream hdr body : Bytes} {N : Nat} (h : Response stream hdr body N) :
    Says200 hdr := by
  obtain ⟨version, reason, hstatus⟩ := h.status
  refine ⟨version ++ [0x20], reason, ?_⟩
  rw [hstatus]
  simp

/-- Where the body begins and ends in the stream. -/
theorem firstAt_parts {stream hdr body : Bytes} {he : Nat}
    (h : FirstAt headerEndTag stream hdr body) (hfind : find headerEndTag stream = some he) :
    hdr = stream.take he ∧ body = stream.drop (he + 4) ∧ he + 4 + body.length = stream.length := by
  obtain ⟨hhdr, hbody⟩ := h.unique hfind
  have hle := length_le_of_find hfind
  rw [length_headerEndTag] at hle hbody
  refine ⟨hhdr, hbody, ?_⟩
  rw [hbody, List.length_drop]
  omega

/-- The lengths of a stream with a header, by what the header says. -/
theorem received_of_fits {stream : Bytes}
    (hfits : ∀ hdr body n, FirstAt headerEndTag stream hdr body → Says200 hdr → Announces hdr n →
      n ≤ body.length)
    {chunks : List Bytes} {e : End} {available : Bytes} {length : Nat}
    (hsplit : Split chunks stream) (h : exchange chunks e = .parse available length) :
    length ≤ available.length := by
  cases hfind : find headerEndTag stream with
  | none =>
    rw [exchange_of_no_header e hfind hsplit] at h
    cases h
  | some he =>
    have hfirst := firstAt_of_find hfind
    obtain ⟨-, hbody, hlen⟩ := firstAt_parts hfirst hfind
    cases hlength : contentLengthOf (stream.take he) with
    | invalid =>
      rw [exchange_of_invalid e hfind hlength hsplit] at h
      cases h
    | absent =>
      have hzero : (contentLengthOf (stream.take he)).value = 0 := by rw [hlength]; rfl
      exact Nat.le_of_eq (length_eq_of_no_length e hfind hzero hsplit h)
    | length n =>
      by_cases hn : n = 0
      · have hzero : (contentLengthOf (stream.take he)).value = 0 := by rw [hlength, hn]; rfl
        exact Nat.le_of_eq (length_eq_of_no_length e hfind hzero hsplit h)
      · by_cases hstatus : find code200 (statusLine (stream.take he)) = none
        · -- Without status 200 nothing is parsed.
          by_cases hle : he + 4 + n ≤ stream.length
          · obtain ⟨_, _, _, _, heq⟩ :=
              exchange_of_fits e hfind hlength (Nat.pos_of_ne_zero hn) hle hsplit
            rw [heq, if_pos hstatus] at h
            cases h
          · rw [exchange_of_short e hfind hlength (by omega) hsplit, if_pos hstatus, ite_self] at h
            cases h
        · have hle := hfits _ _ n hfirst (says200_iff.mpr hstatus) (announces_iff.mpr hlength)
          obtain ⟨buf, rest, -, hbuf, heq⟩ :=
            exchange_of_fits e hfind hlength (Nat.pos_of_ne_zero hn) (by omega) hsplit
          rw [heq, if_neg hstatus, Exchanged.parse.injEq] at h
          rw [← h.1, ← h.2, List.length_drop]
          omega

/-- The body of a response whose length is found. -/
theorem exact_of_announces {stream hdr body : Bytes} {N : Nat} (h : Response stream hdr body N)
    (hannounces : Announces hdr N) {chunks : List Bytes} (e : End) (hsplit : Split chunks stream) :
    ∃ available, exchange chunks e = .parse available N ∧ N ≤ available.length ∧
      available.take N = body.take N := by
  have hfind := h.header.find_eq
  obtain ⟨hhdr, hbody, hlen⟩ := firstAt_parts h.header hfind
  have hlength := announces_iff.mp hannounces
  have hstatus := says200_iff.mp h.says200
  have hcomplete := h.complete
  rw [hhdr] at hlength hstatus
  obtain ⟨buf, rest, hpart, hbuf, heq⟩ :=
    exchange_of_fits e hfind hlength h.positive (by omega) hsplit
  have henough : N ≤ (buf.drop (hdr.length + 4)).length := by
    rw [List.length_drop]
    omega
  refine ⟨buf.drop (hdr.length + 4), ?_, henough, ?_⟩
  · rw [heq, if_neg hstatus]
  · have hdrop : stream.drop (hdr.length + 4) = buf.drop (hdr.length + 4) ++ rest := by
      rw [hpart]
      exact List.drop_append_of_le_length (by omega)
    rw [hbody, hdrop, List.take_append_of_le_length henough]

/-- A response whose body is extracted from all reads has its length found. -/
theorem announces_of_exact {stream hdr body : Bytes} {N : Nat} (h : Response stream hdr body N)
    (hexact : ∀ chunks e, Split chunks stream →
      ∃ available, exchange chunks e = .parse available N) :
    Announces hdr N := by
  have hfind := h.header.find_eq
  obtain ⟨hhdr, -, -⟩ := firstAt_parts h.header hfind
  have hstatus := says200_iff.mp h.says200
  obtain ⟨available, hparse⟩ := hexact _ .eof (split_singles stream)
  obtain ⟨available', hparse'⟩ := hexact _ .error (split_singles stream)
  -- Without a length the reads of single bytes would parse nothing.
  have hnonzero : contentLengthOf hdr ≠ .invalid → (contentLengthOf hdr).value ≠ 0 := by
    intro hvalid hzero
    rw [hhdr] at hvalid hzero
    rw [exchange_singles_of_no_length hfind hvalid hzero] at hparse'
    cases hparse'
  rw [announces_iff]
  cases hlength : contentLengthOf hdr with
  | invalid =>
    rw [hhdr] at hlength
    rw [exchange_of_invalid .eof hfind hlength (split_singles stream)] at hparse
    cases hparse
  | absent =>
    rw [hlength] at hnonzero
    exact absurd rfl (hnonzero (by simp))
  | length n =>
    rw [hlength] at hnonzero
    have hn : n ≠ 0 := hnonzero (by simp)
    rw [hhdr] at hlength hstatus
    by_cases hle : hdr.length + 4 + n ≤ stream.length
    · obtain ⟨_, _, _, _, heq⟩ := exchange_of_fits .eof hfind hlength (Nat.pos_of_ne_zero hn) hle
        (split_singles stream)
      rw [heq, if_neg hstatus, Exchanged.parse.injEq] at hparse
      rw [hparse.2]
    · rw [exchange_of_short .eof hfind hlength (by omega) (split_singles stream),
        if_neg (by decide), if_neg hstatus, Exchanged.parse.injEq] at hparse
      rw [hparse.2]

/-- A stream is extracted from all reads exactly when its header does not announce more than
the stream has, and announces the length where there is one. -/
theorem extracts_iff (stream : Bytes) :
    Extracts stream ↔
      (∀ hdr body n, FirstAt headerEndTag stream hdr body → Says200 hdr → Announces hdr n →
        n ≤ body.length) ∧
      (∀ hdr body N, Response stream hdr body N → Announces hdr N) := by
  constructor
  · intro h
    constructor
    · intro hdr body n hfirst hsays hannounces
      by_contra hlt
      have hfind := hfirst.find_eq
      obtain ⟨hhdr, hbody, hlen⟩ := firstAt_parts hfirst hfind
      have hlength := announces_iff.mp hannounces
      have hstatus := says200_iff.mp hsays
      rw [hhdr] at hlength hstatus
      have hparse := exchange_of_short .eof hfind hlength (by omega) (split_singles stream)
      rw [if_neg (by decide), if_neg hstatus, ← hbody] at hparse
      exact hlt (h.received _ _ _ _ (split_singles stream) hparse)
    · intro hdr body N hresponse
      refine announces_of_exact hresponse fun chunks e hsplit => ?_
      obtain ⟨available, hparse, -⟩ := h.exact hdr body N hresponse chunks e hsplit
      exact ⟨available, hparse⟩
  · rintro ⟨hfits, hannounces⟩
    constructor
    · intro chunks e available length hsplit hparse
      exact received_of_fits hfits hsplit hparse
    · intro hdr body N hresponse chunks e hsplit
      exact exact_of_announces hresponse (hannounces hdr body N hresponse) e hsplit

/-- `HTTP/1.1 200 OK` and, as the last header, `Content-Length: 1`. -/
def lastLengthHeader : Bytes :=
  [0x48, 0x54, 0x54, 0x50, 0x2F, 0x31, 0x2E, 0x31, 0x20, 0x32, 0x30, 0x30, 0x20, 0x4F, 0x4B] ++
    crlf ++ clTag ++ [0x31]

/-- The same with a length of two and one more header. -/
def tooLongHeader : Bytes :=
  [0x48, 0x54, 0x54, 0x50, 0x2F, 0x31, 0x2E, 0x31, 0x20, 0x32, 0x30, 0x30, 0x20, 0x4F, 0x4B] ++
    crlf ++ clTag ++ [0x32] ++ crlf ++ [0x41, 0x3A, 0x20, 0x62]

/-- The body of one byte comes in a read of its own and is not parsed.  Where two bytes are
announced and one arrives, two are parsed. -/
theorem lastLengthHeader_not_extracts :
    exchange [lastLengthHeader ++ headerEndTag, [0x58]] .eof = .null ∧
    exchange [tooLongHeader ++ headerEndTag ++ [0x58]] .eof = .parse [0x58] 2 ∧
    ¬ Extracts (lastLengthHeader ++ headerEndTag ++ [0x58]) := by
  have hnull : exchange [lastLengthHeader ++ headerEndTag, [0x58]] .eof = .null := by decide +kernel
  refine ⟨hnull, by decide +kernel, fun h => ?_⟩
  have hfirst : FirstAt headerEndTag (lastLengthHeader ++ headerEndTag ++ [0x58]) lastLengthHeader
      [0x58] := ⟨rfl, by decide +kernel⟩
  have hresponse :
      Response (lastLengthHeader ++ headerEndTag ++ [0x58]) lastLengthHeader [0x58] 1 :=
    { header := hfirst
      status := ⟨[0x48, 0x54, 0x54, 0x50, 0x2F, 0x31, 0x2E, 0x31], [0x20, 0x4F, 0x4B],
        by decide +kernel⟩
      length := ⟨[0x48, 0x54, 0x54, 0x50, 0x2F, 0x31, 0x2E, 0x31, 0x20, 0x32, 0x30, 0x30, 0x20,
        0x4F, 0x4B], [0x31], [], rfl, .inl rfl, by decide +kernel, by decide +kernel,
        by decide +kernel⟩
      positive := Nat.le_refl 1
      complete := Nat.le_refl 1 }
  have hsplit : Split [lastLengthHeader ++ headerEndTag, [0x58]]
      (lastLengthHeader ++ headerEndTag ++ [0x58]) := ⟨rfl, by decide⟩
  obtain ⟨available, hparse, -⟩ := h.exact _ _ _ hresponse _ .eof hsplit
  rw [hnull] at hparse
  cases hparse

end HttpResolver
end Dnss
