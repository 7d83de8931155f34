/-
One connection for many exchanges.

The upstream answers the requests of a connection one after the other, and nothing in a response
says which request it is for: an exchange takes what it finds in the stream.  So a response that
was not read is taken by the next exchange.

An exchange that fails ends the use of its connection, with one exception.  Where upstreams are
raced and another one has replied, `raceUpstreams` reports every candidate as used, also one whose
exchange ran into its time limit.

`replies_of_run` says that without this every reply is the response to its own request.
`crossed_after_lost_race` says what happens with it: whatever is asked next on the connection, the
reply is the one to the request of the race.

What `read_some` gives is an input, up to 4096 bytes at a time.  Health checks, which read the same
stream without a look at `inUse`, are left out.
-/
import Dnss.Library.Machine
import Dnss.Protocol.Codec
import Dnss.Upstream.HttpBody

namespace Dnss
namespace HttpResolver

open Machine Occurrence

/-! ## Exchanges on a stream -/

/-- The read loop on a stream.  Each read gives at least a byte where there is one; what is left
over stays in the stream. -/
def readOn (e : End) : List Nat → Bytes → Reading → Left × Bytes
  | [], unread, st => (if e = .eof then .done st.respBuf else .failed, unread)
  | n :: sizes, unread, st =>
    if unread = [] then (if e = .eof then .done st.respBuf else .failed, unread)
    else
      let size := min (n + 1) 4096
      match receive st (unread.take size) with
      | .threw => (.threw, unread.drop size)
      | .stop respBuf => (.done respBuf, unread.drop size)
      | .more st => readOn e sizes (unread.drop size) st

/-- An exchange: what the upstream sends for it, and how it is read. -/
structure Trip where
  response : Bytes
  sizes : List Nat
  e : End

def exchangeOn (unread : Bytes) (trip : Trip) : Exchanged × Bytes :=
  let read := readOn trip.e trip.sizes (unread ++ trip.response) {}
  (match read.1 with
    | .threw => .threw
    | .failed => .null
    | .done respBuf => extractBody respBuf, read.2)

/-! ## A connection in service -/

inductive Service where
  | up
  /-- `notifyFailure` has cleared `connected`; a reconnect is under way. -/
  | down
  /-- An exception has left `inUse` set. -/
  | stuck
  deriving DecidableEq

structure Connection where
  service : Service := .up
  /-- Sent by the upstream and not read. -/
  unread : Bytes := []

/-- How a race ends. -/
inductive Race where
  | won
  | lost
  /-- The exception of one of its exchanges has left `raceUpstreams`. -/
  | threw
  deriving DecidableEq

/-- What the exchange is made for. -/
inductive Use where
  | single
  | race (ended : Race)
  deriving DecidableEq

inductive ConnAction where
  | use (u : Use) (trip : Trip)
  | reconnect

/-- The service after an exchange.  A race is reported for all its connections alike. -/
def serviceAfter : Use → Exchanged → Service
  | .single, .parse available length =>
    match DnsMessage.parse (available.take length) with
    | .ok _ => .up
    | .error _ => .stuck
  | .single, .null => .down
  | .single, .threw => .stuck
  | .race .won, _ => .up
  | .race .lost, _ => .down
  | .race .threw, _ => .stuck

def Connection.step (c : Connection) : ConnAction → Connection
  | .use u trip =>
    if c.service = .up then
      { service := serviceAfter u (exchangeOn c.unread trip).1
        unread := (exchangeOn c.unread trip).2 }
    else c
  | .reconnect => if c.service = .down then {} else c

/-- A response with status 200 whose header announces the body that follows. -/
structure CleanResponse (response hdr body : Bytes) : Prop where
  header : FirstAt headerEndTag response hdr body
  status : Says200 hdr
  length : Announces hdr body.length
  nonempty : body ≠ []

/-! ## What an exchange reads -/

theorem readOn_eq (e : End) (sizes : List Nat) (unread : Bytes) (st : Reading) :
    ∃ chunks, (∀ chunk ∈ chunks, 1 ≤ chunk.length ∧ chunk.length ≤ 4096) ∧
      unread = chunks.flatten ++ (readOn e sizes unread st).2 ∧
      (readOn e sizes unread st).1 = readLoop e chunks st := by
  induction sizes generalizing unread st with
  | nil => exact ⟨[], List.forall_mem_nil _, rfl, rfl⟩
  | cons n sizes ih =>
    rw [readOn]
    by_cases hempty : unread = []
    · rw [if_pos hempty]
      exact ⟨[], List.forall_mem_nil _, rfl, rfl⟩
    · have hsize : 1 ≤ (unread.take (min (n + 1) 4096)).length ∧
          (unread.take (min (n + 1) 4096)).length ≤ 4096 := by
        have hpos := List.length_pos_iff.mpr hempty
        rw [List.length_take]
        omega
      have hone : ∀ rest, unread.drop (min (n + 1) 4096) = rest →
          unread = [unread.take (min (n + 1) 4096)].flatten ++ rest := by
        rintro rest rfl
        rw [List.flatten_singleton, List.take_append_drop]
      rw [if_neg hempty]
      dsimp only
      cases hreceive : receive st (unread.take (min (n + 1) 4096)) with
      | threw =>
        refine ⟨[unread.take (min (n + 1) 4096)], List.forall_mem_singleton.mpr hsize,
          hone _ rfl, ?_⟩
        simp only [readLoop, hreceive]
      | stop respBuf =>
        refine ⟨[unread.take (min (n + 1) 4096)], List.forall_mem_singleton.mpr hsize,
          hone _ rfl, ?_⟩
        simp only [readLoop, hreceive]
      | more st' =>
        obtain ⟨chunks, hsizes, hflatten, hleft⟩ := ih (unread.drop (min (n + 1) 4096)) st'
        refine ⟨unread.take (min (n + 1) 4096) :: chunks, List.forall_mem_cons.mpr ⟨hsize, hsizes⟩,
          ?_, ?_⟩
        · rw [List.flatten_cons, List.append_assoc, ← hflatten, List.take_append_drop]
        · simp only [readLoop, hreceive]
          exact hleft

/-- An exchange on a stream is an exchange on the part that it reads. -/
theorem exchangeOn_eq (unread : Bytes) (trip : Trip) :
    ∃ chunks part, Split chunks part ∧ unread ++ trip.response = part ++ (exchangeOn unread trip).2 ∧
      (exchangeOn unread trip).1 = exchange chunks trip.e := by
  obtain ⟨chunks, hsizes, hflatten, hleft⟩ :=
    readOn_eq trip.e trip.sizes (unread ++ trip.response) {}
  refine ⟨chunks, chunks.flatten, ⟨rfl, hsizes⟩, hflatten, ?_⟩
  unfold exchange
  rw [← hleft]
  rfl

section Clean

variable {response hdr body : Bytes} (h : CleanResponse response hdr body)

include h

theorem CleanResponse.find_eq : find headerEndTag response = some hdr.length := h.header.find_eq

theorem CleanResponse.split : response = hdr ++ headerEndTag ++ body := h.header.split

theorem CleanResponse.length_eq : response.length = hdr.length + 4 + body.length := by
  rw [h.split, List.length_append, List.length_append, length_headerEndTag]

theorem CleanResponse.take_eq : response.take hdr.length = hdr := by
  rw [h.split, List.append_assoc, List.take_left]

theorem CleanResponse.drop_eq : response.drop (hdr.length + 4) = body := by
  have hlen : (hdr ++ headerEndTag).length = hdr.length + 4 := by
    rw [List.length_append, length_headerEndTag]
  rw [h.split, ← hlen, List.drop_left]

theorem CleanResponse.says : find code200 (statusLine hdr) ≠ none := find_ne_none_iff.mpr h.status

/-- Of a stream that begins with a clean response an exchange takes its body, or nothing. -/
theorem CleanResponse.exchange_prefix {more part rest : Bytes} {chunks : List Bytes}
    (hsplit : Split chunks part) (hstream : response ++ more = part ++ rest) :
    exchange chunks .error = .null ∨
      ∃ available, exchange chunks .error = .parse available body.length ∧
        body <+: available ∧ available <+: body ++ more ∧ response.length ≤ part.length := by
  have hpos : 0 < body.length := List.length_pos_iff.mpr h.nonempty
  have hfound : find headerEndTag (part ++ rest) = some hdr.length := by
    rw [← hstream]
    exact find_append h.find_eq more
  have hpart := find_of_append hfound
  rw [length_headerEndTag] at hpart
  by_cases hheader : hdr.length + 4 ≤ part.length
  · rw [if_pos hheader] at hpart
    have htake : part.take hdr.length = hdr := by
      have hboth := congrArg (List.take hdr.length) hstream
      rw [List.take_append_of_le_length (by rw [h.length_eq]; omega), h.take_eq,
        List.take_append_of_le_length (by omega)] at hboth
      exact hboth.symm
    have hlength : contentLengthOf (part.take hdr.length) = .length body.length := by
      rw [htake]
      exact announces_iff.mp h.length
    by_cases hfits : hdr.length + 4 + body.length ≤ part.length
    · obtain ⟨buf, left, hbuf, hle, hexchange⟩ :=
        exchange_of_fits .error hpart hlength hpos hfits hsplit
      right
      rw [htake, if_neg h.says] at hexchange
      have hall : response ++ more = buf ++ (left ++ rest) := by
        rw [hstream, hbuf, List.append_assoc]
      have hbody : body ++ more = buf.drop (hdr.length + 4) ++ (left ++ rest) := by
        have hdrop := congrArg (List.drop (hdr.length + 4)) hall
        rw [List.drop_append_of_le_length (by rw [h.length_eq]; omega), h.drop_eq,
          List.drop_append_of_le_length (by omega)] at hdrop
        exact hdrop
      refine ⟨_, hexchange, ?_, ⟨left ++ rest, hbody.symm⟩, by rw [h.length_eq]; exact hfits⟩
      refine List.prefix_of_prefix_length_le ⟨more, rfl⟩ ⟨left ++ rest, hbody.symm⟩ ?_
      rw [List.length_drop]
      omega
    · left
      rw [exchange_of_short .error hpart hlength (by omega) hsplit, if_pos rfl]
  · left
    rw [if_neg hheader] at hpart
    exact exchange_of_no_header .error hpart hsplit

end Clean

/-! ## Runs -/

/-- The upstream sends a clean response and does not close the connection in it. -/
structure Steady (trip : Trip) (body : Bytes) : Prop where
  clean : ∃ hdr, CleanResponse trip.response hdr body
  e : trip.e = .error

/-- On an empty stream the reply is the response to the request, and nothing is left. -/
theorem exchangeOn_empty {trip : Trip} {body : Bytes} (h : Steady trip body) :
    (exchangeOn [] trip).1 = .null ∨
      (exchangeOn [] trip).1 = .parse body body.length ∧ (exchangeOn [] trip).2 = [] := by
  obtain ⟨hdr, hclean⟩ := h.clean
  obtain ⟨chunks, part, hsplit, hstream, hexchange⟩ := exchangeOn_eq [] trip
  rw [List.nil_append] at hstream
  have hwhole : trip.response ++ [] = part ++ (exchangeOn [] trip).2 := by
    rw [List.append_nil]
    exact hstream
  rw [hexchange, h.e]
  rcases hclean.exchange_prefix hsplit hwhole with hnull | ⟨available, hparse, hbody, hupper, hle⟩
  · exact .inl hnull
  · right
    rw [List.append_nil] at hupper
    have hsame : available = body :=
      List.IsPrefix.eq_of_length_le hupper hbody.length_le
    have hlength := congrArg List.length hstream
    rw [List.length_append] at hlength
    refine ⟨by rw [hparse, hsame], List.length_eq_zero_iff.mp (by omega)⟩

/-- The exchange of a race that another upstream has won comes to nothing. -/
def LostRace (c : Connection) : ConnAction → Prop
  | .use u trip => c.service = .up ∧ u = .race .won ∧ (exchangeOn c.unread trip).1 = .null
  | .reconnect => False

/-- A connection in service has nothing unread. -/
def Drained (c : Connection) : Prop := c.service = .up → c.unread = []

theorem won_of_null {u : Use} (h : serviceAfter u .null = .up) : u = .race .won := by
  cases u with
  | single => cases h
  | race ended =>
    cases ended with
    | won => rfl
    | lost => cases h
    | threw => cases h

theorem drained_step {c : Connection} {action : ConnAction} (h : Drained c)
    (hsteady : ∀ u trip, action = .use u trip → ∃ body, Steady trip body)
    (hlost : ¬ LostRace c action) : Drained (c.step action) := by
  cases action with
  | reconnect =>
    unfold Connection.step
    dsimp only
    split
    · exact fun _ => rfl
    · exact h
  | use u trip =>
    by_cases hup : c.service = .up
    · obtain ⟨body, hbody⟩ := hsteady u trip rfl
      have hempty := h hup
      simp only [Connection.step, if_pos hup]
      intro hafter
      rw [hempty] at hafter ⊢
      rcases exchangeOn_empty hbody with hnull | ⟨-, hrest⟩
      · rw [hnull] at hafter
        exact absurd ⟨hup, won_of_null hafter, by rw [hempty]; exact hnull⟩ hlost
      · exact hrest
    · simp only [Connection.step, if_neg hup]
      exact h

theorem drained_run {actions : List ConnAction}
    (hsteady : ∀ u trip, .use u trip ∈ actions → ∃ body, Steady trip body)
    (hlost : ∀ c action, Visits Connection.step {} actions c action → ¬ LostRace c action) :
    Drained (run Connection.step {} actions) := by
  refine run_invariant_of_visits (fun _ => rfl) fun c action hvisit h => ?_
  refine drained_step h (fun u trip heq => hsteady u trip ?_) (hlost c action hvisit)
  rw [← heq]
  exact hvisit.mem

/-- As long as no race is lost, every reply on the connection is the response to its own
request. -/
theorem replies_of_run {actions : List ConnAction}
    (hsteady : ∀ u trip, .use u trip ∈ actions → ∃ body, Steady trip body)
    (hlost : ∀ c action, Visits Connection.step {} actions c action → ¬ LostRace c action)
    {c : Connection} {u : Use} {trip : Trip} {body : Bytes}
    (hvisit : Visits Connection.step {} actions c (.use u trip)) (hup : c.service = .up)
    (hbody : Steady trip body) :
    (exchangeOn c.unread trip).1 = .null ∨
      (exchangeOn c.unread trip).1 = .parse body body.length := by
  obtain ⟨done, rest, rfl, rfl⟩ := hvisit
  have hdrained : Drained (run Connection.step {} done) := by
    refine drained_run (fun u trip hmem => hsteady u trip (List.mem_append_left _ hmem)) ?_
    intro c action hbefore
    exact hlost c action (hbefore.append _)
  rw [hdrained hup]
  exact (exchangeOn_empty hbody).imp_right And.left

/-- `HTTP/1.1 200 OK`, a length of twelve, and one more header. -/
def emptyHeader : Bytes :=
  [0x48, 0x54, 0x54, 0x50, 0x2F, 0x31, 0x2E, 0x31, 0x20, 0x32, 0x30, 0x30, 0x20, 0x4F, 0x4B] ++
    crlf ++ clTag ++ [0x31, 0x32] ++ crlf ++ [0x41, 0x3A, 0x20, 0x62]

/-- A message without a question. -/
def emptyBody (b : UInt8) : Bytes := b :: List.replicate 11 0

/-- The message as a response, read in pieces of eleven. -/
def emptyTrip (b : UInt8) : Trip where
  response := emptyHeader ++ headerEndTag ++ emptyBody b
  sizes := List.replicate 6 10
  e := .error

theorem firstAt_empty (b : UInt8) :
    FirstAt headerEndTag (emptyHeader ++ headerEndTag ++ emptyBody b) emptyHeader (emptyBody b) := by
  have hnone : ∀ j < emptyHeader.length,
      ¬ headerEndTag <+: (emptyHeader ++ headerEndTag).drop j := by
    decide +kernel
  refine ⟨rfl, fun j hj hprefix => hnone j hj ?_⟩
  have hle : j ≤ (emptyHeader ++ headerEndTag).length := by
    rw [List.length_append]
    exact Nat.le_trans (Nat.le_of_lt hj) (Nat.le_add_right _ _)
  rw [List.drop_append_of_le_length hle] at hprefix
  refine List.prefix_of_prefix_length_le hprefix ⟨emptyBody b, rfl⟩ ?_
  have hlength : headerEndTag.length = 4 := rfl
  rw [List.length_drop, List.length_append, hlength]
  omega

theorem steady_empty (b : UInt8) (sizes : List Nat) :
    Steady { emptyTrip b with sizes } (emptyBody b) where
  clean :=
    ⟨emptyHeader,
      { header := firstAt_empty b
        status := find_ne_none_iff.mp (by decide +kernel)
        length := announces_iff.mpr (by
          show contentLengthOf emptyHeader = .length 12
          decide +kernel)
        nonempty := List.cons_ne_nil _ _ }⟩
  e := rfl

theorem not_lostRace_single (c : Connection) (trip : Trip) :
    ¬ LostRace c (.use .single trip) := by
  rintro ⟨-, huse, -⟩
  cases huse

theorem replies_of_two :
    (exchangeOn (run Connection.step {} [.use .single (emptyTrip 0x58)]).unread
        (emptyTrip 0x59)).1 = .null ∨
      (exchangeOn (run Connection.step {} [.use .single (emptyTrip 0x58)]).unread
        (emptyTrip 0x59)).1 = .parse (emptyBody 0x59) 12 := by
  have hvisit : Visits Connection.step {}
      [.use .single (emptyTrip 0x58), .use .single (emptyTrip 0x59)]
      (run Connection.step {} [.use .single (emptyTrip 0x58)]) (.use .single (emptyTrip 0x59)) :=
    ⟨[.use .single (emptyTrip 0x58)], [], rfl, rfl⟩
  have hsecond : Steady (emptyTrip 0x59) (emptyBody 0x59) := steady_empty 0x59 _
  refine replies_of_run (fun u trip hmem => ?_) (fun c action h => ?_) hvisit (by decide +kernel)
    hsecond
  · simp only [List.mem_cons, ConnAction.use.injEq, List.not_mem_nil, or_false] at hmem
    rcases hmem with ⟨-, rfl⟩ | ⟨-, rfl⟩
    · exact ⟨_, steady_empty 0x58 _⟩
    · exact ⟨_, steady_empty 0x59 _⟩
  · have hmem := h.mem
    simp only [List.mem_cons, List.not_mem_nil, or_false] at hmem
    rcases hmem with rfl | rfl
    · exact not_lostRace_single c _
    · exact not_lostRace_single c _

/-! ## After a lost race -/

/-- The connection is in service, and its next reply is `body` whatever is asked. -/
structure Crossed (c : Connection) (body : Bytes) : Prop where
  up : c.service = .up
  reply : ∀ trip, trip.e = .error → (exchangeOn c.unread trip).1 = .null ∨
    ∃ available, (exchangeOn c.unread trip).1 = .parse available body.length ∧
      available.take body.length = body
  reached : ∃ sizes, ∀ response,
    (exchangeOn c.unread { response, sizes, e := .error }).1 = .parse body body.length

theorem readOn_singles (e : End) (part rest : Bytes) (st : Reading) :
    (readOn e (List.replicate part.length 0) (part ++ rest) st).1 =
      readLoop e (part.map fun b => [b]) st := by
  induction part generalizing st with
  | nil => rfl
  | cons b part ih =>
    rw [List.length_cons, List.replicate_succ, List.map_cons, readOn, List.cons_append,
      if_neg (List.cons_ne_nil _ _), readLoop]
    have htake : (b :: (part ++ rest)).take (min (0 + 1) 4096) = [b] := rfl
    have hdrop : (b :: (part ++ rest)).drop (min (0 + 1) 4096) = part ++ rest := rfl
    dsimp only
    rw [htake, hdrop]
    cases receive st [b] with
    | threw => rfl
    | stop respBuf => rfl
    | more st' => exact ih st'

theorem crossed_of_unread {unread hdr body : Bytes} (h : CleanResponse unread hdr body) :
    Crossed { service := .up, unread } body := by
  refine ⟨rfl, fun trip he => ?_, List.replicate unread.length 0, fun response => ?_⟩
  · obtain ⟨chunks, part, hsplit, hstream, hexchange⟩ := exchangeOn_eq unread trip
    rw [hexchange, he]
    rcases h.exchange_prefix hsplit hstream with hnull | ⟨available, hparse, hbody, -, -⟩
    · exact .inl hnull
    · exact .inr ⟨available, hparse, (List.prefix_iff_eq_take.mp hbody).symm⟩
  · have hlength : contentLengthOf (unread.take hdr.length) = .length body.length := by
      rw [h.take_eq]
      exact announces_iff.mp h.length
    obtain ⟨buf, left, hbuf, hle, hexchange⟩ := exchange_of_fits .error h.find_eq hlength
      (List.length_pos_iff.mpr h.nonempty) (by rw [h.length_eq]) (split_singles unread)
    have hall : buf = unread := by
      have hlen := congrArg List.length hbuf
      rw [h.length_eq, List.length_append] at hlen
      rw [hbuf, List.length_eq_zero_iff.mp (show left.length = 0 by omega), List.append_nil]
    rw [h.take_eq, if_neg h.says, hall, h.drop_eq] at hexchange
    rw [← hexchange]
    unfold exchange
    rw [← readOn_singles .error unread response {}]
    rfl

/-- In any run without a lost race: when the exchange of a race has run into its time limit with
nothing read and another upstream has won, the connection stays in service, and the next exchange
on it gets the response to the request of the race. -/
theorem crossed_after_lost_race {actions : List ConnAction}
    (hsteady : ∀ u trip, .use u trip ∈ actions → ∃ body, Steady trip body)
    (hlost : ∀ c action, Visits Connection.step {} actions c action → ¬ LostRace c action)
    (hup : (run Connection.step {} actions).service = .up) {raced : Trip} {body : Bytes}
    (hraced : Steady raced body) (hsizes : raced.sizes = []) :
    Crossed (run Connection.step {} (actions ++ [.use (.race .won) raced])) body := by
  obtain ⟨hdr, hclean⟩ := hraced.clean
  have hempty := drained_run hsteady hlost hup
  have hexchange : exchangeOn [] raced = (.null, raced.response) := by
    unfold exchangeOn
    rw [hsizes, hraced.e]
    rfl
  have hafter : run Connection.step {} (actions ++ [.use (.race .won) raced]) =
      { service := .up, unread := raced.response } := by
    rw [run_snoc, Connection.step, if_pos hup, hempty, hexchange]
    rfl
  rw [hafter]
  exact crossed_of_unread hclean

/-- One exchange goes well, the next one is that of a lost race. -/
theorem crossed_after_one :
    Crossed (run Connection.step {} ([.use .single (emptyTrip 0x58)] ++
      [.use (.race .won) { emptyTrip 0x59 with sizes := [] }])) (emptyBody 0x59) := by
  refine crossed_after_lost_race (fun u trip hmem => ?_) (fun c action h => ?_) (by decide +kernel)
    (steady_empty 0x59 []) rfl
  · rw [List.mem_singleton, ConnAction.use.injEq] at hmem
    rw [hmem.2]
    exact ⟨_, steady_empty 0x58 _⟩
  · rw [List.mem_singleton.mp h.mem]
    exact not_lostRace_single c _

end HttpResolver
end Dnss
