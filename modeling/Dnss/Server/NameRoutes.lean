/-
Where `handleQuery` sends a name, and where its labels say that it goes.

`Goes` states the four rules on the labels of the name: `.local` names of any case are
answered here, then the overrides, then the unqualified upstream for names of at most one
label, then the resolver.  The code looks at the text of the name instead.

The text differs from the labels in three places.  `.local` is compared byte by byte, so
`printer.LOCAL` is sent on.  An override for the root covers almost nothing (see
`isSubDomain_root_iff`).  And the test for an unqualified name looks for a second dot,
which a name of two labels has only when it ends in one; names from the wire do not, so
every name such as `example.com` goes to the unqualified upstream.  `handleQuery_goes_iff`
says that nothing else goes wrong.
-/
import Dnss.Server.MostSpecific
import Dnss.Server.Routing

namespace Dnss
namespace DnsServer

open Separated

/-! ## The rules -/

/-- `local`. -/
def localLabel : Bytes := [0x6C, 0x6F, 0x63, 0x61, 0x6C]

/-- At least two labels, of which the last is `local` in any case. -/
def IsLocalName (qname : Bytes) : Prop :=
  2 ≤ (labelList qname).length ∧ (labelList qname).getLast? = some localLabel

instance (qname : Bytes) : Decidable (IsLocalName qname) := by
  unfold IsLocalName
  infer_instance

/-- A key of the overrides covers the name. -/
def Covered (m : DomainMap) (qname : Bytes) : Prop :=
  ∃ ls v, m.Entry ls v ∧ ls <:+ labelList qname

/-- The destination of a name that is not local, once the overrides were asked. -/
def destinationAfter (srv : Server) (qname : Bytes) : Option Bytes → Destination
  | some addr => .override addr
  | none =>
    if srv.unqUpstream ≠ [] ∧ (labelList qname).length ≤ 1 then .unqualified srv.unqUpstream
    else .resolver

/-- Where the labels of a name say that it goes. -/
def Goes (srv : Server) (qname : Bytes) (dest : Destination) : Prop :=
  if IsLocalName qname then dest = .localNXDomain
  else ∃ found, IsMostSpecific srv.overrides.Entry qname found ∧
    dest = destinationAfter srv qname found

/-- What is done for a request at its destination. -/
def serveAt (srv : Server) (req : DnsMessage) : Destination → Served
  | .localNXDomain =>
    post (DnsMessage.createError req DnsRcode.NXDomain) { destination := some .localNXDomain }
  | .override addr => forward srv addr req { destination := some (.override addr) }
  | .unqualified addr => forward srv addr req { destination := some (.unqualified addr) }
  | .resolver => resolve srv.res req { destination := some .resolver }

/-- The text of the name agrees with its labels wherever the code reads the text. -/
structure ReadsAsLabels (srv : Server) (qname : Bytes) : Prop where
  lowerLocal : IsLocalName qname → localSuffix <:+ qname
  root : ¬ IsLocalName qname → RootReaches srv.overrides.Entry qname
  twoLabels : ¬ IsLocalName qname → ¬ Covered srv.overrides qname → srv.unqUpstream ≠ [] →
    (labelList qname).length = 2 → qname.getLast? = some dot

/-! ## The tests on the text -/

theorem isLocal_iff {qname : Bytes} : isLocal qname = true ↔ localSuffix <:+ qname := by
  rw [List.suffix_iff_eq_drop, isLocal, Bool.and_eq_true, decide_eq_true_iff, beq_iff_eq]
  constructor
  · rintro ⟨-, h⟩
    exact h.symm
  · intro h
    refine ⟨?_, h.symm⟩
    rw [h, List.length_drop]
    exact Nat.sub_le _ _

theorem isLocalName_of_isLocal {qname : Bytes} (h : isLocal qname = true) :
    IsLocalName qname := by
  obtain ⟨front, rfl⟩ := isLocal_iff.mp h
  have hlast : (front ++ localSuffix).getLast? ≠ some dot := by
    rw [List.getLast?_append_of_ne_nil _ (by decide)]
    decide
  have hsuffix : localSuffix.map tolower = dot :: localLabel := by decide
  have hstem : stem (front ++ localSuffix) = front.map tolower ++ dot :: localLabel := by
    rw [stem, if_neg hlast, List.map_append, hsuffix]
  have hlabels : labelList (front ++ localSuffix) =
      (front.map tolower).splitOn dot ++ [localLabel] := by
    rw [labelList, hstem, pieces_append_cons _ (by decide)]
    rfl
  have hpos : 0 < ((front.map tolower).splitOn dot).length := by
    rw [length_splitOn]
    exact Nat.succ_pos _
  refine ⟨?_, ?_⟩
  · rw [hlabels, List.length_append, List.length_singleton]
    omega
  · rw [hlabels, List.getLast?_concat]

/-- The test for an unqualified name counts dots. -/
theorem isUnq_iff {qname : Bytes} : isUnq qname = true ↔ qname.count dot ≤ 1 := by
  unfold isUnq
  cases hfirst : qname.idxOf? dot with
  | none =>
    have hnone : qname.count dot = 0 := List.count_eq_zero.mpr (List.idxOf?_eq_none_iff.mp hfirst)
    simp [hnone]
  | some i =>
    obtain ⟨hi, hget, hbefore⟩ := List.idxOf?_eq_some_iff.mp hfirst
    have hfront : (qname.take i).count dot = 0 := by
      rw [List.count_eq_zero]
      intro hmem
      obtain ⟨j, hj, hdot⟩ := List.mem_take_iff_getElem.mp hmem
      exact hbefore j (by omega) hdot
    have hcount : qname.count dot = (qname.drop (i + 1)).count dot + 1 := by
      have hsplit : qname.take i ++ qname.drop i = qname := List.take_append_drop i qname
      rw [List.drop_eq_getElem_cons hi, hget] at hsplit
      calc qname.count dot
          = (qname.take i ++ dot :: qname.drop (i + 1)).count dot := by rw [hsplit]
        _ = (qname.drop (i + 1)).count dot + 1 := by
          rw [List.count_append, hfront, List.count_cons_self, Nat.zero_add]
    rw [hcount, Bool.or_eq_true, beq_iff_eq, beq_iff_eq, List.idxOf?_eq_none_iff]
    constructor
    · rintro (hnone | hend)
      · rw [List.count_eq_zero.mpr hnone]
      · -- The first dot ends the name.
        rw [List.drop_of_length_le (by omega), List.count_nil]
    · intro hle
      left
      exact List.count_eq_zero.mp (by omega)

theorem count_stem (qname : Bytes) :
    qname.count dot =
      (stem qname).count dot + if qname.getLast? = some dot then 1 else 0 := by
  have hfold : ∀ xs : Bytes, (xs.map tolower).count dot = xs.count dot := by
    intro xs
    induction xs with
    | nil => rfl
    | cons x xs ih =>
      rw [List.map_cons, List.count_cons, List.count_cons, ih]
      simp only [beq_iff_eq, tolower_eq_dot_iff]
  by_cases hlast : qname.getLast? = some dot
  · rw [stem, if_pos hlast, if_pos hlast, hfold]
    obtain ⟨front, rfl⟩ := List.getLast?_eq_some_iff.mp hlast
    simp
  · rw [stem, if_neg hlast, if_neg hlast, hfold, Nat.add_zero]

/-- The test for an unqualified name is wrong for two labels without a dot behind them. -/
theorem isUnq_eq_decide_iff {qname : Bytes} :
    isUnq qname = decide ((labelList qname).length ≤ 1) ↔
      ((labelList qname).length = 2 → qname.getLast? = some dot) := by
  have hcount := count_stem qname
  rw [Bool.eq_iff_iff, isUnq_iff, decide_eq_true_iff]
  by_cases hroot : labelList qname = []
  · have hstem : (stem qname).count dot = 0 := by
      rw [labelList_eq_nil_iff.mp hroot, List.count_nil]
    rw [hstem] at hcount
    rw [hroot, List.length_nil]
    split at hcount <;> simp <;> omega
  · have hlen := length_labelList hroot
    split at hcount
    · next hlast =>
      simp only [hlast, implies_true, iff_true]
      omega
    · next hlast =>
      simp only [hlast, imp_false]
      omega

/-! ## The choice -/

@[simp] theorem destination_serveAt (srv : Server) (req : DnsMessage) (dest : Destination) :
    (serveAt srv req dest).destination = some dest := by
  cases dest <;> simp [serveAt]

theorem handleQuery_eq_serveAt {srv : Server} {data : Bytes} {req : DnsMessage} {q : DnsQuestion}
    {qs : List DnsQuestion} (hparse : DnsMessage.parse data = .ok req)
    (hq : req.questions = q :: qs) :
    handleQuery srv data = serveAt srv req (route srv q.qname) := by
  simp only [handleQuery, hparse, hq, route]
  by_cases hlocal : isLocal q.qname = true
  · rw [if_pos hlocal, if_pos hlocal]
    rfl
  · rw [if_neg hlocal, if_neg hlocal]
    cases srv.overrides.getMostSpecific q.qname with
    | some addr => rfl
    | none =>
      by_cases hempty : srv.unqUpstream = []
      · simp [hempty, serveAt]
      · by_cases hunq : isUnq q.qname = true
        · simp [hempty, hunq, serveAt]
        · simp [hempty, hunq, serveAt]

theorem route_of_not_local {srv : Server} {qname : Bytes} (h : isLocal qname = false) :
    route srv qname =
      match srv.overrides.getMostSpecific qname with
      | some addr => .override addr
      | none =>
        if srv.unqUpstream ≠ [] ∧ isUnq qname then .unqualified srv.unqUpstream else .resolver := by
  rewrite [route, h, if_neg Bool.false_ne_true]
  rfl

theorem not_covered_of_isMostSpecific_none {m : DomainMap} {qname : Bytes}
    (h : IsMostSpecific m.Entry qname none) : ¬ Covered m qname := by
  rintro ⟨ls, v, hentry, hsuffix⟩
  exact h ls v hentry hsuffix

/-- Nothing covers the name: the two tests for an unqualified name are compared. -/
theorem destinationAfter_none_eq_iff {srv : Server} {qname : Bytes} :
    (if srv.unqUpstream ≠ [] ∧ isUnq qname then Destination.unqualified srv.unqUpstream
      else .resolver) = destinationAfter srv qname none ↔
      (srv.unqUpstream ≠ [] → (labelList qname).length = 2 → qname.getLast? = some dot) := by
  rw [← isUnq_eq_decide_iff]
  unfold destinationAfter
  by_cases hempty : srv.unqUpstream = []
  · simp [hempty]
  · by_cases hunq : isUnq qname = true
    · by_cases hlen : (labelList qname).length ≤ 1
      · simp [hempty, hunq, hlen]
      · simp [hempty, hunq, hlen]
    · rw [Bool.not_eq_true] at hunq
      by_cases hlen : (labelList qname).length ≤ 1
      · simp [hempty, hunq, hlen]
      · simp [hempty, hunq, hlen]

/-- The destination tells whether an override was found, and which. -/
theorem found_eq_of_route {srv : Server} {qname : Bytes} {found : Option Bytes}
    (hlocal : isLocal qname = false) (hdest : route srv qname = destinationAfter srv qname found) :
    found = srv.overrides.getMostSpecific qname := by
  rw [route_of_not_local hlocal] at hdest
  cases hget : srv.overrides.getMostSpecific qname with
  | some addr =>
    rw [hget] at hdest
    cases found with
    | some addr' => simpa [destinationAfter] using hdest.symm
    | none =>
      simp only [destinationAfter] at hdest
      split at hdest <;> cases hdest
  | none =>
    rw [hget] at hdest
    cases found with
    | some addr' =>
      simp only [destinationAfter] at hdest
      split at hdest <;> cases hdest
    | none => rfl

theorem goes_route_of_local {srv : Server} {qname : Bytes} (hname : IsLocalName qname) :
    Goes srv qname (route srv qname) ↔ ReadsAsLabels srv qname := by
  rw [Goes, if_pos hname]
  constructor
  · intro hroute
    refine ⟨fun _ => ?_, fun h => absurd hname h, fun h => absurd hname h⟩
    rw [← isLocal_iff]
    by_contra hlocal
    rw [Bool.not_eq_true] at hlocal
    rw [route_of_not_local hlocal] at hroute
    split at hroute
    · cases hroute
    · split at hroute <;> cases hroute
  · intro h
    rw [route, if_pos (isLocal_iff.mpr (h.lowerLocal hname))]

theorem goes_route_of_not_local {srv : Server} {qname : Bytes} (hname : ¬ IsLocalName qname) :
    Goes srv qname (route srv qname) ↔ ReadsAsLabels srv qname := by
  have hlocal : isLocal qname = false :=
    Bool.eq_false_iff.mpr fun h => hname (isLocalName_of_isLocal h)
  rw [Goes, if_neg hname]
  constructor
  · rintro ⟨found, hfound, hdest⟩
    have hcode := found_eq_of_route hlocal hdest
    refine ⟨fun h => absurd h hname, fun _ => ?_, fun _ hcovered => ?_⟩
    · rw [hcode] at hfound
      exact DomainMap.isMostSpecific_iff.mp hfound
    · cases found with
      | some addr =>
        obtain ⟨ls, hentry, hsuffix, -⟩ := hfound
        exact absurd ⟨ls, addr, hentry, hsuffix⟩ hcovered
      | none =>
        rw [route_of_not_local hlocal, ← hcode] at hdest
        exact destinationAfter_none_eq_iff.mp hdest
  · intro h
    have hfound := DomainMap.isMostSpecific_iff.mpr (h.root hname)
    refine ⟨srv.overrides.getMostSpecific qname, hfound, ?_⟩
    rw [route_of_not_local hlocal]
    cases hget : srv.overrides.getMostSpecific qname with
    | some addr => rfl
    | none =>
      rw [hget] at hfound
      exact destinationAfter_none_eq_iff.mpr
        (h.twoLabels hname (not_covered_of_isMostSpecific_none hfound))

/-- The code's choice is the one of the labels exactly when the text reads as the labels. -/
theorem goes_route_iff {srv : Server} {qname : Bytes} :
    Goes srv qname (route srv qname) ↔ ReadsAsLabels srv qname := by
  by_cases hname : IsLocalName qname
  · exact goes_route_of_local hname
  · exact goes_route_of_not_local hname

/-- A request with a question is served where the labels of its name say, exactly when the
text of the name reads as its labels. -/
theorem handleQuery_goes_iff {srv : Server} {data : Bytes} {req : DnsMessage} {q : DnsQuestion}
    {qs : List DnsQuestion} (hparse : DnsMessage.parse data = .ok req)
    (hq : req.questions = q :: qs) :
    (∃ dest, Goes srv q.qname dest ∧ handleQuery srv data = serveAt srv req dest) ↔
      ReadsAsLabels srv q.qname := by
  rw [handleQuery_eq_serveAt hparse hq, ← goes_route_iff]
  constructor
  · rintro ⟨dest, hgoes, hserve⟩
    have hdest := congrArg Served.destination hserve
    rw [destination_serveAt, destination_serveAt, Option.some.injEq] at hdest
    rwa [hdest]
  · intro h
    exact ⟨route srv q.qname, h, rfl⟩

/-- A query for the name `a.b`, type A. -/
def twoLabelQuery : Bytes :=
  [0, 0, 1, 0, 0, 1, 0, 0, 0, 0, 0, 0, 1, 0x61, 1, 0x62, 0, 0, 1, 0, 1]

/-- A server without overrides whose unqualified upstream is `u`. -/
def unqualifiedServer : Server :=
  { res := CachingResolver.asResolver {} CachingResolver.denyingEnv,
    overrides := DomainMap.empty, unqUpstream := [0x75], net := fun _ _ _ => none }

theorem singleLabelQuery_goes :
    ∃ dest, Goes unqualifiedServer [0x61] dest ∧
      handleQuery unqualifiedServer singleLabelQuery =
        serveAt unqualifiedServer (DnsMessage.createQuery [0x61] 1) dest := by
  have hparse : DnsMessage.parse singleLabelQuery = .ok (DnsMessage.createQuery [0x61] 1) := by
    decide +kernel
  refine (handleQuery_goes_iff (q := ⟨[0x61], 1, 1⟩) hparse rfl).mpr ⟨?_, ?_, ?_⟩
  · intro h
    exact absurd h (by decide)
  · rintro - ⟨v, domain, -, hlookup⟩
    cases hlookup
  · intro _ _ _ hlen
    exact absurd hlen (by decide)

/-- `a.b` has two labels and goes to the unqualified upstream, not to the resolver. -/
theorem twoLabelQuery_not_goes :
    DnsMessage.parse twoLabelQuery = .ok (DnsMessage.createQuery [0x61, dot, 0x62] 1) ∧
    (handleQuery unqualifiedServer twoLabelQuery).destination = some (.unqualified [0x75]) ∧
    ¬ ∃ dest, Goes unqualifiedServer [0x61, dot, 0x62] dest ∧
      handleQuery unqualifiedServer twoLabelQuery =
        serveAt unqualifiedServer (DnsMessage.createQuery [0x61, dot, 0x62] 1) dest := by
  have hdest : (handleQuery unqualifiedServer twoLabelQuery).destination =
      some (.unqualified [0x75]) := by
    decide +kernel
  refine ⟨by decide +kernel, hdest, ?_⟩
  rintro ⟨dest, hgoes, hserve⟩
  rw [hserve, destination_serveAt, Option.some.injEq] at hdest
  rw [hdest, Goes, if_neg (by decide)] at hgoes
  obtain ⟨found, -, hfound⟩ := hgoes
  have hlen : ¬ (labelList [0x61, dot, 0x62]).length ≤ 1 := by decide
  cases found with
  | some addr => cases hfound
  | none => simp [destinationAfter, hlen] at hfound

end DnsServer
end Dnss
