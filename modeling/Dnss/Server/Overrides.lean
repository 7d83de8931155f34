/-
The text of the override servers.

`DomainMap::fromString` reads `domain:address` pairs with commas between them and white space
around everything.  The first colon ends the domain, so an address may have a port.  What is no
pair is passed over without a word.

`fromString_render` says that what is written comes out, in order, whatever the white space, and
`exists_fromString_iff` that nothing else does.  `isMostSpecific_render_iff` goes on to the lookup:
from the text to the server of a name.
-/
import Dnss.Library.Scan
import Dnss.Server.MostSpecific

namespace Dnss
namespace DomainMap

open Scan

/-! ## The reader -/

def comma : UInt8 := 0x2C
def colon : UInt8 := 0x3A

/-- `std::isspace` in the "C" locale. -/
def isspace (c : UInt8) : Bool := c = 0x20 ∨ (0x09 ≤ c ∧ c ≤ 0x0D)

/-- One pass of the loop: the domain and the address, unless the line is passed over. -/
def readPair (line : Bytes) : Option (Bytes × Bytes) :=
  match cut (· = colon) (trim isspace line) with
  | none => none
  | some (domain, addr) =>
    if domain = [] then none else some (trim isspace domain, trim isspace addr)

/-- `std::getline` has no line behind a comma at the end; an empty one is passed over. -/
def fromString (s : Bytes) : DomainMap := ofSets ((s.splitOn comma).filterMap readPair)

/-! ## The text -/

/-- What can stand between two commas. -/
inductive Line where
  | blank (pad : Bytes)
  | pair (domain addr beforeDomain behindDomain beforeAddr behindAddr : Bytes)

namespace Line

def entry : Line → Option (Bytes × Bytes)
  | blank _ => none
  | pair domain addr _ _ _ _ => some (domain, addr)

def render : Line → Bytes
  | blank pad => pad
  | pair domain addr beforeDomain behindDomain beforeAddr behindAddr =>
    beforeDomain ++ (domain ++ behindDomain ++ colon :: (beforeAddr ++ addr)) ++ behindAddr

end Line

/-- A pair that can be written. -/
structure IsPair (domain addr : Bytes) : Prop where
  nonempty : domain ≠ []
  trimmed : Trimmed isspace domain ∧ Trimmed isspace addr
  colon : colon ∉ domain
  comma : comma ∉ domain ∧ comma ∉ addr

def IsSpace (pad : Bytes) : Prop := ∀ c ∈ pad, isspace c = true

/-- The white space is white space, and the pair can be written. -/
def Line.Written : Line → Prop
  | blank pad => IsSpace pad
  | pair domain addr beforeDomain behindDomain beforeAddr behindAddr =>
    IsPair domain addr ∧
      ∀ pad ∈ [beforeDomain, behindDomain, beforeAddr, behindAddr], IsSpace pad

def renderLines (lines : List Line) : Bytes := [comma].intercalate (lines.map Line.render)

/-! ## What is read -/

theorem not_isspace_colon : isspace colon = false := by decide

theorem ne_colon_of_isspace {c : UInt8} (h : isspace c = true) : c ≠ colon := by
  rintro rfl
  rw [not_isspace_colon] at h
  cases h

theorem ne_comma_of_isspace {c : UInt8} (h : isspace c = true) : c ≠ comma := by
  rintro rfl
  revert h
  decide

theorem readPair_blank {pad : Bytes} (h : IsSpace pad) : readPair pad = none := by
  have hall : trim isspace pad = [] := by
    have hnil : Trimmed isspace [] := ⟨fun c hc => (by cases hc), fun c hc => (by cases hc)⟩
    have hpad := trim_pad h (List.forall_mem_nil _) hnil
    rwa [List.append_nil, List.append_nil] at hpad
  rw [readPair, hall]
  rfl

/-- The pair without the white space around it. -/
theorem readPair_core {domain addr behindDomain between : Bytes} (h : IsPair domain addr)
    (hbehind : IsSpace behindDomain) {line : Bytes}
    (htrim : trim isspace line = domain ++ behindDomain ++ colon :: between)
    (hbetween : trim isspace between = addr) : readPair line = some (domain, addr) := by
  have hnocolon : ∀ c ∈ domain ++ behindDomain, decide (c = colon) = false := by
    intro c hc
    rw [decide_eq_false_iff_not]
    rcases List.mem_append.mp hc with hc | hc
    · rintro rfl
      exact h.colon hc
    · exact ne_colon_of_isspace (hbehind c hc)
  have hne : domain ++ behindDomain ≠ [] := List.append_ne_nil_of_left_ne_nil h.nonempty _
  have hdomain : trim isspace (domain ++ behindDomain) = domain := by
    have hpad := trim_pad (List.forall_mem_nil _) hbehind h.trimmed.1
    rwa [List.nil_append] at hpad
  rw [readPair, htrim, cut_append hnocolon (decide_eq_true rfl)]
  dsimp only
  rw [if_neg hne, hdomain, hbetween]

theorem readPair_render {line : Line} (h : line.Written) : readPair line.render = line.entry := by
  cases line with
  | blank pad => exact readPair_blank h
  | pair domain addr beforeDomain behindDomain beforeAddr behindAddr =>
    obtain ⟨hpair, hspace⟩ := h
    have hbefore : IsSpace beforeDomain := hspace _ (by simp)
    have hbehind : IsSpace behindDomain := hspace _ (by simp)
    have hbeforeAddr : IsSpace beforeAddr := hspace _ (by simp)
    have hbehindAddr : IsSpace behindAddr := hspace _ (by simp)
    obtain ⟨first, rest, hdomain⟩ := List.exists_cons_of_ne_nil hpair.nonempty
    have hfirst : isspace first = false := hpair.trimmed.1.head first (by rw [hdomain]; rfl)
    have hhead : ∀ tail, ∀ c ∈ (domain ++ behindDomain ++ colon :: tail).head?,
        isspace c = false := by
      intro tail c hc
      rw [hdomain, List.cons_append, List.cons_append, List.head?_cons] at hc
      rw [← Option.some.inj hc]
      exact hfirst
    by_cases haddr : addr = []
    · -- All the white space behind the colon is at the end.
      subst haddr
      have hpads : IsSpace (beforeAddr ++ behindAddr) :=
        List.forall_mem_append.mpr ⟨hbeforeAddr, hbehindAddr⟩
      have hcore : Trimmed isspace (domain ++ behindDomain ++ [colon]) := by
        refine ⟨hhead [], fun c hc => ?_⟩
        rw [List.getLast?_concat] at hc
        rw [← Option.some.inj hc]
        exact not_isspace_colon
      have htrim := trim_pad hbefore hpads hcore
      have hline : trim isspace (Line.pair domain [] beforeDomain behindDomain beforeAddr
          behindAddr).render = domain ++ behindDomain ++ [colon] := by
        rw [← htrim, Line.render]
        simp only [List.append_assoc, List.cons_append, List.nil_append, List.append_nil]
      exact readPair_core hpair hbehind hline rfl
    · have hcore : Trimmed isspace (domain ++ behindDomain ++ colon :: (beforeAddr ++ addr)) := by
        refine ⟨hhead _, fun c hc => ?_⟩
        refine hpair.trimmed.2.last c ?_
        rw [← List.cons_append, ← List.append_assoc, List.getLast?_append_of_ne_nil _ haddr] at hc
        exact hc
      have hbetween : trim isspace (beforeAddr ++ addr) = addr := by
        have hpad := trim_pad hbeforeAddr (List.forall_mem_nil _) hpair.trimmed.2
        rwa [List.append_nil] at hpad
      exact readPair_core hpair hbehind (trim_pad hbefore hbehindAddr hcore) hbetween

theorem comma_notMem_of_isSpace {pad : Bytes} (h : IsSpace pad) : comma ∉ pad := fun hmem =>
  ne_comma_of_isspace (h comma hmem) rfl

theorem comma_notMem_render {line : Line} (h : line.Written) : comma ∉ line.render := by
  cases line with
  | blank pad => exact comma_notMem_of_isSpace h
  | pair domain addr beforeDomain behindDomain beforeAddr behindAddr =>
    obtain ⟨hpair, hspace⟩ := h
    have hpads : ∀ pad ∈ [beforeDomain, behindDomain, beforeAddr, behindAddr], comma ∉ pad :=
      fun pad hpad => comma_notMem_of_isSpace (hspace pad hpad)
    have hcolon : comma ≠ colon := by decide
    simp only [List.forall_mem_cons, List.not_mem_nil, IsEmpty.forall_iff, implies_true,
      and_true] at hpads
    simp only [Line.render, List.mem_append, List.mem_cons, not_or]
    exact ⟨⟨hpads.1, ⟨hpair.comma.1, hpads.2.1⟩, hcolon, hpads.2.2.1, hpair.comma.2⟩, hpads.2.2.2⟩

/-- What is written comes out, in order. -/
theorem fromString_render {lines : List Line} (h : ∀ line ∈ lines, line.Written) :
    fromString (renderLines lines) = ofSets (lines.filterMap Line.entry) := by
  rw [fromString, renderLines]
  cases hlines : lines with
  | nil => rfl
  | cons line rest =>
    have hnomem : ∀ l ∈ (line :: rest).map Line.render, comma ∉ l := by
      intro l hl
      obtain ⟨line', hline', rfl⟩ := List.mem_map.mp hl
      rw [← hlines] at hline'
      exact comma_notMem_render (h line' hline')
    have hread : ∀ l ∈ line :: rest, (readPair ∘ Line.render) l = l.entry := by
      intro l hl
      rw [← hlines] at hl
      exact readPair_render (h l hl)
    rw [List.splitOn_intercalate comma hnomem (by rw [List.map_cons]; exact List.cons_ne_nil _ _),
      List.filterMap_map, List.filterMap_congr hread]

/-! ## Nothing else is read -/

theorem trim_ne_nil {p : UInt8 → Bool} {c : UInt8} {s : Bytes} (hc : p c = false) :
    trim p (c :: s) ≠ [] := by
  intro hnil
  rw [trim, List.dropWhile_cons_of_neg (by rw [hc]; exact Bool.false_ne_true),
    List.rdropWhile_eq_nil_iff] at hnil
  rw [hnil c List.mem_cons_self] at hc
  cases hc

theorem isPair_of_readPair {line domain addr : Bytes} (hline : comma ∉ line)
    (h : readPair line = some (domain, addr)) : IsPair domain addr := by
  unfold readPair at h
  split at h
  · cases h
  · rename_i front behind hcut
    by_cases hnil : front = []
    · rw [if_pos hnil] at h
      cases h
    · rw [if_neg hnil, Option.some.injEq, Prod.mk.injEq] at h
      obtain ⟨rfl, rfl⟩ := h
      obtain ⟨c, hsplit, -, hnocolon⟩ := cut_eq_some_iff.mp hcut
      have hsub : ∀ {part : Bytes}, part ⊆ trim isspace line → comma ∉ trim isspace part :=
        fun hpart hmem => hline ((trim_isInfix isspace line).subset
          (hpart ((trim_isInfix isspace _).subset hmem)))
      refine ⟨?_, ⟨trimmed_trim _ _, trimmed_trim _ _⟩, fun hmem => ?_, hsub ?_, hsub ?_⟩
      · obtain ⟨first, rest, rfl⟩ := List.exists_cons_of_ne_nil hnil
        refine trim_ne_nil ((trimmed_trim isspace line).head first ?_)
        rw [hsplit]
        rfl
      · exact of_decide_eq_false (hnocolon colon ((trim_isInfix isspace _).subset hmem)) rfl
      · rw [hsplit]
        exact List.subset_append_left _ _
      · rw [hsplit]
        exact fun b hb => List.mem_append_right _ (List.mem_cons_of_mem c hb)

/-- The maps that texts give are those of the pairs that can be written. -/
theorem exists_fromString_iff {m : DomainMap} :
    (∃ s, fromString s = m) ↔
      ∃ entries : List (Bytes × Bytes), (∀ e ∈ entries, IsPair e.1 e.2) ∧ m = ofSets entries := by
  constructor
  · rintro ⟨s, rfl⟩
    refine ⟨_, fun e he => ?_, rfl⟩
    obtain ⟨line, hline, hread⟩ := List.mem_filterMap.mp he
    exact isPair_of_readPair (Separated.notMem_of_mem_splitOn hline) hread
  · rintro ⟨entries, hpairs, rfl⟩
    refine ⟨renderLines (entries.map fun e => .pair e.1 e.2 [] [] [] []), ?_⟩
    rw [fromString_render]
    · rw [List.filterMap_map]
      congr 1
      exact List.filterMap_some
    · intro line hline
      obtain ⟨e, he, rfl⟩ := List.mem_map.mp hline
      refine ⟨hpairs e he, fun pad hpad => ?_⟩
      rw [List.eq_of_mem_replicate (show pad ∈ List.replicate 4 [] from hpad)]
      exact List.forall_mem_nil _

/-- From the text to the server of a name: the last pair of the longest covering domain, exactly
when the name need not fall back on the root. -/
theorem isMostSpecific_render_iff {lines : List Line} (h : ∀ line ∈ lines, line.Written)
    (d : Bytes) :
    IsMostSpecific (fun ls v => lastSet (lines.filterMap Line.entry) ls = some v) d
        ((fromString (renderLines lines)).getMostSpecific d) ↔
      RootReaches (fun ls v => lastSet (lines.filterMap Line.entry) ls = some v) d := by
  have hentry : (ofSets (lines.filterMap Line.entry)).Entry =
      fun ls v => lastSet (lines.filterMap Line.entry) ls = some v := by
    funext ls v
    exact propext entry_ofSets_iff
  rw [fromString_render h, ← hentry]
  exact isMostSpecific_iff

/-- ` a : 1:53 , ,a:2`. -/
def twoServers : List Line :=
  [.pair [0x61] [0x31, colon, 0x35, 0x33] [0x20] [0x20] [0x20] [0x20], .blank [0x20],
    .pair [0x61] [0x32] [] [] [] []]

theorem isPair_single {a : Bytes} (ha : Trimmed isspace a) (hcomma : comma ∉ a) :
    IsPair [0x61] a where
  nonempty := by decide +kernel
  trimmed := ⟨⟨by decide +kernel, by decide +kernel⟩, ha⟩
  colon := by decide +kernel
  comma := ⟨by decide +kernel, hcomma⟩

theorem written_twoServers : ∀ line ∈ twoServers, line.Written := by
  have hblank : IsSpace [0x20] := List.forall_mem_singleton.mpr (by decide +kernel)
  intro line hline
  simp only [twoServers, List.mem_cons, List.not_mem_nil, or_false] at hline
  rcases hline with rfl | rfl | rfl
  · refine ⟨isPair_single ⟨by decide +kernel, by decide +kernel⟩ (by decide +kernel), fun pad hpad => ?_⟩
    rw [List.eq_of_mem_replicate (show pad ∈ List.replicate 4 [0x20] from hpad)]
    exact hblank
  · exact hblank
  · refine ⟨isPair_single ⟨by decide +kernel, by decide +kernel⟩ (by decide +kernel), fun pad hpad => ?_⟩
    rw [List.eq_of_mem_replicate (show pad ∈ List.replicate 4 [] from hpad)]
    exact List.forall_mem_nil _

/-- For the name `x.a`. -/
theorem isMostSpecific_twoServers :
    IsMostSpecific (fun ls v => lastSet (twoServers.filterMap Line.entry) ls = some v)
        [0x78, dot, 0x61] ((fromString (renderLines twoServers)).getMostSpecific [0x78, dot, 0x61]) ↔
      RootReaches (fun ls v => lastSet (twoServers.filterMap Line.entry) ls = some v)
        [0x78, dot, 0x61] :=
  isMostSpecific_render_iff written_twoServers _

end DomainMap
end Dnss
