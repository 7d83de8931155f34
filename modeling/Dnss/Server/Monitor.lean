/-
The files that the monitor server gives out.

The path of a request is put behind the root directory as it is, and a path with `..` in it is
refused.  That keeps a path below the root which begins with a slash.  One that does not is put
behind the last name of the root, and names something beside it: `www` and `-old/notes` become
`www-old/notes`.

`contained_iff` says for all requests when only files below the root are opened: exactly when there
is no file beside it that can be reached so.

A path is looked up from the working directory, name by name; there are no symbolic links in the
model.  What the file system has, the logo and the texts that the server writes itself are given.
-/
import Dnss.Config.File
import Dnss.Library.Separated
import Dnss.Library.Occurrence
import Dnss.Upstream.HttpExchange

namespace Dnss
namespace MonitorServer

open ConfigFile (ascii)
open HttpResolver (isSpace)
open Occurrence (find find_ne_none_iff)
open Separated

/-! ## The server -/

/-- What is found under a path; `failing` is an exception on the way. -/
inductive Found
  | absent
  | failing
  | regular (content : Bytes)

structure Site where
  wwwRoot : Bytes
  files : Bytes → Found
  logo : Option Found
  renderHealth : Bytes
  renderPrometheus : Bytes
  renderJson : Bytes

/-- What comes of a request: nothing, the event stream, or a page.  `opened` is the file that
`serveFile` has opened for it. -/
structure Handled where
  streams : Bool := false
  status : Bytes := []
  contentType : Bytes := []
  body : Option Bytes := none
  opened : Option Bytes := none
  deriving DecidableEq

/-- What the system takes from a path: the part before the first zero byte. -/
def cString (path : Bytes) : Bytes := path.takeWhile (· ≠ 0)

/-- The path of the file that is opened, with its content. -/
def serveFile (site : Site) (path : Bytes) : Except Unit (Option (Bytes × Bytes)) :=
  if find (ascii "..") path ≠ none then .ok none
  else
    let filePath := cString (site.wwwRoot ++ path)
    match site.files filePath with
    | .absent => .ok none
    | .failing => .error ()
    | .regular content => .ok (some (filePath, content))

def dot : UInt8 := 0x2E
def slash : UInt8 := 0x2F

/-- The part from the last dot on. -/
def extension (path : Bytes) : Option Bytes :=
  if dot ∈ path then some (dot :: (path.reverse.takeWhile (· ≠ dot)).reverse) else none

def contentTypeFor (path : Bytes) : Bytes :=
  match extension path with
  | none => ascii "application/octet-stream"
  | some ext =>
    if ext = ascii ".html" then ascii "text/html; charset=utf-8"
    else if ext = ascii ".css" then ascii "text/css; charset=utf-8"
    else if ext = ascii ".js" then ascii "application/javascript; charset=utf-8"
    else if ext = ascii ".json" then ascii "application/json"
    else if ext = ascii ".png" then ascii "image/png"
    else if ext = ascii ".svg" then ascii "image/svg+xml"
    else if ext = ascii ".ico" then ascii "image/x-icon"
    else ascii "application/octet-stream"

def ok (contentType body : Bytes) (opened : Option Bytes) : Handled :=
  { status := ascii "HTTP/1.1 200 OK", contentType := contentType, body := some body,
    opened := opened }

def notFound (opened : Option Bytes) : Handled :=
  { status := ascii "HTTP/1.1 404 Not Found", contentType := ascii "text/plain",
    body := some (ascii "404 Not Found"), opened := opened }

def servePath (path : Bytes) : Bytes := if path = ascii "/" then ascii "/index.html" else path

/-- The last branch.  An empty file is taken for one that is not there. -/
def handleFile (site : Site) (path : Bytes) : Handled :=
  match serveFile site (servePath path) with
  | .error () => {}
  | .ok none => notFound none
  | .ok (some (file, content)) =>
    if content = [] then notFound (some file)
    else ok (contentTypeFor (servePath path)) content (some file)

/-- `ss >> word`, and what is left. -/
def readWord (text : Bytes) : Bytes × Bytes :=
  let text := text.dropWhile isSpace
  (text.takeWhile (!isSpace ·), text.dropWhile (!isSpace ·))

/-- The second word of the request. -/
def pathOf (request : Bytes) : Bytes := (readWord (readWord request).2).1

/-- The request is what one read of at most 4096 bytes has given. -/
def handleRequest (site : Site) (request : Bytes) : Handled :=
  if request = [] then {}
  else
    let path := pathOf request
    if path = ascii "/api/stream" then { streams := true }
    else if path = ascii "/health" then ok (ascii "text/plain") site.renderHealth none
    else if path = ascii "/metrics" then
      ok (ascii "text/plain; version=0.0.4") site.renderPrometheus none
    else if path = ascii "/api/stats" then ok (ascii "application/json") site.renderJson none
    else if path = ascii "/logo.png" then
      match site.logo with
      | none => handleFile site path
      | some .absent => notFound none
      | some .failing => {}
      | some (.regular content) => ok (ascii "image/png") content none
    else handleFile site path

/-- The part up to the last slash. -/
def dirOf (path : Bytes) : Bytes := (path.reverse.dropWhile (· ≠ slash)).reverse

/-- `isDir` is what `stat` finds. -/
def findWwwDir (isDir : Bytes → Bool) (argv0 : Bytes) : Bytes :=
  if slash ∈ argv0 ∧ isDir (dirOf argv0 ++ ascii "../www") then dirOf argv0 ++ ascii "../www"
  else if isDir (ascii "/usr/local/share/lynx/www") then ascii "/usr/local/share/lynx/www"
  else dirOf argv0 ++ ascii "www"

/-! ## Where a file is -/

/-- One name of a path, from a directory given by its names, the last one first. -/
def enter (dir : List Bytes) (name : Bytes) : List Bytes :=
  if name = ascii ".." then dir.tail else if name = ascii "." then dir else name :: dir

/-- The place that a path names, seen from the working directory. -/
def locate (cwd : List Bytes) (path : Bytes) : List Bytes :=
  (splitWords slash path).foldl enter (if path.head? = some slash then [] else cwd)

/-- The file is the directory or below it. -/
def Below (cwd : List Bytes) (dir file : Bytes) : Prop := locate cwd dir <:+ locate cwd file

/-- A path whose last name is `www`. -/
def IsRoot (root : Bytes) : Prop :=
  0 ∉ root ∧ ∃ base, root = base ++ ascii "www" ∧ (base = [] ∨ ∃ front, base = front ++ [slash])

theorem dirOf_cases (path : Bytes) : dirOf path = [] ∨ ∃ front, dirOf path = front ++ [slash] := by
  cases hrest : path.reverse.dropWhile (· ≠ slash) with
  | nil =>
    left
    rw [dirOf, hrest]
    rfl
  | cons c rest =>
    right
    have hhead := List.head?_dropWhile_not (· ≠ slash) path.reverse
    rw [hrest] at hhead
    have hslash : c = slash := by simpa using hhead
    refine ⟨rest.reverse, ?_⟩
    rw [dirOf, hrest, List.reverse_cons, hslash]

theorem zero_notMem_dirOf {path : Bytes} (h : 0 ∉ path) : 0 ∉ dirOf path := by
  intro hmem
  have hrest := (List.dropWhile_suffix _).subset (List.mem_reverse.mp hmem)
  exact h (List.mem_reverse.mp hrest)

theorem isRoot_findWwwDir (isDir : Bytes → Bool) {argv0 : Bytes} (h : 0 ∉ argv0) :
    IsRoot (findWwwDir isDir argv0) := by
  have hdir := zero_notMem_dirOf h
  rw [findWwwDir]
  split
  · have hparts : ascii "../www" = (ascii ".." ++ [slash]) ++ ascii "www" := by decide +kernel
    have hzero : 0 ∉ ascii "../www" := by decide +kernel
    refine ⟨?_, dirOf argv0 ++ (ascii ".." ++ [slash]), ?_, .inr ⟨dirOf argv0 ++ ascii "..", ?_⟩⟩
    · rw [List.mem_append, not_or]
      exact ⟨hdir, hzero⟩
    · rw [hparts, ← List.append_assoc]
    · rw [List.append_assoc]
  · split
    · refine ⟨by decide +kernel, ascii "/usr/local/share/lynx/", by decide +kernel, .inr ?_⟩
      exact ⟨ascii "/usr/local/share/lynx", by decide +kernel⟩
    · have hzero : 0 ∉ ascii "www" := by decide +kernel
      refine ⟨?_, dirOf argv0, rfl, dirOf_cases argv0⟩
      rw [List.mem_append, not_or]
      exact ⟨hdir, hzero⟩

theorem enter_suffix (dir : List Bytes) {name : Bytes} (h : name ≠ ascii "..") :
    dir <:+ enter dir name := by
  rw [enter, if_neg h]
  split
  · exact List.suffix_rfl
  · exact List.suffix_cons name dir

/-- Names other than `..` lead downwards. -/
theorem foldl_enter_suffix {names : List Bytes} (h : ∀ name ∈ names, name ≠ ascii "..")
    (dir : List Bytes) : dir <:+ names.foldl enter dir := by
  induction names generalizing dir with
  | nil => exact List.suffix_rfl
  | cons name names ih =>
    have hhere := enter_suffix dir (h name List.mem_cons_self)
    exact hhere.trans (ih (fun n hn => h n (List.mem_cons_of_mem name hn)) _)

theorem ne_dotdot_of_mem {path name : Bytes} (h : find (ascii "..") path = none)
    (hname : name ∈ splitWords slash path) : name ≠ ascii ".." := by
  intro heq
  have hinfix := isInfix_of_mem_splitWords hname
  rw [heq] at hinfix
  exact find_ne_none_iff.mpr hinfix h

section

variable {cwd : List Bytes} {base root path word rest : Bytes}

theorem splitWords_base (hbase : base = [] ∨ ∃ front, base = front ++ [slash])
    (hword : slash ∉ word) (hne : word ≠ []) :
    splitWords slash (base ++ word) = splitWords slash base ++ [word] := by
  cases hbase with
  | inl hnil =>
    rw [hnil, List.nil_append, splitWords_nil, List.nil_append, splitWords_of_notMem hword hne]
  | inr hfront =>
    obtain ⟨front, rfl⟩ := hfront
    have hend : splitWords slash (front ++ [slash]) = splitWords slash front := by
      rw [splitWords_append_cons, splitWords_nil, List.append_nil]
    rw [hend, List.append_assoc, List.singleton_append, splitWords_append_cons,
      splitWords_of_notMem hword hne]

theorem locate_append_slash (hne : root ≠ []) (rest : Bytes) :
    locate cwd (root ++ slash :: rest) =
      (splitWords slash rest).foldl enter (locate cwd root) := by
  rw [locate, locate, List.head?_append_of_ne_nil _ hne, splitWords_append_cons, List.foldl_append]

/-- The last name of a path, when it is neither `.` nor `..`. -/
theorem locate_word (cwd : List Bytes) (hbase : base = [] ∨ ∃ front, base = front ++ [slash])
    (hword : slash ∉ ascii "www" ++ word) :
    ∃ dir, locate cwd (base ++ ascii "www") = ascii "www" :: dir ∧
      locate cwd (base ++ (ascii "www" ++ word)) = (ascii "www" ++ word) :: dir := by
  have hname : ∀ word, slash ∉ ascii "www" ++ word →
      (splitWords slash (base ++ (ascii "www" ++ word))).foldl enter
        (if (base ++ ascii "www").head? = some slash then [] else cwd) =
      (ascii "www" ++ word) :: (splitWords slash base).foldl enter
        (if (base ++ ascii "www").head? = some slash then [] else cwd) := by
    intro word hword
    have hne : ascii "www" ++ word ≠ [] := nofun
    have hup : ascii "www" ++ word ≠ ascii ".." := nofun
    have hhere : ascii "www" ++ word ≠ ascii "." := nofun
    rw [splitWords_base hbase hword hne, List.foldl_append, List.foldl_cons, List.foldl_nil, enter,
      if_neg hup, if_neg hhere]
  have hhead : (base ++ (ascii "www" ++ word)).head? = (base ++ ascii "www").head? := by
    rw [← List.append_assoc, List.head?_append_of_ne_nil]
    intro hnil
    cases (List.append_eq_nil_iff.mp hnil).2
  refine ⟨(splitWords slash base).foldl enter
    (if (base ++ ascii "www").head? = some slash then [] else cwd), ?_, ?_⟩
  · have hroot := hname [] (by decide +kernel)
    rw [List.append_nil] at hroot
    exact hroot
  · rw [locate, hhead]
    exact hname word hword

/-- A path without a slash in front is put to the last name. -/
theorem locate_fused (cwd : List Bytes) (base : Bytes) {c : UInt8} {tail : Bytes}
    (hslash : c ≠ slash) (hdots : find (ascii "..") (c :: tail) = none) :
    ∃ (first : Bytes) (names : List Bytes), first ≠ [] ∧ slash ∉ ascii "www" ++ first ∧
      (∀ name ∈ names, name ≠ ascii "..") ∧
      locate cwd (base ++ ascii "www" ++ c :: tail) =
        names.foldl enter (locate cwd (base ++ (ascii "www" ++ first))) := by
  have hwww : slash ∉ ascii "www" := by decide +kernel
  by_cases hmem : slash ∈ c :: tail
  · obtain ⟨first, behind, heq, hfirst⟩ := List.eq_append_cons_of_mem hmem
    refine ⟨first, splitWords slash behind, ?_, ?_, fun name hname => ?_, ?_⟩
    · intro hnil
      rw [hnil, List.nil_append, List.cons.injEq] at heq
      exact hslash heq.1
    · rw [List.mem_append]
      exact fun hor => hor.elim hwww hfirst
    · refine ne_dotdot_of_mem hdots ?_
      rw [heq, splitWords_append_cons]
      exact List.mem_append_right _ hname
    · have hparts : base ++ ascii "www" ++ c :: tail =
          (base ++ (ascii "www" ++ first)) ++ slash :: behind := by
        rw [heq]
        simp only [List.append_assoc]
      rw [hparts, locate_append_slash]
      intro hnil
      cases (List.append_eq_nil_iff.mp hnil).2
  · refine ⟨c :: tail, [], nofun, ?_, nofun, ?_⟩
    · rw [List.mem_append]
      exact fun hor => hor.elim hwww hmem
    · rw [List.append_assoc]
      rfl

/-- The path stays below the root exactly when nothing of it is put to the name of the root. -/
theorem below_iff (hroot : IsRoot root) (hdots : find (ascii "..") path = none) :
    Below cwd root (root ++ path) ↔ path = [] ∨ path.head? = some slash := by
  obtain ⟨-, base, rfl, hbase⟩ := hroot
  have hne : base ++ ascii "www" ≠ [] := by
    intro hnil
    cases (List.append_eq_nil_iff.mp hnil).2
  cases path with
  | nil =>
    rw [List.append_nil]
    exact ⟨fun _ => .inl rfl, fun _ => List.suffix_rfl⟩
  | cons c tail =>
    by_cases hslash : c = slash
    · rw [hslash] at hdots ⊢
      refine ⟨fun _ => .inr rfl, fun _ => ?_⟩
      rw [Below, locate_append_slash hne]
      refine foldl_enter_suffix (fun name hname => ?_) _
      have hmem : name ∈ splitWords slash (slash :: tail) := by
        have hsplit := splitWords_append_cons slash [] tail
        rw [List.nil_append] at hsplit
        rw [hsplit]
        exact List.mem_append_right _ hname
      exact ne_dotdot_of_mem hdots hmem
    · have hout : ¬ (c :: tail = [] ∨ (c :: tail).head? = some slash) := by
        simp [hslash]
      refine ⟨fun hbelow => ?_, fun h => absurd h hout⟩
      obtain ⟨first, names, hfirst, hword, hnames, hlocate⟩ :=
        locate_fused cwd base hslash hdots
      obtain ⟨dir, hroot, hfile⟩ := locate_word cwd hbase hword
      rw [Below, hlocate, hroot, hfile] at hbelow
      have hdown := foldl_enter_suffix hnames ((ascii "www" ++ first) :: dir)
      -- Two directories beside each other have nothing in common.
      have hsame := (List.suffix_of_suffix_length_le hbelow hdown (Nat.le_refl _)).eq_of_length rfl
      have hname : ascii "www" = ascii "www" ++ first := (List.cons.inj hsame).1
      exact absurd (List.self_eq_append_right.mp hname) hfirst

end

/-! ## The path of a request -/

theorem readWord_notSpace {text : Bytes} {c : UInt8} (h : c ∈ (readWord text).1) :
    isSpace c = false := by
  have hword := List.mem_takeWhile_imp h
  rwa [Bool.not_eq_true'] at hword

theorem length_readWord (text : Bytes) :
    (readWord text).1.length + (readWord text).2.length ≤ text.length := by
  have hskip := (List.dropWhile_suffix (l := text) isSpace).length_le
  have hparts := congrArg List.length
    (List.takeWhile_append_dropWhile (p := (!isSpace ·)) (l := text.dropWhile isSpace))
  rw [List.length_append] at hparts
  exact Nat.le_trans (Nat.le_of_eq hparts) hskip

/-- A second word has a first one and a space before it. -/
theorem length_pathOf {request : Bytes} (h : pathOf request ≠ []) :
    (pathOf request).length + 2 ≤ request.length := by
  have hfirst := length_readWord request
  cases hleft : (readWord request).2 with
  | nil =>
    refine absurd ?_ h
    rw [pathOf, hleft]
    rfl
  | cons s left =>
    have hspace : isSpace s = true := by
      have hhead := List.head?_dropWhile_not (!isSpace ·) (request.dropWhile isSpace)
      rw [show (request.dropWhile isSpace).dropWhile (!isSpace ·) = s :: left from hleft] at hhead
      simpa using hhead
    have hword : (readWord request).1 ≠ [] := by
      intro hnil
      have hhead := List.head?_dropWhile_not isSpace request
      cases htext : request.dropWhile isSpace with
      | nil =>
        rw [readWord, htext] at hleft
        cases hleft
      | cons c text =>
        rw [htext] at hhead
        rw [readWord, htext] at hnil
        simp at hhead hnil
        rw [hhead] at hnil
        cases hnil
    have hsecond : (pathOf request).length ≤ left.length := by
      have hskip : pathOf request = (readWord left).1 := by
        rw [pathOf, hleft, readWord, readWord, List.dropWhile_cons_of_pos hspace]
      rw [hskip]
      exact Nat.le_trans (Nat.le_add_right _ _) (length_readWord left)
    have hpos := List.length_pos_iff.mpr hword
    rw [hleft, List.length_cons] at hfirst
    omega

/-- A request that asks for a path. -/
def get (path : Bytes) : Bytes := 0x47 :: 0x20 :: path

theorem pathOf_get {path : Bytes} (hspace : ∀ c ∈ path, isSpace c = false) :
    pathOf (get path) = path := by
  have hfirst : (readWord (get path)).2 = 0x20 :: path := rfl
  have hskip : (0x20 :: path).dropWhile isSpace = path := by
    rw [List.dropWhile_cons_of_pos (by decide)]
    cases path with
    | nil => rfl
    | cons c path =>
      rw [List.dropWhile_cons_of_neg]
      rw [hspace c List.mem_cons_self]
      exact Bool.false_ne_true
  rw [pathOf, hfirst, readWord, hskip, List.takeWhile_eq_self_iff.mpr]
  intro c hc
  rw [hspace c hc]
  rfl

/-! ## What is opened -/

section

variable {site : Site} {request path file : Bytes}

theorem opened_handleFile_iff :
    (handleFile site path).opened = some file ↔
      find (ascii "..") (servePath path) = none ∧ file = cString (site.wwwRoot ++ servePath path) ∧
        ∃ content, site.files file = .regular content := by
  rw [handleFile, serveFile]
  by_cases hdots : find (ascii "..") (servePath path) = none
  · rw [if_neg (not_not.mpr hdots)]
    dsimp only
    cases hfile : site.files (cString (site.wwwRoot ++ servePath path)) with
    | absent =>
      constructor
      · intro h
        cases h
      · rintro ⟨-, rfl, content, hcontent⟩
        rw [hfile] at hcontent
        cases hcontent
    | failing =>
      constructor
      · intro h
        cases h
      · rintro ⟨-, rfl, content, hcontent⟩
        rw [hfile] at hcontent
        cases hcontent
    | regular content =>
      have hopened : (if content = [] then
            notFound (some (cString (site.wwwRoot ++ servePath path)))
          else ok (contentTypeFor (servePath path)) content
            (some (cString (site.wwwRoot ++ servePath path)))).opened =
          some (cString (site.wwwRoot ++ servePath path)) := by
        split <;> rfl
      simp only [hopened, Option.some.injEq]
      constructor
      · rintro rfl
        exact ⟨hdots, rfl, content, hfile⟩
      · rintro ⟨-, rfl, -⟩
        rfl
  · rw [if_pos hdots]
    constructor
    · intro h
      cases h
    · exact fun h => absurd h.1 hdots

theorem opened_of_handleRequest (h : (handleRequest site request).opened = some file) :
    (handleFile site (pathOf request)).opened = some file := by
  rw [handleRequest] at h
  dsimp only at h
  repeat' split at h
  all_goals first
    | exact h
    | cases h

theorem handleRequest_get (hspace : ∀ c ∈ path, isSpace c = false)
    (hslash : path.head? ≠ some slash) : handleRequest site (get path) = handleFile site path := by
  have hpage : ∀ page : Bytes, page.head? = some slash → path ≠ page := by
    rintro page hpage rfl
    exact hslash hpage
  have hne : get path ≠ [] := nofun
  rw [handleRequest, if_neg hne, pathOf_get hspace]
  dsimp only
  rw [if_neg (hpage (ascii "/api/stream") rfl), if_neg (hpage (ascii "/health") rfl),
    if_neg (hpage (ascii "/metrics") rfl), if_neg (hpage (ascii "/api/stats") rfl),
    if_neg (hpage (ascii "/logo.png") rfl)]

theorem cString_root (hroot : 0 ∉ site.wwwRoot) (path : Bytes) :
    cString (site.wwwRoot ++ path) = site.wwwRoot ++ cString path := by
  refine List.takeWhile_append_of_pos (fun c hc => ?_)
  rw [decide_eq_true_eq]
  rintro rfl
  exact hroot hc

theorem cString_eq_self (h : 0 ∉ path) : cString path = path := by
  refine List.takeWhile_eq_self_iff.mpr (fun c hc => ?_)
  rw [decide_eq_true_eq]
  rintro rfl
  exact h hc

theorem zero_notMem_cString (path : Bytes) : 0 ∉ cString path := by
  intro h
  have hne := List.mem_takeWhile_imp h
  simp at hne

/-- A path that goes on from the name of the root. -/
structure Fused (path : Bytes) : Prop where
  ne_nil : path ≠ []
  unslashed : path.head? ≠ some slash
  fits : path.length ≤ 4094
  notSpace : ∀ c ∈ path, isSpace c = false
  notZero : 0 ∉ path
  noDots : find (ascii "..") path = none

theorem servePath_of_unslashed (h : path.head? ≠ some slash) : servePath path = path := by
  rw [servePath, if_neg]
  rintro rfl
  exact h rfl

/-- What is opened beside the root has been asked for under a fused path. -/
theorem fused_of_opened (hlen : request.length ≤ 4096)
    (hdots : find (ascii "..") (servePath (pathOf request)) = none)
    (hne : cString (servePath (pathOf request)) ≠ [])
    (hslash : (cString (servePath (pathOf request))).head? ≠ some slash) :
    Fused (cString (servePath (pathOf request))) := by
  have hprefixed : cString (servePath (pathOf request)) <+: servePath (pathOf request) :=
    List.takeWhile_prefix _
  have hhead : (servePath (pathOf request)).head? ≠ some slash := by
    obtain ⟨behind, hbehind⟩ := hprefixed
    rw [← hbehind, List.head?_append_of_ne_nil _ hne]
    exact hslash
  have hself : servePath (pathOf request) = pathOf request := by
    by_cases hindex : pathOf request = ascii "/"
    · rw [servePath, if_pos hindex] at hhead
      exact absurd rfl hhead
    · rw [servePath, if_neg hindex]
  rw [hself] at hne hprefixed hslash hdots ⊢
  have hpath : pathOf request ≠ [] := by
    intro hnil
    rw [hnil] at hne
    exact hne rfl
  have hfits := length_pathOf hpath
  have hpart := hprefixed.length_le
  refine ⟨hne, hslash, by omega, fun c hc => ?_, zero_notMem_cString _, ?_⟩
  · exact readWord_notSpace (hprefixed.subset hc)
  · by_contra hfind
    exact find_ne_none_iff.mpr ((find_ne_none_iff.mp hfind).trans hprefixed.isInfix) hdots

end

/-- Only files below the root are opened, whatever is asked for, exactly when no fused path names
a file. -/
theorem contained_iff {site : Site} {isDir : Bytes → Bool} {argv0 : Bytes} (hargv : 0 ∉ argv0)
    (hsite : site.wwwRoot = findWwwDir isDir argv0) (cwd : List Bytes) :
    (∀ request : Bytes, request.length ≤ 4096 → ∀ file,
      (handleRequest site request).opened = some file → Below cwd site.wwwRoot file) ↔
    ∀ path, Fused path → ∀ content, site.files (site.wwwRoot ++ path) ≠ .regular content := by
  have hroot : IsRoot site.wwwRoot := by
    rw [hsite]
    exact isRoot_findWwwDir isDir hargv
  constructor
  · intro h path hfused content hfile
    have hself := servePath_of_unslashed hfused.unslashed
    have hopened : (handleFile site path).opened = some (site.wwwRoot ++ path) := by
      refine opened_handleFile_iff.mpr ⟨?_, ?_, content, hfile⟩
      · rw [hself]
        exact hfused.noDots
      · rw [hself, cString_root hroot.1, cString_eq_self hfused.notZero]
    rw [← handleRequest_get hfused.notSpace hfused.unslashed] at hopened
    have hlen : (get path).length ≤ 4096 := Nat.succ_le_succ (Nat.succ_le_succ hfused.fits)
    cases (below_iff hroot hfused.noDots).mp (h _ hlen _ hopened) with
    | inl hnil => exact hfused.ne_nil hnil
    | inr hslash => exact hfused.unslashed hslash
  · intro h request hlen file hopened
    obtain ⟨hdots, rfl, content, hfile⟩ :=
      opened_handleFile_iff.mp (opened_of_handleRequest hopened)
    rw [cString_root hroot.1] at hfile ⊢
    by_cases hbelow : cString (servePath (pathOf request)) = [] ∨
        (cString (servePath (pathOf request))).head? = some slash
    · refine (below_iff hroot ?_).mpr hbelow
      by_contra hfind
      exact find_ne_none_iff.mpr ((find_ne_none_iff.mp hfind).trans
        (List.takeWhile_prefix _).isInfix) hdots
    · rw [not_or] at hbelow
      exact absurd hfile (h _ (fused_of_opened hlen hdots hbelow.1 hbelow.2) content)

/-- A root with a directory `www-old` beside it. -/
def oldSite : Site where
  wwwRoot := ascii "/srv/www"
  files file := if file = ascii "/srv/www-old/notes" then .regular (ascii "old") else .absent
  logo := none
  renderHealth := ascii "ok"
  renderPrometheus := []
  renderJson := []

example : (handleRequest oldSite (ascii "GET -old/notes HTTP/1.1")).opened =
    some (ascii "/srv/www-old/notes") := by
  decide +kernel

theorem oldSite_not_contained : ¬ ∀ request : Bytes, request.length ≤ 4096 → ∀ file,
    (handleRequest oldSite request).opened = some file → Below [] oldSite.wwwRoot file := by
  have hroot : oldSite.wwwRoot = findWwwDir (fun _ => false) (ascii "/srv/lynx") := by
    decide +kernel
  have hfused : Fused (ascii "-old/notes") :=
    ⟨by decide +kernel, by decide +kernel, by decide +kernel, by decide +kernel, by decide +kernel,
      by decide +kernel⟩
  have hfile : oldSite.files (oldSite.wwwRoot ++ ascii "-old/notes") = .regular (ascii "old") := by
    have hsame : oldSite.wwwRoot ++ ascii "-old/notes" = ascii "/srv/www-old/notes" := by
      decide +kernel
    rw [hsame]
    simp [oldSite]
  intro hall
  exact (contained_iff (by decide +kernel) hroot []).mp hall _ hfused _ hfile

end MonitorServer
end Dnss
