/-
The command line over the config file over the defaults.

`parseArgs` goes through the arguments twice.  The first time it looks for `--config`, the first
one counts, and fills in what the file says; the second time every argument overwrites.  So the
last value of a setting on the command line is the one that counts, and then that of the file.

Three of the four flags can only be switched on there: `--enable_dns_to_https=false` switches it
on.  And `cache_file` is a setting of the file alone; `--cache_file` is an unknown option.

`text_parseArgs` and `flag_parseArgs` say for all settings, arguments and files what they are in
the end, `parseArgs_error_iff` when the program exits instead.  The log lines are left out.
-/
import Dnss.Config.File
import Dnss.Library.Assoc

namespace Dnss

open Scan ConfigFile Assoc

/-! ## The settings -/

structure Config where
  dnsListenAddr : Bytes := ascii ":53"
  dnsUnqualifiedUpstream : Bytes := []
  dnsServerForDomain : Bytes := []
  fallbackUpstream : Bytes := ascii "8.8.8.8:53"
  enableDnsToHttps : Bool := false
  httpsUpstream : Bytes := ascii "https://dns.google/dns-query"
  httpsUpstream2 : Bytes := []
  httpsClientCAFile : Bytes := []
  enableCache : Bool := true
  cacheFile : Bytes := []
  enableHttpsToDns : Bool := false
  dnsUpstream : Bytes := ascii "8.8.8.8:53"
  httpsCertFile : Bytes := []
  httpsKeyFile : Bytes := []
  httpsAddr : Bytes := ascii ":443"
  insecureHttpServer : Bool := false
  monitoringListenAddr : Bytes := []
  logLevel : Bytes := ascii "info"
  logFormat : Bytes := ascii "text"
  configFile : Bytes := []
  proxy : Bytes := []
  noProxy : Bytes := []
  deriving DecidableEq

/-- The settings that take a text. -/
inductive TextOption where
  | dnsListenAddr
  | dnsUnqualifiedUpstream
  | dnsServerForDomain
  | fallbackUpstream
  | httpsUpstream
  | httpsUpstream2
  | httpsClientCAFile
  | cacheFile
  | dnsUpstream
  | httpsCertFile
  | httpsKeyFile
  | httpsAddr
  | monitoringListenAddr
  | logLevel
  | logFormat
  | proxy
  | noProxy
  deriving DecidableEq

inductive FlagOption where
  | enableDnsToHttps
  | enableCache
  | enableHttpsToDns
  | insecureHttpServer
  deriving DecidableEq

namespace TextOption

def name : TextOption → Bytes
  | dnsListenAddr => ascii "dns_listen_addr"
  | dnsUnqualifiedUpstream => ascii "dns_unqualified_upstream"
  | dnsServerForDomain => ascii "dns_server_for_domain"
  | fallbackUpstream => ascii "fallback_upstream"
  | httpsUpstream => ascii "https_upstream"
  | httpsUpstream2 => ascii "https_upstream2"
  | httpsClientCAFile => ascii "https_client_cafile"
  | cacheFile => ascii "cache_file"
  | dnsUpstream => ascii "dns_upstream"
  | httpsCertFile => ascii "https_cert"
  | httpsKeyFile => ascii "https_key"
  | httpsAddr => ascii "https_server_addr"
  | monitoringListenAddr => ascii "monitoring_listen_addr"
  | logLevel => ascii "log_level"
  | logFormat => ascii "log_format"
  | proxy => ascii "proxy"
  | noProxy => ascii "no_proxy"

def all : List TextOption :=
  [dnsListenAddr, dnsUnqualifiedUpstream, dnsServerForDomain, fallbackUpstream, httpsUpstream,
    httpsUpstream2, httpsClientCAFile, cacheFile, dnsUpstream, httpsCertFile, httpsKeyFile,
    httpsAddr, monitoringListenAddr, logLevel, logFormat, proxy, noProxy]

/-- The command line has all of them but one. -/
def onCommandLine (o : TextOption) : Bool := o ≠ cacheFile

end TextOption

def isTrue (v : Bytes) : Bool := v = ascii "true" ∨ v = ascii "1"

namespace FlagOption

def name : FlagOption → Bytes
  | enableDnsToHttps => ascii "enable_dns_to_https"
  | enableCache => ascii "enable_cache"
  | enableHttpsToDns => ascii "enable_https_to_dns"
  | insecureHttpServer => ascii "insecure_http_server"

def all : List FlagOption := [enableDnsToHttps, enableCache, enableHttpsToDns, insecureHttpServer]

/-- What a value in the file says. -/
def fromFile : FlagOption → Bytes → Bool
  | enableCache, v => isTrue v || v = []
  | _, v => isTrue v

/-- What an argument says; three of the flags do not look at the value. -/
def fromArg : FlagOption → Bytes → Bool
  | enableCache, v => v = [] || isTrue v
  | _, _ => true

end FlagOption

namespace Config

def text (cfg : Config) : TextOption → Bytes
  | .dnsListenAddr => cfg.dnsListenAddr
  | .dnsUnqualifiedUpstream => cfg.dnsUnqualifiedUpstream
  | .dnsServerForDomain => cfg.dnsServerForDomain
  | .fallbackUpstream => cfg.fallbackUpstream
  | .httpsUpstream => cfg.httpsUpstream
  | .httpsUpstream2 => cfg.httpsUpstream2
  | .httpsClientCAFile => cfg.httpsClientCAFile
  | .cacheFile => cfg.cacheFile
  | .dnsUpstream => cfg.dnsUpstream
  | .httpsCertFile => cfg.httpsCertFile
  | .httpsKeyFile => cfg.httpsKeyFile
  | .httpsAddr => cfg.httpsAddr
  | .monitoringListenAddr => cfg.monitoringListenAddr
  | .logLevel => cfg.logLevel
  | .logFormat => cfg.logFormat
  | .proxy => cfg.proxy
  | .noProxy => cfg.noProxy

def setText (cfg : Config) (o : TextOption) (v : Bytes) : Config :=
  match o with
  | .dnsListenAddr => { cfg with dnsListenAddr := v }
  | .dnsUnqualifiedUpstream => { cfg with dnsUnqualifiedUpstream := v }
  | .dnsServerForDomain => { cfg with dnsServerForDomain := v }
  | .fallbackUpstream => { cfg with fallbackUpstream := v }
  | .httpsUpstream => { cfg with httpsUpstream := v }
  | .httpsUpstream2 => { cfg with httpsUpstream2 := v }
  | .httpsClientCAFile => { cfg with httpsClientCAFile := v }
  | .cacheFile => { cfg with cacheFile := v }
  | .dnsUpstream => { cfg with dnsUpstream := v }
  | .httpsCertFile => { cfg with httpsCertFile := v }
  | .httpsKeyFile => { cfg with httpsKeyFile := v }
  | .httpsAddr => { cfg with httpsAddr := v }
  | .monitoringListenAddr => { cfg with monitoringListenAddr := v }
  | .logLevel => { cfg with logLevel := v }
  | .logFormat => { cfg with logFormat := v }
  | .proxy => { cfg with proxy := v }
  | .noProxy => { cfg with noProxy := v }

def flag (cfg : Config) : FlagOption → Bool
  | .enableDnsToHttps => cfg.enableDnsToHttps
  | .enableCache => cfg.enableCache
  | .enableHttpsToDns => cfg.enableHttpsToDns
  | .insecureHttpServer => cfg.insecureHttpServer

def setFlag (cfg : Config) (f : FlagOption) (b : Bool) : Config :=
  match f with
  | .enableDnsToHttps => { cfg with enableDnsToHttps := b }
  | .enableCache => { cfg with enableCache := b }
  | .enableHttpsToDns => { cfg with enableHttpsToDns := b }
  | .insecureHttpServer => { cfg with insecureHttpServer := b }

theorem text_setText (cfg : Config) (o o' : TextOption) (v : Bytes) :
    (cfg.setText o v).text o' = if o = o' then v else cfg.text o' := by
  cases o <;> cases o' <;> rfl

theorem flag_setFlag (cfg : Config) (f f' : FlagOption) (b : Bool) :
    (cfg.setFlag f b).flag f' = if f = f' then b else cfg.flag f' := by
  cases f <;> cases f' <;> rfl

theorem text_setFlag (cfg : Config) (f : FlagOption) (b : Bool) (o : TextOption) :
    (cfg.setFlag f b).text o = cfg.text o := by
  cases f <;> cases o <;> rfl

theorem flag_setText (cfg : Config) (o : TextOption) (v : Bytes) (f : FlagOption) :
    (cfg.setText o v).flag f = cfg.flag f := by
  cases o <;> cases f <;> rfl

end Config

/-! ## The file -/

def textNamed (key : Bytes) : Option TextOption := TextOption.all.find? fun o => o.name = key

def flagNamed (key : Bytes) : Option FlagOption := FlagOption.all.find? fun f => f.name = key

/-- The chain of comparisons for one member. -/
def applyMember (cfg : Config) (k v : Bytes) : Config :=
  match textNamed k, flagNamed k with
  | some o, _ => cfg.setText o v
  | none, some f => cfg.setFlag f (f.fromFile v)
  | none, none => cfg

/-- Every key is there once, so the order does not matter. -/
def applyFile (cfg : Config) (kv : KeyValues) : Config :=
  kv.entries.foldl (fun cfg item => applyMember cfg item.1 item.2) cfg

/-! ## The arguments -/

def equals : UInt8 := 0x3D

/-- The parts before and behind the first `=`. -/
def splitArg (arg : Bytes) : Bytes × Bytes := (cut (· = equals) arg).getD (arg, [])

def dashes : Bytes := ascii "--"

def argText (key : Bytes) : Option TextOption :=
  TextOption.all.find? fun o => o.onCommandLine && key = dashes ++ o.name

def argFlag (key : Bytes) : Option FlagOption :=
  FlagOption.all.find? fun f => key = dashes ++ f.name

/-- How the program exits instead. -/
inductive Exit where
  /-- With the usage, and status 0. -/
  | help
  /-- With status 1. -/
  | unknown (key : Bytes)
  deriving DecidableEq

/-- The chain of comparisons for one argument. -/
def applyArg (cfg : Config) (arg : Bytes) : Except Exit Config :=
  if arg = ascii "--help" ∨ arg = ascii "-h" then .error .help
  else
    let (key, val) := splitArg arg
    if key = ascii "--config" then .ok cfg
    else
      match argText key, argFlag key with
      | some o, _ => .ok (cfg.setText o val)
      | none, some f => .ok (cfg.setFlag f (f.fromArg val))
      | none, none => .error (.unknown key)

def applyArgs (cfg : Config) : List Bytes → Except Exit Config
  | [] => .ok cfg
  | arg :: args =>
    match applyArg cfg arg with
    | .ok cfg => applyArgs cfg args
    | .error e => .error e

/-- The value of the first `--config`. -/
def configPath (args : List Bytes) : Bytes :=
  match args.find? fun arg => (splitArg arg).1 = ascii "--config" with
  | some arg => (splitArg arg).2
  | none => []

/-- The settings before the second pass. -/
def loaded (files : Bytes → Option Bytes) (args : List Bytes) : Config :=
  let path := configPath args
  if path = [] then {}
  else applyFile { configFile := path } (parseJson (files path))

/-- The arguments behind the name of the program. -/
def parseArgs (files : Bytes → Option Bytes) (args : List Bytes) : Except Exit Config :=
  applyArgs (loaded files args) args

/-! ## The names -/

theorem TextOption.mem_all (o : TextOption) : o ∈ TextOption.all := by
  cases o <;> decide

theorem FlagOption.mem_all (f : FlagOption) : f ∈ FlagOption.all := by
  cases f <;> decide

theorem TextOption.name_inj {o o' : TextOption} (h : o.name = o'.name) : o = o' := by
  have hall : ∀ o ∈ TextOption.all, ∀ o' ∈ TextOption.all, o.name = o'.name → o = o' := by
    decide +kernel
  exact hall o o.mem_all o' o'.mem_all h

theorem FlagOption.name_inj {f f' : FlagOption} (h : f.name = f'.name) : f = f' := by
  have hall : ∀ f ∈ FlagOption.all, ∀ f' ∈ FlagOption.all, f.name = f'.name → f = f' := by
    decide +kernel
  exact hall f f.mem_all f' f'.mem_all h

theorem text_name_ne_flag_name (o : TextOption) (f : FlagOption) : o.name ≠ f.name := by
  have hall : ∀ o ∈ TextOption.all, ∀ f ∈ FlagOption.all, o.name ≠ f.name := by
    decide +kernel
  exact hall o o.mem_all f f.mem_all

/-- A search for the only element with a property. -/
theorem find_eq_some_iff_of_unique {α : Type} {p : α → Bool} {xs : List α} {a : α} (hmem : a ∈ xs)
    (hunique : p a = true → ∀ b ∈ xs, p b = true → b = a) : xs.find? p = some a ↔ p a = true := by
  constructor
  · exact List.find?_some
  · intro ha
    cases hfind : xs.find? p with
    | none => exact absurd ha (List.find?_eq_none.mp hfind a hmem)
    | some b => rw [hunique ha b (List.mem_of_find?_eq_some hfind) (List.find?_some hfind)]

theorem textNamed_eq_some_iff {key : Bytes} {o : TextOption} :
    textNamed key = some o ↔ o.name = key := by
  rw [textNamed, find_eq_some_iff_of_unique o.mem_all, decide_eq_true_iff]
  intro ho o' _ ho'
  rw [decide_eq_true_iff] at ho ho'
  exact TextOption.name_inj (ho'.trans ho.symm)

theorem flagNamed_eq_some_iff {key : Bytes} {f : FlagOption} :
    flagNamed key = some f ↔ f.name = key := by
  rw [flagNamed, find_eq_some_iff_of_unique f.mem_all, decide_eq_true_iff]
  intro hf f' _ hf'
  rw [decide_eq_true_iff] at hf hf'
  exact FlagOption.name_inj (hf'.trans hf.symm)

theorem argText_eq_some_iff {key : Bytes} {o : TextOption} :
    argText key = some o ↔ o.onCommandLine = true ∧ key = dashes ++ o.name := by
  rw [argText, find_eq_some_iff_of_unique o.mem_all, Bool.and_eq_true, decide_eq_true_iff]
  intro ho o' _ ho'
  rw [Bool.and_eq_true, decide_eq_true_iff] at ho ho'
  exact TextOption.name_inj (List.append_cancel_left (ho'.2.symm.trans ho.2))

theorem argFlag_eq_some_iff {key : Bytes} {f : FlagOption} :
    argFlag key = some f ↔ key = dashes ++ f.name := by
  rw [argFlag, find_eq_some_iff_of_unique f.mem_all, decide_eq_true_iff]
  intro hf f' _ hf'
  rw [decide_eq_true_iff] at hf hf'
  exact FlagOption.name_inj (List.append_cancel_left (hf'.symm.trans hf))

/-! ## The settings from the file -/

theorem text_applyMember (cfg : Config) (k v : Bytes) (o : TextOption) :
    (applyMember cfg k v).text o = (if k = o.name then some v else none).getD (cfg.text o) := by
  unfold applyMember
  cases htext : textNamed k with
  | some o' =>
    have hname := textNamed_eq_some_iff.mp htext
    dsimp only
    rw [Config.text_setText]
    by_cases ho : o' = o
    · rw [if_pos ho, if_pos (by rw [← hname, ho])]
      rfl
    · rw [if_neg ho, if_neg fun h => ho (TextOption.name_inj (hname.trans h))]
      rfl
  | none =>
    have hother : ¬ k = o.name := fun h => by
      rw [textNamed_eq_some_iff.mpr h.symm] at htext
      cases htext
    rw [if_neg hother]
    cases flagNamed k with
    | some f => exact Config.text_setFlag cfg f (f.fromFile v) o
    | none => rfl

theorem flag_applyMember (cfg : Config) (k v : Bytes) (f : FlagOption) :
    (applyMember cfg k v).flag f =
      (if k = f.name then some (f.fromFile v) else none).getD (cfg.flag f) := by
  unfold applyMember
  cases htext : textNamed k with
  | some o =>
    have hname := textNamed_eq_some_iff.mp htext
    have hother : ¬ k = f.name := fun h => text_name_ne_flag_name o f (hname.trans h)
    rw [if_neg hother]
    exact Config.flag_setText cfg o v f
  | none =>
    cases hflag : flagNamed k with
    | some f' =>
      have hname := flagNamed_eq_some_iff.mp hflag
      dsimp only
      rw [Config.flag_setFlag]
      by_cases hf : f' = f
      · rw [if_pos hf, if_pos (by rw [← hname, hf]), hf]
        rfl
      · rw [if_neg hf, if_neg fun h => hf (FlagOption.name_inj (hname.trans h))]
        rfl
    | none =>
      have hother : ¬ k = f.name := fun h => by
        rw [flagNamed_eq_some_iff.mpr h.symm] at hflag
        cases hflag
      rw [if_neg hother]
      rfl

theorem text_applyFile (cfg : Config) (kv : KeyValues) (o : TextOption) :
    (applyFile cfg kv).text o = (kv.lookup o.name).getD (cfg.text o) := by
  rw [← lastOf_entries]
  exact get_foldl (fun cfg : Config => cfg.text o)
    (fun cfg item => text_applyMember cfg item.1 item.2 o) cfg kv.entries

theorem flag_applyFile (cfg : Config) (kv : KeyValues) (f : FlagOption) :
    (applyFile cfg kv).flag f = ((kv.lookup f.name).map f.fromFile).getD (cfg.flag f) := by
  rw [← lastOf_entries, ← lastOf_map]
  have hvalue : ∀ item : (_ : Bytes) × Bytes,
      (if item.1 = f.name then some item.2 else none).map f.fromFile =
        if item.1 = f.name then some (f.fromFile item.2) else none := by
    intro item
    split <;> rfl
  simp only [hvalue]
  exact get_foldl (fun cfg : Config => cfg.flag f)
    (fun cfg item => flag_applyMember cfg item.1 item.2 f) cfg kv.entries

/-! ## The settings from the command line -/

/-- The value that an argument gives a setting. -/
def textValue (o : TextOption) (arg : Bytes) : Option Bytes :=
  if argText (splitArg arg).1 = some o then some (splitArg arg).2 else none

def flagValue (f : FlagOption) (arg : Bytes) : Option Bool :=
  if argFlag (splitArg arg).1 = some f then some (f.fromArg (splitArg arg).2) else none

theorem argText_config : argText (ascii "--config") = none := by decide +kernel

theorem argFlag_config : argFlag (ascii "--config") = none := by decide +kernel

/-- An argument that does not end the program. -/
theorem applyArg_eq_ok {cfg cfg' : Config} {arg : Bytes} (h : applyArg cfg arg = .ok cfg') :
    (∀ o, cfg'.text o = (textValue o arg).getD (cfg.text o)) ∧
      ∀ f, cfg'.flag f = (flagValue f arg).getD (cfg.flag f) := by
  unfold applyArg at h
  split at h
  · cases h
  · dsimp only at h
    by_cases hconfig : (splitArg arg).1 = ascii "--config"
    · rw [if_pos hconfig, Except.ok.injEq] at h
      subst h
      refine ⟨fun o => ?_, fun f => ?_⟩
      · rw [textValue, hconfig, argText_config]
        rfl
      · rw [flagValue, hconfig, argFlag_config]
        rfl
    · rw [if_neg hconfig] at h
      cases htext : argText (splitArg arg).1 with
      | some o' =>
        rw [htext] at h
        dsimp only at h
        rw [Except.ok.injEq] at h
        subst h
        refine ⟨fun o => ?_, fun f => ?_⟩
        · rw [Config.text_setText, textValue, htext]
          by_cases ho : o' = o
          · rw [if_pos ho, if_pos (congrArg some ho)]
            rfl
          · rw [if_neg ho, if_neg fun heq => ho (Option.some.inj heq)]
            rfl
        · have hother : argFlag (splitArg arg).1 ≠ some f := by
            intro hflag
            have hname := (argText_eq_some_iff.mp htext).2.symm.trans (argFlag_eq_some_iff.mp hflag)
            exact text_name_ne_flag_name o' f (List.append_cancel_left hname)
          rw [Config.flag_setText, flagValue, if_neg hother]
          rfl
      | none =>
        rw [htext] at h
        have hnone : ∀ o, textValue o arg = none := fun o => by
          rw [textValue, htext]
          rfl
        cases hflag : argFlag (splitArg arg).1 with
        | some f' =>
          rw [hflag] at h
          dsimp only at h
          rw [Except.ok.injEq] at h
          subst h
          refine ⟨fun o => ?_, fun f => ?_⟩
          · rw [Config.text_setFlag, hnone]
            rfl
          · rw [Config.flag_setFlag, flagValue, hflag]
            by_cases hf : f' = f
            · rw [if_pos hf, if_pos (congrArg some hf), hf]
              rfl
            · rw [if_neg hf, if_neg fun heq => hf (Option.some.inj heq)]
              rfl
        | none =>
          rw [hflag] at h
          cases h

theorem applyArgs_eq_ok {cfg cfg' : Config} {args : List Bytes} (h : applyArgs cfg args = .ok cfg') :
    (∀ o, cfg'.text o = (lastOf (textValue o) args).getD (cfg.text o)) ∧
      ∀ f, cfg'.flag f = (lastOf (flagValue f) args).getD (cfg.flag f) := by
  induction args generalizing cfg with
  | nil =>
    rw [applyArgs, Except.ok.injEq] at h
    rw [h]
    exact ⟨fun _ => rfl, fun _ => rfl⟩
  | cons arg args ih =>
    rw [applyArgs] at h
    cases harg : applyArg cfg arg with
    | error e =>
      rw [harg] at h
      cases h
    | ok next =>
      rw [harg] at h
      obtain ⟨htext, hflag⟩ := ih h
      obtain ⟨htextArg, hflagArg⟩ := applyArg_eq_ok harg
      refine ⟨fun o => ?_, fun f => ?_⟩
      · rw [htext o, htextArg o, lastOf_cons]
        cases lastOf (textValue o) args with
        | none => rfl
        | some v => rfl
      · rw [hflag f, hflagArg f, lastOf_cons]
        cases lastOf (flagValue f) args with
        | none => rfl
        | some b => rfl

/-! ## Both -/

/-- What the file says about a setting. -/
def fileValue (files : Bytes → Option Bytes) (args : List Bytes) (name : Bytes) : Option Bytes :=
  if configPath args = [] then none else (parseJson (files (configPath args))).lookup name

theorem settings_loaded (files : Bytes → Option Bytes) (args : List Bytes) :
    (∀ o, (loaded files args).text o =
        (fileValue files args o.name).getD (({} : Config).text o)) ∧
      ∀ f, (loaded files args).flag f =
        ((fileValue files args f.name).map f.fromFile).getD (({} : Config).flag f) := by
  have hpath : ∀ path, (∀ o, ({ configFile := path } : Config).text o = ({} : Config).text o) ∧
      ∀ f, ({ configFile := path } : Config).flag f = ({} : Config).flag f := fun path =>
    ⟨fun o => by cases o <;> rfl, fun f => by cases f <;> rfl⟩
  unfold loaded fileValue
  dsimp only
  by_cases hnone : configPath args = []
  · simp only [if_pos hnone]
    exact ⟨fun _ => rfl, fun _ => rfl⟩
  · simp only [if_neg hnone]
    refine ⟨fun o => ?_, fun f => ?_⟩
    · rw [text_applyFile, (hpath _).1]
    · rw [flag_applyFile, (hpath _).2]

/-- The last value on the command line counts, then the one in the file, then the default. -/
theorem settings_parseArgs {files : Bytes → Option Bytes} {args : List Bytes} {cfg : Config}
    (h : parseArgs files args = .ok cfg) :
    (∀ o, cfg.text o = (lastOf (textValue o) args).getD
        ((fileValue files args o.name).getD (({} : Config).text o))) ∧
      ∀ f, cfg.flag f = (lastOf (flagValue f) args).getD
        (((fileValue files args f.name).map f.fromFile).getD (({} : Config).flag f)) := by
  obtain ⟨htext, hflag⟩ := applyArgs_eq_ok h
  obtain ⟨htextFile, hflagFile⟩ := settings_loaded files args
  refine ⟨fun o => ?_, fun f => ?_⟩
  · rw [htext o, htextFile o]
  · rw [hflag f, hflagFile f]

/-- The members of the object in the file; without a file there are none. -/
def FileSays (files : Bytes → Option Bytes) (args : List Bytes) (ms : List Member) : Prop :=
  if configPath args = [] then ms = []
  else match files (configPath args) with
    | none => ms = []
    | some content => (∃ tail, Unquoted tail ∧ content = render tail (ms.map Member.escaped)) ∧
        ∀ m ∈ ms, m.Written ∧ m.Plain

/-- The value of a member. -/
def memberValue (name : Bytes) (m : Member) : Option Bytes :=
  if m.key = name then some m.value.bytes else none

theorem fileValue_of_fileSays {files : Bytes → Option Bytes} {args : List Bytes} {ms : List Member}
    (h : FileSays files args ms) (name : Bytes) :
    fileValue files args name = lastOf (memberValue name) ms := by
  unfold FileSays at h
  unfold fileValue
  by_cases hnone : configPath args = []
  · rw [if_pos hnone] at h ⊢
    rw [h]
    rfl
  · rw [if_neg hnone] at h ⊢
    cases hfile : files (configPath args) with
    | none =>
      rw [hfile] at h
      change ms = [] at h
      rw [h]
      rfl
    | some content =>
      rw [hfile] at h
      obtain ⟨⟨tail, htail, rfl⟩, hms⟩ := h
      rw [parseJson, members_of_plain htail (fun m hm => (hms m hm).1) fun m hm => (hms m hm).2]
      refine (lookup_foldl_pairs (ms.map Member.assignment) name).trans ?_
      rw [lastOf, List.foldl_map]
      rfl

/-- A setting has its last value on the command line, or else the last one in the file, or else
its default. -/
theorem settings_of_object {files : Bytes → Option Bytes} {args : List Bytes} {cfg : Config}
    {ms : List Member} (hfile : FileSays files args ms) (h : parseArgs files args = .ok cfg) :
    (∀ o, cfg.text o = (lastOf (textValue o) args).getD
        ((lastOf (memberValue o.name) ms).getD (({} : Config).text o))) ∧
      ∀ f, cfg.flag f = (lastOf (flagValue f) args).getD
        (((lastOf (memberValue f.name) ms).map f.fromFile).getD (({} : Config).flag f)) := by
  obtain ⟨htext, hflag⟩ := settings_parseArgs h
  refine ⟨fun o => ?_, fun f => ?_⟩
  · rw [htext o, fileValue_of_fileSays hfile]
  · rw [hflag f, fileValue_of_fileSays hfile]

/-- `{"proxy": "a", "proxy": "b", "enable_https_to_dns": 1}`. -/
def twoProxies : List Member :=
  [{ key := ascii "proxy", value := .text [0x61], beforeValue := [0x20] },
    { key := ascii "proxy", value := .text [0x62], beforeValue := [0x20] },
    { key := ascii "enable_https_to_dns", value := .word [0x31], beforeValue := [0x20] }]

/-- The second `--config` does nothing. -/
def twoConfigs : List Bytes :=
  [ascii "--config=f", ascii "--enable_dns_to_https=false", ascii "--log_level=warn",
    ascii "--config="]

theorem fileSays_twoProxies :
    FileSays (fun _ => some (render [] (twoProxies.map Member.escaped))) twoConfigs twoProxies := by
  have hpath : configPath twoConfigs ≠ [] := by decide +kernel
  have hplain : ∀ s ∈ [ascii "proxy", ascii "enable_https_to_dns", [0x61], [0x62]], Plain s := by
    unfold Plain IsPlain
    decide +kernel
  have hword : IsWord [0x31] := ⟨by decide +kernel, by decide +kernel⟩
  unfold FileSays
  rw [if_neg hpath]
  refine ⟨⟨[], List.forall_mem_nil _, rfl⟩, List.forall_mem_cons.mpr ⟨⟨⟨by decide +kernel, ?_⟩, ?_⟩,
    List.forall_mem_cons.mpr ⟨⟨⟨by decide +kernel, ?_⟩, ?_⟩,
      List.forall_mem_singleton.mpr ⟨⟨by decide +kernel, ?_⟩, ?_⟩⟩⟩⟩
  · exact fun s hs => by cases hs
  · exact ⟨hplain _ (by decide +kernel), fun s hs => Value.text.inj hs ▸ hplain _ (by decide +kernel)⟩
  · exact fun s hs => by cases hs
  · exact ⟨hplain _ (by decide +kernel), fun s hs => Value.text.inj hs ▸ hplain _ (by decide +kernel)⟩
  · exact fun s hs => Value.word.inj hs ▸ hword
  · exact ⟨hplain _ (by decide +kernel), fun s hs => by cases hs⟩

theorem settings_twoProxies :
    let cfg : Config :=
      { configFile := [0x66], proxy := [0x62], enableHttpsToDns := true, enableDnsToHttps := true,
        logLevel := ascii "warn" }
    (∀ o, cfg.text o = (lastOf (textValue o) twoConfigs).getD
        ((lastOf (memberValue o.name) twoProxies).getD (({} : Config).text o))) ∧
      ∀ f, cfg.flag f = (lastOf (flagValue f) twoConfigs).getD
        (((lastOf (memberValue f.name) twoProxies).map f.fromFile).getD (({} : Config).flag f)) := by
  exact settings_of_object fileSays_twoProxies rfl

/-! ## The exits -/

/-- The program goes on behind the argument. -/
def Known (arg : Bytes) : Prop :=
  ¬ (arg = ascii "--help" ∨ arg = ascii "-h") ∧
    ((splitArg arg).1 = ascii "--config" ∨ (∃ o, argText (splitArg arg).1 = some o) ∨
      ∃ f, argFlag (splitArg arg).1 = some f)

/-- How it ends there. -/
def exitAt (arg : Bytes) : Exit :=
  if arg = ascii "--help" ∨ arg = ascii "-h" then .help else .unknown (splitArg arg).1

theorem applyArg_of_known (cfg : Config) {arg : Bytes} (h : Known arg) :
    ∃ cfg', applyArg cfg arg = .ok cfg' := by
  obtain ⟨hhelp, hknown⟩ := h
  unfold applyArg
  rw [if_neg hhelp]
  dsimp only
  by_cases hconfig : (splitArg arg).1 = ascii "--config"
  · exact ⟨cfg, if_pos hconfig⟩
  · rw [if_neg hconfig]
    rcases hknown with hconfig' | ⟨o, htext⟩ | ⟨f, hflag⟩
    · exact absurd hconfig' hconfig
    · rw [htext]
      exact ⟨_, rfl⟩
    · rw [hflag]
      cases argText (splitArg arg).1 with
      | some o => exact ⟨_, rfl⟩
      | none => exact ⟨_, rfl⟩

theorem applyArg_of_not_known (cfg : Config) {arg : Bytes} (h : ¬ Known arg) :
    applyArg cfg arg = .error (exitAt arg) := by
  unfold applyArg exitAt
  by_cases hhelp : arg = ascii "--help" ∨ arg = ascii "-h"
  · rw [if_pos hhelp, if_pos hhelp]
  · have hconfig : ¬ (splitArg arg).1 = ascii "--config" := fun hconfig => h ⟨hhelp, .inl hconfig⟩
    have htext : argText (splitArg arg).1 = none := by
      rw [Option.eq_none_iff_forall_ne_some]
      exact fun o ho => h ⟨hhelp, .inr (.inl ⟨o, ho⟩)⟩
    have hflag : argFlag (splitArg arg).1 = none := by
      rw [Option.eq_none_iff_forall_ne_some]
      exact fun f hf => h ⟨hhelp, .inr (.inr ⟨f, hf⟩)⟩
    rw [if_neg hhelp, if_neg hhelp]
    dsimp only
    rw [if_neg hconfig, htext, hflag]

theorem applyArgs_error_iff {cfg : Config} {args : List Bytes} {e : Exit} :
    applyArgs cfg args = .error e ↔ ∃ before arg after, args = before ++ arg :: after ∧
      (∀ a ∈ before, Known a) ∧ ¬ Known arg ∧ e = exitAt arg := by
  induction args generalizing cfg with
  | nil =>
    constructor
    · intro h
      cases h
    · rintro ⟨before, arg, after, heq, -⟩
      exact absurd heq (by simp)
  | cons first args ih =>
    rw [applyArgs]
    by_cases hknown : Known first
    · obtain ⟨next, hnext⟩ := applyArg_of_known cfg hknown
      rw [hnext]
      refine ih.trans ⟨?_, ?_⟩
      · rintro ⟨before, arg, after, rfl, hbefore, harg⟩
        exact ⟨first :: before, arg, after, rfl, List.forall_mem_cons.mpr ⟨hknown, hbefore⟩, harg⟩
      · rintro ⟨before, arg, after, heq, hbefore, harg⟩
        cases before with
        | nil =>
          rw [List.nil_append, List.cons.injEq] at heq
          rw [heq.1] at hknown
          exact absurd hknown harg.1
        | cons b before =>
          rw [List.cons_append, List.cons.injEq] at heq
          exact ⟨before, arg, after, heq.2, (List.forall_mem_cons.mp hbefore).2, harg⟩
    · rw [applyArg_of_not_known cfg hknown]
      dsimp only
      rw [Except.error.injEq]
      constructor
      · rintro rfl
        exact ⟨[], first, args, rfl, List.forall_mem_nil _, hknown, rfl⟩
      · rintro ⟨before, arg, after, heq, hbefore, -, rfl⟩
        cases before with
        | nil =>
          rw [List.nil_append, List.cons.injEq] at heq
          rw [heq.1]
        | cons b before =>
          rw [List.cons_append, List.cons.injEq] at heq
          rw [heq.1] at hknown
          exact absurd (List.forall_mem_cons.mp hbefore).1 hknown

/-- The program exits at the first argument that it does not know, whatever the file says. -/
theorem parseArgs_error_iff {files : Bytes → Option Bytes} {args : List Bytes} {e : Exit} :
    parseArgs files args = .error e ↔ ∃ before arg after, args = before ++ arg :: after ∧
      (∀ a ∈ before, Known a) ∧ ¬ Known arg ∧ e = exitAt arg :=
  applyArgs_error_iff

end Dnss
