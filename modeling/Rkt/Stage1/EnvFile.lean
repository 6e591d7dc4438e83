import Rkt.Code.Assoc
import Rkt.Stage1.Units

set_option autoImplicit false

namespace Rkt.Stage1

open Assoc

def nul : Char := '\x00'

/-- A string without NUL, such as a name or what comes from a command line. -/
structure CString where
  val : Str
  noNul : nul ∉ val

/-- A variable that fits into an environment: its name is not empty and has no `=`. -/
structure VarOk (e : Str × Str) : Prop where
  ne_nil : e.1 ≠ []
  noEq : '=' ∉ e.1
  nameNoNul : nul ∉ e.1
  valueNoNul : nul ∉ e.2

instance (e : Str × Str) : Decidable (VarOk e) :=
  decidable_of_iff (e.1 ≠ [] ∧ '=' ∉ e.1 ∧ nul ∉ e.1 ∧ nul ∉ e.2)
    ⟨fun ⟨h₁, h₂, h₃, h₄⟩ => ⟨h₁, h₂, h₃, h₄⟩, fun ⟨h₁, h₂, h₃, h₄⟩ => ⟨h₁, h₂, h₃, h₄⟩⟩

/-- `types.Environment` of an app: the names are valid and distinct. -/
structure Environment where
  vars : List (Str × Str)
  distinct : Distinct vars
  ok : ∀ e ∈ vars, VarOk e

/-- `Environment.Set`, which keeps the names valid and distinct. -/
def Environment.set (env : Environment) (name value : Str) (h : VarOk (name, value)) :
    Environment where
  vars := Assoc.set env.vars name value
  distinct := env.distinct.set name value
  ok e he := (mem_set he).elim (fun heq => heq ▸ h) (env.ok e)

/-- `Environment.Get`. -/
def Environment.get (env : Environment) (name : Str) : Option Str := env.vars.lookup name

def acAppName : Str := "AC_APP_NAME".toList
def acMetadataURL : Str := "AC_METADATA_URL".toList

theorem acAppName_ok (value : CString) : VarOk (acAppName, value.val) where
  ne_nil := show acAppName ≠ [] by decide
  noEq := show '=' ∉ acAppName by decide
  nameNoNul := show nul ∉ acAppName by decide
  valueNoNul := value.noNul

theorem acMetadataURL_ok (value : CString) : VarOk (acMetadataURL, value.val) where
  ne_nil := show acMetadataURL ≠ [] by decide
  noEq := show '=' ∉ acMetadataURL by decide
  nameNoNul := show nul ∉ acMetadataURL by decide
  valueNoNul := value.noNul

def Environment.forApp (env : Environment) (appName metadataURL : CString) : Environment :=
  (env.set acAppName appName.val (acAppName_ok appName)).set acMetadataURL metadataURL.val
    (acMetadataURL_ok metadataURL)

/-- `defaultEnv`, a map. -/
def defaultEnv : List (Str × Str) := [
  ("PATH".toList, "/usr/local/sbin:/usr/local/bin:/usr/sbin:/usr/bin:/sbin:/bin".toList),
  ("SHELL".toList, "/bin/sh".toList),
  ("USER".toList, "root".toList),
  ("LOGNAME".toList, "root".toList),
  ("HOME".toList, "/root".toList)]

/-- `fmt.Fprintf(&ef, "%s=%s\000", name, value)`. -/
def writeVar (e : Str × Str) : Str := e.1 ++ '=' :: (e.2 ++ [nul])

/-- `writeEnvFile`, with the order in which the map `defaultEnv` is iterated: the defaults for what
is not set, then the environment. -/
def writeEnvFile (defaults : List (Str × Str)) (env : Environment) : Str :=
  (defaults.filter fun d => (env.get d.1).isNone).flatMap writeVar ++ env.vars.flatMap writeVar

abbrev Environ := Str → Option Str

inductive EnvExit where
  /-- `Malformed environment entry: "%s"` -/
  | malformed (k : Str)
  /-- `Unable to set env variable: "%s"="%s"` -/
  | setenv (k v : Str)
  deriving DecidableEq, Repr

/-- The variables that systemd uses for socket activation. -/
def keepEnv : List Str := ["LISTEN_FDS".toList, "LISTEN_PID".toList]

def keptVar (own : Environ) (k : Str) : Str :=
  match own k with
  | some v => writeVar (k, v)
  | none => []

def appendEnv (file : Str) (own : Environ) : Str := file ++ keepEnv.flatMap (keptVar own)

/-- `setenv(k, v, 1)`; an empty name is refused. -/
def setenv (k v : Str) (m : Environ) : Except EnvExit Environ :=
  if k = [] then .error (.setenv k v) else .ok (put m (k, v))

/-- The loop of `load_env` over the map: an entry goes up to the next NUL, its name up to the first
`=`. -/
def loadEntries (map : Str) (m : Environ) : Except EnvExit Environ :=
  if map = [] then .ok m
  else
    let k := map.takeWhile (· ≠ nul)
    -- `strchr(k, '=')` looks no further than the NUL
    if '=' ∈ k then do
      let m ← setenv (k.takeWhile (· ≠ '=')) (k.dropWhile (· ≠ '=')).tail m
      -- `i += strlen(k) + 1`
      loadEntries (map.drop (k.length + 1)) m
    else .error (.malformed k)
termination_by map.length
decreasing_by
  simp only [List.length_drop]
  have := List.length_pos_iff.mpr ‹_›
  omega

/-- `load_env`: the last byte of the file is made a NUL. -/
def loadEnv (file : Str) (own : Environ) : Except EnvExit Environ :=
  let map := appendEnv file own
  if map = [] then .ok fun _ => none
  else loadEntries (map.dropLast ++ [nul]) fun _ => none

def strings (ks : List Str) : Str := ks.flatMap (· ++ [nul])

def entry (m : Environ) (k : Str) : Except EnvExit Environ :=
  if '=' ∈ k then setenv (k.takeWhile (· ≠ '=')) (k.dropWhile (· ≠ '=')).tail m
  else .error (.malformed k)

theorem strings_cons (k : Str) (ks : List Str) : strings (k :: ks) = k ++ nul :: strings ks := by
  simp [strings]

theorem strings_append (ks ks' : List Str) : strings (ks ++ ks') = strings ks ++ strings ks' :=
  List.flatMap_append

theorem loadEntries_strings {ks : List Str} (hks : ∀ k ∈ ks, nul ∉ k) (m : Environ) :
    loadEntries (strings ks) m = ks.foldlM entry m := by
  induction ks generalizing m with
  | nil =>
    rw [strings, List.flatMap_nil, loadEntries, if_pos rfl]
    rfl
  | cons k ks ih =>
    have hne : ∀ c ∈ k, decide (c ≠ nul) = true := by
      intro c hc
      rw [decide_eq_true_eq]
      rintro rfl
      exact hks k List.mem_cons_self hc
    have htake : (k ++ nul :: strings ks).takeWhile (· ≠ nul) = k := by
      rw [List.takeWhile_append_of_pos hne]
      simp
    have hdrop : (k ++ nul :: strings ks).drop (k.length + 1) = strings ks := by
      have hassoc : k ++ nul :: strings ks = (k ++ [nul]) ++ strings ks := by simp
      rw [hassoc]
      exact List.drop_left' (by rw [List.length_append, List.length_singleton])
    have hrest : ∀ m', loadEntries (strings ks) m' = ks.foldlM entry m' :=
      ih fun k hk => hks k (List.mem_cons_of_mem _ hk)
    rw [strings_cons, loadEntries, if_neg (by simp), htake, List.foldlM_cons, entry]
    dsimp only
    rw [hdrop]
    by_cases heq : '=' ∈ k
    · rw [if_pos heq, if_pos heq]
      exact bind_congr hrest
    · rw [if_neg heq, if_neg heq]
      rfl

theorem dropLast_strings {ks : List Str} (h : ks ≠ []) :
    (strings ks).dropLast ++ [nul] = strings ks := by
  obtain ⟨ks', k, rfl⟩ := (List.eq_nil_or_concat ks).resolve_left h
  have hlast : strings (ks' ++ [k]) = (strings ks' ++ k) ++ [nul] := by simp [strings]
  rw [List.concat_eq_append, hlast, List.dropLast_concat]

theorem loadEnv_of_strings {file : Str} {own : Environ} {ks : List Str}
    (hfile : appendEnv file own = strings ks) (hks : ∀ k ∈ ks, nul ∉ k) :
    loadEnv file own = ks.foldlM entry fun _ => none := by
  rw [loadEnv, hfile]
  by_cases hnil : ks = []
  · subst hnil
    rfl
  · have hne : strings ks ≠ [] := by
      rw [← dropLast_strings hnil]
      exact List.append_ne_nil_of_right_ne_nil _ (List.cons_ne_nil _ _)
    rw [if_neg hne, dropLast_strings hnil, loadEntries_strings hks]

theorem entry_var {e : Str × Str} (he : VarOk e) (m : Environ) :
    entry m (e.1 ++ '=' :: e.2) = .ok (put m e) := by
  have hne : ∀ c ∈ e.1, decide (c ≠ '=') = true := by
    intro c hc
    rw [decide_eq_true_eq]
    rintro rfl
    exact he.noEq hc
  have hname : (e.1 ++ '=' :: e.2).takeWhile (· ≠ '=') = e.1 := by
    rw [List.takeWhile_append_of_pos hne]
    simp
  have hvalue : ((e.1 ++ '=' :: e.2).dropWhile (· ≠ '=')).tail = e.2 := by
    rw [List.dropWhile_append_of_pos hne]
    simp
  rw [entry, if_pos (by simp), hname, hvalue, setenv, if_neg he.ne_nil]

theorem varStrings_noNul {es : List (Str × Str)} (hes : ∀ e ∈ es, VarOk e) :
    ∀ k ∈ es.map fun e => e.1 ++ '=' :: e.2, nul ∉ k := by
  intro k hk
  obtain ⟨e, he, rfl⟩ := List.mem_map.mp hk
  rw [List.mem_append, List.mem_cons, not_or, not_or]
  exact ⟨(hes e he).nameNoNul, by decide, (hes e he).valueNoNul⟩

theorem flatMap_writeVar (es : List (Str × Str)) :
    es.flatMap writeVar = strings (es.map fun e => e.1 ++ '=' :: e.2) := by
  rw [strings, List.flatMap_map]
  exact List.flatMap_congr fun e _ => by simp [writeVar]

theorem foldlM_entry {es : List (Str × Str)} (hes : ∀ e ∈ es, VarOk e) (m : Environ) :
    (es.map fun e => e.1 ++ '=' :: e.2).foldlM entry m = .ok (es.foldl put m) := by
  induction es generalizing m with
  | nil => rfl
  | cons e es ih =>
    rw [List.map_cons, List.foldlM_cons, entry_var (hes e List.mem_cons_self)]
    exact ih (fun e he => hes e (List.mem_cons_of_mem _ he)) _

def fileVars (defaults : List (Str × Str)) (env : Environment) : List (Str × Str) :=
  (defaults.filter fun d => (env.get d.1).isNone) ++ env.vars

theorem writeEnvFile_eq (defaults : List (Str × Str)) (env : Environment) :
    writeEnvFile defaults env = (fileVars defaults env).flatMap writeVar :=
  List.flatMap_append.symm

theorem defaultEnv_distinct : Distinct defaultEnv := by
  show (defaultEnv.map Prod.fst).Nodup
  decide

theorem defaultEnv_ok : ∀ e ∈ defaultEnv, VarOk e := by decide

section

variable {defaults : List (Str × Str)} (hperm : defaults.Perm defaultEnv) (env : Environment)
include hperm

theorem fileVars_ok : ∀ e ∈ fileVars defaults env, VarOk e := by
  intro e he
  rcases List.mem_append.mp he with he | he
  · exact defaultEnv_ok e (hperm.mem_iff.mp (List.mem_filter.mp he).1)
  · exact env.ok e he

theorem filter_distinct : Distinct (defaults.filter fun d => (env.get d.1).isNone) := by
  have hdefaults : Distinct defaults := (hperm.map Prod.fst).nodup_iff.mpr defaultEnv_distinct
  exact hdefaults.sublist (List.filter_sublist.map Prod.fst)

theorem fileVars_distinct : Distinct (fileVars defaults env) := by
  rw [Distinct, fileVars, List.map_append]
  refine (filter_distinct hperm env).append env.distinct fun n hn hn' => ?_
  -- a default is written only if its name is not in the environment
  obtain ⟨d, hd, rfl⟩ := List.mem_map.mp hn
  obtain ⟨v, hv⟩ := mem_keys_iff.mp hn'
  have hnone := (List.mem_filter.mp hd).2
  simp [Environment.get, hv] at hnone

/-- A variable that is not set has its default, whatever the order of the defaults. -/
theorem lookup_fileVars (n : Str) :
    (fileVars defaults env).lookup n = (env.get n).or (defaultEnv.lookup n) := by
  apply Option.ext
  intro v
  rw [lookup_eq_some_iff (fileVars_distinct hperm env), fileVars, List.mem_append, List.mem_filter,
    hperm.mem_iff, ← lookup_eq_some_iff defaultEnv_distinct, ← lookup_eq_some_iff env.distinct]
  cases hn : env.get n with
  | none =>
    have hnone : env.vars.lookup n = none := hn
    simp [hnone]
  | some w =>
    have hsome : env.vars.lookup n = some w := hn
    simp [hsome]

end

theorem get_forApp (env : Environment) (appName metadataURL : CString) (n : Str) :
    (env.forApp appName metadataURL).get n = if n = acMetadataURL then some metadataURL.val
      else if n = acAppName then some appName.val else env.get n := by
  rw [Environment.get, Environment.forApp, Environment.set, lookup_set, Environment.set,
    lookup_set]
  rfl

def meant (env : Environment) (appName metadataURL : CString) : Environ := fun n =>
  if n = acAppName then some appName.val
  else if n = acMetadataURL then some metadataURL.val
  else (env.get n).or (defaultEnv.lookup n)

theorem appendEnv_of_none {file : Str} {own : Environ} (hown : ∀ k ∈ keepEnv, own k = none) :
    appendEnv file own = file := by
  have hkept : keepEnv.flatMap (keptVar own) = [] :=
    List.flatMap_eq_nil_iff.mpr fun k hk => by rw [keptVar, hown k hk]
  rw [appendEnv, hkept, List.append_nil]

/-- **The app gets the environment it is meant to get**, if socket activation adds nothing. -/
theorem env_as_written (env : Environment) (appName metadataURL : CString)
    (defaults : List (Str × Str)) (hperm : defaults.Perm defaultEnv) (own : Environ)
    (hown : ∀ k ∈ keepEnv, own k = none) :
    loadEnv (writeEnvFile defaults (env.forApp appName metadataURL)) own =
      .ok (meant env appName metadataURL) := by
  have hfile : appendEnv (writeEnvFile defaults (env.forApp appName metadataURL)) own =
      strings ((fileVars defaults (env.forApp appName metadataURL)).map fun e =>
        e.1 ++ '=' :: e.2) := by
    rw [appendEnv_of_none hown, writeEnvFile_eq, flatMap_writeVar]
  rw [loadEnv_of_strings hfile (varStrings_noNul (fileVars_ok hperm _)),
    foldlM_entry (fileVars_ok hperm _), foldl_put_eq_lookup (fileVars_distinct hperm _)]
  congr 1
  funext n
  rw [lookup_fileVars hperm, get_forApp, meant]
  have hnames : acMetadataURL ≠ acAppName := by decide
  by_cases happ : n = acAppName
  · rw [if_pos happ, if_neg (happ ▸ hnames.symm), if_pos happ]
    rfl
  · by_cases hurl : n = acMetadataURL
    · rw [if_pos hurl, if_neg happ, if_pos hurl]
      rfl
    · rw [if_neg hurl, if_neg happ, if_neg happ, if_neg hurl]

/-- A variable with `=` in its value, and an empty `HOME`. -/
def homeEnv : Environment where
  vars := [("OPTS".toList, "a=b".toList), ("HOME".toList, [])]
  distinct := by show (List.map Prod.fst _).Nodup; decide
  ok := by decide

theorem env_as_written_home :
    loadEnv (writeEnvFile defaultEnv.reverse (homeEnv.forApp ⟨"sh".toList, by decide⟩
      ⟨"http://169.254.1.1/".toList, by decide⟩)) (fun _ => none) =
      .ok (meant homeEnv ⟨"sh".toList, by decide⟩ ⟨"http://169.254.1.1/".toList, by decide⟩) :=
  env_as_written homeEnv _ _ _ (List.reverse_perm _) _ fun _ _ => rfl

end Rkt.Stage1
