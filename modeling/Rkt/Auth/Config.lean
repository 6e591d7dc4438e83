import Rkt.Code.Assoc
import Rkt.Code.Result
import Rkt.Path.Components

set_option autoImplicit false

namespace Rkt.Auth

open Path Result

inductive Headerer where
  /-- `basicAuthHeaderer`. -/
  | basicAuth (user password : Str)
  /-- `oAuthBearerTokenHeaderer`. -/
  | oAuthBearerToken (token : Str)
  deriving DecidableEq, Repr

structure BasicCredentials where
  user : Str
  password : Str
  deriving DecidableEq, Repr

structure Config where
  authPerHost : List (Str × Headerer)
  dockerCredentialsPerRegistry : List (Str × BasicCredentials)
  deriving DecidableEq, Repr

def newConfig : Config := ⟨[], []⟩

structure Config.Distinct (c : Config) : Prop where
  hosts : Assoc.Distinct c.authPerHost
  registries : Assoc.Distinct c.dockerCredentialsPerRegistry

structure BasicV1 where
  user : Str
  password : Str
  deriving DecidableEq, Repr

structure OauthV1 where
  token : Str
  deriving DecidableEq, Repr

/-- The credentials are decoded once the type is known: what `json.Unmarshal` makes of them as
`basicV1` and as `oauthV1`. -/
structure AuthV1 where
  domains : List Str
  type : Str
  basic : Option BasicV1
  oauth : Option OauthV1
  deriving DecidableEq, Repr

structure DockerAuthV1 where
  registries : List Str
  credentials : BasicV1
  deriving DecidableEq, Repr

structure ConfigHeader where
  rktVersion : Str
  rktKind : Str
  deriving DecidableEq, Repr

/-- The contents of a file: what `json.Unmarshal` makes of them, for each type. -/
structure Raw where
  header : Option ConfigHeader
  auth : Option AuthV1
  dockerAuth : Option DockerAuthV1
  deriving DecidableEq, Repr

inductive Mode where
  | dir
  | regular
  | other
  deriving DecidableEq, Repr

/-- What is found in a directory: the contents are what `ioutil.ReadFile` returns. -/
structure Entry where
  name : Str
  mode : Mode
  contents : Option Raw
  deriving DecidableEq, Repr

inductive ParseErr where
  /-- An error of `json.Unmarshal`. -/
  | json
  /-- `no domains specified`. -/
  | noDomains
  /-- `no auth type specified`. -/
  | noType
  /-- `unknown auth type: %q`. -/
  | unknownType (type : Str)
  /-- `user not specified`. -/
  | noUser
  /-- `password not specified`. -/
  | noPassword
  /-- `no oauth bearer token specified`. -/
  | noToken
  /-- `no registries specified`. -/
  | noRegistries
  /-- `auth for domain %q is already specified`. -/
  | domainSpecified (domain : Str)
  /-- `credentials for docker registry %q are already specified`. -/
  | registrySpecified (registry : Str)
  deriving DecidableEq, Repr

def unmarshal {α : Type} (a : Option α) : Except ParseErr α := a.elim (.error .json) .ok

def validateBasicV1 (basic : BasicV1) : Except ParseErr Unit :=
  if basic.user = [] then .error .noUser
  else if basic.password = [] then .error .noPassword
  else .ok ()

def getBasicV1Headerer (raw : Option BasicV1) : Except ParseErr Headerer := do
  let basic ← unmarshal raw
  validateBasicV1 basic
  return .basicAuth basic.user basic.password

def getOAuthV1Headerer (raw : Option OauthV1) : Except ParseErr Headerer := do
  let oauth ← unmarshal raw
  if oauth.token = [] then throw .noToken
  return .oAuthBearerToken oauth.token

def AuthV1.headerer (auth : AuthV1) : Except ParseErr Headerer :=
  if auth.type = "basic".toList then getBasicV1Headerer auth.basic
  else if auth.type = "oauth".toList then getOAuthV1Headerer auth.oauth
  else .error (.unknownType auth.type)

/-- What `authV1JsonParser.parse` does before it looks at the configuration. -/
def checkAuthV1 (raw : Raw) : Except ParseErr (AuthV1 × Headerer) := do
  let auth ← unmarshal raw.auth
  if auth.domains = [] then throw .noDomains
  if auth.type = [] then throw .noType
  let headerer ← auth.headerer
  return (auth, headerer)

/-- `authV1JsonParser.parse`. -/
def parseAuthV1 (config : Config) (raw : Raw) : Except ParseErr Config := do
  let (auth, headerer) ← checkAuthV1 raw
  let authPerHost ← (Assoc.insertAll headerer auth.domains config.authPerHost).mapError
    .domainSpecified
  return { config with authPerHost }

/-- What `dockerAuthV1JsonParser.parse` does before it looks at the configuration. -/
def checkDockerAuthV1 (raw : Raw) : Except ParseErr (DockerAuthV1 × BasicCredentials) := do
  let auth ← unmarshal raw.dockerAuth
  if auth.registries = [] then throw .noRegistries
  validateBasicV1 auth.credentials
  return (auth, ⟨auth.credentials.user, auth.credentials.password⟩)

/-- `dockerAuthV1JsonParser.parse`. -/
def parseDockerAuthV1 (config : Config) (raw : Raw) : Except ParseErr Config := do
  let (auth, basic) ← checkDockerAuthV1 raw
  let dockerCredentialsPerRegistry ←
    (Assoc.insertAll basic auth.registries config.dockerCredentialsPerRegistry).mapError
      .registrySpecified
  return { config with dockerCredentialsPerRegistry }

abbrev Parser := Config → Raw → Except ParseErr Config

/-- `parsersForKind`, as the package fills it. -/
def parsersForKind : List (Str × List (Str × Parser)) :=
  [("auth".toList, [("v1".toList, parseAuthV1)]),
    ("dockerAuth".toList, [("v1".toList, parseDockerAuthV1)])]

/-- The kinds in `auth.d`. The function `toArray` puts as many empty strings in front of the
elements of a set as it has elements. -/
def authKinds : List Str := [[], [], "auth".toList, "dockerAuth".toList]

inductive ConfigErr where
  /-- An error of `ioutil.ReadFile`. -/
  | read (name : Str)
  /-- An error of `json.Unmarshal`. -/
  | header (name : Str)
  /-- `no rktKind specified in %q`. -/
  | noKind (name : Str)
  /-- `no rktVersion specified in %q`. -/
  | noVersion (name : Str)
  /-- `the configuration directory %q expects to have configuration files of kinds %q, but …`. -/
  | wrongKind (name kind : Str)
  /-- `no parser available for configuration of kind %q`. -/
  | noParser (kind : Str)
  /-- `no parser available for configuration of kind %q and version %q`. -/
  | noParserVersion (kind version : Str)
  /-- `failed to parse %q: %v`. -/
  | parse (name : Str) (e : ParseErr)
  /-- An error of `os.Stat`. -/
  | stat
  /-- `expected %q to be a directory`. -/
  | notDir
  deriving DecidableEq, Repr

def getParser (kind version : Str) : Except ConfigErr Parser :=
  match parsersForKind.lookup kind with
  | none => .error (.noParser kind)
  | some parsers =>
    match parsers.lookup version with
    | none => .error (.noParserVersion kind version)
    | some parser => .ok parser

def Entry.parser (e : Entry) (kinds : List Str) : Except ConfigErr (Raw × Parser) :=
  match e.contents with
  | none => .error (.read e.name)
  | some raw =>
    match raw.header with
    | none => .error (.header e.name)
    | some header =>
      if header.rktKind = [] then .error (.noKind e.name)
      else if header.rktVersion = [] then .error (.noVersion e.name)
      else if !kinds.contains header.rktKind then .error (.wrongKind e.name header.rktKind)
      else (getParser header.rktKind header.rktVersion).map fun parser => (raw, parser)

def parseConfigFile (config : Config) (e : Entry) (kinds : List Str) : Except ConfigErr Config := do
  let (raw, parser) ← e.parser kinds
  (parser config raw).mapError (.parse e.name)

/-- `filepath.Ext`. -/
def ext (name : Str) : Str :=
  let rest := name.reverse.takeWhile fun c => c ≠ '.' && c ≠ '/'
  if name.reverse.drop rest.length |>.head? |>.any (· = '.') then '.' :: rest.reverse else []

/-- `validConfigFile`. A directory is skipped. -/
def validConfigFile (e : Entry) : Bool :=
  match e.mode with
  | .dir => false
  | .regular => ext e.name = ".json".toList
  | .other => false

def readFile (kinds : List Str) (config : Config) (e : Entry) : Except ConfigErr Config :=
  if validConfigFile e then parseConfigFile config e kinds else .ok config

def readEntries (config : Config) (es : List Entry) : Except ConfigErr Config :=
  es.foldlM (readFile authKinds) config

inductive Place (α : Type) where
  | missing
  | failed
  | notDir
  | dir (a : α)
  deriving DecidableEq, Repr

/-- `validDir`: what is in a directory, if it exists. -/
def validDir {α : Type} : Place α → Except ConfigErr (Option α)
  | .missing => .ok none
  | .failed => .error .stat
  | .notDir => .error .notDir
  | .dir a => .ok (some a)

/-- A configuration directory, with what is at `auth.d` in it. -/
abbrev ConfigDir := Place (Place (List Entry))

/-- `readConfigDir`. There is one subdirectory. -/
def readConfigDir (config : Config) (authD : Place (List Entry)) : Except ConfigErr Config := do
  match ← validDir authD with
  | none => return config
  | some es => readEntries config es

def getConfigFromDir (dir : ConfigDir) : Except ConfigErr Config := do
  match ← validDir dir with
  | none => return newConfig
  | some authD => readConfigDir newConfig authD

structure Ranging where
  range : {β : Type} → List (Str × β) → List (Str × β)
  perm : ∀ {β : Type} (l : List (Str × β)), (range l).Perm l

def mergeConfigs (o : Ranging) (config subconfig : Config) : Config where
  authPerHost := Assoc.setAll config.authPerHost (o.range subconfig.authPerHost)
  dockerCredentialsPerRegistry := Assoc.setAll config.dockerCredentialsPerRegistry
    (o.range subconfig.dockerCredentialsPerRegistry)

def getConfigFrom (o : Ranging) (system localDir : ConfigDir) : Except ConfigErr Config :=
  [system, localDir].foldlM (fun cfg cd => (getConfigFromDir cd).map (mergeConfigs o cfg)) newConfig

def Config.append (c b : Config) : Config where
  authPerHost := c.authPerHost ++ b.authPerHost
  dockerCredentialsPerRegistry :=
    c.dockerCredentialsPerRegistry ++ b.dockerCredentialsPerRegistry

/-- Something is added to the configuration which does not depend on it, unless there would be a
key that occurs twice. -/
def Adds {ε : Type} (f : Config → Except ε Config) : Prop :=
  ∀ c, c.Distinct → ∀ c', f c = .ok c' ↔
    ∃ b, f newConfig = .ok b ∧ (c.append b).Distinct ∧ c' = c.append b

@[simp] theorem Config.append_new (c : Config) : c.append newConfig = c := by
  simp [Config.append, newConfig]

@[simp] theorem Config.new_append (c : Config) : newConfig.append c = c := rfl

theorem Config.append_assoc (a b c : Config) : (a.append b).append c = a.append (b.append c) := by
  simp [Config.append]

theorem newConfig_distinct : newConfig.Distinct := ⟨List.nodup_nil, List.nodup_nil⟩

/-- The configuration that a parser makes, once its checks are passed. -/
theorem parseAuthV1_ok_iff {raw : Raw} {auth : AuthV1} {headerer : Headerer}
    (hcheck : checkAuthV1 raw = .ok (auth, headerer)) {c c' : Config} (hc : c.Distinct) :
    parseAuthV1 c raw = .ok c' ↔
      Assoc.Distinct (c.authPerHost ++ auth.domains.map fun d => (d, headerer)) ∧
      c' = { c with authPerHost := c.authPerHost ++ auth.domains.map fun d => (d, headerer) } := by
  rw [parseAuthV1, hcheck]
  show (_ >>= fun authPerHost => pure { c with authPerHost }) = Except.ok c' ↔ _
  rw [bind_eq_ok]
  simp only [mapError_eq_ok, Assoc.insertAll_ok_iff hc.hosts, pure, Except.pure,
    Except.ok.injEq]
  constructor
  · rintro ⟨l, ⟨hl, rfl⟩, rfl⟩
    exact ⟨hl, rfl⟩
  · rintro ⟨hl, rfl⟩
    exact ⟨_, ⟨hl, rfl⟩, rfl⟩

theorem parseDockerAuthV1_ok_iff {raw : Raw} {auth : DockerAuthV1} {basic : BasicCredentials}
    (hcheck : checkDockerAuthV1 raw = .ok (auth, basic)) {c c' : Config} (hc : c.Distinct) :
    parseDockerAuthV1 c raw = .ok c' ↔
      Assoc.Distinct (c.dockerCredentialsPerRegistry ++ auth.registries.map fun r => (r, basic)) ∧
      c' = { c with dockerCredentialsPerRegistry :=
        c.dockerCredentialsPerRegistry ++ auth.registries.map fun r => (r, basic) } := by
  rw [parseDockerAuthV1, hcheck]
  show (_ >>= fun dockerCredentialsPerRegistry =>
    pure { c with dockerCredentialsPerRegistry }) = Except.ok c' ↔ _
  rw [bind_eq_ok]
  simp only [mapError_eq_ok, Assoc.insertAll_ok_iff hc.registries, pure, Except.pure,
    Except.ok.injEq]
  constructor
  · rintro ⟨l, ⟨hl, rfl⟩, rfl⟩
    exact ⟨hl, rfl⟩
  · rintro ⟨hl, rfl⟩
    exact ⟨_, ⟨hl, rfl⟩, rfl⟩

theorem parseAuthV1_adds (raw : Raw) : Adds (parseAuthV1 · raw) := by
  intro c hc c'
  cases hcheck : checkAuthV1 raw with
  | error e =>
    have hfail : ∀ c, parseAuthV1 c raw = .error e := by
      intro c
      rw [parseAuthV1, hcheck]
      rfl
    simp [hfail]
  | ok a =>
    obtain ⟨auth, headerer⟩ := a
    simp only [parseAuthV1_ok_iff hcheck hc, parseAuthV1_ok_iff hcheck newConfig_distinct]
    constructor
    · rintro ⟨hl, rfl⟩
      refine ⟨_, ⟨Assoc.Distinct.of_append_right hl, rfl⟩, ⟨hl, ?_⟩, ?_⟩
      · show Assoc.Distinct (c.dockerCredentialsPerRegistry ++ [])
        rw [List.append_nil]
        exact hc.registries
      · simp [Config.append, newConfig]
    · rintro ⟨b, ⟨-, rfl⟩, hdistinct, rfl⟩
      refine ⟨hdistinct.hosts, ?_⟩
      simp [Config.append, newConfig]

theorem parseDockerAuthV1_adds (raw : Raw) : Adds (parseDockerAuthV1 · raw) := by
  intro c hc c'
  cases hcheck : checkDockerAuthV1 raw with
  | error e =>
    have hfail : ∀ c, parseDockerAuthV1 c raw = .error e := by
      intro c
      rw [parseDockerAuthV1, hcheck]
      rfl
    simp [hfail]
  | ok a =>
    obtain ⟨auth, basic⟩ := a
    simp only [parseDockerAuthV1_ok_iff hcheck hc,
      parseDockerAuthV1_ok_iff hcheck newConfig_distinct]
    constructor
    · rintro ⟨hl, rfl⟩
      refine ⟨_, ⟨Assoc.Distinct.of_append_right hl, rfl⟩, ⟨?_, hl⟩, ?_⟩
      · show Assoc.Distinct (c.authPerHost ++ [])
        rw [List.append_nil]
        exact hc.hosts
      · simp [Config.append, newConfig]
    · rintro ⟨b, ⟨-, rfl⟩, hdistinct, rfl⟩
      refine ⟨hdistinct.registries, ?_⟩
      simp [Config.append, newConfig]

theorem getParser_adds {kind version : Str} {parser : Parser}
    (h : getParser kind version = .ok parser) (raw : Raw) : Adds (parser · raw) := by
  have hparser : parser = parseAuthV1 ∨ parser = parseDockerAuthV1 := by
    unfold getParser parsersForKind at h
    split at h
    · cases h
    · rename_i parsers hkind
      split at h
      · cases h
      · rename_i found hversion
        cases h
        have hkinds := Assoc.mem_of_lookup hkind
        have hversions := Assoc.mem_of_lookup hversion
        simp only [List.mem_cons, List.not_mem_nil, or_false, Prod.mk.injEq] at hkinds
        rcases hkinds with ⟨-, rfl⟩ | ⟨-, rfl⟩
        · exact .inl (Prod.mk.inj (List.mem_singleton.mp hversions)).2
        · exact .inr (Prod.mk.inj (List.mem_singleton.mp hversions)).2
  rcases hparser with rfl | rfl
  · exact parseAuthV1_adds raw
  · exact parseDockerAuthV1_adds raw

theorem Entry.parser_ok {e : Entry} {kinds : List Str} {raw : Raw} {parser : Parser}
    (h : e.parser kinds = .ok (raw, parser)) :
    ∃ kind version, getParser kind version = .ok parser := by
  unfold Entry.parser at h
  cases hcontents : e.contents with
  | none => simp [hcontents] at h
  | some raw' =>
    cases hheader : raw'.header with
    | none => simp [hcontents, hheader] at h
    | some header =>
      simp only [hcontents, hheader] at h
      split_ifs at h
      obtain ⟨p, hp, heq⟩ := map_eq_ok.mp h
      cases heq
      exact ⟨_, _, hp⟩

theorem Adds.mapError {ε ε' : Type} {f : Config → Except ε Config} (h : Adds f) (g : ε → ε') :
    Adds fun c => (f c).mapError g := by
  intro c hc c'
  simp only [mapError_eq_ok]
  exact h c hc c'

/-- **What a file adds does not depend on the configuration.** -/
theorem readFile_adds (kinds : List Str) (e : Entry) : Adds (readFile kinds · e) := by
  unfold readFile
  by_cases hvalid : validConfigFile e = true
  · simp only [if_pos hvalid]
    unfold parseConfigFile
    cases hparser : e.parser kinds with
    | error err =>
      intro c _ c'
      simp [bind, Except.bind]
    | ok a =>
      obtain ⟨raw, parser⟩ := a
      obtain ⟨kind, version, hget⟩ := Entry.parser_ok hparser
      exact (getParser_adds hget raw).mapError _
  · -- the file is skipped
    simp only [if_neg hvalid]
    intro c hc c'
    constructor
    · intro h
      cases h
      exact ⟨newConfig, rfl, by rwa [Config.append_new], (Config.append_new c).symm⟩
    · rintro ⟨b, hb, -, rfl⟩
      cases hb
      rw [Config.append_new]

/-- What a file adds; nothing if it is not in order. -/
def Entry.addition (e : Entry) : Config :=
  (readFile authKinds newConfig e).toOption.getD newConfig

/-- The file could be read if it were the only one. -/
def Entry.Readable (e : Entry) : Prop := ∃ b, readFile authKinds newConfig e = .ok b

def additions (es : List Entry) : Config where
  authPerHost := es.flatMap fun e => e.addition.authPerHost
  dockerCredentialsPerRegistry := es.flatMap fun e => e.addition.dockerCredentialsPerRegistry

theorem additions_cons (e : Entry) (es : List Entry) :
    additions (e :: es) = e.addition.append (additions es) := by
  simp [additions, Config.append]

theorem Config.Distinct.of_append {a b : Config} (h : (a.append b).Distinct) : a.Distinct where
  hosts := h.hosts.of_append_left
  registries := h.registries.of_append_left

theorem readFile_ok_iff {c c' : Config} (hc : c.Distinct) (e : Entry) :
    readFile authKinds c e = .ok c' ↔
      e.Readable ∧ (c.append e.addition).Distinct ∧ c' = c.append e.addition := by
  rw [readFile_adds authKinds e c hc c']
  constructor
  · rintro ⟨b, hb, h⟩
    have hadd : e.addition = b := by
      simp [Entry.addition, hb, Except.toOption]
    exact ⟨⟨b, hb⟩, hadd ▸ h⟩
  · rintro ⟨⟨b, hb⟩, h⟩
    have hadd : e.addition = b := by
      simp [Entry.addition, hb, Except.toOption]
    exact ⟨b, hb, hadd ▸ h⟩

/-- **When a directory can be read**: if all its files are in order, and no host and no registry
occurs twice. The configuration is then what the files add. By induction on the files. -/
theorem readEntries_ok_iff {es : List Entry} : ∀ {c c' : Config}, c.Distinct →
    (readEntries c es = .ok c' ↔ (∀ e ∈ es, e.Readable) ∧ (c.append (additions es)).Distinct ∧
      c' = c.append (additions es)) := by
  induction es with
  | nil =>
    intro c c' hc
    have hnone : additions [] = newConfig := rfl
    rw [hnone, Config.append_new]
    show Except.ok c = Except.ok c' ↔ _
    rw [Except.ok.injEq]
    exact ⟨fun h => ⟨by simp, hc, h.symm⟩, fun h => h.2.2.symm⟩
  | cons e es ih =>
    intro c c' hc
    have hcons : readEntries c (e :: es) =
        readFile authKinds c e >>= fun c1 => readEntries c1 es := List.foldlM_cons
    rw [hcons, bind_eq_ok, additions_cons, List.forall_mem_cons, ← Config.append_assoc]
    constructor
    · rintro ⟨c1, hfile, hrest⟩
      obtain ⟨hread, hdistinct, rfl⟩ := (readFile_ok_iff hc e).mp hfile
      obtain ⟨hall, h⟩ := (ih hdistinct).mp hrest
      exact ⟨⟨hread, hall⟩, h⟩
    · rintro ⟨⟨hread, hall⟩, hdistinct, hc'⟩
      have hfirst := hdistinct.of_append
      exact ⟨_, (readFile_ok_iff hc e).mpr ⟨hread, hfirst, rfl⟩,
        (ih hfirst).mpr ⟨hall, hdistinct, hc'⟩⟩

theorem getConfigFromDir_entries (es : List Entry) :
    getConfigFromDir (.dir (.dir es)) = readEntries newConfig es := rfl

theorem getConfigFromDir_distinct {dir : ConfigDir} {c : Config}
    (h : getConfigFromDir dir = .ok c) : c.Distinct := by
  cases dir with
  | missing =>
    cases h
    exact newConfig_distinct
  | failed => cases h
  | notDir => cases h
  | dir authD =>
    cases authD with
    | missing =>
      cases h
      exact newConfig_distinct
    | failed => cases h
    | notDir => cases h
    | dir es =>
      obtain ⟨-, hdistinct, rfl⟩ := (readEntries_ok_iff newConfig_distinct).mp h
      exact hdistinct

theorem additions_perm {es es' : List Entry} (h : es.Perm es') :
    (additions es).authPerHost.Perm (additions es').authPerHost ∧
      (additions es).dockerCredentialsPerRegistry.Perm
        (additions es').dockerCredentialsPerRegistry :=
  ⟨h.flatMap_right _, h.flatMap_right _⟩

/-- The same credentials for all hosts and registries. -/
structure Config.Agrees (c c' : Config) : Prop where
  hosts : ∀ host, c.authPerHost.lookup host = c'.authPerHost.lookup host
  registries : ∀ registry, c.dockerCredentialsPerRegistry.lookup registry =
    c'.dockerCredentialsPerRegistry.lookup registry

theorem readEntries_perm {es es' : List Entry} (h : es.Perm es') {c : Config}
    (hc : readEntries newConfig es = .ok c) :
    ∃ c', readEntries newConfig es' = .ok c' ∧ c.Agrees c' := by
  obtain ⟨hread, hdistinct, rfl⟩ := (readEntries_ok_iff newConfig_distinct).mp hc
  rw [Config.new_append] at hdistinct
  obtain ⟨hhosts, hregistries⟩ := additions_perm h
  have hdistinct' : (additions es').Distinct :=
    ⟨hdistinct.hosts.perm hhosts, hdistinct.registries.perm hregistries⟩
  refine ⟨additions es', ?_, Assoc.lookup_perm hdistinct.hosts hhosts,
    Assoc.lookup_perm hdistinct.registries hregistries⟩
  exact (readEntries_ok_iff newConfig_distinct).mpr
    ⟨fun e he => hread e (h.mem_iff.mpr he), hdistinct', rfl⟩

theorem lookup_merged {β : Type} (o : Ranging) {ls ll : List (Str × β)} (hs : Assoc.Distinct ls)
    (hl : Assoc.Distinct ll) (k : Str) :
    (Assoc.setAll (Assoc.setAll [] (o.range ls)) (o.range ll)).lookup k =
      (ll.lookup k).or (ls.lookup k) := by
  have hs' := hs.perm (o.perm ls).symm
  have hl' := hl.perm (o.perm ll).symm
  rw [Assoc.lookup_setAll hl', Assoc.lookup_setAll hs', Assoc.lookup_perm hs' (o.perm ls),
    Assoc.lookup_perm hl' (o.perm ll), List.lookup_nil, Option.or_none]

/-- **The order of the files does not matter, and local credentials have precedence.** The files
of a directory can be read in every order or in none, and all orders give the same credentials.
Two directories that can be read can be merged, with what is local first. -/
theorem getConfig_agrees (o : Ranging) :
    (∀ es es' : List Entry, es.Perm es' →
      (∃ e e', getConfigFromDir (.dir (.dir es)) = .error e ∧
        getConfigFromDir (.dir (.dir es')) = .error e') ∨
      ∃ c c', getConfigFromDir (.dir (.dir es)) = .ok c ∧
        getConfigFromDir (.dir (.dir es')) = .ok c' ∧ c.Agrees c') ∧
    ∀ system localDir cs cl, getConfigFromDir system = .ok cs → getConfigFromDir localDir = .ok cl →
      ∃ c, getConfigFrom o system localDir = .ok c ∧
        (∀ host, c.authPerHost.lookup host =
          (cl.authPerHost.lookup host).or (cs.authPerHost.lookup host)) ∧
        ∀ registry, c.dockerCredentialsPerRegistry.lookup registry =
          (cl.dockerCredentialsPerRegistry.lookup registry).or
            (cs.dockerCredentialsPerRegistry.lookup registry) := by
  constructor
  · intro es es' h
    rw [getConfigFromDir_entries, getConfigFromDir_entries]
    cases hes : readEntries newConfig es with
    | ok c =>
      obtain ⟨c', hc', hagrees⟩ := readEntries_perm h hes
      exact .inr ⟨c, c', rfl, hc', hagrees⟩
    | error e =>
      cases hes' : readEntries newConfig es' with
      | error e' => exact .inl ⟨e, e', rfl, rfl⟩
      | ok c' =>
        obtain ⟨c, hc, -⟩ := readEntries_perm h.symm hes'
        cases hes.symm.trans hc
  · intro system localDir cs cl hs hl
    have hsd := getConfigFromDir_distinct hs
    have hld := getConfigFromDir_distinct hl
    have hmerge : getConfigFrom o system localDir =
        .ok (mergeConfigs o (mergeConfigs o newConfig cs) cl) := by
      simp only [getConfigFrom, List.foldlM_cons, hs, hl, List.foldlM_nil]
      rfl
    exact ⟨_, hmerge, lookup_merged o hsd.hosts hld.hosts,
      lookup_merged o hsd.registries hld.registries⟩

def basicFile (name : String) (domains : List Str) (user : String) : Entry where
  name := name.toList
  mode := .regular
  contents := some
    { header := some ⟨"v1".toList, "auth".toList⟩
      auth := some ⟨domains, "basic".toList, some ⟨user.toList, "secret".toList⟩, none⟩
      dockerAuth := none }

/-- Go goes through the maps in the order of the lists. -/
def inOrder : Ranging where
  range l := l
  perm l := .refl l

def basicConfig (domain : Str) (user : String) : Config :=
  ⟨[(domain, .basicAuth user.toList "secret".toList)], []⟩

/-- Two files for different hosts, in both orders, and a local file for one of the hosts. -/
theorem getConfig_agrees_example :
    (∃ c c', getConfigFromDir (.dir (.dir [basicFile "a.json" ["a.org".toList] "ann",
        basicFile "b.json" ["b.org".toList] "bob"])) = .ok c ∧
      getConfigFromDir (.dir (.dir [basicFile "b.json" ["b.org".toList] "bob",
        basicFile "a.json" ["a.org".toList] "ann"])) = .ok c' ∧ c.Agrees c') ∧
    ∃ c, getConfigFrom inOrder (.dir (.dir [basicFile "b.json" ["b.org".toList] "bob"]))
        (.dir (.dir [basicFile "c.json" ["b.org".toList] "carol"])) = .ok c ∧
      c.authPerHost.lookup "b.org".toList = some (.basicAuth "carol".toList "secret".toList) := by
  obtain ⟨horder, hmerge⟩ := getConfig_agrees inOrder
  constructor
  · have hok : getConfigFromDir (.dir (.dir [basicFile "a.json" ["a.org".toList] "ann",
        basicFile "b.json" ["b.org".toList] "bob"])) =
        .ok ((basicConfig "a.org".toList "ann").append (basicConfig "b.org".toList "bob")) := by
      decide +kernel
    rcases horder _ _ (List.Perm.swap (basicFile "b.json" ["b.org".toList] "bob")
      (basicFile "a.json" ["a.org".toList] "ann") []) with ⟨e, e', he, -⟩ | hagrees
    · cases hok.symm.trans he
    · exact hagrees
  · have hs : getConfigFromDir (.dir (.dir [basicFile "b.json" ["b.org".toList] "bob"])) =
        .ok (basicConfig "b.org".toList "bob") := by decide +kernel
    have hl : getConfigFromDir (.dir (.dir [basicFile "c.json" ["b.org".toList] "carol"])) =
        .ok (basicConfig "b.org".toList "carol") := by decide +kernel
    obtain ⟨c, hc, hhosts, -⟩ := hmerge _ _ _ _ hs hl
    refine ⟨c, hc, ?_⟩
    rw [hhosts]
    decide +kernel

end Rkt.Auth
