import Rkt.Conc.Fallible
import Rkt.Stage1.Mounts
import Rkt.Stage1.QuoteExec

set_option autoImplicit false

namespace Rkt.Stage1

open Conc Prog UnitFile Decimal Result

/-- The directories of links to the units that a target wants. -/
inductive Wants where
  | default
  | sockets
  deriving DecidableEq, Repr

inductive Written where
  | done
  /-- The file could not be opened. -/
  | notOpened
  /-- Only so many bytes were written. -/
  | broken (n : Nat)
  deriving DecidableEq, Repr

/-- The operations. The files are those of the directory of the units; other paths are in the root
file system of stage1. -/
inductive FsOp where
  /-- `writeEnvFile`: it writes elsewhere. -/
  | writeEnvFile (appName : Str)
  /-- The order in which `unit.Serialize` walks its map of sections. -/
  | walkSections (sections : List Str)
  /-- `os.OpenFile` with `O_WRONLY|O_CREATE`, and `io.Copy`. -/
  | copyTo (unit text : Str)
  /-- `ioutil.WriteFile`. -/
  | writeFile (unit text : Str)
  /-- `os.Symlink`. -/
  | symlink (w : Wants) (name : Str)
  /-- `os.MkdirAll`. -/
  | mkdirAll (path : Str)
  /-- `os.Stat`: does the path not exist? -/
  | isMissing (path : Str)
  deriving DecidableEq, Repr

def FsOp.Res : FsOp → Type
  | .walkSections _ => List Str
  | .copyTo _ _ | .writeFile _ _ => Written
  | .writeEnvFile _ | .symlink _ _ | .mkdirAll _ | .isMissing _ => Bool

abbrev fsSig : Sig := ⟨FsOp, FsOp.Res⟩

abbrev FsProg := Prog fsSig

abbrev fs (o : FsOp) : FsProg o.Res := Prog.call (S := fsSig) o

structure Units where
  files : Str → Option Str
  wants : Wants → Str → Bool
  dirs : Str → Bool

def Units.setFile (s : Units) (unit text : Str) : Units :=
  { s with files := Function.update s.files unit (some text) }

def Units.link (s : Units) (w : Wants) (name : Str) : Units :=
  { s with wants := Function.update s.wants w (Function.update (s.wants w) name true) }

def overwrite (text : Str) (old : Option Str) : Str := text ++ (old.getD []).drop text.length

def fsStep : (o : FsOp) → o.Res → Units → Option Units
  | .writeEnvFile _, _, s => some s
  | .walkSections secs, (order : List Str), s => if order.Perm secs then some s else none
  | .copyTo unit text, (r : Written), s =>
    match r with
    | .done => some (s.setFile unit (overwrite text (s.files unit)))
    | .notOpened => some s
    | .broken n => some (s.setFile unit (overwrite (text.take n) (s.files unit)))
  | .writeFile unit text, (r : Written), s =>
    match r with
    | .done => some (s.setFile unit text)
    | .notOpened => some s
    | .broken n => some (s.setFile unit (text.take n))
  | .symlink w name, (r : Bool), s =>
    if r then
      if s.wants w name then none else some (s.link w name)
    else some s
  | .mkdirAll path, (r : Bool), s =>
    if r then
      some { s with dirs := fun d => s.dirs d || (Path.split d).isPrefixOf (Path.split path) }
    else some s
  | .isMissing path, (r : Bool), s => if r && s.dirs path then none else some s

inductive MountErr where
  | mkdir
  /-- `app requires a volume that is not defined in Pod` -/
  | noVolume (name : Str)
  /-- `failed to prepare dir for mountPoint %v: %v` -/
  | prepareDir (name : Str)
  /-- `failed to create mount unit file %q: %v` -/
  | createUnit (unitName : Str)
  deriving DecidableEq, Repr

inductive AppErr where
  /-- `unable to write environment file: %v` -/
  | envFile
  | command (e : Err)
  /-- `Exec` has no first element: a panic. -/
  | noExec
  /-- `cpu limit exceeds the maximum millivalue: %v` -/
  | cpuLimit (value : Int)
  /-- `unrecognized protocol: %v` -/
  | protocol (name : Str)
  | socketFile
  | socketWrite
  | socketWant
  | serviceFile
  | serviceWrite
  | serviceWant
  /-- `failed to prepare mount units: %v` -/
  | mounts (e : MountErr)
  deriving DecidableEq, Repr

def socketUnitName (appName : Str) : Str := appName ++ ".socket".toList

def instantiatedPrepareAppUnitName (appName : Str) : Str :=
  "prepare-app@".toList ++ unitNamePathEscape (relAppRootfsPath appName) ++ ".service".toList

/-- `filepath.Base`. -/
def basePath (path : Str) : Str :=
  match path.reverse.dropWhile (· = '/') with
  | [] => if path = [] then ['.'] else ['/']
  | p => (p.takeWhile (· ≠ '/')).reverse

def option (sect name : String) (value : Str) : UnitOption := ⟨sect.toList, name.toList, value⟩

def Command.unitOption (c : Command) : UnitOption :=
  ⟨"Service".toList, c.option.name, (quoteExec c.argv).getD []⟩

def stdOptions (interactive : Bool) (app : App) : Except AppErr (List UnitOption) :=
  if interactive then .ok [
    option "Service" "StandardInput" "tty".toList,
    option "Service" "StandardOutput" "tty".toList,
    option "Service" "StandardError" "tty".toList]
  else
    match app.exec with
    | [] => .error .noExec
    | exec :: _ => .ok [
        option "Service" "StandardOutput" "journal+console".toList,
        option "Service" "StandardError" "journal+console".toList,
        option "Service" "SyslogIdentifier" (basePath exec)]

/-- `resource.MaxMilliValue`. -/
def maxMilliValue : Int := (2 ^ 63 - 1) / 1000

/-- `cgroup.MaybeAddIsolator`; `supported` says which isolators the kernel has. -/
def isolatorOption (supported : String → Bool) : Isolator → Except AppErr (List UnitOption)
  | .memory value =>
    if supported "memory" then .ok [option "Service" "MemoryLimit" (itoa value)] else .ok []
  | .cpu value milliValue =>
    if supported "cpu" then
      if value > maxMilliValue then .error (.cpuLimit value)
      else .ok [option "Service" "CPUQuota" (itoa (milliValue.tdiv 10) ++ ['%'])]
    else .ok []
  | .capabilities _ _ | .other => .ok []

def isolatorOptions (supported : String → Bool) : List Isolator → Except AppErr (List UnitOption)
  | [] => .ok []
  | i :: is => do
    let opts ← isolatorOption supported i
    let rest ← isolatorOptions supported is
    return opts ++ rest

/-- The options of the service, up to the isolators. -/
def unitOptions (supported : String → Bool) (interactive : Bool) (ra : RuntimeApp) :
    Except AppErr (List UnitOption) := do
  let uid ← (readId ra.app.user .userId).mapError .command
  let gid ← (readId ra.app.group .groupId).mapError .command
  let wrap := execWrap ra.name ra.app uid gid
  let std ← stdOptions interactive ra.app
  let handlers ← (handlerCommands wrap ra.app.eventHandlers).mapError .command
  let isolators ← isolatorOptions supported ra.isolators
  return [
    option "Unit" "Description"
      ("Application=".toList ++ ra.name ++ " Image=".toList ++ ra.imageName),
    option "Unit" "DefaultDependencies" "false".toList,
    option "Unit" "OnFailure" "reaper.service".toList,
    option "Unit" "Wants" "exit-watcher.service".toList,
    option "Service" "Restart" "no".toList,
    (Command.mk .execStart (wrap ++ ra.app.exec)).unitOption,
    option "Service" "User" "0".toList,
    option "Service" "Group" "0".toList] ++ std ++ handlers.map Command.unitOption ++ isolators

variable {opts : List UnitOption}

theorem unitOptions_commands {supported : String → Bool} {interactive : Bool} {ra : RuntimeApp}
    (h : unitOptions supported interactive ra = .ok opts) :
    ∃ cmds, appToSystemd ra.name ra.app = .ok cmds ∧ ∀ cmd ∈ cmds, cmd.unitOption ∈ opts := by
  unfold unitOptions at h
  obtain ⟨uid, huid, h⟩ := bind_eq_ok.mp h
  obtain ⟨gid, hgid, h⟩ := bind_eq_ok.mp h
  obtain ⟨std, -, h⟩ := bind_eq_ok.mp h
  obtain ⟨handlers, hhandlers, h⟩ := bind_eq_ok.mp h
  obtain ⟨isolators, -, h⟩ := bind_eq_ok.mp h
  cases h
  refine ⟨_, bind_eq_ok.mpr ⟨uid, mapError_eq_ok.mp huid, bind_eq_ok.mpr ⟨gid,
    mapError_eq_ok.mp hgid, bind_eq_ok.mpr ⟨handlers, mapError_eq_ok.mp hhandlers, rfl⟩⟩⟩, ?_⟩
  intro cmd hcmd
  rcases List.mem_cons.mp hcmd with rfl | hcmd
  · simp
  · have hmem : cmd.unitOption ∈ handlers.map Command.unitOption := List.mem_map_of_mem hcmd
    simp [hmem]

def saPorts (ra : RuntimeApp) : List Port := ra.ports.filter (·.socketActivated)

def listenOption (sap : Port) : Except AppErr UnitOption :=
  if sap.protocol = "tcp".toList then .ok (option "Socket" "ListenStream" (itoa sap.port))
  else if sap.protocol = "udp".toList then .ok (option "Socket" "ListenDatagram" (itoa sap.port))
  else .error (.protocol sap.protocol)

def socketOptions (ra : RuntimeApp) : Except AppErr (List UnitOption) := do
  let listen ← (saPorts ra).mapM listenOption
  return [
    option "Unit" "Description" ("Application=".toList ++ ra.name ++ " Image=".toList ++
      ra.imageName ++ " socket-activated ports".toList),
    option "Unit" "DefaultDependencies" "false".toList,
    option "Socket" "BindIPv6Only" "both".toList,
    option "Socket" "Service" (serviceUnitName ra.name)] ++ listen

def serviceOptions (ra : RuntimeApp) (opts : List UnitOption) : List UnitOption :=
  opts ++ (if saPorts ra = [] then [] else [option "Unit" "Requires" (socketUnitName ra.name)]) ++ [
    option "Unit" "Requires" (instantiatedPrepareAppUnitName ra.name),
    option "Unit" "After" (instantiatedPrepareAppUnitName ra.name)]

/-- Open a unit and copy the serialized options into it. -/
def writeUnit (unit : Str) (opts : List UnitOption) (openErr writeErr : AppErr) :
    FsProg (Except AppErr Unit) := do
  let order ← fs (.walkSections (sections opts))
  match ← fs (.copyTo unit (serialize order opts)) with
  | .done => return .ok ()
  | .notOpened => return .error openErr
  | .broken _ => return .error writeErr

def installNewMountUnit (u : MountUnit) : FsProg (Except MountErr Unit) := do
  let order ← fs (.walkSections (sections u.opts))
  match ← fs (.writeFile u.unitName (serialize order u.opts)) with
  | .done => return .ok ()
  | _ => return .error (.createUnit u.unitName)

def podToSystemdHostMountUnits (appNames : List Str) : List Volume → FsProg (Except MountErr Unit)
  | [] => return .ok ()
  | vol :: vols =>
    andThen (must (fs (.mkdirAll (joinPath stage1MntDir vol.name))) .mkdir) fun _ =>
    match hostMountUnit appNames vol with
    | none => podToSystemdHostMountUnits appNames vols
    | some u =>
      andThen (installNewMountUnit u) fun _ => podToSystemdHostMountUnits appNames vols

def appToSystemdMountUnits (appName : Str) : List MountPoint → FsProg (Except MountErr Unit)
  | [] => return .ok ()
  | mp :: mps => do
    let u := appMountUnit appName mp
    let missing : Bool ← fs (.isMissing u.what)
    if missing then return .error (.noVolume mp.name)
    else
      andThen (must (fs (.mkdirAll u.wherePath)) (.prepareDir mp.name)) fun _ =>
      andThen (installNewMountUnit u) fun _ => appToSystemdMountUnits appName mps

def writeSocket (ra : RuntimeApp) : FsProg (Except AppErr Unit) :=
  if saPorts ra = [] then return .ok ()
  else
    match socketOptions ra with
    | .error e => return .error e
    | .ok sockopts =>
      andThen (writeUnit (socketUnitName ra.name) sockopts .socketFile .socketWrite) fun _ =>
      must (fs (.symlink .sockets (socketUnitName ra.name))) .socketWant

def Pod.appToSystemd (supported : String → Bool) (interactive kvm : Bool) (ra : RuntimeApp) :
    FsProg (Except AppErr Unit) :=
  andThen (must (fs (.writeEnvFile ra.name)) .envFile) fun _ =>
  match unitOptions supported interactive ra with
  | .error e => return .error e
  | .ok opts =>
    andThen (writeSocket ra) fun _ =>
    andThen (writeUnit (serviceUnitName ra.name) (serviceOptions ra opts) .serviceFile
      .serviceWrite) fun _ =>
    andThen (must (fs (.symlink .default (serviceUnitName ra.name))) .serviceWant) fun _ =>
    if kvm then wrapError .mounts (appToSystemdMountUnits ra.name ra.mountPoints)
    else return .ok ()

inductive PodErr where
  /-- `failed to transform pod volumes into mount units: %v` -/
  | volumes (e : MountErr)
  /-- `failed to transform app %q into systemd service: %v` -/
  | app (name : Str) (e : AppErr)
  deriving DecidableEq, Repr

def appsToSystemd (supported : String → Bool) (interactive kvm : Bool) :
    List RuntimeApp → FsProg (Except PodErr Unit)
  | [] => return .ok ()
  | ra :: ras =>
    andThen (wrapError (.app ra.name) (Pod.appToSystemd supported interactive kvm ra)) fun _ =>
    appsToSystemd supported interactive kvm ras

def podToSystemd (supported : String → Bool) (interactive kvm : Bool) (m : PodManifest) :
    FsProg (Except PodErr Unit) :=
  andThen (if kvm then
      wrapError .volumes (podToSystemdHostMountUnits (m.apps.map (·.name)) m.volumes)
    else return .ok ()) fun _ =>
  appsToSystemd supported interactive kvm m.apps

inductive UnitKind where
  | service
  | socket
  | mount
  deriving DecidableEq, Repr

/-- A unit that is written. -/
structure Write where
  kind : UnitKind
  unit : Str
  opts : List UnitOption

def MountUnit.write (u : MountUnit) : Write := ⟨.mount, u.unitName, u.opts⟩

/-- What is in the file afterwards. Only mount units are written to a truncated file. -/
def Write.result (w : Write) (order : List Str) (old : Option Str) : Str :=
  if w.kind = .mount then serialize order w.opts else overwrite (serialize order w.opts) old

/-- The units have been written, one after the other. -/
inductive Made : List Write → (Str → Option Str) → (Str → Option Str) → Prop where
  | nil (f : Str → Option Str) : Made [] f f
  | cons {w : Write} {ws : List Write} {f g : Str → Option Str} (order : List Str)
      (horder : List.Perm order (sections w.opts))
      (h : Made ws (Function.update f w.unit (some (w.result order (f w.unit)))) g) :
      Made (w :: ws) f g

theorem Made.append {ws ws' : List Write} {f g g' : Str → Option Str} (h : Made ws f g)
    (h' : Made ws' g g') : Made (ws ++ ws') f g' := by
  induction h with
  | nil => exact h'
  | cons order horder _ ih => exact .cons order horder (ih h')

/-- The last of these writes to a file. -/
def lastWrite (ws : List Write) (unit : Str) : Option Write :=
  ws.reverse.find? (·.unit = unit)

theorem lastWrite_cons (w : Write) (ws : List Write) (unit : Str) :
    lastWrite (w :: ws) unit = (lastWrite ws unit).or (if w.unit = unit then some w else none) := by
  simp only [lastWrite, List.reverse_cons, List.find?_append, List.find?_singleton,
    decide_eq_true_eq]

theorem lastWrite_mem {ws : List Write} {n : Str} {w : Write} (h : lastWrite ws n = some w) :
    w ∈ ws ∧ w.unit = n := by
  unfold lastWrite at h
  exact ⟨List.mem_reverse.mp (List.mem_of_find?_eq_some h), by simpa using List.find?_some h⟩

/-- Only mount units share a file. -/
def Apart (ws : List Write) : Prop :=
  ws.Pairwise fun w w' => w.unit = w'.unit → w.kind = .mount ∧ w'.kind = .mount

/-- Other units are written once. -/
theorem Apart.lastWrite_eq {ws : List Write} (hws : Apart ws) {w : Write} (hw : w ∈ ws)
    (hkind : w.kind ≠ .mount) : lastWrite ws w.unit = some w := by
  cases hlast : lastWrite ws w.unit with
  | none =>
    unfold lastWrite at hlast
    exact absurd (List.find?_eq_none.mp hlast w (List.mem_reverse.mpr hw)) (by simp)
  | some w' =>
    obtain ⟨hw', hunit⟩ := lastWrite_mem hlast
    by_contra hne
    have : Std.Symm fun w w' : Write => w.unit = w'.unit →
        w.kind = .mount ∧ w'.kind = .mount := ⟨fun _ _ h heq => (h heq.symm).symm⟩
    have hdiff : w ≠ w' := fun heq => hne (congrArg some heq.symm)
    exact hkind (List.Pairwise.forall hws hw hw' hdiff hunit.symm).1

/-- What is left in a file. -/
theorem Made.files {ws : List Write} {f g : Str → Option Str} (h : Made ws f g) (hws : Apart ws)
    (n : Str) :
    (lastWrite ws n = none → g n = f n) ∧ ∀ w, lastWrite ws n = some w →
      ∃ order, List.Perm order (sections w.opts) ∧ g n = some (w.result order (f n)) := by
  induction h with
  | nil => exact ⟨fun _ => rfl, nofun⟩
  | @cons w ws f g order horder _ ih =>
    obtain ⟨hw, hws⟩ := List.pairwise_cons.mp hws
    obtain ⟨hnone, hsome⟩ := ih hws
    rw [lastWrite_cons]
    cases hlast : lastWrite ws n with
    | some w' =>
      refine ⟨nofun, fun w'' heq => ?_⟩
      cases heq
      obtain ⟨order', horder', hg⟩ := hsome w' hlast
      refine ⟨order', horder', ?_⟩
      obtain ⟨hmem, hunit⟩ := lastWrite_mem hlast
      by_cases hn : w.unit = n
      · -- the file is truncated
        have hmount := (hw w' hmem (hn.trans hunit.symm)).2
        rw [hg, Write.result, if_pos hmount, Write.result, if_pos hmount]
      · rw [hg, Function.update_of_ne (Ne.symm hn)]
    | none =>
      rw [hnone hlast]
      by_cases hn : w.unit = n
      · subst hn
        rw [if_pos rfl, Function.update_self]
        refine ⟨nofun, fun w' heq => ?_⟩
        cases heq
        exact ⟨order, horder, rfl⟩
      · rw [if_neg hn, Function.update_of_ne (Ne.symm hn)]
        exact ⟨fun _ => rfl, nofun⟩

section

variable (supported : String → Bool) (interactive kvm : Bool)

def appWrites (ra : RuntimeApp) : List Write :=
  (if saPorts ra = [] then []
    else [⟨.socket, socketUnitName ra.name, (socketOptions ra).toOption.getD []⟩]) ++
  ⟨.service, serviceUnitName ra.name,
    serviceOptions ra ((unitOptions supported interactive ra).toOption.getD [])⟩ ::
  if kvm then ra.mountPoints.map fun mp => (appMountUnit ra.name mp).write else []

/-- All that `PodToSystemd` writes. -/
def podWrites (m : PodManifest) : List Write :=
  (if kvm then (hostMountUnits m).map MountUnit.write else []) ++
    m.apps.flatMap (appWrites supported interactive kvm)

end

variable {supported : String → Bool} {interactive kvm : Bool} {s s' : Units}

def FsOp.isAside : FsOp → Bool
  | .copyTo _ _ | .writeFile _ _ => false
  | _ => true

theorem aside_files {o : FsOp} {r : o.Res} (ho : o.isAside = true)
    (h : (fs o).Runs fsStep s r s') : s'.files = s.files := by
  have hn : fsStep o r s = some s' := runs_call.mp h
  cases o with
  | copyTo | writeFile => cases ho
  | _ =>
    simp only [fsStep] at hn
    repeat' split at hn
    all_goals cases hn
    all_goals rfl

theorem walkSections_runs {secs order : List Str}
    (h : (fs (.walkSections secs)).Runs fsStep s order s') : order.Perm secs ∧ s' = s := by
  have hn : fsStep (.walkSections secs) order s = some s' := runs_call.mp h
  simp only [fsStep] at hn
  split at hn
  · cases hn
    exact ⟨‹_›, rfl⟩
  · cases hn

theorem writeUnit_made {w : Write} {e e' : AppErr} (hw : w.kind ≠ .mount)
    (h : (writeUnit w.unit w.opts e e').Runs fsStep s (.ok ()) s') :
    Made [w] s.files s'.files := by
  obtain ⟨order, s1, hwalk, hrest⟩ := runs_bind.mp h
  obtain ⟨horder, rfl⟩ := walkSections_runs hwalk
  obtain ⟨r, s2, hcopy, hr⟩ := runs_bind.mp hrest
  have hn : fsStep (.copyTo w.unit (serialize order w.opts)) r s1 = some s2 := runs_call.mp hcopy
  cases r with
  | notOpened => cases hr.1
  | broken n => cases hr.1
  | done =>
    obtain ⟨-, rfl⟩ := hr
    cases hn
    have hres : w.result order (s1.files w.unit) = overwrite (serialize order w.opts)
        (s1.files w.unit) := if_neg hw
    refine .cons order horder ?_
    rw [hres]
    exact .nil _

theorem installNewMountUnit_made {u : MountUnit}
    (h : (installNewMountUnit u).Runs fsStep s (.ok ()) s') :
    Made [u.write] s.files s'.files := by
  obtain ⟨order, s1, hwalk, hrest⟩ := runs_bind.mp h
  obtain ⟨horder, rfl⟩ := walkSections_runs hwalk
  obtain ⟨r, s2, hwrite, hr⟩ := runs_bind.mp hrest
  have hn : fsStep (.writeFile u.unitName (serialize order u.opts)) r s1 = some s2 :=
    runs_call.mp hwrite
  cases r with
  | notOpened => cases hr.1
  | broken n => cases hr.1
  | done =>
    obtain ⟨-, rfl⟩ := hr
    cases hn
    exact .cons order horder (.nil _)

theorem podToSystemdHostMountUnits_made {appNames : List Str} {vols : List Volume}
    (h : (podToSystemdHostMountUnits appNames vols).Runs fsStep s (.ok ()) s') :
    Made ((vols.filterMap (hostMountUnit appNames)).map MountUnit.write) s.files s'.files := by
  induction vols generalizing s with
  | nil =>
    obtain ⟨-, rfl⟩ := h
    exact .nil _
  | cons vol vols ih =>
    obtain ⟨_, s1, hdir, h⟩ := runs_andThen_ok.mp h
    rw [← aside_files rfl (runs_must_ok.mp hdir)]
    cases hvol : hostMountUnit appNames vol with
    | none =>
      rw [hvol] at h
      rw [List.filterMap_cons_none hvol]
      exact ih h
    | some u =>
      rw [hvol] at h
      rw [List.filterMap_cons_some hvol]
      obtain ⟨_, s2, hu, h⟩ := runs_andThen_ok.mp h
      exact (installNewMountUnit_made hu).append (ih h)

theorem appToSystemdMountUnits_made {appName : Str} {mps : List MountPoint}
    (h : (appToSystemdMountUnits appName mps).Runs fsStep s (.ok ()) s') :
    Made (mps.map fun mp => (appMountUnit appName mp).write) s.files s'.files := by
  induction mps generalizing s with
  | nil =>
    obtain ⟨-, rfl⟩ := h
    exact .nil _
  | cons mp mps ih =>
    obtain ⟨missing, s1, hstat, h⟩ := runs_bind.mp h
    rw [← aside_files rfl hstat]
    cases missing with
    | true => cases h.1
    | false =>
      obtain ⟨_, s2, hdir, h⟩ := runs_andThen_ok.mp h
      obtain ⟨_, s3, hu, h⟩ := runs_andThen_ok.mp h
      rw [← aside_files rfl (runs_must_ok.mp hdir)]
      exact (installNewMountUnit_made hu).append (ih h)

theorem writeSocket_made {ra : RuntimeApp} (h : (writeSocket ra).Runs fsStep s (.ok ()) s') :
    Made (if saPorts ra = [] then []
      else [⟨.socket, socketUnitName ra.name, (socketOptions ra).toOption.getD []⟩])
      s.files s'.files := by
  unfold writeSocket at h
  split_ifs at h ⊢
  · obtain ⟨-, rfl⟩ := h
    exact .nil _
  · cases hopts : socketOptions ra with
    | error e =>
      rw [hopts] at h
      cases h.1
    | ok sockopts =>
      rw [hopts] at h
      obtain ⟨_, s1, hwrite, h⟩ := runs_andThen_ok.mp h
      rw [aside_files rfl (runs_must_ok.mp h)]
      exact writeUnit_made (w := ⟨.socket, _, _⟩) nofun hwrite

theorem appToSystemd_made {ra : RuntimeApp}
    (h : (Pod.appToSystemd supported interactive kvm ra).Runs fsStep s (.ok ()) s') :
    (∃ opts, unitOptions supported interactive ra = .ok opts) ∧
      Made (appWrites supported interactive kvm ra) s.files s'.files := by
  obtain ⟨_, s1, henv, h⟩ := runs_andThen_ok.mp h
  rw [← aside_files rfl (runs_must_ok.mp henv)]
  cases hopts : unitOptions supported interactive ra with
  | error e =>
    rw [hopts] at h
    cases h.1
  | ok opts =>
    rw [hopts] at h
    obtain ⟨_, s2, hsocket, h⟩ := runs_andThen_ok.mp h
    obtain ⟨_, s3, hservice, h⟩ := runs_andThen_ok.mp h
    obtain ⟨_, s4, hlink, h⟩ := runs_andThen_ok.mp h
    refine ⟨⟨opts, rfl⟩, (writeSocket_made hsocket).append ?_⟩
    have hmade := writeUnit_made (w := ⟨.service, _, _⟩) nofun hservice
    rw [← aside_files rfl (runs_must_ok.mp hlink)] at hmade
    rw [hopts]
    refine hmade.append ?_
    cases kvm with
    | true => exact appToSystemdMountUnits_made (runs_wrapError_ok.mp h)
    | false =>
      obtain ⟨-, rfl⟩ := h
      exact .nil _

theorem appsToSystemd_made {ras : List RuntimeApp}
    (h : (appsToSystemd supported interactive kvm ras).Runs fsStep s (.ok ()) s') :
    (∀ ra ∈ ras, ∃ opts, unitOptions supported interactive ra = .ok opts) ∧
      Made (ras.flatMap (appWrites supported interactive kvm)) s.files s'.files := by
  induction ras generalizing s with
  | nil =>
    obtain ⟨-, rfl⟩ := h
    exact ⟨nofun, .nil _⟩
  | cons ra ras ih =>
    obtain ⟨_, s1, hra, h⟩ := runs_andThen_ok.mp h
    obtain ⟨hopts, hmade⟩ := appToSystemd_made (runs_wrapError_ok.mp hra)
    obtain ⟨hrest, hlater⟩ := ih h
    exact ⟨List.forall_mem_cons.mpr ⟨hopts, hrest⟩, hmade.append hlater⟩

/-- `PodToSystemd` returns nil only if it has written all units, in this order. -/
theorem podToSystemd_made {m : PodManifest}
    (h : (podToSystemd supported interactive kvm m).Runs fsStep s (.ok ()) s') :
    (∀ ra ∈ m.apps, ∃ opts, unitOptions supported interactive ra = .ok opts) ∧
      Made (podWrites supported interactive kvm m) s.files s'.files := by
  obtain ⟨_, s1, hhost, h⟩ := runs_andThen_ok.mp h
  obtain ⟨hopts, hmade⟩ := appsToSystemd_made h
  refine ⟨hopts, Made.append ?_ hmade⟩
  cases kvm with
  | true => exact podToSystemdHostMountUnits_made (runs_wrapError_ok.mp hhost)
  | false =>
    obtain ⟨-, rfl⟩ := hhost
    exact .nil _

/-- How the names of the units of a kind end. -/
def UnitKind.ending : UnitKind → Str
  | .service => ['c', 'e']
  | .socket => ['e', 't']
  | .mount => ['n', 't']

/-- The unit has a name of its kind. -/
def Write.Named (w : Write) : Prop := ∃ e, w.unit = e ++ w.kind.ending

theorem kind_of_unit_eq {w w' : Write} (hw : w.Named) (hw' : w'.Named) (h : w.unit = w'.unit) :
    w.kind = w'.kind := by
  obtain ⟨e, he⟩ := hw
  obtain ⟨e', he'⟩ := hw'
  have hrev := congrArg List.reverse (he.symm.trans (h.trans he'))
  rw [List.reverse_append, List.reverse_append] at hrev
  cases hk : w.kind <;> cases hk' : w'.kind <;> first
    | rfl
    | (rw [hk, hk'] at hrev
       simp [UnitKind.ending] at hrev)

theorem MountUnit.write_named (u : MountUnit) : u.write.Named := by
  obtain ⟨e, he⟩ := unitNamePathEscape_dot (t := "mount".toList) (by decide) u.wherePath
  refine ⟨e ++ "mou".toList, ?_⟩
  rw [List.append_assoc]
  exact he

/-- The units of an app: its socket and its service, under its name, and mount units. -/
theorem mem_appWrites {ra : RuntimeApp} {w : Write}
    (hw : w ∈ appWrites supported interactive kvm ra) : w.Named ∧
      match w.kind with
      | .service => w.unit = serviceUnitName ra.name ∧
          w.opts = serviceOptions ra ((unitOptions supported interactive ra).toOption.getD [])
      | .socket => w.unit = socketUnitName ra.name
      | .mount => True := by
  unfold appWrites at hw
  rcases List.mem_append.mp hw with hw | hw
  · split_ifs at hw
    · cases hw
    · cases List.mem_singleton.mp hw
      exact ⟨⟨ra.name ++ ".sock".toList, by simp [socketUnitName, UnitKind.ending]⟩, rfl⟩
  rcases List.mem_cons.mp hw with rfl | hw
  · exact ⟨⟨ra.name ++ ".servi".toList, by simp [serviceUnitName, UnitKind.ending]⟩, rfl, rfl⟩
  · split_ifs at hw
    · obtain ⟨mp, -, rfl⟩ := List.mem_map.mp hw
      exact ⟨MountUnit.write_named _, trivial⟩
    · cases hw

theorem mem_podWrites {m : PodManifest} {w : Write}
    (hw : w ∈ podWrites supported interactive kvm m) :
    (w.kind = .mount ∧ w.Named) ∨ ∃ ra ∈ m.apps, w ∈ appWrites supported interactive kvm ra := by
  rcases List.mem_append.mp hw with hw | hw
  · split_ifs at hw
    · obtain ⟨u, -, rfl⟩ := List.mem_map.mp hw
      exact .inl ⟨rfl, u.write_named⟩
    · cases hw
  · exact .inr (List.mem_flatMap.mp hw)

theorem podWrites_named {m : PodManifest} {w : Write}
    (hw : w ∈ podWrites supported interactive kvm m) : w.Named := by
  obtain hw | ⟨ra, -, hw⟩ := mem_podWrites hw
  · exact hw.2
  · exact (mem_appWrites hw).1

/-- It is enough that two units of one kind, if they are no mount units, have different names. -/
theorem Apart.of_kinds {ws : List Write} (hnamed : ∀ w ∈ ws, w.Named)
    (h : ws.Pairwise fun w w' => w.kind = w'.kind → w.unit = w'.unit → w.kind = .mount) :
    Apart ws := by
  refine h.imp_of_mem fun hw hw' h hunit => ?_
  have hkind := kind_of_unit_eq (hnamed _ hw) (hnamed _ hw') hunit
  exact ⟨h hkind hunit, hkind ▸ h hkind hunit⟩

theorem podWrites_apart {m : PodManifest} (hnames : (m.apps.map (·.name)).Nodup) :
    Apart (podWrites supported interactive kvm m) := by
  have hpair : ∀ {ws : List Write}, (∀ w ∈ ws, w.kind = .mount) →
      ws.Pairwise fun w w' => w.kind = w'.kind → w.unit = w'.unit → w.kind = .mount :=
    fun h => (List.pairwise_of_forall fun _ _ => trivial).imp_of_mem
      (R := fun _ _ => True) fun hw _ _ _ _ => h _ hw
  have hhost : ∀ w ∈ (if kvm then (hostMountUnits m).map MountUnit.write else []),
      w.kind = .mount := by
    intro w hw
    split_ifs at hw
    · obtain ⟨u, -, rfl⟩ := List.mem_map.mp hw
      rfl
    · cases hw
  refine .of_kinds (fun _ => podWrites_named) (List.pairwise_append.mpr
    ⟨hpair hhost, List.pairwise_flatMap.mpr ⟨fun ra _ => ?_, ?_⟩,
      fun w hw _ _ _ _ => hhost w hw⟩)
  · have hmounts : ∀ w ∈ (if kvm then ra.mountPoints.map fun mp => (appMountUnit ra.name mp).write
        else []), w.kind = .mount := by
      intro w hw
      split_ifs at hw
      · obtain ⟨mp, -, rfl⟩ := List.mem_map.mp hw
        rfl
      · cases hw
    refine List.pairwise_append.mpr ⟨?_, List.pairwise_cons.mpr ⟨fun w hw hkind => ?_,
      hpair hmounts⟩, fun w hw w' hw' hkind => ?_⟩
    · split_ifs <;> simp
    · rw [hmounts w hw] at hkind
      cases hkind
    · split_ifs at hw
      · cases hw
      cases List.mem_singleton.mp hw
      rcases List.mem_cons.mp hw' with rfl | hw'
      · cases hkind
      · rw [hmounts w' hw'] at hkind
        cases hkind
  · refine (List.pairwise_map.mp hnames).imp fun hne w hw w' hw' hkind hunit => ?_
    have h := (mem_appWrites hw).2
    have h' := (mem_appWrites hw').2
    rw [← hkind] at h'
    cases hk : w.kind with
    | mount => rfl
    | socket =>
      rw [hk] at h h'
      exact absurd (List.append_cancel_right (h.symm.trans (hunit.trans h'))) hne
    | service =>
      rw [hk] at h h'
      exact absurd (List.append_cancel_right (h.1.symm.trans (hunit.trans h'.1))) hne

theorem service_mem {m : PodManifest} {ra : RuntimeApp} (hra : ra ∈ m.apps)
    (hopts : unitOptions supported interactive ra = .ok opts) :
    (⟨.service, serviceUnitName ra.name, serviceOptions ra opts⟩ : Write) ∈
      podWrites supported interactive kvm m := by
  refine List.mem_append_right _ (List.mem_flatMap.mpr ⟨ra, hra, List.mem_append_right _ ?_⟩)
  rw [hopts]
  exact List.mem_cons_self

theorem mem_service {m : PodManifest} {w : Write}
    (hw : w ∈ podWrites supported interactive kvm m) (hkind : w.kind = .service) :
    ∃ ra ∈ m.apps, w.unit = serviceUnitName ra.name ∧
      w.opts = serviceOptions ra ((unitOptions supported interactive ra).toOption.getD []) := by
  obtain hw | ⟨ra, hra, hw⟩ := mem_podWrites hw
  · cases hkind.symm.trans hw.1
  · have h := (mem_appWrites hw).2
    rw [hkind] at h
    exact ⟨ra, hra, h⟩

/-- What `PodToSystemd` leaves, where the sections of each unit have been written in this order: only
the units of the pod have been touched, and each of them is what was written last. -/
structure Leaves (ws : List Write) (order : Str → List Str) (f g : Str → Option Str) : Prop where
  frame : ∀ n, lastWrite ws n = none → g n = f n
  perm : ∀ n w, lastWrite ws n = some w → List.Perm (order n) (sections w.opts)
  written : ∀ n w, lastWrite ws n = some w → g n = some (w.result (order n) (f n))

theorem podToSystemd_files {m : PodManifest} (hnames : (m.apps.map (·.name)).Nodup)
    (h : (podToSystemd supported interactive kvm m).Runs fsStep s (.ok ()) s') :
    ∃ order, Leaves (podWrites supported interactive kvm m) order s.files s'.files := by
  have hfiles := (podToSystemd_made h).2.files (podWrites_apart hnames)
  have horder : ∀ n, ∃ order, ∀ w,
      lastWrite (podWrites supported interactive kvm m) n = some w →
        List.Perm order (sections w.opts) ∧ s'.files n = some (w.result order (s.files n)) := by
    intro n
    cases hlast : lastWrite (podWrites supported interactive kvm m) n with
    | none => exact ⟨[], nofun⟩
    | some w =>
      obtain ⟨order, horder⟩ := (hfiles n).2 w hlast
      refine ⟨order, fun w' heq => ?_⟩
      cases heq
      exact horder
  choose order horder using horder
  exact ⟨order, fun n => (hfiles n).1, fun n w hw => (horder n w hw).1,
    fun n w hw => (horder n w hw).2⟩

/-- A file with this text has the unit in it already; that of a socket may be longer. -/
def Write.Fits (w : Write) (order : List Str) (text : Str) : Prop :=
  if w.kind = .socket then serialize order w.opts <+: text else text = serialize order w.opts

theorem overwrite_eq_iff {new text : Str} : overwrite new (some text) = text ↔ new <+: text := by
  constructor
  · intro h
    exact ⟨_, h⟩
  · rintro ⟨rest, rfl⟩
    simp [overwrite]

theorem Write.fits_iff (w : Write) (order : List Str) (text : Str) :
    w.Fits order text ↔ w.result order (some text) = text ∧
      (w.kind = .service → text = serialize order w.opts) := by
  cases hkind : w.kind with
  | mount => simp [Write.Fits, Write.result, hkind, eq_comm]
  | socket => simp [Write.Fits, Write.result, hkind, overwrite_eq_iff]
  | service =>
    simp only [Write.Fits, Write.result, hkind, reduceCtorEq, if_false, overwrite_eq_iff,
      forall_const]
    refine ⟨fun h => ⟨?_, h⟩, And.right⟩
    rw [h]

/-- **When the units that were there are kept, and each app has its own service**: exactly if each
unit that `PodToSystemd` writes was not there before, or was there with the text that is written. A
socket may have had more than that, and of mount units that share a file the last one counts. -/
theorem units_kept_iff {m : PodManifest} (hnames : (m.apps.map (·.name)).Nodup)
    (h : (podToSystemd supported interactive kvm m).Runs fsStep s (.ok ()) s') :
    ∃ order, Leaves (podWrites supported interactive kvm m) order s.files s'.files ∧
      ((∀ n text, s.files n = some text → s'.files n = some text) ∧
        (∀ ra ∈ m.apps, ∃ opts, unitOptions supported interactive ra = .ok opts ∧
          s'.files (serviceUnitName ra.name) =
            some (serialize (order (serviceUnitName ra.name)) (serviceOptions ra opts))) ↔
        ∀ n w text, lastWrite (podWrites supported interactive kvm m) n = some w →
          s.files n = some text → w.Fits (order n) text) := by
  obtain ⟨order, hleaves⟩ := podToSystemd_files hnames h
  refine ⟨order, hleaves, fun ⟨hkept, hservice⟩ n w text hlast htext => ?_, fun hfits => ⟨?_, ?_⟩⟩
  · obtain ⟨hw, rfl⟩ := lastWrite_mem hlast
    have hfile := hkept _ text htext
    have hresult := hfile.symm.trans (htext ▸ hleaves.written _ w hlast)
    refine (w.fits_iff _ text).mpr ⟨(Option.some.inj hresult).symm, fun hkind => ?_⟩
    obtain ⟨ra, hra, hunit, hwopts⟩ := mem_service hw hkind
    obtain ⟨opts, hopts, hserviced⟩ := hservice ra hra
    rw [hopts] at hwopts
    rw [← hunit, hfile] at hserviced
    rw [hwopts]
    exact Option.some.inj hserviced
  · intro n text htext
    cases hlast : lastWrite (podWrites supported interactive kvm m) n with
    | none => rw [hleaves.frame n hlast, htext]
    | some w =>
      rw [hleaves.written n w hlast, htext, ((w.fits_iff _ _).mp (hfits n w text hlast htext)).1]
  · intro ra hra
    obtain ⟨opts, hopts⟩ := (podToSystemd_made h).1 ra hra
    have hmem : _ ∈ podWrites supported interactive kvm m := service_mem hra hopts
    have hlast := (podWrites_apart hnames).lastWrite_eq hmem nofun
    refine ⟨opts, hopts, ?_⟩
    rw [hleaves.written _ _ hlast]
    cases htext : s.files (serviceUnitName ra.name) with
    | none => simp [Write.result, overwrite]
    | some text =>
      have hfit := (Write.fits_iff _ _ _).mp (hfits _ _ text hlast htext)
      rw [hfit.1, hfit.2 rfl]

theorem lastWrite_filter {ws : List Write} {n : Str}
    (h : ∀ w ∈ ws, w.unit = n → w.kind = .mount) :
    lastWrite ws n = lastWrite (ws.filter (·.kind = .mount)) n := by
  unfold lastWrite
  rw [← List.filter_reverse, List.find?_filter]
  refine List.find?_congr fun w hw => ?_
  by_cases hunit : w.unit = n
  · simp [hunit, h w (List.mem_reverse.mp hw) hunit]
  · simp [hunit]

theorem podWrites_mounts (m : PodManifest) :
    (podWrites supported interactive true m).filter (·.kind = .mount) =
      (mountUnits m).map MountUnit.write := by
  have hwrites : ∀ us : List MountUnit,
      (us.map MountUnit.write).filter (·.kind = .mount) = us.map MountUnit.write := by
    intro us
    refine List.filter_eq_self.mpr fun w hw => ?_
    obtain ⟨u, -, rfl⟩ := List.mem_map.mp hw
    rfl
  have happ : ∀ ra : RuntimeApp,
      (appWrites supported interactive true ra).filter (·.kind = .mount) =
        (ra.mountPoints.map (appMountUnit ra.name)).map MountUnit.write := by
    intro ra
    rw [← hwrites, List.map_map]
    unfold appWrites
    by_cases hports : saPorts ra = []
    · rw [if_pos hports]
      rfl
    · rw [if_neg hports]
      rfl
  rw [podWrites, mountUnits, List.filter_append, if_pos rfl, hwrites, List.map_append,
    List.filter_flatMap, PodManifest.mountPoints, List.map_flatMap, List.map_flatMap]
  simp only [happ, List.map_map]
  rfl

/-- The mount units of the pod are those of `unitLeft`. -/
theorem mountUnit_left {m : PodManifest} (hnames : (m.apps.map (·.name)).Nodup)
    (h : (podToSystemd supported interactive true m).Runs fsStep s (.ok ()) s') {n : Str}
    {u : MountUnit} (hu : unitLeft m n = some u) :
    ∃ order, List.Perm order (sections u.opts) ∧ s'.files n = some (serialize order u.opts) := by
  obtain ⟨order, hleaves⟩ := podToSystemd_files hnames h
  have hname : u.unitName = n := by
    unfold unitLeft at hu
    simpa using List.find?_some hu
  have hlast : lastWrite (podWrites supported interactive true m) n = some u.write := by
    have hmount : ∀ w ∈ podWrites supported interactive true m, w.unit = n → w.kind = .mount := by
      intro w hw hunit
      exact kind_of_unit_eq (podWrites_named hw) u.write_named (hunit.trans hname.symm)
    rw [lastWrite_filter hmount, podWrites_mounts, lastWrite, ← List.map_reverse, List.find?_map]
    exact congrArg (Option.map MountUnit.write) hu
  exact ⟨order n, hleaves.perm n _ hlast, hleaves.written n _ hlast⟩

def shippedUnits : List (String × List String) := [
  ("default.target", ["[Unit]", "Description=rkt apps target", "DefaultDependencies=false"]),
  ("exit-watcher.service", ["[Unit]", "Description=Graceful exit watcher",
    "StopWhenUnneeded=true", "DefaultDependencies=false", "", "[Service]", "RemainAfterExit=yes",
    "ExecStop=/usr/bin/systemctl isolate reaper.service"]),
  ("halt.target", ["[Unit]", "Description=Halt", "DefaultDependencies=no",
    "Requires=reaper.service", "After=reaper.service", "AllowIsolate=yes"]),
  ("local-fs.target", ["[Unit]",
    "Description=Hook into early systemd for socket-activated systemd instances",
    "DefaultDependencies=false", "Requires=sockets.target"]),
  ("poweroff.target", ["[Unit]", "Description=Poweroff", "DefaultDependencies=no",
    "Requires=reaper.service", "After=reaper.service", "AllowIsolate=yes"]),
  ("reaper.service", ["[Unit]", "Description=rkt apps reaper", "AllowIsolate=true",
    "DefaultDependencies=false", "", "[Service]", "ExecStart=/reaper.sh"]),
  ("reboot.target", ["[Unit]", "Description=Reboot", "DefaultDependencies=no",
    "Requires=systemd-reboot.service", "After=systemd-reboot.service", "AllowIsolate=yes"]),
  ("sockets.target", ["[Unit]", "Description=Sockets", "DefaultDependencies=false"]),
  ("systemd-reboot.service", ["[Unit]", "Description=Reboot", "DefaultDependencies=no", "",
    "[Service]", "Type=oneshot", "ExecStart=/usr/bin/systemctl --force reboot"])]

def stage1Root : Units where
  files := fun n => (shippedUnits.find? fun x => x.1.toList = n).map fun x =>
    x.2.flatMap fun line => line.toList ++ ['\n']
  wants := fun _ _ => false
  dirs := fun _ => false

def Units.withService (s : Units) (ra : RuntimeApp) (opts : List UnitOption) : Units :=
  let text := serialize (sections (serviceOptions ra opts)) (serviceOptions ra opts)
  let unit := serviceUnitName ra.name
  (s.setFile unit (overwrite text (s.files unit))).link .default unit

theorem writeUnit_runs (unit : Str) (opts : List UnitOption) (e e' : AppErr) (s : Units) :
    (writeUnit unit opts e e').Runs fsStep s (.ok ())
      (s.setFile unit (overwrite (serialize (sections opts) opts) (s.files unit))) := by
  have horder : fsStep (.walkSections (sections opts)) (sections opts) s = some s :=
    if_pos (List.Perm.refl _)
  exact runs_bind.mpr ⟨sections opts, s, runs_call.mpr horder,
    runs_bind.mpr ⟨.done, _, runs_call.mpr rfl, rfl, rfl⟩⟩

/-- `appToSystemd` for an app without sockets, outside of the kvm flavor. -/
theorem appToSystemd_runs {supported : String → Bool} {interactive : Bool} {ra : RuntimeApp}
    {s : Units} (hopts : unitOptions supported interactive ra = .ok opts)
    (hports : saPorts ra = []) (hwant : s.wants .default (serviceUnitName ra.name) = false) :
    (Pod.appToSystemd supported interactive false ra).Runs fsStep s (.ok ())
      (s.withService ra opts) := by
  have henv : (must (fs (.writeEnvFile ra.name)) AppErr.envFile).Runs fsStep s (.ok ()) s :=
    runs_bind.mpr ⟨true, s, runs_call.mpr rfl, rfl, rfl⟩
  have hsocket : (writeSocket ra).Runs fsStep s (.ok ()) s := by
    rw [writeSocket, if_pos hports]
    exact ⟨rfl, rfl⟩
  have hlink : ∀ s1 : Units, s1.wants = s.wants →
      (must (fs (.symlink .default (serviceUnitName ra.name))) AppErr.serviceWant).Runs fsStep s1
        (.ok ()) (s1.link .default (serviceUnitName ra.name)) := by
    intro s1 hwants
    have hstep : fsStep (.symlink .default (serviceUnitName ra.name)) true s1 =
        some (s1.link .default (serviceUnitName ra.name)) := by
      rw [← hwants] at hwant
      simp [fsStep, hwant]
    exact runs_bind.mpr ⟨true, _, runs_call.mpr hstep, rfl, rfl⟩
  simp only [Pod.appToSystemd, hopts]
  refine runs_bind.mpr ⟨.ok (), s, henv, ?_⟩
  refine runs_bind.mpr ⟨.ok (), s, hsocket, ?_⟩
  refine runs_bind.mpr ⟨.ok (), _, writeUnit_runs _ _ _ _ s, ?_⟩
  exact runs_bind.mpr ⟨.ok (), _, hlink _ rfl, rfl, rfl⟩

def appOf (name : String) : RuntimeApp where
  name := name.toList
  app := { exec := ["/app".toList], user := "0".toList, group := "0".toList }

theorem unitOptions_appOf (name : String) : ∃ opts,
    unitOptions (fun _ => true) false (appOf name) = .ok opts := ⟨_, rfl⟩

theorem podToSystemd_runs (name : String)
    (hopts : unitOptions (fun _ => true) false (appOf name) = .ok opts) :
    (podToSystemd (fun _ => true) false false { apps := [appOf name] }).Runs fsStep stage1Root
      (.ok ()) (stage1Root.withService (appOf name) opts) := by
  have happ := appToSystemd_runs (s := stage1Root) hopts rfl rfl
  refine runs_bind.mpr ⟨.ok (), stage1Root, ⟨rfl, rfl⟩, ?_⟩
  refine runs_bind.mpr ⟨.ok (), _, ?_, rfl, rfl⟩
  exact runs_bind.mpr ⟨.ok (), _, happ, rfl, rfl⟩

theorem units_kept_app : ∃ s',
    (podToSystemd (fun _ => true) false false { apps := [appOf "app"] }).Runs fsStep stage1Root
        (.ok ()) s' ∧
      (∀ n text, stage1Root.files n = some text → s'.files n = some text) ∧
      ∀ ra ∈ [appOf "app"], ∃ opts order, unitOptions (fun _ => true) false ra = .ok opts ∧
        s'.files (serviceUnitName ra.name) = some (serialize order (serviceOptions ra opts)) := by
  obtain ⟨opts, hopts⟩ := unitOptions_appOf "app"
  have hruns := podToSystemd_runs "app" hopts
  obtain ⟨order, -, hiff⟩ := units_kept_iff (by decide) hruns
  have hfits := hiff.mpr fun n w text hlast htext => by
    -- the only unit that is written is not there
    obtain ⟨hw, hunit⟩ := lastWrite_mem hlast
    have hnone : stage1Root.files (serviceUnitName (appOf "app").name) = none := by decide
    rw [← hunit, List.mem_singleton.mp hw, hnone] at htext
    cases htext
  refine ⟨_, hruns, hfits.1, fun ra hra => ?_⟩
  obtain ⟨opts, hopts, hfile⟩ := hfits.2 ra hra
  exact ⟨opts, _, hopts, hfile⟩

/-- An app with the name `reaper` gets its service where stage1 has its own. -/
theorem reaper_service_overwritten : ∃ s' text,
    (podToSystemd (fun _ => true) false false { apps := [appOf "reaper"] }).Runs fsStep stage1Root
        (.ok ()) s' ∧
      stage1Root.files "reaper.service".toList = some text ∧
      s'.files "reaper.service".toList ≠ some text := by
  refine ⟨_, _, podToSystemd_runs "reaper" rfl, rfl, fun heq => ?_⟩
  -- the description of the unit has changed
  have hchar := congrArg (Option.map fun text : Str => text[19]?) heq
  revert hchar
  decide

end Rkt.Stage1
