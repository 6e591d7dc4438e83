import Rkt.Code.UnitText
import Rkt.Path.Components
import Rkt.Stage1.Units

set_option autoImplicit false

namespace Rkt.Stage1

open UnitFile

inductive VolumeKind where
  | empty
  | host
  deriving DecidableEq, Repr

/-- `types.Volume`. -/
structure Volume where
  name : Str
  kind : VolumeKind
  source : Str := []
  readOnly : Option Bool := none
  deriving DecidableEq, Repr

/-- `types.MountPoint`. -/
structure MountPoint where
  name : Str
  path : Str
  readOnly : Bool := false
  deriving DecidableEq, Repr

/-- `types.Port`, as far as it is read here. -/
structure Port where
  protocol : Str
  port : Nat
  socketActivated : Bool
  deriving DecidableEq, Repr

inductive Isolator where
  /-- A set of capabilities; is it the one to retain? -/
  | capabilities (retain : Bool) (set : List Str)
  /-- The limit of the memory. -/
  | memory (value : Int)
  /-- The limit of the CPU, and a thousand times that. -/
  | cpu (value milliValue : Int)
  | other
  deriving DecidableEq, Repr

/-- `schema.RuntimeApp`, with its app and the name of its image. -/
structure RuntimeApp where
  name : Str
  imageID : Str := []
  imageName : Str := []
  app : App
  mountPoints : List MountPoint := []
  ports : List Port := []
  isolators : List Isolator := []
  deriving DecidableEq, Repr

structure PodManifest where
  volumes : List Volume := []
  apps : List RuntimeApp := []
  deriving DecidableEq, Repr

/-- `filepath.Join` of an absolute path and another one. -/
def joinPath (base path : Str) : Str :=
  match Path.render (Path.clean (Path.split base ++ Path.split path)) with
  | [] => ['/']
  | p => p

def stage1MntDir : Str := "/mnt/".toList

def serviceUnitName (appName : Str) : Str := appName ++ ".service".toList

/-- The arguments of `installNewMountUnit` that say what is mounted. -/
structure MountUnit where
  what : Str
  wherePath : Str
  fsType : Str
  options : Str
  beforeAndRequiredBy : Str
  deriving DecidableEq, Repr

def MountUnit.opts (u : MountUnit) : List UnitOption := [
  ⟨"Unit".toList, "Description".toList, "Mount unit for ".toList ++ u.wherePath⟩,
  ⟨"Unit".toList, "DefaultDependencies".toList, "false".toList⟩,
  ⟨"Unit".toList, "Before".toList, u.beforeAndRequiredBy⟩,
  ⟨"Mount".toList, "What".toList, u.what⟩,
  ⟨"Mount".toList, "Where".toList, u.wherePath⟩,
  ⟨"Mount".toList, "Type".toList, u.fsType⟩,
  ⟨"Mount".toList, "Options".toList, u.options⟩,
  ⟨"Install".toList, "RequiredBy".toList, u.beforeAndRequiredBy⟩]

/-- The name of the file that `installNewMountUnit` writes. -/
def mountUnitName (wherePath : Str) : Str := unitNamePathEscape (wherePath ++ ".mount".toList)

def MountUnit.unitName (u : MountUnit) : Str := mountUnitName u.wherePath

/-- The unit that `PodToSystemdHostMountUnits` installs for a volume, if it is one of the host. -/
def hostMountUnit (appNames : List Str) (vol : Volume) : Option MountUnit :=
  if vol.kind = .host then
    some {
      what := vol.name
      wherePath := joinPath stage1MntDir vol.name
      fsType := "9p".toList
      options := "trans=virtio".toList
      beforeAndRequiredBy := List.intercalate [' '] (appNames.map serviceUnitName) }
  else none

/-- The unit that `AppToSystemdMountUnits` installs for a mount point. -/
def appMountUnit (appName : Str) (mountPoint : MountPoint) : MountUnit where
  what := joinPath stage1MntDir mountPoint.name
  wherePath := joinPath (relAppRootfsPath appName) mountPoint.path
  fsType := "bind".toList
  options := if mountPoint.readOnly then "bind,ro".toList else "bind".toList
  beforeAndRequiredBy := serviceUnitName appName

def hostMountUnits (m : PodManifest) : List MountUnit :=
  m.volumes.filterMap (hostMountUnit (m.apps.map (·.name)))

/-- The mount points of the pod, with the names of their apps. -/
def PodManifest.mountPoints (m : PodManifest) : List (Str × MountPoint) :=
  m.apps.flatMap fun ra => ra.mountPoints.map (ra.name, ·)

/-- The units that `installNewMountUnit` writes for the pod, in this order. -/
def mountUnits (m : PodManifest) : List MountUnit :=
  hostMountUnits m ++ m.mountPoints.map fun x => appMountUnit x.1 x.2

/-- The unit that is left in a file. Mount points with the same path share one. -/
def unitLeft (m : PodManifest) (unitName : Str) : Option MountUnit :=
  (mountUnits m).reverse.find? (·.unitName = unitName)

def MountUnit.isReadOnly (u : MountUnit) : Bool := (u.options.splitOn ',').contains "ro".toList

/-- The mount point is read-only in the kvm flavor: by the unit that binds something to its path, or
by the unit of the directory from which it is bound. -/
def kvmReadOnly (m : PodManifest) (appName : Str) (mountPoint : MountPoint) : Bool :=
  (unitLeft m (appMountUnit appName mountPoint).unitName).any fun u =>
    u.isReadOnly || (unitLeft m (mountUnitName u.what)).any (·.isReadOnly)

/-- `no volume for mountpoint %q in app %q`, with the image to inspect and the volumes that the app
requires. -/
structure NoVolume where
  mountPoint : Str
  appName : Str
  imageID : Str
  required : List Str
  deriving DecidableEq, Repr

def addVolume (vols : Str → Option Volume) (v : Volume) : Str → Option Volume :=
  Function.update vols v.name (some v)

def volumeMap (volumes : List Volume) : Str → Option Volume :=
  volumes.foldl addVolume fun _ => none

/-- The readonly flag of the volume overrides the one of the mount point. -/
def effectiveReadOnly (vol : Volume) (mp : MountPoint) : Bool := vol.readOnly.getD mp.readOnly

def bindArg (appName : Str) (vol : Volume) (mp : MountPoint) : Str :=
  (if effectiveReadOnly vol mp then "--bind-ro=".toList else "--bind=".toList) ++ vol.source ++
    ':' :: joinPath (relAppRootfsPath appName) mp.path

def bindArgs (vols : Str → Option Volume) (ra : RuntimeApp) :
    List MountPoint → Except NoVolume (List Str)
  | [] => .ok []
  | mp :: mps => do
    match vols mp.name with
    | none => .error ⟨mp.name, ra.name, ra.imageID, ra.mountPoints.map (·.name)⟩
    | some vol =>
      let rest ← bindArgs vols ra mps
      return bindArg ra.name vol mp :: rest

def capabilityArg : Isolator → Option Str
  | .capabilities true caps => some ("--capability=".toList ++ List.intercalate [','] caps)
  | _ => none

def appToNspawnArgs (m : PodManifest) (ra : RuntimeApp) : Except NoVolume (List Str) := do
  let binds ← bindArgs (volumeMap m.volumes) ra ra.mountPoints
  return binds ++ ra.isolators.filterMap capabilityArg

def isBindRO (arg : Str) : Bool := "--bind-ro=".toList.isPrefixOf arg

theorem appMountUnit_isReadOnly (appName : Str) (mp : MountPoint) :
    (appMountUnit appName mp).isReadOnly = mp.readOnly := by
  cases h : mp.readOnly <;> simp only [MountUnit.isReadOnly, appMountUnit, h] <;> decide

theorem hostMountUnit_isReadOnly {appNames : List Str} {vol : Volume} {u : MountUnit}
    (h : hostMountUnit appNames vol = some u) : u.isReadOnly = false := by
  unfold hostMountUnit at h
  split_ifs at h
  cases h
  show (("trans=virtio".toList).splitOn ',').contains "ro".toList = false
  decide

/-- The last mount point of the pod whose unit is in this file. -/
def lastAt (m : PodManifest) (unitName : Str) : Option (Str × MountPoint) :=
  m.mountPoints.reverse.find? fun x => (appMountUnit x.1 x.2).unitName = unitName

/-- Is the last mount point at this path read-only, or the last one at the directory below `/mnt`
from which that is bound? -/
def lastReadOnly (m : PodManifest) (unitName : Str) : Bool :=
  (lastAt m unitName).any fun x => x.2.readOnly ||
    (lastAt m (mountUnitName (joinPath stage1MntDir x.2.name))).any (·.2.readOnly)

theorem unitLeft_eq (m : PodManifest) (unitName : Str) :
    unitLeft m unitName = ((lastAt m unitName).map fun x => appMountUnit x.1 x.2).or
      ((hostMountUnits m).reverse.find? (·.unitName = unitName)) := by
  rw [unitLeft, mountUnits, List.reverse_append, List.find?_append, ← List.map_reverse,
    List.find?_map]
  rfl

theorem unitLeft_isReadOnly (m : PodManifest) (unitName : Str) :
    (unitLeft m unitName).any (·.isReadOnly) = (lastAt m unitName).any (·.2.readOnly) := by
  rw [unitLeft_eq]
  cases lastAt m unitName with
  | some x => exact appMountUnit_isReadOnly x.1 x.2
  | none =>
    cases hhost : (hostMountUnits m).reverse.find? (·.unitName = unitName) with
    | none => rfl
    | some u =>
      have hu := List.mem_reverse.mp (List.mem_of_find?_eq_some hhost)
      obtain ⟨vol, -, hvol⟩ := List.mem_filterMap.mp hu
      exact hostMountUnit_isReadOnly hvol

theorem kvmReadOnly_eq {m : PodManifest} {ra : RuntimeApp} (hra : ra ∈ m.apps) {mp : MountPoint}
    (hmp : mp ∈ ra.mountPoints) :
    kvmReadOnly m ra.name mp = lastReadOnly m (appMountUnit ra.name mp).unitName := by
  have hmem : (ra.name, mp) ∈ m.mountPoints.reverse :=
    List.mem_reverse.mpr (List.mem_flatMap.mpr ⟨ra, hra, List.mem_map_of_mem hmp⟩)
  have hsome : lastAt m (appMountUnit ra.name mp).unitName ≠ none :=
    fun h => List.find?_eq_none.mp h _ hmem (decide_eq_true rfl)
  obtain ⟨x, hx⟩ := Option.ne_none_iff_exists'.mp hsome
  rw [kvmReadOnly, lastReadOnly, unitLeft_eq, hx]
  show ((appMountUnit x.1 x.2).isReadOnly || _) = _
  rw [appMountUnit_isReadOnly, unitLeft_isReadOnly]
  rfl

theorem isBindRO_bindArg (appName : Str) (vol : Volume) (mp : MountPoint) :
    isBindRO (bindArg appName vol mp) = effectiveReadOnly vol mp := by
  cases h : effectiveReadOnly vol mp with
  | false =>
    simp only [bindArg, h, Bool.false_eq_true, if_false]
    rfl
  | true =>
    simp only [bindArg, h, if_true]
    rfl

theorem foldl_addVolume {volumes : List Volume} {vols : Str → Option Volume} {key : Str}
    (h : ∀ vol ∈ volumes, vol.name ≠ key) : volumes.foldl addVolume vols key = vols key := by
  induction volumes generalizing vols with
  | nil => rfl
  | cons vol volumes ih =>
    obtain ⟨hvol, hrest⟩ := List.forall_mem_cons.mp h
    rw [List.foldl_cons, ih hrest, addVolume, Function.update_of_ne (Ne.symm hvol)]

theorem volumeMap_eq {volumes : List Volume} (hnames : (volumes.map (·.name)).Nodup)
    {vol : Volume} (hvol : vol ∈ volumes) : volumeMap volumes vol.name = some vol := by
  unfold volumeMap
  generalize (fun _ => none : Str → Option Volume) = vols
  induction volumes generalizing vols with
  | nil => cases hvol
  | cons v volumes ih =>
    rw [List.map_cons, List.nodup_cons] at hnames
    rw [List.foldl_cons]
    rcases List.mem_cons.mp hvol with rfl | hvol
    · have hother : ∀ v ∈ volumes, v.name ≠ vol.name := fun v hv heq =>
        hnames.1 (heq ▸ List.mem_map_of_mem hv)
      rw [foldl_addVolume hother, addVolume, Function.update_self]
    · exact ih hnames.2 hvol _

theorem bindArgs_eq {vols : Str → Option Volume} (ra : RuntimeApp) {mps : List MountPoint}
    (h : ∀ mp ∈ mps, vols mp.name ≠ none) :
    ∃ args, bindArgs vols ra mps = .ok args ∧ args.length = mps.length ∧
      ∀ (i : Nat) mp vol, mps[i]? = some mp → vols mp.name = some vol →
        args[i]? = some (bindArg ra.name vol mp) := by
  induction mps with
  | nil => exact ⟨[], rfl, rfl, fun i mp vol hi => by simp at hi⟩
  | cons mp mps ih =>
    obtain ⟨hmp, hrest⟩ := List.forall_mem_cons.mp h
    obtain ⟨args, hargs, hlength, hget⟩ := ih hrest
    obtain ⟨vol, hvol⟩ := Option.ne_none_iff_exists'.mp hmp
    refine ⟨bindArg ra.name vol mp :: args, ?_, by simp [hlength], ?_⟩
    · simp only [bindArgs, hvol, hargs]
      rfl
    · intro i mp' vol' hi hvol'
      cases i with
      | zero =>
        rw [List.getElem?_cons_zero, Option.some.injEq] at hi
        subst hi
        rw [hvol] at hvol'
        cases hvol'
        rfl
      | succ i => exact hget i mp' vol' hi hvol'

/-- **When the flavors give the same access.** In every pod whose volumes have different names, and
for every app whose mount points all have a volume: a mount point is read-only in the kvm flavor if
and only if `appToNspawnArgs` binds it read-only, exactly if its volume says the same as the last
mount point at the same path; where the volume does not say it, the mount point itself counts. So if
a mount point is the only one at its path, its volume must not contradict it. -/
theorem access_agrees_iff (m : PodManifest) (hnames : (m.volumes.map (·.name)).Nodup)
    (ra : RuntimeApp) (hra : ra ∈ m.apps)
    (hmatch : ∀ mp ∈ ra.mountPoints, ∃ vol ∈ m.volumes, vol.name = mp.name) :
    ∃ args, appToNspawnArgs m ra = .ok args ∧ ∀ (i : Nat) mp vol,
      ra.mountPoints[i]? = some mp → vol ∈ m.volumes → vol.name = mp.name →
        ∃ arg, args[i]? = some arg ∧
        ((kvmReadOnly m ra.name mp = true ↔ isBindRO arg = true) ↔
          vol.readOnly.getD mp.readOnly = lastReadOnly m (appMountUnit ra.name mp).unitName) := by
  have hfound : ∀ mp ∈ ra.mountPoints, volumeMap m.volumes mp.name ≠ none := by
    intro mp hmp
    obtain ⟨vol, hvol, hname⟩ := hmatch mp hmp
    rw [← hname, volumeMap_eq hnames hvol]
    exact Option.some_ne_none vol
  obtain ⟨args, hargs, hlength, hget⟩ := bindArgs_eq ra hfound
  refine ⟨args ++ ra.isolators.filterMap capabilityArg, ?_, ?_⟩
  · simp only [appToNspawnArgs, hargs]
    rfl
  · intro i mp vol hi hvol hname
    have harg := hget i mp vol hi (hname ▸ volumeMap_eq hnames hvol)
    have hlt : i < args.length := by
      rw [List.getElem?_eq_some_iff] at harg
      exact harg.1
    refine ⟨_, (List.getElem?_append_left hlt).trans harg, ?_⟩
    rw [kvmReadOnly_eq hra (List.mem_of_getElem? hi), isBindRO_bindArg, effectiveReadOnly,
      ← Bool.eq_iff_iff, eq_comm]

def onePoint : MountPoint := { name := "data".toList, path := "/data".toList }

def oneApp : RuntimeApp where
  name := "app".toList
  app := { exec := ["/app".toList], user := "0".toList, group := "0".toList }
  mountPoints := [onePoint]

/-- A pod with one app, and a volume of the host for its mount point. -/
def onePod (readOnly : Option Bool) : PodManifest where
  volumes := [{
    name := "data".toList, kind := .host, source := "/srv".toList, readOnly := readOnly }]
  apps := [oneApp]

theorem access_agrees_unset :
    ∃ args arg, appToNspawnArgs (onePod none) oneApp = .ok args ∧ args[0]? = some arg ∧
      (kvmReadOnly (onePod none) oneApp.name onePoint = true ↔ isBindRO arg = true) := by
  have hmatch : ∀ mp ∈ oneApp.mountPoints, ∃ vol ∈ (onePod none).volumes, vol.name = mp.name := by
    intro mp hmp
    cases List.mem_singleton.mp hmp
    exact ⟨_, List.mem_cons_self, rfl⟩
  obtain ⟨args, hargs, h⟩ := access_agrees_iff (onePod none) (by decide) oneApp
    List.mem_cons_self hmatch
  obtain ⟨arg, harg, hiff⟩ := h 0 onePoint _ rfl List.mem_cons_self rfl
  exact ⟨args, arg, hargs, harg, hiff.mpr (by decide)⟩

/-- The volume is read-only and the mount point does not say so: the app may write to it in the kvm
flavor. -/
theorem readOnly_volume_writable :
    appToNspawnArgs (onePod (some true)) oneApp =
        .ok ["--bind-ro=/srv:/opt/stage2/app/rootfs/data".toList] ∧
      isBindRO "--bind-ro=/srv:/opt/stage2/app/rootfs/data".toList = true ∧
      kvmReadOnly (onePod (some true)) oneApp.name onePoint = false := by
  refine ⟨?_, ?_, ?_⟩ <;> decide

end Rkt.Stage1
