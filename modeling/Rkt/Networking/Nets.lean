import Rkt.Code.Json
import Rkt.Conc.Fallible

set_option autoImplicit false

namespace Rkt.Networking

open Conc Prog
open Json (Bytes ascii)

def text (s : String) : Bytes := ascii s.toList

/-- An address as its text. Go's `nil` is the empty one. -/
abbrev IP := Bytes

/-- The section `ipam` of a configuration: its type, and the rest. -/
structure IPAM where
  type : Bytes
  rest : Bytes := []
  deriving DecidableEq, Repr

structure NetConf where
  name : Bytes
  type : Bytes
  ipam : IPAM
  ipMasq : Bool := false
  deriving DecidableEq, Repr

inductive ConfPath where
  /-- In the directory `net.d` of the local configuration. -/
  | user (file : Bytes)
  /-- In the directory `etc/rkt/net.d` of stage1. -/
  | stage1 (file : Bytes)
  /-- In the directory `net` of the pod. -/
  | pod (file : Bytes)
  deriving DecidableEq, Repr

/-- `filepath.Base`. -/
def ConfPath.base : ConfPath → Bytes
  | .user f | .stage1 f | .pod f => f

structure NetInfo where
  netName : Bytes
  confPath : ConfPath
  ifName : Bytes := []
  ip : IP := []
  args : Bytes := []
  mask : IP := []
  hostIP : IP := []
  deriving DecidableEq, Repr

/-- The path that is decoded where this one was encoded. The directories have valid names. -/
def ConfPath.reread : ConfPath → ConfPath
  | .user f => .user (Json.reread f)
  | .stage1 f => .stage1 (Json.reread f)
  | .pod f => .pod (Json.reread f)

/-- What is decoded where this was encoded. There is no field for `hostIP`. -/
def NetInfo.reread (ni : NetInfo) : NetInfo where
  netName := Json.reread ni.netName
  confPath := ni.confPath.reread
  ifName := Json.reread ni.ifName
  ip := ni.ip
  args := Json.reread ni.args
  mask := ni.mask

structure ActiveNet where
  confBytes : Bytes
  conf : NetConf
  runtime : NetInfo
  deriving DecidableEq, Repr

structure ForwardedPort where
  protocol : Bytes
  hostPort : Nat
  podPort : Nat
  deriving DecidableEq, Repr

inductive Command where
  | add
  | del
  deriving DecidableEq, Repr

/-- What `execNetPlugin` runs: the plugin, the variables that differ from call to call, and the
configuration, which it is given on its standard input. -/
structure PluginCall where
  plugin : Bytes
  netns : Bytes
  args : Bytes
  ifName : Bytes
  stdin : Bytes
  deriving DecidableEq, Repr

inductive Output where
  | unreadable
  | noIP4
  | ip4 (ip mask gateway : IP)
  deriving DecidableEq, Repr

inductive Exec where
  | notFound
  | failed
  | exited (out : Output)
  deriving DecidableEq, Repr

inductive Copied where
  | done
  /-- A file could not be opened. -/
  | notOpened
  /-- Only so many bytes were written. -/
  | broken (n : Nat)
  deriving DecidableEq, Repr

inductive Sys where
  | openPodRoot
  /-- `os.Open(selfNetNS)`. -/
  | openNetNS
  /-- `syscall.Unshare(CLONE_NEWNET)`. -/
  | unshare
  /-- `ns.SetNS` to the namespace of the host or of the pod. -/
  | setNS (host : Bool)
  | linkByName (name : Bytes)
  | linkSetUp (name : Bytes)
  /-- `os.Create` in `bindMountFile`. -/
  | createNetNS
  /-- `syscall.Mount` in `bindMountFile`. -/
  | mountNetNS
  | unmountNetNS
  /-- `os.MkdirAll(netDir)`. -/
  | mkdirAll
  /-- `iptables.New`. -/
  | iptables
  | newChain
  | insert (chain : Bytes)
  | appendUnique (p : ForwardedPort) (dst : IP)
  | deleteRule (chain : Bytes)
  | clearChain
  | deleteChain
  | enableIP4Forward
  | addrAdd (ifName : Bytes) (ip mask : IP)
  | setupIPMasq (netName : Bytes) (ip mask : IP)
  | teardownIPMasq (netName : Bytes) (ip mask : IP)
  deriving DecidableEq, Repr

inductive Op where
  | sys (c : Sys)
  /-- `listFiles` on the directory of the user. -/
  | listFiles
  | readFile (path : ConfPath)
  /-- `os.Open`, `os.Create` and `io.Copy` of `copyFileToDir`. -/
  | copyFile (src : ConfPath) (file : Bytes)
  | remove (path : ConfPath)
  | plugin (cmd : Command) (call : PluginCall)
  /-- `ipt.Exists`. -/
  | ruleExists (chain : Bytes)
  /-- `tuntap.CreatePersistentIface`. -/
  | createTap
  /-- `tuntap.RemovePersistentIface`. -/
  | removeTap (name : Bytes)
  /-- `netinfo.Save`. -/
  | saveInfo (nis : List NetInfo)
  /-- `netinfo.LoadAt`. -/
  | loadInfo
  deriving DecidableEq, Repr

def Op.Res : Op → Type
  | .sys _ | .remove _ | .removeTap _ => Bool
  | .listFiles => Option (List Bytes)
  | .readFile _ | .createTap => Option Bytes
  | .copyFile _ _ | .saveInfo _ => Copied
  | .plugin _ _ => Exec
  | .ruleExists _ => Option Bool
  | .loadInfo => Option (List NetInfo)

abbrev netSig : Sig := ⟨Op, Op.Res⟩

abbrev NetProg := Prog netSig

abbrev net (o : Op) : NetProg o.Res := Prog.call (S := netSig) o

abbrev sys (c : Sys) : NetProg Bool := net (.sys c)

/-- Something that is held by a plugin or a device. -/
inductive Resource where
  | network (call : PluginCall)
  | tap (name : Bytes)
  deriving DecidableEq, Repr

inductive Event where
  | acquired (r : Resource)
  /-- It was tried to release the resource. -/
  | released (r : Resource) (ok : Bool)
  deriving DecidableEq, Repr

/-- The resources that have been acquired, in order. -/
def acquired (log : List Event) : List Resource :=
  log.filterMap fun
    | .acquired r => some r
    | .released _ _ => none

/-- The attempts to release a resource, with their success. -/
def attempts (log : List Event) : List (Resource × Bool) :=
  log.filterMap fun
    | .acquired _ => none
    | .released r ok => some (r, ok)

/-- The resources that have been released, in order. -/
def released (log : List Event) : List Resource := ((attempts log).filter Prod.snd).map Prod.fst

structure ConfFiles where
  user : List (Bytes × Bytes)
  stage1 : Bytes → Option Bytes

structure World where
  /-- The files in the directory `net` of the pod. -/
  pod : Bytes → Option Bytes
  /-- What is decoded from `net-info.json`. -/
  info : Option (List NetInfo)
  log : List Event

def World.content (files : ConfFiles) (w : World) : ConfPath → Option Bytes
  | .user f => files.user.lookup f
  | .stage1 f => files.stage1 f
  | .pod f => w.pod f

def World.write (w : World) (file content : Bytes) : World :=
  { w with pod := Function.update w.pod file (some content) }

def World.record (w : World) (e : Event) : World := { w with log := w.log ++ [e] }

def step (files : ConfFiles) : (o : Op) → o.Res → World → Option World
  | .sys _, _, w | .ruleExists _, _, w => some w
  | .listFiles, (r : Option (List Bytes)), w =>
    match r with
    | none => some w
    | some fs => if fs.Perm (files.user.map Prod.fst) then some w else none
  | .readFile path, (r : Option Bytes), w =>
    match r with
    | none => some w
    | some b => if w.content files path = some b then some w else none
  | .copyFile src file, (r : Copied), w =>
    match r with
    | .notOpened => some w
    | .done => (w.content files src).map fun b => w.write file b
    | .broken n => (w.content files src).map fun b => w.write file (b.take n)
  | .remove (.pod file), (r : Bool), w =>
    if r then some { w with pod := Function.update w.pod file none } else some w
  | .remove _, _, w => some w
  | .plugin .add call, (r : Exec), w =>
    match r with
    | .exited _ => some (w.record (.acquired (.network call)))
    | _ => some w
  | .plugin .del call, (r : Exec), w =>
    match r with
    | .exited _ => some (w.record (.released (.network call) true))
    | _ => some (w.record (.released (.network call) false))
  | .createTap, (r : Option Bytes), w =>
    match r with
    | none => some w
    | some name => some (w.record (.acquired (.tap name)))
  | .removeTap name, (r : Bool), w => some (w.record (.released (.tap name) r))
  | .saveInfo nis, (r : Copied), w =>
    match r with
    | .notOpened => some w
    | .done => some { w with info := some (nis.map NetInfo.reread) }
    | .broken _ => some { w with info := none }
  | .loadInfo, (r : Option (List NetInfo)), w =>
    match r with
    | none => some w
    | some nis => if w.info = some nis then some w else none

inductive LoadErr where
  | list
  | read (path : ConfPath)
  /-- `error loading %v: %v`. -/
  | parse (path : ConfPath)
  /-- `networks not found: %v`. -/
  | missing (names : List Bytes)
  deriving DecidableEq, Repr

/-- `PrivateNetList.All`, for the keys of its map. -/
def all (netsLoadList : List Bytes) : Bool := netsLoadList.contains (text "all")

/-- `PrivateNetList.Specific`. -/
def specific (netsLoadList : List Bytes) (name : Bytes) : Bool := netsLoadList.contains name

def netExists (nets : List ActiveNet) (name : Bytes) : Bool := nets.any (·.conf.name = name)

def missingNets (defined : List Bytes) (loaded : List ActiveNet) : List Bytes :=
  defined.filter fun name => name ≠ text "all" && !netExists loaded name

/-- `DefaultNetPath` or `DefaultRestrictedNetPath`. -/
def defaultNet (netsLoadList : List Bytes) : ConfPath :=
  if specific netsLoadList (text "default") || all netsLoadList then
    .stage1 (text "99-default.conf")
  else .stage1 (text "99-default-restricted.conf")

section

variable (unmarshal : Bytes → Option NetConf)

def loadNet (path : ConfPath) : NetProg (Except LoadErr ActiveNet) := do
  match ← net (.readFile path) with
  | none => return .error (.read path)
  | some bytes =>
    match unmarshal bytes with
    | none => return .error (.parse path)
    | some n => return .ok ⟨bytes, n, { netName := n.name, confPath := path }⟩

def loadFiles (netsLoadList : List Bytes) :
    List Bytes → List ActiveNet → NetProg (Except LoadErr (List ActiveNet))
  | [], nets => return .ok nets
  | filename :: files, nets =>
    if !(text ".conf").isSuffixOf filename then loadFiles netsLoadList files nets
    else
      andThen (loadNet unmarshal (.user filename)) fun n =>
      if !(all netsLoadList || specific netsLoadList n.conf.name) then
        loadFiles netsLoadList files nets
      else if netExists nets n.conf.name then loadFiles netsLoadList files nets
      else loadFiles netsLoadList files (nets ++ [n])

def loadUserNets (netsLoadList : List Bytes) : NetProg (Except LoadErr (List ActiveNet)) := do
  match ← net .listFiles with
  | none => return .error .list
  | some files => loadFiles unmarshal netsLoadList (files.insertionSort (· ≤ ·)) []

/-- Append the network of stage1, unless the user has one in its place. -/
def withDefault (netsLoadList : List Bytes) (nets : List ActiveNet) :
    NetProg (Except LoadErr (List ActiveNet)) :=
  if !netExists nets (text "default") && !netExists nets (text "default-restricted") then
    andThen (loadNet unmarshal (defaultNet netsLoadList)) fun n => return .ok (nets ++ [n])
  else return .ok nets

def loadNets (netsLoadList : List Bytes) : NetProg (Except LoadErr (List ActiveNet)) :=
  andThen (loadUserNets unmarshal netsLoadList) fun nets =>
  andThen (withDefault unmarshal netsLoadList nets) fun nets =>
  match missingNets netsLoadList nets with
  | [] => return .ok nets
  | missing => return .error (.missing missing)

end

inductive AddErr where
  /-- `Could not find plugin %q`. -/
  | notFound (plugin : Bytes)
  /-- `pluginErr`. -/
  | plugin
  /-- `error parsing %q result: %v`. -/
  | parsing (name : Bytes)
  /-- `net-plugin returned no IPv4 configuration`. -/
  | noIP4
  deriving DecidableEq, Repr

def podNSPath : Bytes := text "netns"

def ActiveNet.call (n : ActiveNet) (netns : Bytes) : PluginCall where
  plugin := n.conf.type
  netns := netns
  args := n.runtime.args
  ifName := n.runtime.ifName
  stdin := n.confBytes

/-- `execNetPlugin("ADD", …)`, and its output as the address, the mask and the gateway. -/
def execAdd (n : ActiveNet) (netns : Bytes) : NetProg (Except AddErr (IP × IP × IP)) := do
  match ← net (.plugin .add (n.call netns)) with
  | .notFound => return .error (.notFound n.conf.type)
  | .failed => return .error .plugin
  | .exited .unreadable => return .error (.parsing n.conf.name)
  | .exited .noIP4 => return .error .noIP4
  | .exited (.ip4 ip mask gateway) => return .ok (ip, mask, gateway)

def netPluginAdd (n : ActiveNet) (netns : Bytes) : NetProg (Except AddErr (IP × IP)) := do
  return (← execAdd n netns).map fun (ip, _, gateway) => (ip, gateway)

/-- The body of the loop of `teardownNets`. Errors are only logged. -/
def teardownNet (n : ActiveNet) : NetProg Unit := do
  let _ ← net (.plugin .del (n.call podNSPath))
  let _ ← net (.remove n.runtime.confPath)
  return ()

/-- The loop of `teardownNets`, with the networks in the order in which they are torn down. -/
def teardownEach : List ActiveNet → NetProg Unit
  | [] => return ()
  | n :: nets => do
    teardownNet n
    teardownEach nets

def teardownNets (nets : List ActiveNet) : NetProg Unit := teardownEach nets.reverse

inductive SetupErr where
  | mkdir
  /-- `error copying %q to %q: %v`. -/
  | copying (path : ConfPath)
  /-- `error adding network %q: %v`. -/
  | adding (name : Bytes) (e : AddErr)
  deriving DecidableEq, Repr

def copyFileToDir (src : ConfPath) : NetProg (Except SetupErr ConfPath) := do
  match ← net (.copyFile src src.base) with
  | .done => return .ok (.pod src.base)
  | _ => return .error (.copying src)

/-- `IfNamePattern`. -/
def ethName (i : Nat) : Bytes := text "eth" ++ Json.num i

def setupNet (i : Nat) (n : ActiveNet) : NetProg (Except SetupErr ActiveNet) :=
  andThen (copyFileToDir n.runtime.confPath) fun dst =>
  let n := { n with runtime := { n.runtime with ifName := ethName i, confPath := dst } }
  andThen (wrapError (.adding n.conf.name) (netPluginAdd n podNSPath)) fun (ip, hostIP) =>
  return .ok { n with runtime := { n.runtime with ip := ip, hostIP := hostIP } }

/-- The loop of `setupNets`: the error, if there is one, and the networks before the one at which
the loop was left, which are `nets[:i]`. -/
def setupEach (done : List ActiveNet) : List ActiveNet → NetProg (Option SetupErr × List ActiveNet)
  | [] => return (none, done)
  | n :: nets => do
    match ← setupNet done.length n with
    | .error e => return (some e, done)
    | .ok n => setupEach (done ++ [n]) nets

/-- `setupNets`. What is returned are the networks with their `runtime`. -/
def setupNets (nets : List ActiveNet) : NetProg (Except SetupErr (List ActiveNet)) :=
  andThen (must (sys .mkdirAll) .mkdir) fun _ => do
    let (err, done) ← setupEach [] nets
    match err with
    | some e => do
      -- the deferred function
      teardownNets done
      return .error e
    | none => return .ok done

def save (nets : List ActiveNet) : NetProg Bool := do
  match ← net (.saveInfo (nets.map (·.runtime))) with
  | .done => return true
  | _ => return false

/-- The loop of `Load`: networks that cannot be loaded are left out. -/
def loadEach (unmarshal : Bytes → Option NetConf) : List NetInfo → NetProg (List ActiveNet)
  | [] => return []
  | ni :: nis => do
    let r ← loadNet unmarshal ni.confPath
    let nets ← loadEach unmarshal nis
    match r with
    | .error _ => return nets
    | .ok n => return { n with runtime := ni } :: nets

inductive LoadInfoErr where
  /-- `Failed to open pod root directory (%v): %v`. -/
  | podRoot
  | info
  | netNS
  deriving DecidableEq, Repr

/-- `Load`: the networks of the result. -/
def load (unmarshal : Bytes → Option NetConf) :
    NetProg (Except LoadInfoErr (List ActiveNet)) :=
  andThen (must (sys .openPodRoot) .podRoot) fun _ => do
    match ← net .loadInfo with
    | none => return .error .info
    | some nis =>
      andThen (must (sys .openNetNS) .netNS) fun _ => do
        return .ok (← loadEach unmarshal nis)

/-- `unforwardPorts`: all errors but the first are ignored. -/
def unforwardPorts : NetProg Bool := do
  let ipt : Bool ← sys .iptables
  if ipt then
    let _ ← sys (.deleteRule (text "PREROUTING"))
    let _ ← sys (.deleteRule (text "OUTPUT"))
    let _ ← sys .clearChain
    let _ ← sys .deleteChain
    return true
  else return false

def teardownKvmNets : List ActiveNet → NetProg Unit
  | [] => return ()
  | an :: nets => do
    if an.conf.type = text "ptp" then
      let _ ← net (.removeTap an.runtime.ifName)
      if an.conf.ipMasq then
        let _ ← sys (.teardownIPMasq an.conf.name an.runtime.ip an.runtime.mask)
      let an := { an with conf := { an.conf with type := an.conf.ipam.type } }
      let _ ← net (.plugin .del (an.call an.runtime.ifName))
    teardownKvmNets nets

/-- `Teardown`: false if it gives up at once. -/
def teardown (kvm : Bool) (nets : List ActiveNet) : NetProg Bool := do
  if kvm then
    let _ ← unforwardPorts
    teardownKvmNets nets
    return true
  else
    let host : Bool ← sys (.setNS true)
    if host then
      let _ ← unforwardPorts
      teardownNets nets
      let _ ← sys .unmountNetNS
      return true
    else return false

end Rkt.Networking
