import Rkt.Networking.Nets

set_option autoImplicit false

namespace Rkt.Networking

open Conc Prog
open Json (Bytes)

inductive PortErr where
  | iptables
  | newChain
  | ruleExists (chain : Bytes)
  | insert (chain : Bytes)
  | append (p : ForwardedPort)
  deriving DecidableEq, Repr

/-- The loop of `forwardPorts` over the chains that get the rule. -/
def insertRules : List Bytes → NetProg (Except PortErr Unit)
  | [] => return .ok ()
  | chain :: chains => do
    match ← net (.ruleExists chain) with
    | none => return .error (.ruleExists chain)
    | some true => insertRules chains
    | some false =>
      andThen (must (sys (.insert chain)) (.insert chain)) fun _ => insertRules chains

/-- The loop of `forwardPorts` over the ports, with `forwardPort`. -/
def appendRules (defIP : IP) : List ForwardedPort → NetProg (Except PortErr Unit)
  | [] => return .ok ()
  | p :: fps =>
    andThen (must (sys (.appendUnique p defIP)) (.append p)) fun _ => appendRules defIP fps

def forwardPorts (fps : List ForwardedPort) (defIP : IP) : NetProg (Except PortErr Unit) :=
  if fps = [] then return .ok ()
  else
    andThen (must (sys .iptables) .iptables) fun _ =>
    andThen (must (sys .newChain) .newChain) fun _ =>
    andThen (insertRules [text "PREROUTING", text "OUTPUT"]) fun _ => appendRules defIP fps

inductive KvmErr where
  /-- `tuntap persist %v`. -/
  | tap
  /-- `cannot find link %q: %v`. -/
  | findLink (ifName : Bytes)
  /-- `cannot set link up %q: %v`. -/
  | setLinkUp (ifName : Bytes)
  /-- `failed to enable forwarding: %v`. -/
  | ip4Forward
  /-- `problem executing network plugin %q (%q): %v`, or what is wrong with its output. -/
  | addressing (ifName : Bytes) (e : AddErr)
  /-- `cannot add address to host tap device %q: %v`. -/
  | addrAdd (ifName : Bytes)
  | ipMasq
  /-- `network %q have unsupported type: %q`. -/
  | unsupported (name type : Bytes)
  deriving DecidableEq, Repr

/-- `setupTapDevice`: the name of the device. -/
def setupTapDevice : NetProg (Except KvmErr Bytes) := do
  match ← net .createTap with
  | none => return .error .tap
  | some ifName =>
    andThen (must (sys (.linkByName ifName)) (.findLink ifName)) fun _ =>
    andThen (must (sys (.linkSetUp ifName)) (.setLinkUp ifName)) fun _ => return .ok ifName

def kvmSetupNetAddressing (n : ActiveNet) (ifName : Bytes) : NetProg (Except KvmErr ActiveNet) :=
  andThen (must (sys .enableIP4Forward) .ip4Forward) fun _ =>
  let n := { n with conf := { n.conf with type := n.conf.ipam.type } }
  andThen (wrapError (.addressing ifName) (execAdd n ifName)) fun (ip, mask, gateway) =>
  return .ok { n with runtime := { n.runtime with ip := ip, mask := mask, hostIP := gateway } }

def kvmSetupEach (done : List ActiveNet) : List ActiveNet → NetProg (Except KvmErr (List ActiveNet))
  | [] => return .ok done
  | n :: nets =>
    if n.conf.type = text "ptp" then
      andThen setupTapDevice fun ifName =>
      let n := { n with runtime := { n.runtime with ifName := ifName } }
      andThen (kvmSetupNetAddressing n ifName) fun n =>
      andThen (must (sys (.addrAdd ifName n.runtime.hostIP n.runtime.mask)) (.addrAdd ifName))
        fun _ =>
      andThen (if n.conf.ipMasq then
          must (sys (.setupIPMasq n.conf.name n.runtime.ip n.runtime.mask)) .ipMasq
        else return .ok ()) fun _ =>
      kvmSetupEach (done ++ [n]) nets
    else return .error (.unsupported n.conf.name n.conf.type)

inductive NetErr where
  /-- `failed to create new netns: %v`. -/
  | newNetNS
  /-- `failed to lookup lo: %v`, `failed to set lo up: %v`. -/
  | loUp
  | bindMount
  /-- `error loading network definitions: %v`. -/
  | loading (e : LoadErr)
  /-- `SetNS` to the namespace of the host. -/
  | enterNS
  | nets (e : SetupErr)
  | ports (e : PortErr)
  /-- `SetNS` back to the namespace of the pod. -/
  | leaveNS
  | kvm (e : KvmErr)
  deriving DecidableEq, Repr

def newNetNS : NetProg (Except NetErr Unit) :=
  andThen (must (sys .openNetNS) .newNetNS) fun _ =>
  andThen (must (sys .unshare) .newNetNS) fun _ => do
    let child : Bool ← sys .openNetNS
    if child then return .ok ()
    else
      let _ ← sys (.setNS true)
      return .error .newNetNS

/-- `basicNetNS`, with `loUp`. -/
def basicNetNS : NetProg (Except NetErr Unit) :=
  andThen newNetNS fun _ =>
  andThen (must (sys (.linkByName (text "lo"))) .loUp) fun _ =>
  must (sys (.linkSetUp (text "lo"))) .loUp

def bindMountFile : NetProg (Except NetErr Unit) :=
  andThen (must (sys .createNetNS) .bindMount) fun _ => must (sys .mountNetNS) .bindMount

/-- `withNetNS(podNS, hostNS, f)`. -/
def withNetNS {α : Type} (f : NetProg (Except NetErr α)) : NetProg (Except NetErr α) :=
  andThen (must (sys (.setNS true)) .enterNS) fun _ => do
    match ← f with
    | .error e =>
      let _ ← sys (.setNS false)
      return .error e
    | .ok a => andThen (must (sys (.setNS false)) .leaveNS) fun _ => return .ok a

def getDefaultIP (nets : List ActiveNet) : IP := (nets.getLast?.map (·.runtime.ip)).getD []

/-- The function that `Setup` runs in the namespace of the host. -/
def setupInHost (fps : List ForwardedPort) (nets : List ActiveNet) :
    NetProg (Except NetErr (List ActiveNet)) :=
  andThen (wrapError .nets (setupNets nets)) fun nets =>
  andThen (wrapError .ports (forwardPorts fps (getDefaultIP nets))) fun _ => return .ok nets

section

variable (unmarshal : Bytes → Option NetConf)

def kvmSetup (fps : List ForwardedPort) (privateNetList : List Bytes) :
    NetProg (Except NetErr (List ActiveNet)) :=
  andThen (wrapError .loading (loadNets unmarshal privateNetList)) fun nets =>
  andThen (wrapError .kvm (kvmSetupEach [] nets)) fun nets =>
  andThen (wrapError .ports (forwardPorts fps (getDefaultIP nets))) fun _ => return .ok nets

/-- `Setup`. What is returned are the networks. -/
def setup (kvm : Bool) (fps : List ForwardedPort) (privateNetList : List Bytes) :
    NetProg (Except NetErr (List ActiveNet)) :=
  if kvm then kvmSetup unmarshal fps privateNetList
  else
    andThen basicNetNS fun _ =>
    andThen bindMountFile fun _ => do
      let r ← andThen (wrapError .loading (loadNets unmarshal privateNetList)) fun nets =>
        withNetNS (setupInHost fps nets)
      match r with
      | .error e =>
        -- the deferred function
        let _ ← sys .unmountNetNS
        return .error e
      | .ok nets => return .ok nets

end

section

variable {files : ConfFiles} {unmarshal : Bytes → Option NetConf}

/-- The operations that acquire and release nothing. -/
def Op.isQuiet : Op → Bool
  | .plugin _ _ | .createTap | .removeTap _ => false
  | _ => true

abbrev Quiet {α : Type} (files : ConfFiles) (x : NetProg α) : Prop := Keeps (step files) World.log x

theorem quiet_net {o : Op} (ho : o.isQuiet = true) : Quiet files (net o) := by
  refine Keeps.call fun w r w' h => ?_
  cases o with
  | plugin | createTap | removeTap => cases ho
  | sys c | ruleExists c =>
    cases h
    rfl
  | listFiles | readFile | loadInfo =>
    cases r with
    | none =>
      cases h
      rfl
    | some a =>
      simp only [step, Option.ite_none_right_eq_some] at h
      cases h.2
      rfl
  | copyFile src file =>
    cases r with
    | notOpened =>
      cases h
      rfl
    | done | broken =>
      obtain ⟨b, -, rfl⟩ := Option.map_eq_some_iff.mp h
      rfl
  | remove path =>
    cases path with
    | pod file =>
      cases r with
      | false | true =>
        cases h
        rfl
    | user file | stage1 file =>
      cases h
      rfl
  | saveInfo nis =>
    cases r with
    | done | notOpened | broken =>
      cases h
      rfl

theorem quiet_must {ε : Type} {c : Sys} {e : ε} : Quiet files (must (sys c) e) :=
  Keeps.must (quiet_net rfl)

def Op.isPlain : Op → Bool
  | .plugin _ _ | .createTap | .removeTap _ => false
  | .sys (.setupIPMasq _ _ _) | .sys (.teardownIPMasq _ _ _) => false
  | _ => true

abbrev Plain {α : Type} (x : NetProg α) : Prop := x.All fun (o : Op) => o.isPlain = true

variable {α : Type} {log : List Event}

theorem Plain.quiet {x : NetProg α} (hx : Plain x) : Quiet files x := by
  refine Keeps.of_all (fun o ho => quiet_net ?_) hx
  cases o with
  | plugin | createTap | removeTap => cases ho
  | _ => rfl

theorem loadNet_plain {path : ConfPath} : Plain (loadNet unmarshal path) := by
  refine All.bind (all_call rfl) fun r => ?_
  cases r with
  | none => trivial
  | some bytes =>
    dsimp only
    split <;> trivial

theorem loadFiles_plain {netsLoadList names : List Bytes} {nets : List ActiveNet} :
    Plain (loadFiles unmarshal netsLoadList names nets) := by
  induction names generalizing nets with
  | nil => trivial
  | cons filename names ih =>
    refine All.ite (fun _ => ih) fun _ => All.andThen loadNet_plain fun n => ?_
    exact All.ite (fun _ => ih) fun _ => All.ite (fun _ => ih) fun _ => ih

theorem loadNets_plain {netsLoadList : List Bytes} : Plain (loadNets unmarshal netsLoadList) := by
  have huser : Plain (loadUserNets unmarshal netsLoadList) := by
    refine All.bind (all_call rfl) fun r => ?_
    cases r with
    | none => trivial
    | some names => exact loadFiles_plain
  refine All.andThen huser fun nets => All.andThen ?_ fun nets => ?_
  · refine All.ite (fun _ => All.andThen loadNet_plain fun _ => ?_) fun _ => ?_ <;> trivial
  · split <;> trivial

theorem forwardPorts_plain (fps : List ForwardedPort) (defIP : IP) :
    Plain (forwardPorts fps defIP) := by
  have hinsert : ∀ chains, Plain (insertRules chains) := by
    intro chains
    induction chains with
    | nil => trivial
    | cons chain chains ih =>
      refine All.bind (all_call rfl) fun r => ?_
      rcases r with _ | _ | _
      · trivial
      · exact All.andThen (All.must (all_call rfl)) fun _ => ih
      · exact ih
  have happend : ∀ ps, Plain (appendRules defIP ps) := by
    intro ps
    induction ps with
    | nil => trivial
    | cons p ps ih => exact All.andThen (All.must (all_call rfl)) fun _ => ih
  refine All.ite (fun _ => trivial) fun _ => ?_
  refine All.andThen (All.must (all_call rfl)) fun _ => ?_
  refine All.andThen (All.must (all_call rfl)) fun _ => ?_
  exact All.andThen (hinsert _) fun _ => happend _

theorem loadNets_quiet {netsLoadList : List Bytes} :
    Quiet files (loadNets unmarshal netsLoadList) := loadNets_plain.quiet

theorem forwardPorts_quiet (fps : List ForwardedPort) (defIP : IP) :
    Quiet files (forwardPorts fps defIP) := (forwardPorts_plain fps defIP).quiet

theorem basicNetNS_quiet : Quiet files basicNetNS := by
  have hnew : Quiet files newNetNS := by
    refine Keeps.andThen quiet_must fun _ => Keeps.andThen quiet_must fun _ => ?_
    refine Keeps.bind (quiet_net rfl) fun _ => Keeps.ite Keeps.ret ?_
    exact Keeps.bind (quiet_net rfl) fun _ => Keeps.ret
  exact Keeps.andThen hnew fun _ => Keeps.andThen quiet_must fun _ => quiet_must

theorem bindMountFile_quiet : Quiet files bindMountFile :=
  Keeps.andThen quiet_must fun _ => quiet_must

/-- The resources that it was tried to release, in order. -/
def attempted (log : List Event) : List Resource := (attempts log).map Prod.fst

/-- What has been acquired, and what it was tried to release. -/
def Held (A D : List Resource) (w : World) : Prop := acquired w.log = A ∧ attempted w.log = D

variable {A D : List Resource} {w : World} {r : Resource}

theorem Held.acquire (h : Held A D w) : Held (A ++ [r]) D (w.record (.acquired r)) := by
  obtain ⟨rfl, rfl⟩ := h
  simp [Held, World.record, acquired, attempted, attempts]

theorem Held.attempt (ok : Bool) (h : Held A D w) :
    Held A (D ++ [r]) (w.record (.released r ok)) := by
  obtain ⟨rfl, rfl⟩ := h
  simp [Held, World.record, acquired, attempted, attempts]

theorem Held.meets_quiet {x : NetProg α} (hx : Quiet files x) :
    Meets (step files) (Held A D) x fun _ => Held A D :=
  hx.meets fun log => acquired log = A ∧ attempted log = D

def ActiveNet.resource (n : ActiveNet) : Resource := .network (n.call podNSPath)

theorem teardownEach_meets (nets : List ActiveNet) :
    Meets (step files) (Held A D) (teardownEach nets) fun _ =>
      Held A (D ++ nets.map ActiveNet.resource) := by
  induction nets generalizing D with
  | nil =>
    refine Meets.ret fun w h => ?_
    rw [List.map_nil, List.append_nil]
    exact h
  | cons n nets ih =>
    have hdel : Meets (step files) (Held A D) (net (.plugin .del (n.call podNSPath)))
        fun _ => Held A (D ++ [n.resource]) := by
      refine Meets.call fun w r w' hw h => ?_
      cases r with
      | notFound | failed | exited =>
        cases h
        exact hw.attempt _
    have hnet : Meets (step files) (Held A D) (teardownNet n)
        fun _ => Held A (D ++ [n.resource]) := by
      refine Meets.bind hdel fun _ => ?_
      refine Meets.bind (Held.meets_quiet (quiet_net rfl)) fun _ => ?_
      exact Meets.ret fun _ h => h
    refine Meets.bind hnet fun _ => ?_
    have hcons : D ++ (n :: nets).map ActiveNet.resource =
        D ++ [n.resource] ++ nets.map ActiveNet.resource := List.append_cons _ _ _
    rw [hcons]
    exact ih

theorem teardownNets_meets (nets : List ActiveNet) :
    Meets (step files) (Held A D) (teardownNets nets) fun _ =>
      Held A (D ++ (nets.map ActiveNet.resource).reverse) := by
  rw [← List.map_reverse]
  exact teardownEach_meets nets.reverse

/-- The plugin has done its work, but its output cannot be used. -/
def AddErr.isLate : AddErr → Bool
  | .parsing _ | .noIP4 => true
  | .notFound _ | .plugin => false

/-- All that has been acquired is known to `setupNets` when it fails. -/
def SetupErr.isCovered : SetupErr → Bool
  | .adding _ e => !e.isLate
  | .mkdir | .copying _ => true

def NetErr.isCovered : NetErr → Bool
  | .nets e => e.isCovered
  | .ports _ | .leaveNS | .kvm _ => false
  | .newNetNS | .loUp | .bindMount | .loading _ | .enterNS => true

def Exec.isExited : Exec → Bool
  | .exited _ => true
  | _ => false

theorem execAdd_meets (n : ActiveNet) (netns : Bytes) :
    Meets (step files) (Held A D) (execAdd n netns)
      (Outcome (fun e => Held (if e.isLate then A ++ [.network (n.call netns)] else A) D)
        fun _ => Held (A ++ [.network (n.call netns)]) D) := by
  have hadd : Meets (step files) (Held A D) (net (.plugin .add (n.call netns))) fun r =>
      Held (if r.isExited then A ++ [.network (n.call netns)] else A) D := by
    refine Meets.call fun w r w' hw h => ?_
    cases r with
    | notFound | failed =>
      cases h
      exact hw
    | exited out =>
      cases h
      exact hw.acquire
  refine Meets.bind hadd fun r => ?_
  rcases r with _ | _ | out
  · exact Meets.ret fun _ h => h
  · exact Meets.ret fun _ h => h
  · cases out with
    | unreadable | noIP4 | ip4 => exact Meets.ret fun _ h => h

def Remains (A : List Resource) (e : SetupErr) (w : World) : Prop :=
  if e.isCovered then Held A [] w else ∃ r, Held (A ++ [r]) [] w

theorem setupNet_meets (i : Nat) (n : ActiveNet) : Meets (step files) (Held A []) (setupNet i n)
      (Outcome (Remains A) fun n' => Held (A ++ [n'.resource]) []) := by
  have hcopy : Meets (step files) (Held A []) (copyFileToDir n.runtime.confPath)
      (Outcome (Remains A) fun _ => Held A []) := by
    refine Meets.bind (Held.meets_quiet (quiet_net rfl)) fun r => ?_
    cases r with
    | done | notOpened | broken => exact Meets.ret fun _ h => h
  refine Meets.andThen hcopy fun dst => ?_
  -- the address that comes from the plugin is no part of its call
  set n1 : ActiveNet :=
    { n with runtime := { n.runtime with ifName := ethName i, confPath := dst } } with hn1
  have hplugin : Meets (step files) (Held A []) (netPluginAdd n1 podNSPath)
      (Outcome (fun e => Remains A (.adding n.conf.name e)) fun _ =>
        Held (A ++ [n1.resource]) []) := by
    refine Meets.bind (execAdd_meets n1 podNSPath) fun r => ?_
    cases r with
    | ok a => exact Meets.ret fun _ h => h
    | error e =>
      refine Meets.ret fun w h => ?_
      cases e with
      | notFound | plugin => exact h
      | parsing | noIP4 => exact ⟨_, h⟩
  refine Meets.andThen (Meets.wrapError hplugin fun _ _ h => h) fun a => ?_
  exact Meets.ret fun _ h => h

/-- Where `setupEach` stops, the networks before hold what they have acquired. -/
theorem setupEach_meets (done nets : List ActiveNet) :
    Meets (step files) (Held (done.map ActiveNet.resource) []) (setupEach done nets) fun a w =>
      match a.1 with
      | none => Held (a.2.map ActiveNet.resource) [] w
      | some e => Remains (a.2.map ActiveNet.resource) e w := by
  induction nets generalizing done with
  | nil => exact Meets.ret fun _ h => h
  | cons n nets ih =>
    refine Meets.bind (setupNet_meets _ n) fun r => ?_
    cases r with
    | error e => exact Meets.ret fun _ h => h
    | ok n' =>
      have hmap : (done.map ActiveNet.resource) ++ [n'.resource] =
          (done ++ [n']).map ActiveNet.resource := by simp
      exact (ih (done ++ [n'])).pre fun w h => hmap ▸ h

/-- After an error: if all that was acquired is covered it has been tried to release it, in reverse
order. Otherwise something has been left out, or there was no attempt at all. -/
def TakenBack (covered : Bool) (log : List Event) : Prop :=
  if covered then attempted log = (acquired log).reverse
  else attempted log = [] ∨ (attempted log).length < (acquired log).length

theorem Held.takenBack (covered : Bool) (h : Held [] [] w) : TakenBack covered w.log := by
  cases covered with
  | true =>
    show attempted w.log = (acquired w.log).reverse
    rw [h.1, h.2, List.reverse_nil]
  | false => exact Or.inl h.2

theorem setupNets_meets (nets : List ActiveNet) : Meets (step files) (Held [] []) (setupNets nets)
      (Outcome (fun e w => TakenBack e.isCovered w.log) fun nets' =>
        Held (nets'.map ActiveNet.resource) []) := by
  refine Meets.andThen (Meets.must (Held.meets_quiet (quiet_net rfl)) fun _ h => h.takenBack _) ?_
  intro _
  refine Meets.bind (setupEach_meets [] nets) fun a => ?_
  obtain ⟨err, done⟩ := a
  cases err with
  | none => exact Meets.ret fun _ h => h
  | some e =>
    show Meets (S := netSig) (step files) (Remains (done.map ActiveNet.resource) e) _ _
    unfold Remains
    cases hcov : e.isCovered with
    | true =>
      refine Meets.bind (teardownNets_meets done) fun _ => Meets.ret fun w h => ?_
      show TakenBack e.isCovered w.log
      rw [hcov]
      show attempted w.log = (acquired w.log).reverse
      rw [h.1, h.2, List.nil_append]
    | false =>
      rintro w a w' ⟨r, hw⟩ hruns
      obtain ⟨_, w1, hrun, rfl, rfl⟩ := runs_bind.mp hruns
      have h := teardownNets_meets done w _ _ hw hrun
      show TakenBack e.isCovered w'.log
      rw [hcov]
      refine Or.inr ?_
      rw [h.1, h.2]
      simp

abbrev AfterErr (e : NetErr) (w : World) : Prop := TakenBack e.isCovered w.log

theorem setupInHost_meets (fps : List ForwardedPort) (nets : List ActiveNet) :
    Meets (step files) (Held [] []) (setupInHost fps nets)
      (Outcome AfterErr fun _ w => attempted w.log = []) := by
  refine Meets.andThen (Meets.wrapError (setupNets_meets nets) fun _ _ h => h) fun nets' => ?_
  have hports : Meets (step files) (Held (nets'.map ActiveNet.resource) [])
      (forwardPorts fps (getDefaultIP nets'))
      (Outcome (fun e => AfterErr (.ports e)) fun _ w => attempted w.log = []) := by
    refine (Held.meets_quiet (forwardPorts_quiet fps _)).post fun r w h => ?_
    cases r with
    | error e => exact Or.inl h.2
    | ok _ => exact h.2
  refine Meets.andThen (Meets.wrapError hports fun _ _ h => h) fun _ => ?_
  exact Meets.ret fun _ h => h

theorem withNetNS_meets {f : NetProg (Except NetErr α)}
    (hf : Meets (step files) (Held [] []) f (Outcome AfterErr fun _ w => attempted w.log = [])) :
    Meets (step files) (Held [] []) (withNetNS f) (Outcome AfterErr fun _ _ => True) := by
  refine Meets.andThen (Meets.must (Held.meets_quiet (quiet_net rfl)) fun _ h => h.takenBack _) ?_
  intro _
  refine Meets.bind hf fun r => ?_
  cases r with
  | error e =>
    -- what `SetNS` says is only logged
    have hback : Quiet files (sys (.setNS false)) := quiet_net rfl
    refine Meets.bind (hback.meets (TakenBack e.isCovered)) ?_
    exact fun _ => Meets.ret fun _ h => h
  | ok a =>
    have hback : Quiet files (sys (.setNS false)) := quiet_net rfl
    refine Meets.andThen (Meets.must (hback.meets fun log => attempted log = []) ?_) ?_
    · exact fun w h => Or.inl h
    · exact fun _ => Meets.ret fun _ _ => trivial

theorem Held.meets_first {ε α : Type} {x : NetProg (Except ε α)} (hx : Quiet files x)
    (covered : ε → Bool) : Meets (step files) (Held [] []) x
      (Outcome (fun e w => TakenBack (covered e) w.log) fun _ => Held [] []) := by
  refine (Held.meets_quiet hx).post fun r w h => ?_
  cases r with
  | ok a => exact h
  | error e => exact h.takenBack _

theorem kvmSetupEach_keeps (done nets : List ActiveNet) :
    Keeps (step files) (fun w => attempted w.log) (kvmSetupEach done nets) := by
  have hmust {c : Sys} {e : KvmErr} : Keeps (step files) (fun w => attempted w.log)
      (must (sys c) e) := quiet_must.comp attempted
  have hadd (n : ActiveNet) (netns : Bytes) :
      Keeps (step files) (fun w => attempted w.log) (execAdd n netns) := by
    refine Keeps.bind (Keeps.call fun w r w' h => ?_) fun r => ?_
    · cases r with
      | notFound | failed =>
        cases h
        rfl
      | exited out =>
        cases h
        exact (Held.acquire ⟨rfl, rfl⟩).2
    · rcases r with _ | _ | _ | _ | _
      all_goals exact Keeps.ret
  have htap : Keeps (step files) (fun w => attempted w.log) setupTapDevice := by
    refine Keeps.bind (Keeps.call fun w r w' h => ?_) fun r => ?_
    · cases r with
      | none =>
        cases h
        rfl
      | some name =>
        cases h
        exact (Held.acquire ⟨rfl, rfl⟩).2
    · cases r with
      | none => exact Keeps.ret
      | some name =>
        exact Keeps.andThen hmust fun _ => Keeps.andThen hmust fun _ => Keeps.ret
  induction nets generalizing done with
  | nil => exact Keeps.ret
  | cons n nets ih =>
    refine Keeps.ite (Keeps.andThen htap fun ifName => ?_) Keeps.ret
    refine Keeps.andThen (Keeps.andThen hmust fun _ => ?_) fun n' => ?_
    · exact Keeps.andThen (Keeps.wrapError (hadd _ _)) fun _ => Keeps.ret
    · refine Keeps.andThen hmust fun _ => ?_
      exact Keeps.andThen (Keeps.ite hmust Keeps.ret) fun _ => ih _

theorem kvmSetup_meets (fps : List ForwardedPort) (privateNetList : List Bytes) :
    Meets (step files) (Held [] []) (kvmSetup unmarshal fps privateNetList)
      (Outcome AfterErr fun _ _ => True) := by
  refine Meets.andThen (Held.meets_first (Keeps.wrapError loadNets_quiet) NetErr.isCovered) ?_
  intro nets
  -- an error after this point is not covered, and nothing has been released
  have hlate {ε α : Type} {x : NetProg (Except ε α)} (wrap : ε → NetErr)
      (hx : Keeps (step files) (fun w => attempted w.log) x)
      (hwrap : ∀ e, (wrap e).isCovered = false) :
      Meets (step files) (fun w => attempted w.log = []) x
        (Outcome (fun e => AfterErr (wrap e)) fun _ w => attempted w.log = []) := by
    refine (hx.meets (· = [])).post fun r w h => ?_
    cases r with
    | ok a => exact h
    | error e =>
      show TakenBack (wrap e).isCovered w.log
      rw [hwrap e]
      exact Or.inl h
  have hnets := (hlate .kvm (kvmSetupEach_keeps [] nets) fun _ => rfl).pre
    fun w (h : Held [] [] w) => h.2
  refine Meets.andThen (Meets.wrapError hnets fun _ _ h => h) fun nets' => ?_
  have hports :=
    hlate .ports ((forwardPorts_quiet fps (getDefaultIP nets')).comp attempted) fun _ => rfl
  refine Meets.andThen (Meets.wrapError hports fun _ _ h => h) fun _ => ?_
  exact Meets.ret fun _ _ => trivial

theorem setup_meets (kvm : Bool) (fps : List ForwardedPort) (privateNetList : List Bytes) :
    Meets (step files) (Held [] []) (setup unmarshal kvm fps privateNetList)
      (Outcome AfterErr fun _ _ => True) := by
  refine Meets.ite (fun _ => kvmSetup_meets fps privateNetList) fun _ => ?_
  refine Meets.andThen (Held.meets_first basicNetNS_quiet NetErr.isCovered) fun _ => ?_
  refine Meets.andThen (Held.meets_first bindMountFile_quiet NetErr.isCovered) fun _ => ?_
  have hnets : Meets (step files) (Held [] [])
      (andThen (wrapError NetErr.loading (loadNets unmarshal privateNetList)) fun nets =>
        withNetNS (setupInHost fps nets))
      (Outcome AfterErr fun _ _ => True) := by
    refine Meets.andThen (Held.meets_first (Keeps.wrapError loadNets_quiet) NetErr.isCovered) ?_
    exact fun nets => withNetNS_meets (setupInHost_meets fps nets)
  refine Meets.bind hnets fun r => ?_
  cases r with
  | ok nets => exact Meets.ret fun _ _ => trivial
  | error e =>
    have hunmount : Quiet files (sys .unmountNetNS) := quiet_net rfl
    refine Meets.bind (hunmount.meets (TakenBack e.isCovered)) fun _ => ?_
    exact Meets.ret fun _ h => h

def unreleased (log : List Event) : List Resource :=
  ((attempts log).filter fun a => !a.2).map Prod.fst

theorem released_eq_attempted (h : unreleased log = []) : released log = attempted log := by
  have hall : ∀ a ∈ attempts log, a.2 = true := by
    intro a ha
    have hnone := List.filter_eq_nil_iff.mp (List.map_eq_nil_iff.mp h) a ha
    simpa using hnone
  rw [released, attempted, List.filter_eq_self.mpr hall]

theorem length_released (log : List Event) :
    (released log).length + (unreleased log).length = (attempted log).length := by
  simp only [released, unreleased, attempted, List.length_map]
  exact (List.length_eq_length_filter_add _).symm

theorem released_iff_of_covered (h : TakenBack true log) :
    released log = (acquired log).reverse ↔ unreleased log = [] := by
  have hall : attempted log = (acquired log).reverse := h
  constructor
  · intro heq
    have hlen := length_released log
    rw [heq, hall] at hlen
    exact List.length_eq_zero_iff.mp (by omega)
  · intro hnone
    rw [released_eq_attempted hnone, hall]

theorem released_iff_of_uncovered (h : TakenBack false log) :
    released log = (acquired log).reverse ↔ acquired log = [] := by
  have hpart : attempted log = [] ∨ (attempted log).length < (acquired log).length := h
  have hlen := length_released log
  rw [← List.length_eq_zero_iff] at hpart ⊢
  constructor
  · intro heq
    rw [heq, List.length_reverse] at hlen
    omega
  · intro hnone
    have hzero : (released log).length = 0 := by omega
    rw [List.length_eq_zero_iff.mp hzero, List.length_eq_zero_iff.mp hnone, List.reverse_nil]

/-- **What `Setup` leaves when it fails.** All that it has acquired has been released, each thing
once and in reverse order, if and only if it has acquired nothing, or the error comes from
`setupNets` before a plugin has done its work, and the release of the networks before has worked. -/
theorem setup_released_iff {kvm : Bool} {fps : List ForwardedPort} {privateNetList : List Bytes}
    {w w' : World} {e : NetErr} (hlog : w.log = [])
    (h : (setup unmarshal kvm fps privateNetList).Runs (step files) w (.error e) w') :
    released w'.log = (acquired w'.log).reverse ↔
      acquired w'.log = [] ∨ e.isCovered = true ∧ unreleased w'.log = [] := by
  have hstart : Held [] [] w := by
    rw [Held, hlog]
    exact ⟨rfl, rfl⟩
  have hend : TakenBack e.isCovered w'.log :=
    setup_meets kvm fps privateNetList w _ w' hstart h
  cases hcov : e.isCovered with
  | false =>
    rw [hcov] at hend
    simp [released_iff_of_uncovered hend]
  | true =>
    rw [hcov] at hend
    have hiff := released_iff_of_covered hend
    constructor
    · exact fun heq => Or.inr ⟨rfl, hiff.mp heq⟩
    · rintro (hnone | ⟨-, hdone⟩)
      · -- then nothing had to be released either
        have hnil : attempted w'.log = [] := by
          rw [show attempted w'.log = (acquired w'.log).reverse from hend, hnone]
          rfl
        have hlen := length_released w'.log
        rw [hnil, List.length_nil] at hlen
        exact hiff.mpr (List.length_eq_zero_iff.mp (by omega))
      · exact hiff.mpr hdone

end

def defaultConf : NetConf where
  name := text "default"
  type := text "ptp"
  ipam := { type := text "host-local-ptp", rest := text "172.16.28.0/24" }
  ipMasq := true

def userConf : NetConf where
  name := text "user"
  type := text "bridge"
  ipam := { type := text "host-local", rest := text "10.1.0.0/16" }

/-- The text of a configuration; `rest` is the subnet. -/
def NetConf.marshal (c : NetConf) : Bytes :=
  Json.object [("name", Json.str c.name), ("type", Json.str c.type),
    ("ipMasq", if c.ipMasq then text "true" else text "false"),
    ("ipam", Json.object [("type", Json.str c.ipam.type), ("subnet", Json.str c.ipam.rest)])]

/-- `json.Unmarshal` on the texts of these two. -/
def unmarshalTwo (bytes : Bytes) : Option NetConf :=
  [defaultConf, userConf].find? fun c => c.marshal = bytes

/-- The network of stage1, and one of the user in a file with the given name. -/
def twoFiles (user : String) : ConfFiles where
  user := [(text user, userConf.marshal)]
  stage1 := fun _ => some defaultConf.marshal

/-- The answers if all goes well, apart from exceptions. -/
def answers (files : ConfFiles) (exception : (o : Op) → Option o.Res) (o : Op) (w : World) :
    o.Res :=
  (exception o).getD <|
    match o with
    | .sys _ | .remove _ | .removeTap _ => true
    | .listFiles => some (files.user.map Prod.fst)
    | .readFile path => w.content files path
    | .createTap => some (text "tap0")
    | .copyFile _ _ | .saveInfo _ => Copied.done
    | .plugin _ _ => Exec.exited (.ip4 (text "172.16.28.2") (text "ffffff00") (text "172.16.28.1"))
    | .ruleExists _ => some false
    | .loadInfo => w.info

def fresh : World := ⟨fun _ => none, none, []⟩

def ptpFails : (o : Op) → Option o.Res
  | .plugin .add call => if call.plugin = text "ptp" then some Exec.failed else none
  | _ => none

def iptablesFails : (o : Op) → Option o.Res
  | .sys .iptables => some false
  | _ => none

/-- The plugin of the second network fails, and the first one is released. -/
theorem setup_released_second : ∃ w, (setup unmarshalTwo false [] [text "all"]).Runs
      (step (twoFiles "10-user.conf")) fresh (.error (.nets (.adding (text "default") .plugin))) w ∧
    acquired w.log ≠ [] ∧ released w.log = (acquired w.log).reverse := by
  have hruns : (setup unmarshalTwo false [] [text "all"]).Runs
      (step (twoFiles "10-user.conf")) fresh
      (.error (.nets (.adding (text "default") .plugin))) _ :=
    runs_of_eval (answers (twoFiles "10-user.conf") ptpFails) rfl
  have hiff := setup_released_iff rfl hruns
  exact ⟨_, hruns, List.cons_ne_nil _ _, hiff.mpr (Or.inr ⟨rfl, rfl⟩)⟩

/-- A port is to be forwarded, and both networks are left when that fails. -/
theorem networks_left_behind : ∃ w,
    (setup unmarshalTwo false [⟨text "tcp", 80, 80⟩] [text "all"]).Runs
      (step (twoFiles "10-user.conf")) fresh (.error (.ports .iptables)) w ∧
    (acquired w.log).length = 2 ∧ attempted w.log = [] :=
  ⟨_, runs_of_eval (answers (twoFiles "10-user.conf") iptablesFails) rfl, rfl, rfl⟩

end Rkt.Networking
