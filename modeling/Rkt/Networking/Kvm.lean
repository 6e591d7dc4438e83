import Rkt.Conc.Trace
import Rkt.Networking.Setup

set_option autoImplicit false

namespace Rkt.Networking

open Conc Prog
open Json (Bytes)

inductive Allocation where
  | tap (name : Bytes)
  | address (call : PluginCall)
  /-- The chain is made of the name of the network and the identifier of the pod. -/
  | masquerade (netName : Bytes) (ip mask : IP)
  deriving DecidableEq, Repr

def allocates : (o : Op) → o.Res → Option Allocation
  | .createTap, (r : Option Bytes) => r.map .tap
  | .plugin .add call, (r : Exec) => if r.isExited then some (.address call) else none
  | .sys (.setupIPMasq name ip mask), (r : Bool) =>
    if r then some (.masquerade name ip mask) else none
  | _, _ => none

/-- The operation gives something back, or tries to. -/
def givesBack : (o : Op) → o.Res → Option Allocation
  | .removeTap name, _ => some (.tap name)
  | .plugin .del call, _ => some (.address call)
  | .sys (.teardownIPMasq name ip mask), _ => some (.masquerade name ip mask)
  | _, _ => none

def ActiveNet.masquerades (n : ActiveNet) : List Allocation :=
  if n.conf.ipMasq then [.masquerade n.conf.name n.runtime.ip n.runtime.mask] else []

def ActiveNet.allocations (n : ActiveNet) : List Allocation :=
  [.tap n.runtime.ifName, .address (n.call n.runtime.ifName)] ++ n.masquerades

/-- The hack: the IPAM plugin is called in place of the one of the network. -/
def ActiveNet.ipam (n : ActiveNet) : ActiveNet :=
  { n with conf := { n.conf with type := n.conf.ipam.type } }

/-- What `teardownKvmNets` gives back for a network. -/
def ActiveNet.returns (n : ActiveNet) : List Allocation :=
  if n.conf.type = text "ptp" then
    .tap n.runtime.ifName :: n.masquerades ++ [.address (n.ipam.call n.runtime.ifName)]
  else []

section setup

variable {files : ConfFiles} {unmarshal : Bytes → Option NetConf} {ε α : Type} {A : List Allocation}

def Took (A : List Allocation) (s : World × List (Done netSig)) : Prop := sight allocates s.2 = A

/-- The program starts with `A` allocated, and `Q` is true if it ends without an error. -/
abbrev Allocates (files : ConfFiles) (A : List Allocation) (x : NetProg (Except ε α))
    (Q : α → World × List (Done netSig) → Prop) : Prop :=
  Meets (traced (step files)) (Took A) x (Outcome (fun _ _ => True) Q)

theorem Plain.unseen {α : Type} {x : NetProg α} (hx : Plain x) :
    x.All fun o => ∀ r, allocates o r = none := by
  refine hx.mono fun (o : Op) ho r => ?_
  cases o with
  | sys c => cases c <;> first | rfl | cases ho
  | plugin | createTap | removeTap => cases ho
  | _ => rfl

theorem Plain.allocates {x : NetProg (Except ε α)} (hx : Plain x) :
    Allocates files A x fun _ => Took A := by
  refine ((Keeps.unseen hx.unseen).meets (· = A)).post fun r s h => ?_
  cases r with
  | error e => trivial
  | ok a => exact h

theorem must_allocates {c : Sys} {e : ε} (hc : (Op.sys c).isPlain = true) :
    Allocates files A (must (sys c) e) fun _ => Took A :=
  Plain.allocates (All.must (all_call hc))

theorem setupTapDevice_allocates :
    Allocates files A setupTapDevice fun ifName => Took (A ++ [.tap ifName]) := by
  have hcreate : Meets (traced (step files)) (Took A) (net .createTap) fun r =>
      Took (A ++ (allocates .createTap r).toList) :=
    Meets.traced_call _ A
  refine Meets.bind hcreate fun r => ?_
  cases r with
  | none => exact Meets.ret fun _ _ => trivial
  | some ifName =>
    refine Meets.andThen (must_allocates rfl) fun _ => ?_
    exact Meets.andThen (must_allocates rfl) fun _ => Meets.ret fun _ h => h

theorem execAdd_allocates (n : ActiveNet) (netns : Bytes) :
    Allocates files A (execAdd n netns) fun _ => Took (A ++ [.address (n.call netns)]) := by
  have hadd : Meets (traced (step files)) (Took A) (net (.plugin .add (n.call netns))) fun r =>
      Took (A ++ (allocates (.plugin .add (n.call netns)) r).toList) :=
    Meets.traced_call _ A
  refine Meets.bind hadd fun r => ?_
  rcases r with _ | _ | _ | _ | _
  · exact Meets.ret fun _ _ => trivial
  · exact Meets.ret fun _ _ => trivial
  · exact Meets.ret fun _ _ => trivial
  · exact Meets.ret fun _ _ => trivial
  · exact Meets.ret fun _ h => h

theorem kvmSetupNetAddressing_allocates (n : ActiveNet) (ifName : Bytes) :
    Allocates files A (kvmSetupNetAddressing n ifName) fun n' s =>
      Took (A ++ [.address (n'.call ifName)]) s ∧ n'.conf.type = n'.conf.ipam.type ∧
        n'.runtime.ifName = n.runtime.ifName := by
  refine Meets.andThen (must_allocates rfl) fun _ => ?_
  refine Meets.andThen (Meets.wrapError (execAdd_allocates _ ifName) fun _ _ h => h) fun a => ?_
  exact Meets.ret fun s h => ⟨h, rfl, rfl⟩

theorem setupIPMasq_allocates (n : ActiveNet) : Allocates files A (if n.conf.ipMasq then
        must (sys (.setupIPMasq n.conf.name n.runtime.ip n.runtime.mask)) KvmErr.ipMasq
      else return .ok ()) fun _ => Took (A ++ n.masquerades) := by
  unfold ActiveNet.masquerades
  split
  · have hmasq : Meets (traced (step files)) (Took A)
        (sys (.setupIPMasq n.conf.name n.runtime.ip n.runtime.mask)) fun r =>
        Took (A ++ (allocates (.sys (.setupIPMasq n.conf.name n.runtime.ip n.runtime.mask))
          r).toList) :=
      Meets.traced_call _ A
    refine Meets.bind hmasq fun r => ?_
    cases r with
    | false => exact Meets.ret fun _ _ => trivial
    | true => exact Meets.ret fun _ h => h
  · rw [List.append_nil]
    exact Meets.ret fun _ h => h

/-- The loop: all networks so far have got what they need, and have lost their type. -/
theorem kvmSetupEach_allocates (done nets : List ActiveNet)
    (hdone : ∀ n ∈ done, n.conf.type = n.conf.ipam.type) :
    Allocates files (done.flatMap ActiveNet.allocations) (kvmSetupEach done nets) fun nets' s =>
      Took (nets'.flatMap ActiveNet.allocations) s ∧
        ∀ n ∈ nets', n.conf.type = n.conf.ipam.type := by
  induction nets generalizing done with
  | nil => exact Meets.ret fun _ h => ⟨h, hdone⟩
  | cons n nets ih =>
    refine Meets.ite (fun _ => ?_) fun _ => Meets.ret fun _ _ => trivial
    refine Meets.andThen setupTapDevice_allocates fun ifName => ?_
    refine Meets.andThen (kvmSetupNetAddressing_allocates _ ifName) fun n' => ?_
    rintro s a s' ⟨htook, htype, hname⟩
    have hname : n'.runtime.ifName = ifName := hname
    refine (Meets.andThen (must_allocates rfl) fun _ =>
      Meets.andThen (setupIPMasq_allocates n') fun _ => ?_) s a s' htook
    have hdone' : ∀ m ∈ done ++ [n'], m.conf.type = m.conf.ipam.type := by
      intro m hm
      rcases List.mem_append.mp hm with hm | hm
      · exact hdone m hm
      · rw [List.mem_singleton.mp hm]
        exact htype
    refine (ih (done ++ [n']) hdone').pre fun s h => ?_
    rw [List.flatMap_append, List.flatMap_singleton, ActiveNet.allocations, hname]
    simpa [Took] using h

theorem kvmSetup_allocates (fps : List ForwardedPort) (privateNetList : List Bytes) :
    Allocates files [] (kvmSetup unmarshal fps privateNetList) fun nets s =>
      Took (nets.flatMap ActiveNet.allocations) s ∧ ∀ n ∈ nets, n.conf.type = n.conf.ipam.type := by
  refine Meets.andThen (Meets.wrapError loadNets_plain.allocates fun _ _ h => h) fun nets => ?_
  have hnone : ∀ n ∈ ([] : List ActiveNet), n.conf.type = n.conf.ipam.type := by simp
  refine Meets.andThen (Meets.wrapError (kvmSetupEach_allocates [] nets hnone) fun _ _ h => h) ?_
  intro nets'
  rintro s a s' ⟨htook, htype⟩
  have hports : Allocates files (nets'.flatMap ActiveNet.allocations)
      (forwardPorts fps (getDefaultIP nets')) fun _ => Took (nets'.flatMap ActiveNet.allocations) :=
    (forwardPorts_plain fps _).allocates
  refine (Meets.andThen (Meets.wrapError hports fun _ _ h => h) fun _ => ?_) s a s' htook
  exact Meets.ret fun _ h => ⟨h, htype⟩

end setup

section teardown

variable {files : ConfFiles} {D : List Allocation}

def Gave (D : List Allocation) (s : World × List (Done netSig)) : Prop := sight givesBack s.2 = D

theorem teardownKvmNets_gives (nets : List ActiveNet) :
    Meets (traced (step files)) (Gave D) (teardownKvmNets nets) fun _ =>
      Gave (D ++ nets.flatMap ActiveNet.returns) := by
  induction nets generalizing D with
  | nil =>
    rw [List.flatMap_nil, List.append_nil]
    exact Meets.ret fun _ h => h
  | cons n nets ih =>
    rw [List.flatMap_cons, ← List.append_assoc]
    -- what is done last for the network, and then for the others
    have hlast (D : List Allocation) : Meets (traced (step files)) (Gave D)
        (net (.plugin .del (n.ipam.call n.runtime.ifName)) >>= fun _ => teardownKvmNets nets)
        fun _ => Gave (D ++ [.address (n.ipam.call n.runtime.ifName)] ++
          nets.flatMap ActiveNet.returns) :=
      Meets.bind (Meets.traced_call _ D) fun _ => ih
    unfold teardownKvmNets
    refine Meets.ite (fun htype => ?_) fun htype => ?_
    · have hreturns : n.returns = .tap n.runtime.ifName :: n.masquerades ++
          [.address (n.ipam.call n.runtime.ifName)] := if_pos htype
      rw [hreturns]
      refine Meets.bind (Meets.traced_call _ D) fun _ => ?_
      refine Meets.ite (fun hmasq => ?_) fun hmasq => ?_
      · refine Meets.bind (Meets.traced_call _ _) fun _ => ?_
        refine (hlast _).post fun _ s h => ?_
        simpa [Gave, ActiveNet.masquerades, hmasq, givesBack] using h
      · refine (hlast _).post fun _ s h => ?_
        simpa [Gave, ActiveNet.masquerades, hmasq, givesBack] using h
    · have hreturns : n.returns = [] := if_neg htype
      rw [hreturns, List.append_nil]
      exact ih

end teardown

theorem returns_perm {n : ActiveNet} (htype : n.conf.type = n.conf.ipam.type)
    (hptp : n.conf.ipam.type = text "ptp") : n.returns.Perm n.allocations := by
  have hsame : n.ipam = n := by
    unfold ActiveNet.ipam
    rw [← htype]
  rw [ActiveNet.returns, if_pos (htype.trans hptp), hsame]
  refine List.Perm.cons _ ?_
  exact List.perm_append_comm

theorem length_returns (n : ActiveNet) (htype : n.conf.type = n.conf.ipam.type) :
    n.returns.length ≤ n.allocations.length ∧
      (n.conf.ipam.type ≠ text "ptp" → n.returns.length < n.allocations.length) := by
  by_cases hptp : n.conf.ipam.type = text "ptp"
  · exact ⟨(returns_perm htype hptp).length_eq.le, fun h => absurd hptp h⟩
  · rw [ActiveNet.returns, if_neg (htype ▸ hptp)]
    simp [ActiveNet.allocations]

/-- **When the networks are torn down.** After `kvmSetup` has returned its networks, what
`teardownKvmNets` gives back for them is exactly what was allocated, if and only if the IPAM type
of every network is `ptp`. -/
theorem teardown_complete_iff {files files' : ConfFiles} {unmarshal : Bytes → Option NetConf}
    {fps : List ForwardedPort} {privateNetList : List Bytes} {nets : List ActiveNet}
    {w w₁ w₂ w₃ : World} {t t' : List (Done netSig)}
    (hsetup : (kvmSetup unmarshal fps privateNetList).Runs (traced (step files)) (w, [])
      (.ok nets) (w₁, t))
    (hdown : (teardownKvmNets nets).Runs (traced (step files')) (w₂, []) () (w₃, t')) :
    (sight givesBack t').Perm (sight allocates t) ↔
      ∀ n ∈ nets, n.conf.ipam.type = text "ptp" := by
  have hnothing : Took [] (w, []) := rfl
  obtain ⟨htook, htype⟩ := kvmSetup_allocates fps privateNetList _ _ _ hnothing hsetup
  have hnothing' : Gave [] (w₂, []) := rfl
  have hgave := teardownKvmNets_gives nets _ _ _ hnothing' hdown
  rw [show sight allocates t = _ from htook, show sight givesBack t' = _ from hgave,
    List.nil_append]
  constructor
  · -- a network of another type would be missing
    intro hperm
    by_contra hne
    push Not at hne
    obtain ⟨n, hn, hptp⟩ := hne
    have hlt : (nets.map (·.returns.length)).sum < (nets.map (·.allocations.length)).sum :=
      List.sum_lt_sum _ _ (fun m hm => (length_returns m (htype m hm)).1)
        ⟨n, hn, (length_returns n (htype n hn)).2 hptp⟩
    have hlen := hperm.length_eq
    rw [List.length_flatMap, List.length_flatMap] at hlen
    omega
  · exact fun hptp => List.Perm.flatMap_left _ fun n hn => returns_perm (htype n hn) (hptp n hn)

/-- Stage1 has the network `c`, and the user has none. -/
def stage1Only (c : NetConf) : ConfFiles where
  user := []
  stage1 := fun _ => some c.marshal

def goesWell (c : NetConf) (o : Op) (s : World × List (Done netSig)) : o.Res :=
  answers (stage1Only c) (fun _ => none) o s.1

def setUpNet (c : NetConf) : ActiveNet where
  confBytes := c.marshal
  conf := { c with type := c.ipam.type }
  runtime :=
    { netName := c.name, confPath := .stage1 (text "99-default-restricted.conf"),
      ifName := text "tap0", ip := text "172.16.28.2", mask := text "ffffff00",
      hostIP := text "172.16.28.1" }

/-- A network whose IPAM type is that of the network. -/
def ptpConf : NetConf := { defaultConf with ipam := { type := text "ptp" } }

theorem teardown_complete_ptp : ∃ w t w' t',
    (kvmSetup (fun _ => some ptpConf) [] []).Runs (traced (step (stage1Only ptpConf))) (fresh, [])
      (.ok [setUpNet ptpConf]) (w, t) ∧
    (teardownKvmNets [setUpNet ptpConf]).Runs (traced (step (stage1Only ptpConf))) (fresh, []) ()
      (w', t') ∧
    (sight givesBack t').Perm (sight allocates t) := by
  have hsetup : (kvmSetup (fun _ => some ptpConf) [] []).Runs (traced (step (stage1Only ptpConf)))
      (fresh, []) (.ok [setUpNet ptpConf]) (_, _) := runs_of_eval (goesWell ptpConf) rfl
  have hdown : (teardownKvmNets [setUpNet ptpConf]).Runs (traced (step (stage1Only ptpConf)))
      (fresh, []) () (_, _) := runs_of_eval (goesWell ptpConf) rfl
  refine ⟨_, _, _, _, hsetup, hdown, (teardown_complete_iff hsetup hdown).mpr fun n hn => ?_⟩
  rw [List.mem_singleton.mp hn]
  rfl

/-- **Nothing of the default network is given back**: its tap device, its address and its
masquerading rule are left. -/
theorem teardown_leaves_default : ∃ w t w' t',
    (kvmSetup (fun _ => some defaultConf) [] []).Runs (traced (step (stage1Only defaultConf)))
      (fresh, []) (.ok [setUpNet defaultConf]) (w, t) ∧
    (teardownKvmNets [setUpNet defaultConf]).Runs (traced (step (stage1Only defaultConf))) (w, [])
      () (w', t') ∧
    (sight allocates t).length = 3 ∧ sight givesBack t' = [] :=
  ⟨_, _, _, _, runs_of_eval (goesWell defaultConf) rfl, runs_of_eval (goesWell defaultConf) rfl,
    rfl, rfl⟩

end Rkt.Networking
