import Rkt.Networking.Setup

set_option autoImplicit false

namespace Rkt.Networking

open Conc Prog
open Json (Bytes)

section

variable {files : ConfFiles} {unmarshal : Bytes → Option NetConf}

/-- The content of a file of the user or of stage1. -/
def ConfFiles.content (files : ConfFiles) : ConfPath → Option Bytes
  | .user f => files.user.lookup f
  | .stage1 f => files.stage1 f
  | .pod _ => none

variable {path : ConfPath} {b : Bytes} {nets : List ActiveNet} {w w' : World}

theorem content_of_files (h : files.content path = some b)
    (w : World) : w.content files path = some b := by
  cases path with
  | user f => exact h
  | stage1 f => exact h
  | pod f => cases h

theorem same_base {p q : ConfPath} {b b' : Bytes} (hp : files.content p = some b)
    (hq : files.content q = some b') (h : p.base = q.base) :
    p = q ∨ ∃ f, p = .user f ∧ q = .stage1 f ∨ p = .stage1 f ∧ q = .user f := by
  cases p with
  | pod f => cases hp
  | user f =>
    cases q with
    | pod f' => cases hq
    | user f' => exact Or.inl (congrArg _ h)
    | stage1 f' => exact Or.inr ⟨f, Or.inl ⟨rfl, congrArg _ h.symm⟩⟩
  | stage1 f =>
    cases q with
    | pod f' => cases hq
    | user f' => exact Or.inr ⟨f, Or.inr ⟨rfl, congrArg _ h.symm⟩⟩
    | stage1 f' => exact Or.inl (congrArg _ h)

structure Loaded (files : ConfFiles) (unmarshal : Bytes → Option NetConf) (n : ActiveNet) :
    Prop where
  parsed : unmarshal n.confBytes = some n.conf
  content : files.content n.runtime.confPath = some n.confBytes
  valid : ∀ f, n.runtime.confPath = .stage1 f → Json.validString f = true

theorem Loaded.conf_eq {n m : ActiveNet} (hn : Loaded files unmarshal n)
    (hm : Loaded files unmarshal m) (h : n.runtime.confPath = m.runtime.confPath) :
    n.conf = m.conf := by
  have hbytes : n.confBytes = m.confBytes := by
    have hcontent := hn.content
    rw [h, hm.content] at hcontent
    exact (Option.some.inj hcontent).symm
  have hparsed := hn.parsed
  rw [hbytes, hm.parsed] at hparsed
  exact (Option.some.inj hparsed).symm

/-- All networks are those of their files, unless there is an error. -/
abbrev AllLoaded (files : ConfFiles) (unmarshal : Bytes → Option NetConf) :
    Except LoadErr (List ActiveNet) → World → Prop :=
  Outcome (fun _ _ => True) fun nets _ => ∀ n ∈ nets, Loaded files unmarshal n

theorem loadNet_meets (hpath : ∀ f, path ≠ .pod f)
    (hvalid : ∀ f, path = .stage1 f → Json.validString f = true) :
    Meets (step files) (fun _ => True) (loadNet unmarshal path)
      (Outcome (fun _ _ => True) fun n _ => Loaded files unmarshal n) := by
  intro w r w' _ hruns
  obtain ⟨read, w1, hread, hruns⟩ := runs_bind.mp hruns
  have hstep : step files (.readFile path) read w = some w1 := runs_call.mp hread
  cases read with
  | none =>
    obtain ⟨rfl, -⟩ := hruns
    trivial
  | some bytes =>
    simp only [step, Option.ite_none_right_eq_some] at hstep
    cases hparse : unmarshal bytes with
    | none =>
      simp only [hparse] at hruns
      obtain ⟨rfl, -⟩ := hruns
      trivial
    | some conf =>
      simp only [hparse] at hruns
      obtain ⟨rfl, -⟩ := hruns
      refine ⟨hparse, ?_, hvalid⟩
      cases path with
      | user f => exact hstep.1
      | stage1 f => exact hstep.1
      | pod f => exact absurd rfl (hpath f)

theorem loadFiles_meets {netsLoadList names : List Bytes}
    (hnets : ∀ n ∈ nets, Loaded files unmarshal n) :
    Meets (step files) (fun _ => True) (loadFiles unmarshal netsLoadList names nets)
      (AllLoaded files unmarshal) := by
  induction names generalizing nets with
  | nil => exact Meets.ret fun _ _ => hnets
  | cons filename names ih =>
    refine Meets.ite (fun _ => ih hnets) fun _ => ?_
    refine Meets.andThen (loadNet_meets nofun nofun) fun n => Meets.given fun hn => ?_
    refine Meets.ite (fun _ => ih hnets) fun _ => Meets.ite (fun _ => ih hnets) fun _ => ?_
    exact ih (List.forall_mem_append.mpr ⟨hnets, List.forall_mem_singleton.mpr hn⟩)

theorem loadNets_loaded (netsLoadList : List Bytes) :
    Meets (step files) (fun _ => True) (loadNets unmarshal netsLoadList)
      (AllLoaded files unmarshal) := by
  have huser : Meets (step files) (fun _ => True) (loadUserNets unmarshal netsLoadList)
      (AllLoaded files unmarshal) := by
    refine Meets.bind (Q := fun _ _ => True) (fun _ _ _ _ _ => trivial) fun r => ?_
    cases r with
    | none => exact Meets.ret fun _ _ => trivial
    | some names => exact loadFiles_meets fun n hn => absurd hn List.not_mem_nil
  refine Meets.andThen huser fun nets => Meets.given fun hnets => ?_
  have hdefault : Meets (step files) (fun _ => True) (withDefault unmarshal netsLoadList nets)
      (AllLoaded files unmarshal) := by
    refine Meets.ite (fun _ => ?_) fun _ => Meets.ret fun _ _ => hnets
    have hpath : ∀ f, defaultNet netsLoadList ≠ .pod f := by
      intro f
      unfold defaultNet
      split
      · exact nofun
      · exact nofun
    have hvalid : ∀ f, defaultNet netsLoadList = .stage1 f → Json.validString f = true := by
      intro f hf
      unfold defaultNet at hf
      split at hf
      · cases hf
        decide
      · cases hf
        decide
    refine Meets.andThen (loadNet_meets hpath hvalid) fun n => Meets.given fun hn => ?_
    refine Meets.ret fun _ _ => ?_
    exact List.forall_mem_append.mpr ⟨hnets, List.forall_mem_singleton.mpr hn⟩
  refine Meets.andThen hdefault fun nets => Meets.given fun hnets => ?_
  split
  · exact Meets.ret fun _ _ => hnets
  · exact Meets.ret fun _ _ => trivial

def ActiveNet.key (n : ActiveNet) : Bytes × NetConf × Bytes :=
  (n.confBytes, n.conf, n.runtime.confPath.base)

/-- The files of the pod's directory after those of `nets` were copied into it: of two with one
base name the last one is left. -/
def copied (nets : List ActiveNet) (pod : Bytes → Option Bytes) (file : Bytes) : Option Bytes :=
  match nets.reverse.find? (·.runtime.confPath.base = file) with
  | some n => some n.confBytes
  | none => pod file

/-- Up to the network at hand, `setupNets` has copied `nets` and made `done` of them. -/
structure Copies (pod : Bytes → Option Bytes) (nets done : List ActiveNet) (w : World) : Prop where
  keys : done.map ActiveNet.key = nets.map ActiveNet.key
  inPod : ∀ n ∈ done, n.runtime.confPath = .pod n.runtime.confPath.base
  stored : w.pod = copied nets pod

variable {pod : Bytes → Option Bytes}

theorem copied_append (n : ActiveNet) : copied (nets ++ [n]) pod =
    Function.update (copied nets pod) n.runtime.confPath.base (some n.confBytes) := by
  funext file
  rw [copied, List.reverse_concat, Function.update_apply]
  by_cases hbase : file = n.runtime.confPath.base
  · rw [if_pos hbase, List.find?_cons_of_pos (by simpa using hbase.symm)]
  · rw [if_neg hbase, List.find?_cons_of_neg (by simpa using Ne.symm hbase)]
    rfl

/-- The copy of each network is that of a network with the same base name. -/
theorem copied_eq (pod : Bytes → Option Bytes) {n : ActiveNet} (hn : n ∈ nets) :
    ∃ m ∈ nets, m.runtime.confPath.base = n.runtime.confPath.base ∧
      copied nets pod n.runtime.confPath.base = some m.confBytes := by
  cases hm : nets.reverse.find? (·.runtime.confPath.base = n.runtime.confPath.base) with
  | none =>
    have hne := List.find?_eq_none.mp hm n (List.mem_reverse.mpr hn)
    exact absurd (decide_eq_true rfl) hne
  | some m =>
    refine ⟨m, List.mem_reverse.mp (List.mem_of_find?_eq_some hm), ?_, by rw [copied, hm]⟩
    simpa using List.find?_some hm

theorem execAdd_keeps_pod (n : ActiveNet) (netns : Bytes) :
    Keeps (step files) World.pod (execAdd n netns) := by
  refine Keeps.bind (Keeps.call fun w r w' h => ?_) fun r => ?_
  · cases r with
    | notFound | failed | exited =>
      cases h
      rfl
  · rcases r with _ | _ | _ | _ | _
    all_goals exact Keeps.ret

theorem copyFileToDir_ok {src dst : ConfPath} (hsrc : files.content src = some b)
    (h : (copyFileToDir src).Runs (step files) w (.ok dst) w') :
    dst = .pod src.base ∧ w' = w.write src.base b := by
  obtain ⟨r, w1, hcopy, hruns⟩ := runs_bind.mp h
  have hstep : step files (.copyFile src src.base) r w = some w1 := runs_call.mp hcopy
  cases r with
  | notOpened | broken =>
    obtain ⟨hne, -⟩ := hruns
    cases hne
  | done =>
    obtain ⟨hdst, rfl⟩ := hruns
    cases hdst
    simp only [step, content_of_files hsrc w, Option.map_some, Option.some.injEq] at hstep
    exact ⟨rfl, hstep.symm⟩

theorem setupNet_ok {i : Nat} {n n' : ActiveNet} (hn : Loaded files unmarshal n)
    (h : (setupNet i n).Runs (step files) w (.ok n') w') :
    n'.key = n.key ∧ n'.runtime.confPath = .pod n.runtime.confPath.base ∧
      w'.pod = Function.update w.pod n.runtime.confPath.base (some n.confBytes) := by
  obtain ⟨dst, w1, hcopy, hruns⟩ := runs_andThen_ok.mp h
  obtain ⟨rfl, rfl⟩ := copyFileToDir_ok hn.content hcopy
  obtain ⟨a, w2, hadd, hn', rfl⟩ := runs_andThen_ok.mp hruns
  cases hn'
  have hkeeps := Keeps.wrapError (Keeps.bind (execAdd_keeps_pod _ _) fun _ => Keeps.ret) _ _ _ hadd
  exact ⟨rfl, rfl, hkeeps⟩

theorem setupEach_ok {nets done done' todo : List ActiveNet}
    (htodo : ∀ n ∈ todo, Loaded files unmarshal n) (hw : Copies pod nets done w)
    (h : (setupEach done todo).Runs (step files) w (none, done') w') :
    Copies pod (nets ++ todo) done' w' := by
  induction todo generalizing nets done w with
  | nil =>
    obtain ⟨heq, rfl⟩ := h
    cases heq
    rw [List.append_nil]
    exact hw
  | cons n todo ih =>
    obtain ⟨hn, htodo⟩ := List.forall_mem_cons.mp htodo
    obtain ⟨r, w1, hnet, hruns⟩ := runs_bind.mp h
    cases r with
    | error e =>
      obtain ⟨hne, -⟩ := hruns
      cases hne
    | ok n' =>
      obtain ⟨hkey, hpath, hpod⟩ := setupNet_ok hn hnet
      have hnext : Copies pod (nets ++ [n]) (done ++ [n']) w1 := by
        refine ⟨?_, ?_, by rw [hpod, hw.stored, copied_append]⟩
        · rw [List.map_append, List.map_append, hw.keys, List.map_singleton, hkey]
          rfl
        · refine List.forall_mem_append.mpr ⟨hw.inPod, List.forall_mem_singleton.mpr ?_⟩
          rw [hpath]
          rfl
      have hend := ih htodo hnext hruns
      rw [List.append_assoc] at hend
      exact hend

theorem setupNets_ok {nets nets' : List ActiveNet} (hnets : ∀ n ∈ nets, Loaded files unmarshal n)
    (h : (setupNets nets).Runs (step files) w (.ok nets') w') : Copies w.pod nets nets' w' := by
  obtain ⟨_, w1, hmkdir, hruns⟩ := runs_andThen_ok.mp h
  obtain rfl : w = w1 := Option.some.inj (runs_call.mp (runs_must_ok.mp hmkdir))
  obtain ⟨a, w2, heach, hruns⟩ := runs_bind.mp hruns
  obtain ⟨err, done⟩ := a
  cases err with
  | some e =>
    obtain ⟨_, w3, -, hne, -⟩ := runs_bind.mp hruns
    cases hne
  | none =>
    obtain ⟨heq, rfl⟩ := hruns
    cases heq
    have hstart : Copies w.pod [] [] w := ⟨rfl, fun _ hn => absurd hn List.not_mem_nil, rfl⟩
    exact setupEach_ok hnets hstart heach

abbrev allWell (files : ConfFiles) : (o : Op) → World → o.Res := answers files fun _ => none

theorem loadNet_eval {w : World} {conf : NetConf}
    (hcontent : w.content files path = some b) (hparsed : unmarshal b = some conf) :
    (loadNet unmarshal path).eval (step files) (allWell files) w =
      some (.ok ⟨b, conf, { netName := conf.name, confPath := path }⟩, w) := by
  have hstep : step files (.readFile path) (some b) w = some w := if_pos hcontent
  refine (eval_call_bind hcontent hstep).trans ?_
  simp only [hparsed, eval_pure]

theorem loadNet_eval_none {w : World} (h : (w.content files path).bind unmarshal = none) :
    ∃ e, (loadNet unmarshal path).eval (step files) (allWell files) w = some (.error e, w) := by
  cases hcontent : w.content files path with
  | none =>
    have hstep : step files (.readFile path) none w = some w := rfl
    exact ⟨.read path, (eval_call_bind hcontent hstep).trans eval_pure⟩
  | some b =>
    rw [hcontent, Option.bind_some] at h
    have hstep : step files (.readFile path) (some b) w = some w := if_pos hcontent
    refine ⟨.parse path, (eval_call_bind hcontent hstep).trans ?_⟩
    simp only [h, eval_pure]

/-- The networks are loaded whose files can be read. -/
theorem loadEach_eval (w : World) (nis : List NetInfo) :
    ∃ loaded, (loadEach unmarshal nis).eval (step files) (allWell files) w = some (loaded, w) ∧
      (∀ n ∈ loaded, unmarshal n.confBytes = some n.conf) ∧ loaded.map ActiveNet.conf =
        (nis.map fun ni => (w.content files ni.confPath).bind unmarshal).filterMap id := by
  induction nis with
  | nil => exact ⟨[], rfl, fun n hn => absurd hn List.not_mem_nil, rfl⟩
  | cons ni nis ih =>
    obtain ⟨loaded, heval, hparsed, hconfs⟩ := ih
    cases hconf : (w.content files ni.confPath).bind unmarshal with
    | none =>
      obtain ⟨e, he⟩ := loadNet_eval_none hconf
      refine ⟨loaded, ?_, hparsed, by simp [hconf, hconfs]⟩
      rw [loadEach, eval_bind, he]
      simp only [Option.bind_some, eval_bind, heval, eval_pure]
    | some conf =>
      obtain ⟨b, hcontent, hb⟩ := Option.bind_eq_some_iff.mp hconf
      refine ⟨⟨b, conf, ni⟩ :: loaded, ?_, List.forall_mem_cons.mpr ⟨hb, hparsed⟩, ?_⟩
      · rw [loadEach, eval_bind, loadNet_eval hcontent hb]
        simp only [Option.bind_some, eval_bind, heval, eval_pure]
      · simp [hconf, hconfs]

theorem load_eval {w : World} {nis : List NetInfo} (hinfo : w.info = some nis)
    {loaded : List ActiveNet}
    (h : (loadEach unmarshal nis).eval (step files) (allWell files) w = some (loaded, w)) :
    (load unmarshal).eval (step files) (allWell files) w = some (.ok loaded, w) := by
  have hmust {ε : Type} (c : Sys) (e : ε) :
      (must (sys c) e).eval (step files) (allWell files) w = some (.ok (), w) := rfl
  have hstep : step files .loadInfo (some nis) w = some w := if_pos hinfo
  rw [load, andThen, eval_bind, hmust, Option.bind_some]
  refine (eval_call_bind hinfo hstep).trans ?_
  show (andThen (must (sys .openNetNS) .netNS) _).eval _ _ _ = _
  rw [andThen, eval_bind, hmust]
  simp only [Option.bind_some, eval_bind, h, eval_pure]

theorem save_ok
    (h : (save nets).Runs (step files) w true w') :
    w' = { w with info := some (nets.map fun n => n.runtime.reread) } := by
  obtain ⟨r, w1, hsave, hruns⟩ := runs_bind.mp h
  have hstep : step files (.saveInfo (nets.map (·.runtime))) r w = some w1 := runs_call.mp hsave
  cases r with
  | notOpened | broken =>
    obtain ⟨hne, -⟩ := hruns
    cases hne
  | done =>
    obtain ⟨-, rfl⟩ := hruns
    cases hstep
    rw [List.map_map]
    rfl

/-- The configuration that the plugin of a resource is given. -/
def Resource.conf (unmarshal : Bytes → Option NetConf) : Resource → Option NetConf
  | .network call => unmarshal call.stdin
  | .tap _ => none

theorem unforwardPorts_quiet : Quiet files unforwardPorts := by
  refine Keeps.bind (quiet_net rfl) fun _ => Keeps.ite ?_ Keeps.ret
  refine Keeps.bind (quiet_net rfl) fun _ => Keeps.bind (quiet_net rfl) fun _ => ?_
  exact Keeps.bind (quiet_net rfl) fun _ => Keeps.bind (quiet_net rfl) fun _ => Keeps.ret

/-- `Teardown` tries to release the networks in reverse order. -/
theorem teardown_attempts (hnone : attempted w.log = [])
    (h : (teardown false nets).Runs (step files) w true w') :
    attempted w'.log = (nets.map ActiveNet.resource).reverse := by
  have hmeets : Meets (step files) (Held (acquired w.log) []) (teardown false nets) fun r w1 =>
      r = true → attempted w1.log = (nets.map ActiveNet.resource).reverse := by
    refine Meets.ite (fun hkvm => by cases hkvm) fun _ => ?_
    refine Meets.bind (Held.meets_quiet (quiet_net rfl)) fun host => ?_
    refine Meets.ite (fun _ => ?_) fun _ => Meets.ret fun _ _ hne => by cases hne
    refine Meets.bind (Held.meets_quiet unforwardPorts_quiet) fun _ => ?_
    refine Meets.bind (teardownNets_meets nets) fun _ => ?_
    refine Meets.bind (Held.meets_quiet (quiet_net rfl)) fun _ => ?_
    exact Meets.ret fun _ h _ => h.2
  exact hmeets w true w' ⟨rfl, hnone⟩ h rfl

/-- No file of the user has the base name of a file of stage1 with another configuration. -/
def NoCollision (nets : List ActiveNet) : Prop :=
  ∀ n ∈ nets, ∀ m ∈ nets, ∀ file, n.runtime.confPath = .user file →
    m.runtime.confPath = .stage1 file → n.conf = m.conf

theorem NoCollision.conf_eq (h : NoCollision nets)
    (hloaded : ∀ n ∈ nets, Loaded files unmarshal n) {n m : ActiveNet} (hn : n ∈ nets)
    (hm : m ∈ nets) (hbase : m.runtime.confPath.base = n.runtime.confPath.base) :
    m.conf = n.conf := by
  have hpaths := same_base (hloaded m hm).content (hloaded n hn).content hbase
  rcases hpaths with hpath | ⟨f, ⟨hpath, hpath'⟩ | ⟨hpath, hpath'⟩⟩
  · exact (hloaded m hm).conf_eq (hloaded n hn) hpath
  · exact h m hm n hn f hpath hpath'
  · exact (h n hn m hm f hpath' hpath).symm

/-- The base name of a network is valid UTF-8; or else the file that `Load` then looks for is there,
and has the same configuration. -/
def Findable (unmarshal : Bytes → Option NetConf) (pod : Bytes → Option Bytes)
    (nets : List ActiveNet) (n : ActiveNet) : Prop :=
  Json.validString n.runtime.confPath.base = true ∨
    (copied nets pod (Json.reread n.runtime.confPath.base)).bind unmarshal = some n.conf

/-- The files that `Load` looks for have the configurations of their networks if and only if there
is no collision and all names are fit for JSON. -/
theorem copied_conf_iff (hloaded : ∀ n ∈ nets, Loaded files unmarshal n) :
    (∀ n ∈ nets, (copied nets pod (Json.reread n.runtime.confPath.base)).bind unmarshal =
      some n.conf) ↔ NoCollision nets ∧ ∀ n ∈ nets, Findable unmarshal pod nets n := by
  constructor
  · refine fun hconf => ⟨fun n hn m hm file hpath hpath' => ?_, fun n hn => .inr (hconf n hn)⟩
    have hvalid : Json.validString file = true := (hloaded m hm).valid file hpath'
    have hread : Json.reread n.runtime.confPath.base = Json.reread m.runtime.confPath.base := by
      rw [hpath, hpath']
      rfl
    have hfirst := hconf n hn
    rw [hread, hconf m hm] at hfirst
    exact (Option.some.inj hfirst).symm
  · rintro ⟨hno, hfind⟩ n hn
    rcases hfind n hn with hvalid | hconf
    · obtain ⟨m, hm, hbase, hcopy⟩ := copied_eq pod hn
      rw [Json.reread_of_valid hvalid, hcopy, Option.bind_some, (hloaded m hm).parsed,
        hno.conf_eq hloaded hn hm hbase]
    · exact hconf

theorem Copies.map_key {nets nets' : List ActiveNet} {w : World} (h : Copies pod nets nets' w)
    {α : Type} (f : Bytes × NetConf × Bytes → α) :
    nets'.map (fun n => f n.key) = nets.map fun n => f n.key := by
  have hmap := congrArg (List.map f) h.keys
  rw [List.map_map, List.map_map] at hmap
  exact hmap

/-- What `Load` makes of what was saved. -/
theorem Copies.saved_confs {nets nets' : List ActiveNet} (h : Copies pod nets nets' w)
    (hpod : w'.pod = w.pod) :
    (nets'.map fun n => n.runtime.reread).map
        (fun ni => (w'.content files ni.confPath).bind unmarshal) =
      nets.map fun n =>
        (copied nets pod (Json.reread n.runtime.confPath.base)).bind unmarshal := by
  rw [List.map_map]
  calc nets'.map (fun n => (w'.content files n.runtime.confPath.reread).bind unmarshal)
      = nets'.map fun n =>
          (copied nets pod (Json.reread n.runtime.confPath.base)).bind unmarshal := by
        refine List.map_congr_left fun n hn => ?_
        rw [h.inPod n hn, ← h.stored, ← hpod]
        rfl
    _ = nets.map fun n => (copied nets pod (Json.reread n.runtime.confPath.base)).bind unmarshal :=
        h.map_key fun k => (copied nets pod (Json.reread k.2.2)).bind unmarshal

/-- **A network is loaded with the configuration that it was added with**, and is torn down with it,
if and only if no file of the user that was loaded has the base name of a file that was loaded from
stage1 and has another configuration, and the names of the files can be written in JSON. -/
theorem loaded_as_added_iff {netsLoadList : List Bytes} {nets nets' : List ActiveNet}
    {w w₁ w₂ w₃ : World} (hlog : w.log = [])
    (hload : (loadNets unmarshal netsLoadList).Runs (step files) w (.ok nets) w₁)
    (hsetup : (setupNets nets).Runs (step files) w₁ (.ok nets') w₂)
    (hsave : (save nets').Runs (step files) w₂ true w₃) :
    ∃ loaded, (load unmarshal).eval (step files) (allWell files) w₃ = some (.ok loaded, w₃) ∧
      (∀ w₄, (teardown false loaded).Runs (step files) w₃ true w₄ →
        (attempted w₄.log).map (Resource.conf unmarshal) =
          (loaded.map fun n => some n.conf).reverse) ∧
      (loaded.map (fun n => some n.conf) = (acquired w₂.log).map (Resource.conf unmarshal) ↔
        NoCollision nets ∧ ∀ n ∈ nets, Findable unmarshal w₁.pod nets n) := by
  have hloaded : ∀ n ∈ nets, Loaded files unmarshal n :=
    loadNets_loaded netsLoadList w _ w₁ trivial hload
  have hcopies := setupNets_ok hloaded hsetup
  have hheld : Held (nets'.map ActiveNet.resource) [] w₂ := by
    refine setupNets_meets nets w₁ _ w₂ ?_ hsetup
    rw [Held, loadNets_quiet w _ w₁ hload, hlog]
    exact ⟨rfl, rfl⟩
  obtain rfl := save_ok hsave
  have hadded : (acquired w₂.log).map (Resource.conf unmarshal) =
      nets.map fun n => some n.conf := by
    rw [hheld.1, List.map_map]
    calc nets'.map (fun n => unmarshal n.confBytes)
        = nets.map fun n => unmarshal n.confBytes := hcopies.map_key fun k => unmarshal k.1
      _ = nets.map fun n => some n.conf :=
        List.map_congr_left fun n hn => (hloaded n hn).parsed
  set w₃ : World := { w₂ with info := some (nets'.map fun n => n.runtime.reread) } with hw₃
  obtain ⟨loaded, heval, hparsed, hconfs⟩ :=
    @loadEach_eval files unmarshal w₃ (nets'.map fun n => n.runtime.reread)
  refine ⟨loaded, load_eval rfl heval, ?_, ?_⟩
  · intro w₄ hdown
    have hnone : attempted w₃.log = [] := hheld.2
    rw [teardown_attempts hnone hdown, List.map_reverse, List.map_map]
    exact congrArg List.reverse (List.map_congr_left hparsed)
  · have hmaps : loaded.map (fun n => some n.conf) = nets.map (fun n => some n.conf) ↔
        loaded.map ActiveNet.conf = nets.map ActiveNet.conf := by
      rw [← (Option.some_injective NetConf).list_map.eq_iff, List.map_map, List.map_map]
      rfl
    rw [hadded, hmaps, hconfs, hcopies.saved_confs (show w₃.pod = w₂.pod from rfl),
      ← copied_conf_iff hloaded, ← List.filterMap_eq_map_iff_forall_eq_some,
      List.filterMap_map]
    rfl

end

theorem save_runs (files : ConfFiles) (nets : List ActiveNet) (w : World) :
    (save nets).Runs (step files) w true
      { w with info := some ((nets.map (·.runtime)).map NetInfo.reread) } :=
  runs_bind.mpr ⟨.done, _, runs_call.mpr rfl, rfl, rfl⟩

def twoNets (user : String) : List ActiveNet :=
  [⟨userConf.marshal, userConf, { netName := userConf.name, confPath := .user (text user) }⟩,
    ⟨defaultConf.marshal, defaultConf,
      { netName := defaultConf.name, confPath := .stage1 (text "99-default.conf") }⟩]

/-- The two networks are loaded as they were added. -/
theorem loaded_as_added_two : ∃ nets' w₂ w₃ loaded,
    (loadNets unmarshalTwo [text "all"]).Runs (step (twoFiles "10-user.conf")) fresh
        (.ok (twoNets "10-user.conf")) fresh ∧
      (setupNets (twoNets "10-user.conf")).Runs (step (twoFiles "10-user.conf")) fresh (.ok nets')
        w₂ ∧
      (save nets').Runs (step (twoFiles "10-user.conf")) w₂ true w₃ ∧
      (load unmarshalTwo).eval (step (twoFiles "10-user.conf")) (allWell (twoFiles "10-user.conf"))
        w₃ = some (.ok loaded, w₃) ∧
      loaded.map (fun n => some n.conf) = (acquired w₂.log).map (Resource.conf unmarshalTwo) := by
  have hload : (loadNets unmarshalTwo [text "all"]).Runs (step (twoFiles "10-user.conf")) fresh
      (.ok (twoNets "10-user.conf")) fresh :=
    runs_of_eval (allWell (twoFiles "10-user.conf")) rfl
  obtain ⟨nets', w₂, hsetup⟩ : ∃ nets' w₂, (setupNets (twoNets "10-user.conf")).Runs
      (step (twoFiles "10-user.conf")) fresh (.ok nets') w₂ :=
    ⟨_, _, runs_of_eval (allWell (twoFiles "10-user.conf")) rfl⟩
  have hsave := save_runs (twoFiles "10-user.conf") nets' w₂
  have hutf8 : ∀ n ∈ twoNets "10-user.conf", Json.validString n.runtime.confPath.base = true := by
    decide
  obtain ⟨loaded, heval, -, hiff⟩ := loaded_as_added_iff rfl hload hsetup hsave
  refine ⟨nets', w₂, _, loaded, hload, hsetup, hsave, heval, hiff.mpr ⟨?_, fun n hn =>
    .inl (hutf8 n hn)⟩⟩
  -- the two base names differ
  intro n hn m hm file hpath hpath'
  have hne : text "10-user.conf" ≠ text "99-default.conf" := by decide
  simp only [twoNets, List.mem_cons, List.not_mem_nil, or_false] at hn hm
  rcases hn with rfl | rfl
  · rcases hm with rfl | rfl
    · cases hpath'
    · cases hpath
      exact absurd (ConfPath.stage1.inj hpath').symm hne
  · cases hpath

/-- The network of the user is loaded, and torn down, with the configuration of stage1. -/
theorem user_network_replaced : ∃ nets' w₂ w₃ loaded,
    (loadNets unmarshalTwo [text "all"]).Runs (step (twoFiles "99-default.conf")) fresh
        (.ok (twoNets "99-default.conf")) fresh ∧
      (setupNets (twoNets "99-default.conf")).Runs (step (twoFiles "99-default.conf")) fresh
        (.ok nets') w₂ ∧
      (save nets').Runs (step (twoFiles "99-default.conf")) w₂ true w₃ ∧
      (load unmarshalTwo).eval (step (twoFiles "99-default.conf"))
        (allWell (twoFiles "99-default.conf")) w₃ = some (.ok loaded, w₃) ∧
      (acquired w₂.log).map (Resource.conf unmarshalTwo) = [some userConf, some defaultConf] ∧
      loaded.map (fun n => some n.conf) = [some defaultConf, some defaultConf] :=
  ⟨_, _, _, _, runs_of_eval (allWell (twoFiles "99-default.conf")) rfl,
    runs_of_eval (allWell (twoFiles "99-default.conf")) rfl, save_runs _ _ _, rfl, rfl, rfl⟩

end Rkt.Networking
