import Rkt.Conc.Call
import Rkt.Pods.Lifecycle

set_option autoImplicit false

namespace Rkt.Pods

open Conc Prog Proto

/-- `p.Close()` at the end, if there is a pod. -/
def closePod : Except Err Pod → Prog podSig Unit
  | .error _ => return ()
  | .ok p => sys (.close p.lock)

/-- `rkt status` and `rkt enter`, as far as the pods directory is concerned. -/
def lookUp (u : UUID) : Prog podSig Unit := getPod u >>= closePod

/-- A command that changes pods, or one that looks a pod up. -/
inductive Process where
  | command (cmd : Command)
  | lookUp (u : UUID)

def Process.prog : Process → Prog podSig Unit
  | .command cmd => cmd.prog
  | .lookUp u => Pods.lookUp u

/-- No pod exists and each process is about to run. -/
def launch (procs : Pid → Process) : Config podSig World := ⟨World.empty, fun p => (procs p).prog⟩

section

variable {p q r : Pid} {u : UUID} {c c' : Config podSig World} {procs : Pid → Process}

theorem lookUp_triple : podProto.Triple p (fun s => s.Bystander p) (lookUp u)
    (fun _ _ => True) := by
  refine Triple.attempt getPod_triple (fun x => ?_) fun e => Triple.ret fun _ _ => trivial
  rintro s ⟨hb, hseen⟩
  exact (close_triple hseen.lock.1).post (fun _ _ _ => trivial) s hb

theorem launch_ok (procs : Pid → Process) : podProto.Ok (launch procs) := by
  refine ⟨inv_empty, fun p => ?_⟩
  have hb : World.empty.Bystander p := fun _ => ⟨by simp [World.empty], by simp [World.empty]⟩
  show podProto.Safe p (procs p).prog _ World.empty
  cases procs p with
  | command cmd => exact cmd.triple _ hb
  | lookUp u => exact lookUp_triple _ hb

theorem runner_of_run (hr : Reach podMachine (launch procs) c) (hu : u ∈ c.shared.dirs .run) :
    ∃ q, c.shared.runner u = some q := by
  have step : ∀ c c', podProto.Ok c ∧ (∀ u ∈ c.shared.dirs .run, ∃ q, c.shared.runner u = some q) →
      Step podMachine c c' →
      podProto.Ok c' ∧ ∀ u ∈ c'.shared.dirs .run, ∃ q, c'.shared.runner u = some q := by
    rintro c c' ⟨hok, h⟩ hs
    obtain ⟨⟨q, hg⟩, hok'⟩ := hok.step hs
    refine ⟨hok', fun u hu => ?_⟩
    by_cases hbefore : u ∈ c.shared.dirs .run
    · obtain ⟨q', hq'⟩ := h u hbefore
      exact ⟨q', Guar.runner hg u q' hq'⟩
    · exact ⟨q, (Guar.enters hg u hbefore hu).2⟩
  refine (Reach.invariant step hr ⟨launch_ok procs, fun u hu => ?_⟩).2 u hu
  simp [launch, World.empty] at hu

/-- The process that brings a pod into `run` is alive when it has done so. -/
theorem entered_alive (hok : podProto.Ok c) (hs : Step podMachine c c')
    (hnone : c.shared.runner u = none) (hq : c'.shared.runner u = some q) : q ∉ c'.shared.dead := by
  obtain ⟨⟨p, hg⟩, -⟩ := hok.step hs
  obtain ⟨rfl, -, halive, -⟩ := Guar.entered hg u q hnone hq
  cases hs with
  | run p' o k a s' hp hn =>
    rw [Config.set_shared, (next_frame (podMachine_next hn).2).1]
    exact halive
  | die p' =>
    have hsame : c.shared.runner u = some q := hq
    rw [hnone] at hsame
    cases hsame

/-- One probe of `openPod`: the pod is in `d`, or the search goes on, or it ends with an error. -/
theorem probe_witnessed {d : Dir} {f : Except Errno Fd → Prog podSig (Except Err Pod)}
    {R : Except Err Pod → World → Prop} (hfound : ∀ fd, ∃ b, f (.ok fd) = pure b ∧
      ∀ s : World, u ∈ s.dirs d → R b s)
    (hblock : Witnessed podMachine r (f (.error .wouldblock)) R)
    (hother : Witnessed podMachine r (f (.error .other)) R)
    (hnext : Witnessed podMachine r (f (.error .noent)) R) :
    Witnessed podMachine r (sys (.newLock d u) >>= f) R := by
  have hopen : Witnessed podMachine r (sys (.newLock d u))
      fun a s => ∀ fd, a = .ok fd → u ∈ s.dirs d := by
    refine Witnessed.call fun a s s' hn fd ha => ?_
    subst ha
    exact (Option.ite_none_right_eq_some.mp (podMachine_next hn).2).1.1
  refine Witnessed.bind hopen fun a => ?_
  cases a with
  | ok fd =>
    obtain ⟨b, hb, hR⟩ := hfound fd
    rw [hb]
    exact Witnessed.ret fun s => .inr fun s1 hs1 => hR s1 (hs1 fd rfl)
  | error e =>
    cases e with
    | noent => exact hnext.mono fun _ _ h => .inl h
    | wouldblock => exact hblock.mono fun _ _ h => .inl h
    | other => exact hother.mono fun _ _ h => .inl h

/-- The pod value comes from the directory the pod was in. -/
def OpenedFrom (u : UUID) (a : Except Err Pod) (s : World) : Prop :=
  ∀ x, a = .ok x → ∃ d fd, x = openedIn d fd u ∧ u ∈ s.dirs d

theorem openPod_witnessed : Witnessed podMachine r (openPod u) (OpenedFrom u) := by
  have stop : ∀ e, Witnessed podMachine r (pure (.error e) : Prog podSig (Except Err Pod))
      (OpenedFrom u) := fun e => Witnessed.ret fun s x hx => by cases hx
  have found : ∀ d fd, ∃ b, (pure (.ok (openedIn d fd u)) : Prog podSig (Except Err Pod)) = pure b ∧
      ∀ s : World, u ∈ s.dirs d → OpenedFrom u b s := by
    refine fun d fd => ⟨_, rfl, fun s hs x hx => ?_⟩
    cases hx
    exact ⟨d, fd, rfl, hs⟩
  refine probe_witnessed (found .embryo) (stop _) (stop _) ?_
  refine probe_witnessed (found .prepare) (stop _) (stop _) ?_
  refine probe_witnessed (found .prepared) (stop _) (stop _) ?_
  refine probe_witnessed (found .run) (stop _) (stop _) ?_
  refine probe_witnessed (found .exitedGarbage) (stop _) (stop _) ?_
  exact probe_witnessed (found .garbage) (stop _) (stop _) (stop _)

theorem testLock_witnessed (x : Pod) : Witnessed podMachine r (testLock x)
    fun a _ => ∀ y, a = .ok y → y = x ∨ y = x.locked := by
  have same : Witnessed podMachine r (pure (.ok x) : Prog podSig (Except Err Pod))
      fun a _ => ∀ y, a = .ok y → y = x ∨ y = x.locked :=
    Witnessed.ret fun _ y hy => by cases hy; exact .inl rfl
  have fail : ∀ e, Witnessed podMachine r
      (do sys (.close x.lock); return .error e : Prog podSig (Except Err Pod))
      fun a _ => ∀ y, a = .ok y → y = x ∨ y = x.locked :=
    fun e => Witnessed.later fun _ => Witnessed.ret fun _ y hy => by cases hy
  refine Witnessed.ite (fun _ => Witnessed.later fun a => ?_) fun _ => same
  match a with
  | .ok () => exact Witnessed.later fun _ => same
  | .error .wouldblock => exact Witnessed.ret fun _ y hy => by cases hy; exact .inr rfl
  | .error .noent => exact fail _
  | .error .other => exact fail _

theorem loadNets_witnessed (x : Pod) : Witnessed podMachine r (loadNets x)
    fun a _ => ∀ y, a = .ok y → y = x := by
  have same : Witnessed podMachine r (pure (.ok x) : Prog podSig (Except Err Pod))
      fun a _ => ∀ y, a = .ok y → y = x := Witnessed.ret fun _ y hy => by cases hy; rfl
  have fail : ∀ e, Witnessed podMachine r (pure (.error e) : Prog podSig (Except Err Pod))
      fun a _ => ∀ y, a = .ok y → y = x := fun e => Witnessed.ret fun _ y hy => by cases hy
  refine Witnessed.ite (fun _ => Witnessed.later fun a => ?_) fun _ => same
  match a with
  | .ok () => exact same
  | .error .noent => exact same
  | .error .wouldblock => exact fail _
  | .error .other => exact fail _

theorem run_of_isRunning {d : Dir} {fd : Fd} {y : Pod}
    (hy : y = openedIn d fd u ∨ y = (openedIn d fd u).locked) (hrun : y.isRunning = true) :
    d = .run := by
  rcases hy with rfl | rfl <;> cases d <;> simp [openedIn, Pod.locked, Pod.isRunning] at hrun ⊢

/-- The pod was in `run` at a moment of the call, if it is reported as running. -/
def RunSeen (u : UUID) (a : Except Err Pod) (s : World) : Prop :=
  ∀ x, a = .ok x → x.isRunning = true → u ∈ s.dirs .run

theorem getPod_witnessed : Witnessed podMachine r (getPod u) (RunSeen u) := by
  have stop : ∀ {B : Except Err Pod → World → Prop} (e : Err), Witnessed podMachine r
      (pure (.error e) : Prog podSig (Except Err Pod)) fun a s => RunSeen u a s ∨ B a s :=
    fun e => Witnessed.ret fun s => .inl fun x hx => by cases hx
  refine Witnessed.later fun a => ?_
  cases a with
  | error e => exact Witnessed.ret fun s x hx => by cases hx
  | ok _ =>
    refine Witnessed.bind openPod_witnessed fun a => ?_
    cases a with
    | error e => exact stop e
    | ok x =>
      refine Witnessed.bind (testLock_witnessed x) fun a => ?_
      cases a with
      | error e => exact Witnessed.ret fun s => .inl (.inl fun x hx => by cases hx)
      | ok y =>
        refine (loadNets_witnessed y).mono fun a s hz => .inr fun s1 hy => .inr ?_
        rintro s2 hopened z rfl hrun
        obtain rfl := hz z rfl
        obtain ⟨d, fd, rfl, hmem⟩ := hopened x rfl
        rw [run_of_isRunning (hy z rfl) hrun] at hmem
        exact hmem

end

/-- Pod `u` is in `run`, and the live process `q` holds its exclusive lock. -/
def World.Running (s : World) (q : Pid) (u : UUID) : Prop :=
  u ∈ s.dirs .run ∧ q ∉ s.dead ∧ s.Holds q u

section

variable {q r : Pid} {u : UUID} {c₀ c₁ c₂ : Config podSig World} {procs : Pid → Process}

theorem runner_last (h0 : Reach podMachine (launch procs) c₀) (h : Reach podMachine c₀ c₁)
    (hq : c₀.shared.runner u = some q) : c₁.shared.runner u = some q :=
  ((launch_ok procs).reach h0).lasting h (A := fun s => s.runner u = some q)
    (fun _ _ _ _ _ hg h => Guar.runner hg u q h) hq

theorem dead_last (h0 : Reach podMachine (launch procs) c₀) (h : Reach podMachine c₀ c₁)
    (hq : q ∈ c₀.shared.dead) : q ∈ c₁.shared.dead :=
  ((launch_ok procs).reach h0).lasting h (A := fun s => q ∈ s.dead)
    (fun _ _ _ _ _ hg h => Guar.dead hg h) hq

theorem running_of_runner (h0 : Reach podMachine (launch procs) c₀)
    (hq : c₀.shared.runner u = some q) (halive : q ∉ c₀.shared.dead) : c₀.shared.Running q u := by
  have hi : Inv c₀.shared := ((launch_ok procs).reach h0).1
  obtain ⟨hmem, hholds⟩ := hi.running u q hq halive
  exact ⟨hmem, halive, hholds⟩

/-- **When a pod that is reported as running was running.** Any processes run any commands, in any
interleaving, and any of them may die. A call of `getPod` goes from `c₀` to `c₁` and returns a pod
that is running, and `q` is the process whose `xToRun` succeeds, before or after. Then at a moment
of the call the pod was in `run` and locked by `q` exactly if `q` had not died before the call
began. -/
theorem running_is_real_iff {k : Except Err Pod → Prog podSig Unit} {seen : List World} {x : Pod}
    (h₀ : Reach podMachine (launch procs) c₀)
    (hcall : Call podMachine r k c₀ (getPod u) seen (.ok x) c₁) (hx : x.isRunning = true)
    (h₂ : Reach podMachine c₁ c₂) (hq : (u, q) ∈ c₂.shared.ran) :
    (∃ s ∈ seen, s.Running q u) ↔ q ∉ c₀.shared.dead := by
  have h₁ := h₀.trans hcall.reach
  have hrunner₂ : c₂.shared.runner u = some q :=
    Inv.ran ((launch_ok procs).reach (h₁.trans h₂)).1 u q hq
  constructor
  · rintro ⟨s, hmem, -, halive, -⟩ hdead
    obtain ⟨c, hr, -, rfl⟩ := hcall.mem_reach hmem
    exact halive (dead_last h₀ hr hdead)
  · intro halive
    cases hrunner₀ : c₀.shared.runner u with
    | some q' =>
      have hlast := runner_last h₀ (hcall.reach.trans h₂) hrunner₀
      rw [hrunner₂] at hlast
      cases hlast
      exact ⟨_, hcall.first_mem, running_of_runner h₀ hrunner₀ halive⟩
    | none =>
      -- the pod was found in `run`, so it was brought there during the call
      obtain ⟨s, hmem, hseen⟩ := getPod_witnessed k c₀ c₁ seen _ hcall
      obtain ⟨c, hr, hr', rfl⟩ := hcall.mem_reach hmem
      obtain ⟨q', hq'⟩ := runner_of_run (h₀.trans hr) (hseen x rfl hx)
      have hlast := runner_last (h₀.trans hr) (hr'.trans h₂) hq'
      rw [hrunner₂] at hlast
      cases hlast
      have hrunner₁ : c₁.shared.runner u = some q := runner_last (h₀.trans hr) hr' hq'
      obtain ⟨c₃, c₄, hr₃, hs, hbefore, hafter, hmem₄⟩ :=
        hcall.becomes (A := fun s => s.runner u = some q) (by rw [hrunner₀]; simp) hrunner₁
      have hok₃ := (launch_ok procs).reach (h₀.trans hr₃)
      have hnone : c₃.shared.runner u = none := by
        cases hrunner₃ : c₃.shared.runner u with
        | none => rfl
        | some q' =>
          have hstep := runner_last (h₀.trans hr₃) (.single hs) hrunner₃
          rw [hafter] at hstep
          cases hstep
          exact absurd hrunner₃ hbefore
      exact ⟨_, hmem₄, running_of_runner ((h₀.trans hr₃).tail hs) hafter
        (entered_alive hok₃ hs hnone hafter)⟩

end

/-- Process 0 runs pod 5, process 1 removes it, and the others look it up. -/
def runRmStatus : Pid → Process
  | 0 => .command (.run false)
  | 1 => .command (.rm [5])
  | _ => .lookUp 5

def toRunning : List (Move podSig) :=
  creation ++ [.run 0 .aside (.ok ()), .run 0 .aside (.ok ()),
    .run 0 (.writeFile .prepare 5 .pod) (.ok ()), .run 0 (.writeFile .prepare 5 .stage1ID) (.ok ()),
    .run 0 (.exclusiveLock ⟨0, 0, 5⟩) (.ok ()), .run 0 (.rename .prepare .run 5) (.ok ()),
    .run 0 (.syncDir .run) (.ok ()), .run 0 (.ran 5) ()]

/-- Process `p` looks pod 5 up, as far as to open it in `run`. -/
def opens (p : Pid) (fd : Fd) : List (Move podSig) :=
  [.run p .initPods (.ok ()), .run p (.newLock .embryo 5) (.error .noent),
    .run p (.newLock .prepare 5) (.error .noent), .run p (.newLock .prepared 5) (.error .noent),
    .run p (.newLock .run 5) (.ok fd)]

/-- The rest of the call: the lock is held by somebody. -/
def findsLocked (p : Pid) (fd : Fd) : List (Move podSig) :=
  [.run p (.trySharedLock fd) (.error .wouldblock), .run p (.openFile fd .netInfo) (.error .noent)]

def saysRunning : Except Err Pod → Bool
  | .ok x => x.isRunning
  | .error _ => false

theorem running_is_real_status :
    ∃ c₀ c₁ seen x, Call podMachine 2 closePod c₀ (getPod 5) seen (.ok x) c₁ ∧
      x.isRunning = true ∧ ∃ s ∈ seen, s.Running 0 5 := by
  obtain ⟨c₀, c₁, seen, a, hr, hcall, h⟩ := playCall_exists (M := podMachine) (p := 2)
    (k := closePod) (c := launch runRmStatus) toRunning
    (opens 2 ⟨2, 1, 5⟩ ++ findsLocked 2 ⟨2, 1, 5⟩) (getPod 5) (fun c₀ _ a c₁ =>
      saysRunning a && decide (0 ∉ c₀.shared.dead) && decide ((5, 0) ∈ c₁.shared.ran))
    rfl rfl (by decide +kernel)
  simp only [Bool.and_eq_true, decide_eq_true_eq] at h
  obtain ⟨⟨hrun, halive⟩, hran⟩ := h
  cases a with
  | error e => cases hrun
  | ok x => exact ⟨c₀, c₁, seen, x, hcall, hrun,
      (running_is_real_iff hr hcall hrun .refl hran).mpr halive⟩

/-- No process holds the exclusive lock of pod 5, or it is not process 0. -/
def notHeldByZero (s : World) : Bool :=
  match s.lock 5 with
  | .excl fd => fd.pid != 0
  | _ => true

/-- Process 0 has run the pod and has died. Process 1 has seen that, and process 2 opens the pod in
`run`; then process 1 moves the pod on and locks it to delete it, and process 2 finds it locked. -/
theorem deleting_reported_as_running :
    ∃ c₀ c₁ seen x, Reach podMachine (launch runRmStatus) c₀ ∧
      Call podMachine 2 closePod c₀ (getPod 5) seen (.ok x) c₁ ∧ x.isRunning = true ∧
      (5, 0) ∈ c₁.shared.ran ∧ ∀ s ∈ seen, ¬ s.Holds 0 5 := by
  obtain ⟨c₀, c₁, seen, a, hr, hcall, h⟩ := playCall_exists (M := podMachine) (p := 2)
    (k := closePod) (c := launch runRmStatus)
    (toRunning ++ [.die 0] ++ opens 1 ⟨1, 1, 5⟩ ++
      [.run 1 (.trySharedLock ⟨1, 1, 5⟩) (.ok ()), .run 1 (.unlock ⟨1, 1, 5⟩) (.ok ())])
    (opens 2 ⟨2, 2, 5⟩ ++ [.run 1 (.rename .run .exitedGarbage 5) (.ok ()),
      .run 1 (.syncDir .exitedGarbage) (.ok ()), .run 1 (.exclusiveLock ⟨1, 1, 5⟩) (.ok ())] ++
      findsLocked 2 ⟨2, 2, 5⟩)
    (getPod 5) (fun _ seen a c₁ =>
      saysRunning a && decide ((5, 0) ∈ c₁.shared.ran) && seen.all notHeldByZero)
    rfl rfl (by decide +kernel)
  simp only [Bool.and_eq_true, decide_eq_true_eq] at h
  obtain ⟨⟨hrun, hran⟩, hnot⟩ := h
  cases a with
  | error e => cases hrun
  | ok x =>
    refine ⟨c₀, c₁, seen, x, hr, hcall, hrun, hran, ?_⟩
    rintro s hs ⟨fd, hlock, hpid⟩
    have hzero := List.all_eq_true.mp hnot s hs
    simp [notHeldByZero, hlock, hpid] at hzero

end Rkt.Pods
