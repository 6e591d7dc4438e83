import Rkt.Conc.Stutter
import Rkt.Pods.Walk

set_option autoImplicit false

namespace Rkt.Pods

open Conc Prog Proto

variable {p q : Pid} {u : UUID} {d : Dir} {s : World} {A : World → Prop} {β : Type}

theorem renamePath_calm (x : Pod) : Calm (x.renamePath d) := by
  unfold Pod.renamePath
  split
  · exact sys_calm (by nofun)
  · trivial

theorem syncThen_calm (x : Pod) : Calm (Pod.syncThen d x) :=
  (sys_calm (by nofun)).attempt (fun _ => trivial) fun _ => trivial

theorem xToPreparing_calm (x : Pod) : Calm x.xToPreparing := by
  refine All.ite (fun _ => trivial) fun _ => All.ite (fun _ => trivial) fun _ => ?_
  refine (sys_calm (by nofun)).attempt (fun _ => ?_) fun _ => trivial
  exact (sys_calm (by nofun)).attempt (fun _ => syncThen_calm _) fun _ => trivial

theorem xToPrepared_calm (x : Pod) : Calm x.xToPrepared := by
  refine All.ite (fun _ => trivial) fun _ => All.ite (fun _ => trivial) fun _ => ?_
  refine (renamePath_calm x).attempt (fun _ => ?_) fun _ => trivial
  exact (sys_calm (by nofun)).attempt (fun _ => syncThen_calm _) fun _ => trivial

theorem xToRun_calm (x : Pod) : Calm x.xToRun := by
  refine All.ite (fun _ => trivial) fun _ => All.ite (fun _ => trivial) fun _ => ?_
  refine (sys_calm (by nofun)).attempt (fun _ => ?_) fun _ => trivial
  exact (renamePath_calm x).attempt (fun _ => syncThen_calm _) fun _ => trivial

theorem xToExitedGarbage_calm (x : Pod) : Calm x.xToExitedGarbage := by
  refine All.ite (fun _ => trivial) fun _ => ?_
  exact (sys_calm (by nofun)).attempt (fun _ => syncThen_calm _) fun _ => trivial

theorem xToGarbage_calm (x : Pod) : Calm x.xToGarbage := by
  refine All.ite (fun _ => trivial) fun _ => ?_
  exact (renamePath_calm x).attempt (fun _ => syncThen_calm _) fun _ => trivial

theorem newPod_calm : Calm newPod := by
  refine initPods_calm.attempt (fun _ => ?_) fun _ => trivial
  refine (sys_calm (by nofun)).bind fun u => ?_
  refine (sys_calm (by nofun)).attempt (fun _ => ?_) fun _ => trivial
  refine (sys_calm (by nofun)).attempt (fun _ => xToPreparing_calm _) fun _ => ?_
  exact (sys_calm (by nofun)).bind fun _ => trivial

theorem stage0Prepare_calm (useOverlay : Bool) (x : Pod) : Calm (stage0Prepare useOverlay x) := by
  unfold stage0Prepare
  split
  · trivial
  refine (sys_calm (by nofun)).attempt (fun _ => ?_) fun _ => trivial
  refine (sys_calm (by nofun)).attempt (fun _ => ?_) fun _ => trivial
  refine (sys_calm (by nofun)).attempt (fun _ => ?_) fun _ => trivial
  refine All.ite (fun _ => ?_) fun _ => trivial
  exact (sys_calm (by nofun)).attempt (fun _ => trivial) fun _ => trivial

theorem runPod_calm (x : Pod) : Calm (runPod x) := by
  refine (xToRun_calm x).attempt (fun _ => ?_) fun _ => trivial
  refine (sys_calm (by nofun)).bind fun _ => ?_
  refine (sys_calm (by nofun)).attempt (fun _ => ?_) fun _ => trivial
  exact (sys_calm (by nofun)).bind fun _ => trivial

theorem runRun_calm (useOverlay : Bool) : Calm (runRun useOverlay) := by
  refine newPod_calm.attempt (fun x => ?_) fun _ => trivial
  refine (sys_calm (by nofun)).attempt (fun _ => ?_) fun _ => trivial
  exact (stage0Prepare_calm useOverlay x).bind fun _ =>
    All.ite (fun _ => runPod_calm x) fun _ => trivial

theorem runPrepare_calm (useOverlay : Bool) : Calm (runPrepare useOverlay) := by
  refine newPod_calm.attempt (fun x => ?_) fun _ => trivial
  refine (stage0Prepare_calm useOverlay x).bind fun _ => All.ite (fun _ => ?_) fun _ => trivial
  refine (sys_calm (by nofun)).attempt (fun _ => ?_) fun _ => trivial
  exact (xToPrepared_calm x).bind fun _ => trivial

theorem runRunPrepared_calm (u : UUID) : Calm (runRunPrepared u) := by
  refine (sys_calm (by nofun)).attempt (fun _ => ?_) fun _ => trivial
  refine getPod_calm.attempt (fun x => All.ite (fun _ => trivial) fun _ => ?_) fun _ => trivial
  exact (sys_calm (by nofun)).attempt (fun _ => runPod_calm x) fun _ => trivial

theorem ifExpired_calm {n : Nat} {x : Pod} {act : Prog podSig Unit} (hact : Calm act) :
    Calm (ifExpired n x act) := by
  unfold ifExpired
  split
  · trivial
  refine (sys_calm (by nofun)).attempt (fun (ctime : Nat) => ?_) fun _ => trivial
  exact (sys_calm (by nofun)).bind fun (now : Nat) => All.ite (fun _ => hact) fun _ => trivial

theorem removeAllPath_calm (x : Pod) : Calm x.removeAllPath := by
  have hremove : ∀ d, Calm (removeAll d x.uuid) := by
    intro d
    refine (sys_calm (by nofun)).bind fun r => ?_
    rcases r with ⟨gone, _ | e⟩
    · exact sys_calm (by nofun)
    · trivial
  unfold Pod.removeAllPath
  split
  · exact (hremove _).bind fun _ => trivial
  · trivial

theorem cleanExited_calm (x : Pod) : Calm (cleanExited x) := by
  refine (sys_calm (by nofun)).attempt (fun _ => ?_) fun _ => trivial
  refine (sys_calm (by nofun)).attempt (fun _ => ?_) fun _ => trivial
  refine (sys_calm (by nofun)).attempt (fun _ => ?_) fun _ => trivial
  refine (sys_calm (by nofun)).attempt (fun _ => ?_) fun _ => trivial
  refine (sys_calm (by nofun)).attempt (fun _ => ?_) fun _ => trivial
  exact (sys_calm (by nofun)).attempt (fun _ => trivial) fun _ => trivial

/-- **The guard of `deletePod`.** It does not panic on garbage. -/
theorem deletePod_calm {x : Pod} (hx : Garbage p x) : Calm (deletePod x) := by
  have hflag : ¬ (!x.isExitedGarbage && !x.isGarbage) = true := by
    have h := hx.2
    cases hex : x.isExitedGarbage <;> cases hg : x.isGarbage <;> simp_all
  unfold deletePod
  refine All.ite (fun hnot => absurd hnot hflag) fun _ => ?_
  refine All.ite (fun _ => ?_) fun _ => removeAllPath_calm x
  exact (cleanExited_calm x).bind fun _ =>
    All.ite (fun _ => removeAllPath_calm x) fun _ => trivial

theorem lockAndDelete_calm {x : Pod} (hx : Garbage p x) : Calm (lockAndDelete x) :=
  (sys_calm (by nofun)).attempt (fun _ => deletePod_calm hx) fun _ => trivial

theorem lockDelete_calm {x : Pod} (hx : Garbage p x) : Calm (removePod.lockDelete x) :=
  (sys_calm (by nofun)).attempt (fun _ => (deletePod_calm hx).bind fun _ => trivial)
    fun _ => trivial

/-- **What is listed as garbage is found as garbage.** -/
theorem Met.garbage {incl : IncludeMask} {x : Pod}
    (hincl : ∀ d, incl d = true → Dir.run.rank < d.rank) (h : Met incl p u x s) : Garbage p x := by
  refine ⟨h.seen.deletable, ?_⟩
  obtain ⟨d0, d, h0, hd, fd, -, hx⟩ := h
  have hlate : Dir.run.rank < d.rank := Nat.lt_of_lt_of_le (hincl d0 h0) hd
  cases d with
  | exitedGarbage | garbage => rcases hx with rfl | ⟨rfl, -⟩ <;> rfl
  | _ => exact absurd hlate (by decide)

section commands

variable {incl : IncludeMask}

theorem garbageWalk_calmly {f : Unit → Pod → Prog podSig Unit}
    (hincl : ∀ d, incl d = true → Dir.run.rank < d.rank) (hf : Visits p f)
    (hcalm : ∀ x, Garbage p x → Calm (f () x)) :
    (calmProto p).Triple p (fun s => s.Bystander p) (walkPods incl f ())
      (Ends (fun s => s.Bystander p) fun _ _ => True) := by
  refine walkPods_calmly () fun _ u x _ => ?_
  rintro s ⟨hb, hmet⟩
  exact Triple.calm (hcalm x (hmet.garbage hincl)) (hf () u x) s ⟨hb, hmet.seen⟩

theorem emptyExitedGarbage_calmly (n : Nat) : (calmProto p).Triple p (fun s => s.Bystander p)
    (emptyExitedGarbage n) (Ends (fun s => s.Bystander p) fun _ _ => True) := by
  refine garbageWalk_calmly (fun d hd => ?_) (fun _ _ _ => ifExpired_triple
    lockAndDelete_seen_triple) fun x hx => ifExpired_calm (lockAndDelete_calm hx)
  have hd' : d = .exitedGarbage := of_decide_eq_true hd
  subst hd'
  decide

theorem emptyGarbage_calmly : (calmProto p).Triple p (fun s => s.Bystander p) emptyGarbage
    (Ends (fun s => s.Bystander p) fun _ _ => True) := by
  refine garbageWalk_calmly (fun d hd => ?_) (fun _ _ _ => lockAndDelete_seen_triple)
    fun x hx => lockAndDelete_calm hx
  have hd' : d = .garbage := of_decide_eq_true hd
  subst hd'
  decide

theorem walkPods_calm {f : β → Pod → Prog podSig β} (hf : ∀ b x, Calm (f b x)) (b : β) :
    Calm (walkPods incl f b) := by
  have hwalk : ∀ us b, Calm (walkList incl f us b) := by
    intro us
    induction us with
    | nil => exact fun _ => trivial
    | cons u us ih =>
      intro b
      refine getPod_calm.attempt (fun x => All.ite (fun _ => ?_) fun _ => ?_) fun _ => ih b
      · exact (sys_calm (by nofun)).bind fun _ => ih b
      · exact (hf b x).bind fun b' => (sys_calm (by nofun)).bind fun _ => ih b'
  refine initPods_calm.attempt (fun _ => ?_) fun _ => trivial
  exact (listDirs_calm allDirs ∅).attempt (fun us => (hwalk _ b).bind fun _ => trivial)
    fun _ => trivial

theorem runGC_calmly (n m : Nat) : (calmProto p).Triple p (fun s => s.Bystander p) (runGC n m)
    (fun _ _ => True) := by
  have stop : (calmProto p).Triple p (fun s => s.Bystander p) (pure ()) (fun _ _ => True) :=
    Triple.ret fun _ _ => trivial
  have hexited : Calm renameExited := by
    refine walkPods_calm (fun _ x => ?_) ()
    refine All.ite (fun _ => ?_) fun _ => trivial
    exact (xToExitedGarbage_calm x).bind fun _ => trivial
  have haborted : Calm renameAborted := by
    refine walkPods_calm (fun _ x => ?_) ()
    refine All.ite (fun _ => ?_) fun _ => trivial
    exact (xToGarbage_calm x).bind fun _ => trivial
  have hexpired : Calm (renameExpired m) := by
    refine walkPods_calm (fun _ x => ifExpired_calm ?_) ()
    exact (xToGarbage_calm x).bind fun _ => trivial
  refine Triple.attempt (Triple.calm hexited renameExited_triple)
    (fun _ => Triple.pre (fun _ h => h.1) ?_) fun _ => stop
  refine Triple.attempt (Triple.calm haborted renameAborted_triple)
    (fun _ => Triple.pre (fun _ h => h.1) ?_) fun _ => stop
  refine Triple.attempt (Triple.calm hexpired (renameExpired_triple m))
    (fun _ => Triple.pre (fun _ h => h.1) ?_) fun _ => stop
  refine Triple.attempt (emptyExitedGarbage_calmly n)
    (fun _ => Triple.pre (fun _ h => h.1) ?_) fun _ => stop
  exact Triple.bind emptyGarbage_calmly fun _ => Triple.ret fun _ _ => trivial

theorem removePod_calmly {x : Pod} :
    (calmProto p).Triple p (fun s => s.Bystander p ∧ Seen p u x s) (removePod x)
      (fun _ s => s.Bystander p) :=
  removePod_rule (Triple.calm (xToGarbage_calm x) xToGarbage_triple)
    (Triple.calm (xToExitedGarbage_calm x) xToExitedGarbage_triple)
    fun _ hy => Triple.calm (lockDelete_calm hy) (lockDelete_triple hy.1)

end commands

/-- What the process of a command runs, with `failed` for what `rkt rm` does after an error of
`getPod`. -/
def Command.progOr (failed : Prog podSig Unit) : Command → Prog podSig Unit
  | .rm us => runRmOr failed us
  | cmd => cmd.prog

theorem Command.progOr_panic (cmd : Command) : cmd.progOr (sys .panic) = cmd.prog := by
  cases cmd with
  | rm us => exact (runRm_eq us).symm
  | _ => rfl

theorem progOr_triple (cmd : Command) : podProto.Triple p (fun s => s.Bystander p)
    (cmd.progOr (return ())) (fun _ _ => True) := by
  cases cmd with
  | rm us =>
    exact runRmOr_rule (fun _ => getPod_triple) (fun _ _ => removePod_triple)
      (Triple.ret fun _ _ => trivial) us
  | run useOverlay => exact (Command.run useOverlay).triple
  | prepare useOverlay => exact (Command.prepare useOverlay).triple
  | runPrepared u => exact (Command.runPrepared u).triple
  | gc n m => exact (Command.gc n m).triple

theorem progOr_calmly (cmd : Command) : (calmProto p).Triple p (fun s => s.Bystander p)
    (cmd.progOr (return ())) (fun _ _ => True) := by
  cases cmd with
  | run useOverlay => exact Triple.calm (runRun_calm useOverlay) (Command.run useOverlay).triple
  | prepare useOverlay =>
    exact Triple.calm (runPrepare_calm useOverlay) (Command.prepare useOverlay).triple
  | runPrepared u => exact Triple.calm (runRunPrepared_calm u) (Command.runPrepared u).triple
  | gc n m => exact runGC_calmly n m
  | rm us =>
    exact runRmOr_rule (fun _ => Triple.calm getPod_calm getPod_triple)
      (fun _ _ => removePod_calmly) (Triple.ret fun _ _ => trivial) us

/-- Each process is about to run its command, and `rkt rm` ends at an error of `getPod`. -/
def startOr (cmds : Pid → Command) : Config podSig World :=
  ⟨World.empty, fun p => (cmds p).progOr (return ())⟩

/-- The two states differ by the marks of panics at most. -/
def SameButPanics (s t : World) : Prop := ∃ marks, t = { s with panicked := marks }

theorem next_marks {o : Op} (ho : o ≠ .panic) (p : Pid) (r : o.Res) (s : World)
    (marks : Finset Pid) : next p o r { s with panicked := marks } =
      (next p o r s).map fun s' => { s' with panicked := marks } := by
  cases o with
  | panic => exact absurd rfl ho
  | initPods | syncDir | now | aside | ran | close => rfl
  | newUUID =>
    simp only [next]
    split_ifs <;> rfl
  | rename d d' u =>
    rcases r with (_ | _ | _) | _ <;> simp only [next, World.move] <;> (try split_ifs) <;> rfl
  | removeFiles d u =>
    obtain ⟨gone, e⟩ := r
    simp only [next]
    split_ifs <;> rfl
  | _ => rcases r with (_ | _ | _) | _ <;> simp only [next] <;> (try split_ifs) <;> rfl

theorem panic_unmarked : Unmarked podMachine .panic SameButPanics where
  next := by
    rintro p o r s s' _ ⟨marks, rfl⟩ hn
    obtain ⟨halive, hn⟩ := podMachine_next hn
    by_cases ho : o = .panic
    · subst ho
      cases hn
      exact ⟨_, if_neg halive, insert p marks, rfl⟩
    · refine ⟨{ s' with panicked := marks }, ?_, marks, rfl⟩
      show (if p ∈ s.dead then none else next p o r { s with panicked := marks }) = _
      rw [if_neg halive, next_marks ho, hn]
      rfl
  die := by
    rintro p s _ ⟨marks, rfl⟩
    exact ⟨marks, rfl⟩
  mark := by
    rintro p r s s' _ ⟨marks, rfl⟩ hn
    cases (podMachine_next hn).2
    exact ⟨marks, rfl⟩

theorem runRmOr_without (us : List UUID) :
    Without (S := podSig) .panic (runRmOr (sys .panic) us) (runRmOr (return ()) us) := by
  induction us with
  | nil => exact .refl _
  | cons u us ih =>
    refine .bind (getPod u) fun r => ?_
    rcases r with e | x
    · exact .skip fun _ => .refl _
    · exact .bind (removePod x) fun _ => ih

/-- **A run of the commands is matched** by one in which `rkt rm` just ends at an error of
`getPod`. -/
theorem start_matches (cmds : Pid → Command) :
    Matches (S := podSig) .panic SameButPanics (start cmds) (startOr cmds) := by
  refine ⟨⟨∅, rfl⟩, fun p => ?_⟩
  show Without (S := podSig) .panic (cmds p).prog ((cmds p).progOr (return ()))
  rw [← (cmds p).progOr_panic]
  cases cmds p with
  | rm us => exact runRmOr_without us
  | _ => exact .refl _

theorem startOr_calm (cmds : Pid → Command) {c : Config podSig World}
    (hr : Reach podMachine (startOr cmds) c) : c.shared.panicked = ∅ := by
  have hempty : ∀ q, World.empty.Bystander q := fun q u =>
    ⟨by simp [World.empty], by simp [World.empty]⟩
  refine Finset.eq_empty_of_forall_notMem fun p => ?_
  have hok : (calmProto p).Ok (startOr cmds) := by
    refine ⟨⟨inv_empty, by simp [startOr, World.empty]⟩, fun q => ?_⟩
    by_cases hq : q = p
    · subst hq
      exact progOr_calmly (cmds q) _ (hempty q)
    · exact Triple.calm_other hq (progOr_triple (cmds q)) _ (hempty q)
  exact (hok.reach hr).1.2

/-- **`deletePod` never panics.** Any number of processes run any commands, in any interleaving
and with deaths anywhere. If `rkt rm` just ends at an error of `getPod` then nobody ever panics, so
every call of `deletePod`, by the walks of `rkt gc` over `exited-garbage` and `garbage` and by
`rkt rm`, is for a pod whose flags say that it is garbage. And every run of the commands as they
are is matched by such a run, with the same pods, locks and files. -/
theorem deletePod_never_panics (cmds : Pid → Command) :
    (∀ c, Reach podMachine (startOr cmds) c → c.shared.panicked = ∅) ∧
    ∀ c, Reach podMachine (start cmds) c → ∃ c', Reach podMachine (startOr cmds) c' ∧
      c'.shared = { c.shared with panicked := ∅ } ∧
      ∀ p, Without (S := podSig) .panic (c.procs p) (c'.procs p) := by
  refine ⟨fun c hr => startOr_calm cmds hr, fun c hr => ?_⟩
  obtain ⟨c', hr', ⟨marks, hmarks⟩, hprocs⟩ := hr.without panic_unmarked (start_matches cmds)
  refine ⟨c', hr', ?_, hprocs⟩
  have hcalm := startOr_calm cmds hr'
  rw [hmarks] at hcalm ⊢
  simp only at hcalm
  rw [hcalm]

/-- The creator of pod 5 dies while the pod is in `prepare`, and `rkt rm` deletes the pod. -/
theorem deletePod_never_panics_aborted : ∃ c c', Reach podMachine (start runAndRm) c ∧
    c.shared.creator 5 = some 0 ∧ 5 ∉ c.shared.dirs .prepare ∧ 5 ∉ c.shared.dirs .garbage ∧
    Reach podMachine (startOr runAndRm) c' ∧ c'.shared = { c.shared with panicked := ∅ } ∧
    c'.shared.panicked = ∅ := by
  obtain ⟨c, hr, h⟩ := follow_exists (M := podMachine) (c := start runAndRm) smooth
    [.run 0 7, .die 0, .run 1 20] (fun c => decide (c.shared.creator 5 = some 0 ∧
      5 ∉ c.shared.dirs .prepare ∧ 5 ∉ c.shared.dirs .garbage)) (by decide)
  obtain ⟨hcreated, hprepare, hgarbage⟩ := of_decide_eq_true h
  obtain ⟨hcalm, hmatched⟩ := deletePod_never_panics runAndRm
  obtain ⟨c', hr', hshared, -⟩ := hmatched c hr
  exact ⟨c, c', hr, hcreated, hprepare, hgarbage, hr', hshared, hcalm c' hr'⟩

end Rkt.Pods
