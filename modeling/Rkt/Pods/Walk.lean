import Rkt.Pods.Lifecycle
import Rkt.Pods.Lookup

set_option autoImplicit false

namespace Rkt.Pods

open Conc Prog Proto

variable {p q : Pid} {u : UUID} {d : Dir} {s s' : World} {A : World → Prop} {α β : Type}

abbrev Calm (x : Prog podSig α) : Prop := x.All fun o : Op => o ≠ .panic

variable {o : Op} {x : Prog podSig α}

theorem sys_calm (ho : o ≠ .panic) : Calm (sys o) := all_call ho

theorem next_panicked {r : o.Res} (h : podMachine.next q o r s = some s')
    (ho : q = p → o ≠ .panic) (hp : p ∉ s.panicked) : p ∉ s'.panicked := by
  rw [(next_frame (podMachine_next h).2).2]
  split
  · rename_i hpanic
    have hq : p ≠ q := fun hpq => ho hpq.symm hpanic
    simp [hq, hp]
  · exact hp

def calmProto (p : Pid) : Proto podMachine :=
  podProto.also (fun s => p ∉ s.panicked) fun _ _ h => h

theorem Triple.calm {Q : α → World → Prop} (hx : Calm x)
    (h : podProto.Triple p A x Q) : (calmProto p).Triple p A x Q :=
  h.also (fun _ _ _ _ ho hn hp => next_panicked hn (fun _ => ho) hp) hx

theorem Triple.calm_other {Q : α → World → Prop} (hq : q ≠ p)
    (h : podProto.Triple q A x Q) : (calmProto p).Triple q A x Q :=
  h.also (fun _ _ _ _ _ hn hp => next_panicked hn (fun h => absurd h hq) hp)
    (all_of_forall (fun _ => trivial) x)

abbrev Looks (x : Prog podSig α) : Prop := x.All fun o : Op => o.looks = true

theorem sys_looks (ho : o.looks = true) : Looks (sys o) := all_call ho

theorem Looks.calm (h : Looks x) : Calm x := by
  refine h.mono ?_
  rintro o ho rfl
  cases ho

theorem initPods_looks : Looks initPods :=
  (sys_looks (by rfl)).attempt (fun _ => trivial) fun _ => trivial

theorem probe_looks {f : Except Errno Fd → Prog podSig α} (hfound : ∀ fd, Looks (f (.ok fd)))
    (hblock : Looks (f (.error .wouldblock))) (hother : Looks (f (.error .other)))
    (hnext : Looks (f (.error .noent))) : Looks (sys (.newLock d u) >>= f) := by
  refine (sys_looks (by rfl)).attempt hfound fun e => ?_
  cases e with
  | noent => exact hnext
  | wouldblock => exact hblock
  | other => exact hother

theorem openPod_looks : Looks (openPod u) := by
  refine probe_looks (fun _ => trivial) trivial trivial ?_
  refine probe_looks (fun _ => trivial) trivial trivial ?_
  refine probe_looks (fun _ => trivial) trivial trivial ?_
  refine probe_looks (fun _ => trivial) trivial trivial ?_
  refine probe_looks (fun _ => trivial) trivial trivial ?_
  exact probe_looks (fun _ => trivial) trivial trivial trivial

theorem testLock_looks (x : Pod) : Looks (testLock x) := by
  refine All.ite (fun _ => ?_) fun _ => trivial
  refine (sys_looks (by rfl)).bind fun r => ?_
  rcases r with (_ | _ | _) | _
  · exact (sys_looks (by rfl)).bind fun _ => trivial
  · trivial
  · exact (sys_looks (by rfl)).bind fun _ => trivial
  · exact (sys_looks (by rfl)).bind fun _ => trivial

theorem loadNets_looks (x : Pod) : Looks (loadNets x) := by
  refine All.ite (fun _ => ?_) fun _ => trivial
  refine (sys_looks (by rfl)).bind fun r => ?_
  rcases r with (_ | _ | _) | _ <;> trivial

theorem getPod_looks : Looks (getPod u) := by
  refine initPods_looks.attempt (fun _ => ?_) fun _ => trivial
  refine openPod_looks.attempt (fun x => ?_) fun _ => trivial
  exact (testLock_looks x).attempt loadNets_looks fun _ => trivial

theorem listDirs_looks {incl : IncludeMask} (ds : List Dir) :
    ∀ ups, Looks (listDirs incl ds ups) := by
  induction ds with
  | nil => exact fun _ => trivial
  | cons d ds ih =>
    intro ups
    refine All.ite (fun _ => ?_) fun _ => ih ups
    have hlist : Looks (listPodsFromDir d) := by
      refine (sys_looks (by rfl)).bind fun r => ?_
      rcases r with (_ | _ | _) | _ <;> trivial
    exact hlist.attempt (fun _ => ih _) fun _ => trivial

theorem initPods_calm : Calm initPods := initPods_looks.calm

theorem getPod_calm : Calm (getPod u) := getPod_looks.calm

theorem listDirs_calm {incl : IncludeMask} (ds : List Dir) (ups : Finset UUID) :
    Calm (listDirs incl ds ups) := (listDirs_looks ds ups).calm

section walk

variable {incl : IncludeMask} {f : β → Pod → Prog podSig β}

/-- What a walker knows about a pod it is about to visit: it has found the pod in `d`, and it
had listed it in an included directory that is not later. -/
def Met (incl : IncludeMask) (p : Pid) (u : UUID) (x : Pod) (s : World) : Prop :=
  ∃ d₀ d, incl d₀ = true ∧ d₀.rank ≤ d.rank ∧ SeenIn p u d x s

theorem Met.seen {x : Pod} (h : Met incl p u x s) : Seen p u x s := by
  obtain ⟨d₀, d, -, -, hseen⟩ := h
  exact hseen.seen

/-- **The walk of a process that does not panic.** -/
theorem walkPods_calmly (b : β) (hf : ∀ b u x, omits incl x = false →
      (calmProto p).Triple p (fun s => s.Bystander p ∧ Met incl p u x s) (f b x)
        (fun _ s => s.Bystander p)) :
    (calmProto p).Triple p (fun s => s.Bystander p) (walkPods incl f b)
      (Ends (fun s => s.Bystander p) fun _ _ => True) := by
  have hget : ∀ u, podProto.Triple p (fun s => s.Bystander p ∧ s.Listed incl u) (getPod u)
      (Ends (fun s => s.Bystander p) (Met incl p u)) := by
    rintro u s ⟨hb, d₀, hd0, hr⟩
    refine getPod_late.post ?_ s ⟨hb, hr⟩
    rintro (e | x) s h
    · exact h
    · obtain ⟨hb, d, hd, hseen⟩ := h
      exact ⟨hb, d₀, d, hd0, hd, hseen⟩
  refine walkPods_rule b (Triple.calm (sys_calm (by nofun)) ((bystander_role p).quiet (by rfl)))
    (Triple.calm (listDirs_calm allDirs ∅) listPods_triple) ?_
  refine walkList_rule (fun u => (lasting_listed incl u).also)
    (fun u => Triple.calm getPod_calm (hget u)) (fun u x s hmet => ?_) hf
  exact Triple.calm (sys_calm (by nofun)) (close_triple hmet.seen.lock.1)

end walk

/-- The pod is not gone, and the directory of its observed state is included. -/
def included (incl : IncludeMask) (x : Pod) : Bool := !x.isGone && x.path.any incl

/-- `f`, with a panic in front of it if it is called for a pod that is not included. -/
def checked (incl : IncludeMask) (f : β → Pod → Prog podSig β) (b : β) (x : Pod) :
    Prog podSig β := do
  if included incl x then f b x
  else
    sys .panic
    f b x

/-- Process `p` makes a walk and checks the calls of `f`; the others run their commands. -/
def walker (cmds : Pid → Command) (p : Pid) (incl : IncludeMask) (f : β → Pod → Prog podSig β)
    (b : β) : Config podSig World :=
  (start cmds).set p World.empty (do let _ ← walkPods incl (checked incl f) b)

/-- No pod comes to `run` between the listing and the look at it, or `run` is included. -/
def CoversRun (incl : IncludeMask) : Prop :=
  incl .run = true ∨ ∀ d, incl d = true → Dir.run.rank < d.rank

/-- The filter leaves out everything that is not included, except for what it meets in `run`. -/
theorem Met.included {incl : IncludeMask} {x : Pod} (hincl : CoversRun incl)
    (h : Met incl p u x s) (homit : omits incl x = false) : included incl x = true := by
  obtain ⟨d₀, d, h0, hd, fd, -, rfl | ⟨rfl, -⟩⟩ := h
  · cases d <;> simpa [openedIn, Pod.locked, omits, Pod.isRunning, Pods.included, Pod.path]
      using homit
  · cases d with
    | run =>
      -- nothing is known about `run` from the filter
      have hrun : incl .run = true := by
        rcases hincl with hrun | hlate
        · exact hrun
        · have hlt := hlate d₀ h0
          omega
      simp [openedIn, Pods.included, Pod.path, hrun]
    | _ => simpa [openedIn, omits, Pod.isRunning, Pods.included, Pod.path] using homit

theorem walker_ok {incl : IncludeMask} {f : β → Pod → Prog podSig β} (cmds : Pid → Command)
    (hincl : CoversRun incl) (hf : Visits p f) (hcalm : ∀ b x, Calm (f b x)) (b : β) :
    (calmProto p).Ok (walker cmds p incl f b) := by
  have hempty : ∀ q, World.empty.Bystander q := fun q u =>
    ⟨by simp [World.empty], by simp [World.empty]⟩
  have hvisit : ∀ b u x, omits incl x = false →
      (calmProto p).Triple p (fun s => s.Bystander p ∧ Met incl p u x s) (checked incl f b x)
        (fun _ s => s.Bystander p) := by
    rintro b u x homit s ⟨hb, hmet⟩
    unfold checked
    rw [if_pos (hmet.included hincl homit)]
    exact Triple.calm (hcalm b x) (hf b u x) s ⟨hb, hmet.seen⟩
  refine ⟨⟨inv_empty, by simp [walker, World.empty]⟩, fun q => ?_⟩
  by_cases hq : q = p
  · subst hq
    rw [walker, Config.set_procs_self]
    exact Triple.bind (walkPods_calmly b hvisit) (fun _ => Triple.ret fun _ _ => trivial) _
      (hempty q)
  · rw [walker, Config.set_procs_ne _ _ _ hq]
    exact Triple.calm_other hq (cmds q).triple _ (hempty q)

/-- Process 0 runs `rkt prepare`, the others `rkt run-prepared` of pod 5. -/
def prepareAndRun : Pid → Command := fun p => if p = 0 then .prepare false else .runPrepared 5

/-- Process 1 reads the first included directory after `n` operations of process 0. The pod is
then prepared and run, and the process that ran it dies. -/
def passesRun (n : Nat) : List Item :=
  [.run 0 n, .run 1 2, .run 0 15, .run 2 20, .die 2, .run 1 20]

/-- The mask with these directories included, and not `run`. -/
def maskWithout (embryo prepare prepared exitedGarbage garbage : Bool) : IncludeMask
  | .embryo => embryo
  | .prepare => prepare
  | .prepared => prepared
  | .run => false
  | .exitedGarbage => exitedGarbage
  | .garbage => garbage

def looksOnly (_ : Unit) (_ : Pod) : Prog podSig Unit := return ()

/-- The pod is visited in `run`, whatever is included besides an earlier directory. -/
theorem visits_in_run : ∀ embryo prepare prepared exitedGarbage garbage : Bool,
    (embryo || prepare || prepared) = true →
      (follow podMachine smooth (passesRun (if embryo then 3 else if prepare then 6 else 15))
        (walker prepareAndRun 1 (maskWithout embryo prepare prepared exitedGarbage garbage)
          looksOnly ())).any (fun c => 1 ∈ c.shared.panicked) = true := by
  decide +kernel

theorem reaches_visit_in_run {embryo prepare prepared : Bool} (exitedGarbage garbage : Bool)
    (hearly : (embryo || prepare || prepared) = true) :
    ∃ c, Reach podMachine (walker prepareAndRun 1
      (maskWithout embryo prepare prepared exitedGarbage garbage) looksOnly ()) c ∧
      1 ∈ c.shared.panicked := by
  obtain ⟨c, hc, hpanic⟩ := follow_exists (M := podMachine) smooth _
    (fun c => decide (1 ∈ c.shared.panicked))
    (visits_in_run embryo prepare prepared exitedGarbage garbage hearly)
  exact ⟨c, hc, of_decide_eq_true hpanic⟩

/-- **The masks for which a walk visits only what is included.** Let one process make a walk
with any function that keeps the locking protocol, while any number of others run any commands,
in any interleaving. The function is called only for pods that are not gone and whose observed
state belongs to an included directory, for all these walks, exactly if `run` is included or
everything included comes after `run`. -/
theorem walk_visits_included_iff (incl : IncludeMask) :
    (∀ (β : Type) (f : β → Pod → Prog podSig β) (b : β) (cmds : Pid → Command) (p : Pid)
      (c : Config podSig World), Visits p f → (∀ b x, Calm (f b x)) →
      Reach podMachine (walker cmds p incl f b) c → p ∉ c.shared.panicked) ↔ CoversRun incl := by
  constructor
  · intro hall
    by_contra hcovers
    obtain ⟨hrun, d, hd, hrank⟩ : ¬ incl .run = true ∧
        ∃ d, incl d = true ∧ ¬ Dir.run.rank < d.rank := by
      simpa [CoversRun] using hcovers
    have hmask : incl = maskWithout (incl .embryo) (incl .prepare) (incl .prepared)
        (incl .exitedGarbage) (incl .garbage) := by
      funext e
      cases e <;> simp [maskWithout, hrun]
    have hearly : (incl .embryo || incl .prepare || incl .prepared) = true := by
      cases d with
      | embryo | prepare | prepared => simp [hd]
      | run => exact absurd hd hrun
      | exitedGarbage | garbage => exact absurd (by decide) hrank
    obtain ⟨c, hc, hpanic⟩ :=
      reaches_visit_in_run (incl .exitedGarbage) (incl .garbage) hearly
    rw [← hmask] at hc
    have hvisits : Visits 1 looksOnly := fun _ _ _ => Triple.ret fun _ h => h.1
    exact hall Unit looksOnly () prepareAndRun 1 c hvisits (fun _ _ => trivial) hc
      hpanic
  · intro hincl β f b cmds p c hf hcalm hr
    exact ((walker_ok cmds hincl hf hcalm b).reach hr).1.2

/-- **A pod in `run` is visited by a walk over `prepared`.** Process 1 walks over the prepared
pods. After it has listed pod 5, process 2 runs the pod and dies. -/
theorem prepared_walk_visits_run : ∃ c, Reach podMachine
    (walker prepareAndRun 1 includePreparedDir looksOnly ()) c ∧ 1 ∈ c.shared.panicked := by
  have hmask : includePreparedDir = maskWithout false false true false false := by
    funext e
    cases e <;> rfl
  rw [hmask]
  exact reaches_visit_in_run false false rfl

end Rkt.Pods
