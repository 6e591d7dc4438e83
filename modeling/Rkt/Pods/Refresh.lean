import Rkt.Pods.Alone
import Rkt.Conc.Sequential

set_option autoImplicit false

namespace Rkt.Pods

open Conc Prog

inductive RefreshErr where
  /-- `error refreshing state of pod %q: %v`. -/
  | refreshing (u : UUID) (e : Errno)
  /-- `unexpected lock error: %v`. -/
  | lock (e : Errno)
  deriving DecidableEq, Repr

/-- `os.Stat`; for a directory the answer is that of `lstat`. -/
def stat (d : Dir) (u : UUID) : Prog podSig (Except Errno Unit) := do
  match ← sys (.lstat d u) with
  | .ok _ => return .ok ()
  | .error e => return .error e

def Pod.reset (p : Pod) : Pod := { lock := p.lock, uuid := p.uuid, createdByMe := p.createdByMe }

/-- The nested probes. Next to the pod they leave the outermost `err`. -/
def statPod (p : Pod) : Prog podSig (Pod × Option Errno) := do
  match ← stat .embryo p.uuid with
  | .ok () => return ({ p with isEmbryo := true }, none)
  | .error .noent =>
    match ← stat .prepare p.uuid with
    -- treat as aborted prepare until lock is tested
    | .ok () => return ({ p with isAbortedPrepare := true }, some .noent)
    | .error .noent =>
      match ← stat .prepared p.uuid with
      | .ok () => return ({ p with isPrepared := true }, some .noent)
      | .error .noent =>
        match ← stat .run p.uuid with
        -- treat as exited until lock is tested
        | .ok () => return ({ p with isExited := true }, some .noent)
        | .error .noent =>
          match ← stat .exitedGarbage p.uuid with
          | .error .noent =>
            match ← stat .garbage p.uuid with
            | .error .noent => return ({ p with isGone := true }, some .noent)
            | .ok () => return ({ p with isGarbage := true }, some .noent)
            | .error _ => return (p, some .noent)
          | .ok () => return ({ p with isExitedGarbage := true, isExited := true }, some .noent)
          | .error _ => return (p, some .noent)
        | .error _ => return (p, some .noent)
      | .error _ => return (p, some .noent)
    | .error _ => return (p, some .noent)
  | .error e => return (p, some e)

def retestLock (p : Pod) : Prog podSig (Pod × Except RefreshErr Unit) := do
  if !p.isPrepared && !p.isEmbryo && !p.isGone then
    match ← sys (.trySharedLock p.lock) with
    | .error .wouldblock => return (p.locked, .ok ())
    | .error e =>
      sys (.close p.lock)
      return (p, .error (.lock e))
    | .ok () =>
      let _ ← sys (.unlock p.lock)
      return (p, .ok ())
  else return (p, .ok ())

/-- `refreshState`. The pod is changed in any case. -/
def refreshState (p : Pod) : Prog podSig (Pod × Except RefreshErr Unit) := do
  match ← statPod p.reset with
  | (p, none) | (p, some .noent) => retestLock p
  | (p, some e) => return (p, .error (.refreshing p.uuid e))

inductive Probe where
  | found
  | notFound
  | failed
  deriving DecidableEq, Repr

inductive TryLock where
  | taken
  | locked
  | failed
  deriving DecidableEq, Repr

/-- How a look at each directory ends, and the attempt to take the shared lock. -/
structure Outcomes where
  dir : Dir → Probe
  lock : TryLock

def Probe.of {α : Type} : Except Errno α → Probe
  | .ok _ => .found
  | .error .noent => .notFound
  | .error _ => .failed

def Probe.answer {α : Type} (a : α) : Probe → Except Errno α
  | .found => .ok a
  | .notFound => .error .noent
  | .failed => .error .other

def TryLock.of : Except Errno Unit → TryLock
  | .ok () => .taken
  | .error .wouldblock => .locked
  | .error _ => .failed

def TryLock.answer : TryLock → Except Errno Unit
  | .taken => .ok ()
  | .locked => .error .wouldblock
  | .failed => .error .other

namespace Outcomes

/-- The answers that go with the outcomes. The directories can be made, and there is no I/O error
when the network information is opened. -/
def allows (oc : Outcomes) : (o : Op) → o.Res → Bool
  | .newLock d _, r => Probe.of (α := Fd) r = oc.dir d
  | .lstat d _, r => Probe.of (α := Nat) r = oc.dir d
  | .trySharedLock _, r => TryLock.of r = oc.lock
  | .initPods, r => Except.isOk (ε := Errno) (α := Unit) r
  | .openFile _ _, r => Probe.of (α := Unit) r ≠ .failed
  | _, _ => true

def step (oc : Outcomes) (o : Op) (r : o.Res) (_ : Unit) : Option Unit :=
  if oc.allows o r then some () else none

def answer (oc : Outcomes) : (o : Op) → Unit → o.Res
  | .newLock d u, _ => (oc.dir d).answer (⟨0, 0, u⟩ : Fd)
  | .lstat d _, _ => (oc.dir d).answer (0 : Nat)
  | .trySharedLock _, _ => oc.lock.answer
  | .newUUID, _ => (0 : Nat)
  | .readDir _, _ => .ok ∅
  | .now, _ => (0 : Nat)
  | .removeFiles _ _, _ => (∅, none)
  | .close _, _ | .panic, _ | .ran _, _ => ()
  | .initPods, _ | .mkdir _ _, _ | .remove _ _, _ | .exclusiveLock _, _ | .unlock _, _
  | .rename _ _ _, _ | .syncDir _, _ | .writeFile _ _ _, _ | .openFile _ _, _
  | .removeDir _ _, _ | .aside, _ => .ok ()

abbrev Gives {α : Type} (oc : Outcomes) (x : Prog podSig α) (a : α) : Prop :=
  x.Runs oc.step () a ()

/-- The directory that decides: the first one that is not reported as missing. -/
def decisive (oc : Outcomes) : Option Dir := allDirs.find? fun d => oc.dir d ≠ .notFound

def Fails (oc : Outcomes) : Prop := ∃ d, oc.decisive = some d ∧ oc.dir d = .failed

end Outcomes

/-- The flags of a pod in `d` whose lock is not taken. -/
def Pod.inDir (p : Pod) : Dir → Pod
  | .embryo => { p with isEmbryo := true }
  | .prepare => { p with isAbortedPrepare := true }
  | .prepared => { p with isPrepared := true }
  | .run => { p with isExited := true }
  | .exitedGarbage => { p with isExitedGarbage := true, isExited := true }
  | .garbage => { p with isGarbage := true }

def Pod.flags (p : Pod) : List Bool :=
  [p.isEmbryo, p.isPreparing, p.isAbortedPrepare, p.isPrepared, p.isExited, p.isExitedGarbage,
    p.isExitedDeleting, p.isGarbage, p.isDeleting, p.isGone]

def goneFlags : List Bool :=
  [false, false, false, false, false, false, false, false, false, true]

/-- In `embryo` and `prepared` the lock says nothing. -/
def Dir.lockless (d : Dir) : Prop := d = .embryo ∨ d = .prepared

instance (d : Dir) : Decidable d.lockless := inferInstanceAs (Decidable (_ ∨ _))

/-- The flags of a pod in `d` after the test of its lock, if that does not fail. -/
def Outcomes.tested (oc : Outcomes) (p : Pod) (d : Dir) : Pod :=
  if d.lockless ∨ oc.lock = .taken then p.inDir d else (p.inDir d).locked

section runs

variable {oc : Outcomes} {α β : Type} {d : Dir} {u : UUID} {p : Pod}

theorem gives_bind {x : Prog podSig α} {f : α → Prog podSig β} {b : β} :
    oc.Gives (x >>= f) b ↔ ∃ a, oc.Gives x a ∧ oc.Gives (f a) b := by
  rw [Outcomes.Gives, runs_bind]
  constructor
  · rintro ⟨a, _, hx, hf⟩
    exact ⟨a, hx, hf⟩
  · rintro ⟨a, hx, hf⟩
    exact ⟨a, (), hx, hf⟩

theorem gives_call {o : Op} {r : o.Res} : oc.Gives (sys o) r ↔ oc.allows o r = true := by
  rw [Outcomes.Gives, runs_call]
  simp [Outcomes.step]

theorem answer_allowed (oc : Outcomes) (o : Op) : oc.allows o (oc.answer o ()) = true := by
  cases o with
  | newLock d u =>
    show decide (Probe.of ((oc.dir d).answer (⟨0, 0, u⟩ : Fd)) = oc.dir d) = true
    cases oc.dir d <;> rfl
  | lstat d u =>
    show decide (Probe.of ((oc.dir d).answer (0 : Nat)) = oc.dir d) = true
    cases oc.dir d <;> rfl
  | trySharedLock fd =>
    show decide (TryLock.of oc.lock.answer = oc.lock) = true
    cases oc.lock <;> rfl
  | newUUID | readDir | now | removeFiles | close | panic | ran | initPods | mkdir | remove
  | exclusiveLock | unlock | rename | syncDir | writeFile | openFile | removeDir | aside => rfl

theorem gives_some (oc : Outcomes) (x : Prog podSig α) : ∃ a, oc.Gives x a := by
  have hstep : ∀ o s, ∃ r s', oc.step o r s = some s' :=
    fun o _ => ⟨oc.answer o (), (), if_pos (answer_allowed oc o)⟩
  obtain ⟨a, _, hruns⟩ := runs_total hstep x ()
  exact ⟨a, hruns⟩

/-- What a series of probes comes to: nothing is there, or the pod is in the directory that
decides, or the look at that one fails. -/
def Outcomes.Leads (oc : Outcomes) (ds : List Dir) (none : Prop) (found : Dir → Prop)
    (failed : Prop) : Prop :=
  match ds.find? fun d => oc.dir d ≠ .notFound with
  | .none => none
  | some d => if oc.dir d = .found then found d else failed

variable {ds : List Dir} {none failed : Prop} {found : Dir → Prop} {a : α}

theorem leads_cons {β : Type} {r : Except Errno β} (hr : Probe.of r = oc.dir d)
    (hfound : ∀ b, r = .ok b → found d) (hblock : r = .error .wouldblock → failed)
    (hother : r = .error .other → failed)
    (hnext : r = .error .noent → oc.Leads ds none found failed) :
    oc.Leads (d :: ds) none found failed := by
  unfold Outcomes.Leads
  rcases r with e | b
  · cases e with
    | noent =>
      have hd : oc.dir d = .notFound := hr.symm
      rw [List.find?_cons_of_neg (by simp [hd])]
      exact hnext rfl
    | wouldblock =>
      have hd : oc.dir d = .failed := hr.symm
      rw [List.find?_cons_of_pos (by simp [hd])]
      simp only [hd]
      exact hblock rfl
    | other =>
      have hd : oc.dir d = .failed := hr.symm
      rw [List.find?_cons_of_pos (by simp [hd])]
      simp only [hd]
      exact hother rfl
  · have hd : oc.dir d = .found := hr.symm
    rw [List.find?_cons_of_pos (by simp [hd])]
    simp only [hd]
    exact hfound b rfl

theorem leads_newLock {k : Except Errno Fd → Prog podSig α}
    (h : oc.Gives (sys (.newLock d u) >>= k) a) (hfound : ∀ l, oc.Gives (k (.ok l)) a → found d)
    (hblock : oc.Gives (k (.error .wouldblock)) a → failed)
    (hother : oc.Gives (k (.error .other)) a → failed)
    (hnext : oc.Gives (k (.error .noent)) a → oc.Leads ds none found failed) :
    oc.Leads (d :: ds) none found failed := by
  obtain ⟨r, hr, h⟩ := gives_bind.mp h
  have hprobe : Probe.of (α := Fd) r = oc.dir d := of_decide_eq_true (gives_call.mp hr)
  refine leads_cons hprobe (fun l hl => hfound l ?_) (fun hl => hblock ?_) (fun hl => hother ?_)
    fun hl => hnext ?_
  all_goals
    subst hl
    exact h

theorem leads_stat {k : Except Errno Unit → Prog podSig α} (h : oc.Gives (stat d u >>= k) a)
    (hfound : oc.Gives (k (.ok ())) a → found d)
    (hblock : oc.Gives (k (.error .wouldblock)) a → failed)
    (hother : oc.Gives (k (.error .other)) a → failed)
    (hnext : oc.Gives (k (.error .noent)) a → oc.Leads ds none found failed) :
    oc.Leads (d :: ds) none found failed := by
  obtain ⟨r', hr', h⟩ := gives_bind.mp h
  obtain ⟨r, hr, hret⟩ := gives_bind.mp hr'
  have hprobe : Probe.of (α := Nat) r = oc.dir d := of_decide_eq_true (gives_call.mp hr)
  refine leads_cons hprobe (fun l hl => hfound ?_) (fun hl => hblock ?_) (fun hl => hother ?_)
    fun hl => hnext ?_
  all_goals
    subst hl
    obtain ⟨rfl, -⟩ := hret
    exact h

variable {r : Except Err Pod} {y : Pod × Except RefreshErr Unit}

theorem openPod_gives (h : oc.Gives (openPod u) r) : oc.Leads allDirs (r = .error (.notFound u))
      (fun d => ∃ l, r = .ok (Pod.inDir { lock := l, uuid := u } d)) (∃ e, r = .error e) := by
  refine leads_newLock h (fun l h => ⟨l, h.1⟩) (fun h => ⟨_, h.1⟩) (fun h => ⟨_, h.1⟩) fun h => ?_
  refine leads_newLock h (fun l h => ⟨l, h.1⟩) (fun h => ⟨_, h.1⟩) (fun h => ⟨_, h.1⟩) fun h => ?_
  refine leads_newLock h (fun l h => ⟨l, h.1⟩) (fun h => ⟨_, h.1⟩) (fun h => ⟨_, h.1⟩) fun h => ?_
  refine leads_newLock h (fun l h => ⟨l, h.1⟩) (fun h => ⟨_, h.1⟩) (fun h => ⟨_, h.1⟩) fun h => ?_
  refine leads_newLock h (fun l h => ⟨l, h.1⟩) (fun h => ⟨_, h.1⟩) (fun h => ⟨_, h.1⟩) fun h => ?_
  exact leads_newLock h (fun l h => ⟨l, h.1⟩) (fun h => ⟨_, h.1⟩) (fun h => ⟨_, h.1⟩) fun h => h.1

/-- Only an error of the first probe is left for the check that follows. -/
def Missed : Option Errno → Prop
  | .none => True
  | some e => e = .noent

theorem statPod_gives {y : Pod × Option Errno} (h : oc.Gives (statPod p) y) :
    oc.Leads allDirs (y = ({ p with isGone := true }, some .noent))
      (fun d => y.1 = p.inDir d ∧ Missed y.2) (y.1 = p) := by
  have hfound {x y : Pod × Option Errno} (hx : Missed x.2) (h : oc.Gives (pure x) y) :
      y.1 = x.1 ∧ Missed y.2 := by
    obtain ⟨rfl, -⟩ := h
    exact ⟨rfl, hx⟩
  have hsame {x y : Pod × Option Errno} (h : oc.Gives (pure x) y) : y.1 = x.1 := congrArg _ h.1
  refine leads_stat h (hfound trivial) hsame hsame fun h => ?_
  refine leads_stat h (hfound rfl) hsame hsame fun h => ?_
  refine leads_stat h (hfound rfl) hsame hsame fun h => ?_
  refine leads_stat h (hfound rfl) hsame hsame fun h => ?_
  refine leads_stat h (hfound rfl) hsame hsame fun h => ?_
  exact leads_stat h (hfound rfl) hsame hsame fun h => h.1

/-- How the attempt to take the shared lock ends, and what is done then. -/
theorem trySharedLock_gives {fd : Fd} {k : Except Errno Unit → Prog podSig α}
    (h : oc.Gives (sys (.trySharedLock fd) >>= k) a) :
    (oc.lock = .taken ∧ oc.Gives (k (.ok ())) a) ∨
      (oc.lock = .locked ∧ oc.Gives (k (.error .wouldblock)) a) ∨
      (oc.lock = .failed ∧ (oc.Gives (k (.error .noent)) a ∨ oc.Gives (k (.error .other)) a)) := by
  obtain ⟨r, hr, h⟩ := gives_bind.mp h
  have hlock : TryLock.of r = oc.lock := of_decide_eq_true (gives_call.mp hr)
  rcases r with e | ⟨⟩
  · cases e with
    | wouldblock => exact .inr (.inl ⟨hlock.symm, h⟩)
    | noent => exact .inr (.inr ⟨hlock.symm, .inl h⟩)
    | other => exact .inr (.inr ⟨hlock.symm, .inr h⟩)
  · exact .inl ⟨hlock.symm, h⟩

/-- The lock is tested for a pod in a directory where it says something. -/
theorem inDir_tests (p : Pod) (d : Dir) :
    (!(p.reset.inDir d).isPrepared && !(p.reset.inDir d).isEmbryo) = !decide d.lockless := by
  cases d <;> rfl

theorem inDir_retests (p : Pod) (d : Dir) :
    (!(p.reset.inDir d).isPrepared && !(p.reset.inDir d).isEmbryo && !(p.reset.inDir d).isGone) =
      !decide d.lockless := by
  cases d <;> rfl

theorem testLock_gives (h : oc.Gives (testLock (p.reset.inDir d)) r)
    (hlock : oc.lock = .failed → d.lockless) : r = .ok (oc.tested p.reset d) := by
  unfold testLock at h
  rw [inDir_tests] at h
  unfold Outcomes.tested
  by_cases hd : d.lockless
  · simp only [hd, decide_true, Bool.not_true, Bool.false_eq_true, if_false] at h
    rw [if_pos (.inl hd)]
    exact h.1
  · simp only [hd, decide_false, Bool.not_false, if_true] at h
    rcases trySharedLock_gives h with ⟨hl, h⟩ | ⟨hl, h⟩ | ⟨hl, -⟩
    · obtain ⟨_, -, h⟩ := gives_bind.mp h
      rw [if_pos (.inr hl)]
      exact h.1
    · rw [if_neg (by simp [hd, hl])]
      exact h.1
    · exact absurd (hlock hl) hd

theorem retestLock_gives (h : oc.Gives (retestLock (p.reset.inDir d)) y) :
    y = (oc.tested p.reset d, .ok ()) ∧ (oc.lock = .failed → d.lockless) ∨ y.2 ≠ .ok () := by
  unfold retestLock at h
  rw [inDir_retests] at h
  unfold Outcomes.tested
  by_cases hd : d.lockless
  · simp only [hd, decide_true, Bool.not_true, Bool.false_eq_true, if_false] at h
    rw [if_pos (.inl hd)]
    exact .inl ⟨h.1, fun _ => hd⟩
  · simp only [hd, decide_false, Bool.not_false, if_true] at h
    rcases trySharedLock_gives h with ⟨hl, h⟩ | ⟨hl, h⟩ | ⟨hl, h⟩
    · obtain ⟨_, -, h⟩ := gives_bind.mp h
      rw [if_pos (.inr hl)]
      exact .inl ⟨h.1, by simp [hl]⟩
    · rw [if_neg (by simp [hd, hl])]
      exact .inl ⟨h.1, by simp [hl]⟩
    · refine .inr ?_
      rcases h with h | h
      all_goals
        obtain ⟨_, -, h⟩ := gives_bind.mp h
        rw [h.1]
        exact nofun

theorem loadNets_gives {x : Pod} (h : oc.Gives (loadNets x) r) : r = .ok x := by
  unfold loadNets at h
  by_cases hx : x.isRunning = true
  · rw [if_pos hx] at h
    obtain ⟨r', hr', h⟩ := gives_bind.mp h
    have hne : Probe.of (α := Unit) r' ≠ .failed := of_decide_eq_true (gives_call.mp hr')
    rcases r' with e | ⟨⟩
    · cases e with
      | noent => exact h.1
      | wouldblock | other => exact absurd rfl hne
    · exact h.1
  · rw [if_neg hx] at h
    exact h.1

theorem getPod_gives (hd : oc.decisive = some d) (hfound : oc.dir d = .found)
    (hlock : oc.lock = .failed → d.lockless) (h : oc.Gives (getPod u) r) :
    ∃ l, r = .ok (oc.tested { lock := l, uuid := u } d) := by
  obtain ⟨r1, hinit, h⟩ := gives_bind.mp h
  obtain ⟨r0, hr0, hret⟩ := gives_bind.mp hinit
  have hmade : Except.isOk (ε := Errno) (α := Unit) r0 = true := gives_call.mp hr0
  obtain rfl := ok_of_sure hmade
  obtain ⟨rfl, -⟩ := hret
  obtain ⟨r2, hopen, h⟩ := gives_bind.mp h
  have hleads := openPod_gives hopen
  unfold Outcomes.Leads at hleads
  rw [show allDirs.find? _ = some d from hd] at hleads
  simp only [hfound, if_true] at hleads
  obtain ⟨l, rfl⟩ := hleads
  obtain ⟨r3, htest, h⟩ := gives_bind.mp h
  have htested : r3 = .ok (oc.tested (Pod.reset { lock := l, uuid := u }) d) :=
    testLock_gives htest hlock
  subst htested
  exact ⟨l, loadNets_gives h⟩

theorem refreshState_found (hd : oc.decisive = some d)
    (hfound : oc.dir d = .found) (h : oc.Gives (refreshState p) y) :
    y = (oc.tested p.reset d, .ok ()) ∧ (oc.lock = .failed → d.lockless) ∨ y.2 ≠ .ok () := by
  obtain ⟨⟨x, err⟩, hstat, h⟩ := gives_bind.mp h
  have hleads := statPod_gives hstat
  unfold Outcomes.Leads at hleads
  rw [show allDirs.find? _ = some d from hd] at hleads
  simp only [hfound, if_true] at hleads
  obtain ⟨rfl, hmissed⟩ := hleads
  cases err with
  | none => exact retestLock_gives h
  | some e =>
    cases hmissed
    exact retestLock_gives h

theorem refreshState_gone (hd : oc.decisive = .none)
    (h : oc.Gives (refreshState p) y) : y = ({ p.reset with isGone := true }, .ok ()) := by
  obtain ⟨⟨x, err⟩, hstat, h⟩ := gives_bind.mp h
  have hleads := statPod_gives hstat
  unfold Outcomes.Leads at hleads
  rw [show allDirs.find? _ = .none from hd] at hleads
  cases hleads
  exact h.1

/-- **A failed probe leaves a running pod**, with or without an error. -/
theorem refreshState_fails (hfails : oc.Fails)
    (h : oc.Gives (refreshState p) y) : y.1.isRunning = true := by
  obtain ⟨d, hd, hfailed⟩ := hfails
  obtain ⟨⟨x, err⟩, hstat, h⟩ := gives_bind.mp h
  have hleads := statPod_gives hstat
  unfold Outcomes.Leads at hleads
  rw [show allDirs.find? _ = some d from hd] at hleads
  simp only [hfailed, reduceCtorEq, if_false] at hleads
  subst hleads
  -- no flag has been set, and the lock of such a pod changes none
  have hlock : ∀ {y}, oc.Gives (retestLock p.reset) y → y.1.isRunning = true := by
    intro y h
    rcases trySharedLock_gives h with ⟨-, h⟩ | ⟨-, h⟩ | ⟨-, h | h⟩
    · obtain ⟨_, -, h⟩ := gives_bind.mp h
      rw [h.1]
      rfl
    · rw [h.1]
      rfl
    all_goals
      obtain ⟨_, -, h⟩ := gives_bind.mp h
      rw [h.1]
      rfl
  rcases err with _ | _ | _ | _
  · exact hlock h
  · exact hlock h
  · rw [h.1]
    rfl
  · rw [h.1]
    rfl

end runs

/-- The state that `refreshState` found is the one that `getPod` finds. -/
def Outcomes.Confirmed (oc : Outcomes) (u : UUID) (flags : List Bool) : Prop :=
  (∃ q, oc.Gives (getPod u) (.ok q)) ∧
    ∀ r, oc.Gives (getPod u) r → ∃ q, r = .ok q ∧ q.flags = flags

theorem confirmed_tested {oc : Outcomes} {d : Dir} {p : Pod} (hd : oc.decisive = some d)
    (hfound : oc.dir d = .found) (hlock : oc.lock = .failed → d.lockless) :
    oc.Confirmed p.uuid (oc.tested p.reset d).flags := by
  have hflags : ∀ l, (oc.tested { lock := l, uuid := p.uuid } d).flags =
      (oc.tested p.reset d).flags := by
    intro l
    unfold Outcomes.tested
    split <;> cases d <;> rfl
  have hall : ∀ r, oc.Gives (getPod p.uuid) r →
      ∃ q, r = .ok q ∧ q.flags = (oc.tested p.reset d).flags := by
    intro r hr
    obtain ⟨l, rfl⟩ := getPod_gives hd hfound hlock hr
    exact ⟨_, rfl, hflags l⟩
  refine ⟨?_, hall⟩
  obtain ⟨r, hr⟩ := gives_some oc (getPod p.uuid)
  obtain ⟨q, rfl, -⟩ := hall r hr
  exact ⟨q, hr⟩

/-- **When `refreshState` can be trusted.** It returns without an error only with the state that
`getPod` would find, or with `isGone` alone if all six directories are reported as missing; and if
a probe fails then it returns an error and does not leave the pod running. This is so if and only
if none of the probes that are made fails. -/
theorem refreshState_agrees_iff (oc : Outcomes) (p : Pod) :
    (∀ p' r, oc.Gives (refreshState p) (p', r) →
      (r = .ok () → oc.Confirmed p.uuid p'.flags ∨
        (∀ d, oc.dir d = .notFound) ∧ p'.flags = goneFlags) ∧
      (oc.Fails → r ≠ .ok () ∧ p'.isRunning = false)) ↔ ¬ oc.Fails := by
  constructor
  · intro h hfails
    obtain ⟨⟨p', r⟩, hgives⟩ := gives_some oc (refreshState p)
    have hrunning : p'.isRunning = true := refreshState_fails (y := (p', r)) hfails hgives
    rw [((h p' r hgives).2 hfails).2] at hrunning
    cases hrunning
  · intro hno p' r hgives
    refine ⟨fun hr => ?_, fun hfails => absurd hfails hno⟩
    cases hd : oc.decisive with
    | none =>
      cases refreshState_gone hd hgives
      refine .inr ⟨fun d => ?_, rfl⟩
      have hall := List.find?_eq_none.mp hd d (by cases d <;> decide)
      simpa using hall
    | some d =>
      have hne : oc.dir d ≠ .notFound := by simpa using List.find?_some hd
      have hfound : oc.dir d = .found := by
        cases hprobe : oc.dir d with
        | found => rfl
        | notFound => exact absurd hprobe hne
        | failed => exact absurd ⟨d, hd, hprobe⟩ hno
      rcases refreshState_found hd hfound hgives with ⟨hy, hlock⟩ | hy
      · cases hy
        exact .inl (confirmed_tested hd hfound hlock)
      · exact absurd hr hy

/-- The look at `prepared` fails, and nobody holds the lock. -/
def brokenPrepared : Outcomes where
  dir d := if d = .prepared then .failed else .notFound
  lock := .taken

/-- **A prepared pod is reported as running**, while `getPod` does not find one. -/
theorem refreshState_hides_error :
    ∃ p', brokenPrepared.Gives (refreshState { lock := ⟨1, 0, 5⟩, uuid := 5, isPrepared := true })
        (p', .ok ()) ∧ p'.isRunning = true ∧
      ∀ r, brokenPrepared.Gives (getPod 5) r → ∃ e, r = .error e := by
  have hrefresh : (refreshState { lock := ⟨1, 0, 5⟩, uuid := 5, isPrepared := true }).eval
      brokenPrepared.step brokenPrepared.answer () =
      some (({ lock := ⟨1, 0, 5⟩, uuid := 5 }, .ok ()), ()) := rfl
  refine ⟨_, runs_of_eval brokenPrepared.answer hrefresh, rfl, fun r h => ?_⟩
  obtain ⟨r₁, hinit, h⟩ := gives_bind.mp h
  cases r₁ with
  | error e => exact ⟨e, h.1⟩
  | ok _ =>
    obtain ⟨r₂, hopen, h⟩ := gives_bind.mp h
    have hleads := openPod_gives hopen
    obtain ⟨e, rfl⟩ : ∃ e, r₂ = .error e := hleads
    exact ⟨e, h.1⟩

end Rkt.Pods
