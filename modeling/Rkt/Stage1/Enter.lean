import Mathlib.Tactic

set_option autoImplicit false

namespace Rkt.Enter

structure Signal where
  num : Nat
  pos : 0 < num
  le : num ≤ 64
  deriving DecidableEq, Repr

inductive End where
  | exited (code : UInt8)
  | killed (sig : Signal) (core : Bool)
  deriving DecidableEq, Repr

/-- What `waitpid` tells of a child, with `WUNTRACED`. -/
inductive Change where
  | stopped (sig : Signal)
  | ended (e : End)
  deriving DecidableEq, Repr

def Change.status : Change → Nat
  | .stopped sig => sig.num <<< 8 ||| 0x7f
  | .ended (.exited code) => code.toNat <<< 8
  | .ended (.killed sig core) => sig.num ||| (if core then 0x80 else 0)

def wifstopped (status : Nat) : Bool := status &&& 0xff = 0x7f

def wtermsig (status : Nat) : Nat := status &&& 0x7f

def wifexited (status : Nat) : Bool := wtermsig status = 0

/-- `WIFSIGNALED`: the addition is that of a `signed char`. -/
def wifsignaled (status : Nat) : Bool := (BitVec.ofNat 8 (wtermsig status + 1)).toInt / 2 > 0

def wexitstatus (status : Nat) : Nat := (status &&& 0xff00) >>> 8

inductive Action where
  /-- `waitpid` has returned. -/
  | wait (c : Change)
  /-- `kill(getpid(), SIGSTOP)`; `enter` is continued some time later. -/
  | stopSelf
  /-- `kill(child, SIGCONT)`. -/
  | continueChild
  deriving DecidableEq, Repr

inductive Finish where
  | exit (code : Nat)
  | killedBy (sig : Nat)
  deriving DecidableEq, Repr

/-- `EXIT_FAILURE`. -/
def exitFailure : Nat := 1

/-- The loop, for the changes of the child that are still to come. The result of `waitpid` is the
pid of the child; without a child it fails, and leaves the status alone. -/
def waitLoop (pid child : Int) (status : Nat) : List Change → List Action × Nat
  | [] => ([], status)
  | c :: cs =>
    if child = pid ∧ wifstopped c.status then
      let rest := waitLoop pid child c.status cs
      (.wait c :: .stopSelf :: .continueChild :: rest.1, rest.2)
    else ([.wait c], c.status)

/-- What comes after the loop. The signals in `ignored` do not end `enter`, which goes on then. -/
def finish (ignored : Nat → Bool) (status : Nat) : Finish :=
  if wifexited status then .exit (wexitstatus status)
  else if wifsignaled status ∧ ignored (wtermsig status) = false then .killedBy (wtermsig status)
  else .exit exitFailure

/-- The parent in `main`, for the given changes of the child. -/
def enter (pid child : Int) (ignored : Nat → Bool) (changes : List Change) :
    List Action × Finish :=
  let loop := waitLoop pid child 0 changes
  (loop.1, finish ignored loop.2)

/-- The life of the child: it is stopped any number of times, and ends. -/
structure History where
  stops : List Signal
  last : End
  deriving DecidableEq, Repr

def History.changes (h : History) : List Change := h.stops.map .stopped ++ [.ended h.last]

def End.finish : End → Finish
  | .exited code => .exit code.toNat
  | .killed sig _ => .killedBy sig.num

/-- To stop and go on with the child, and then to wait for its end. -/
def History.actions (h : History) : List Action :=
  (h.stops.flatMap fun sig => [.wait (.stopped sig), .stopSelf, .continueChild]) ++
    [.wait (.ended h.last)]

theorem and_low7 (n : Nat) : n &&& 0x7f = n % 128 := Nat.and_two_pow_sub_one_eq_mod n 7

theorem and_low8 (n : Nat) : n &&& 0xff = n % 256 := Nat.and_two_pow_sub_one_eq_mod n 8

theorem status_stopped (sig : Signal) : (Change.stopped sig).status = sig.num * 256 + 0x7f := by
  show sig.num <<< 8 ||| 0x7f = _
  rw [← Nat.shiftLeft_add_eq_or_of_lt (by decide), Nat.shiftLeft_eq]

theorem status_exited (code : UInt8) : (Change.ended (.exited code)).status = code.toNat * 256 := by
  show code.toNat <<< 8 = _
  rw [Nat.shiftLeft_eq]

theorem status_killed (sig : Signal) (core : Bool) :
    (Change.ended (.killed sig core)).status = sig.num + if core then 128 else 0 := by
  have hle := sig.le
  cases core with
  | false => simp [Change.status]
  | true =>
    show sig.num ||| 1 <<< 7 = _
    rw [Nat.or_comm, ← Nat.shiftLeft_add_eq_or_of_lt (by omega : sig.num < 2 ^ 7)]
    simp only [Nat.shiftLeft_eq, ↓reduceIte]
    omega

theorem wifstopped_stopped (sig : Signal) : wifstopped (Change.stopped sig).status = true := by
  rw [wifstopped, status_stopped, and_low8, decide_eq_true_eq]
  omega

theorem wifstopped_ended (e : End) : wifstopped (Change.ended e).status = false := by
  cases e with
  | exited code =>
    rw [wifstopped, status_exited, and_low8, decide_eq_false_iff_not]
    omega
  | killed sig core =>
    have hle := sig.le
    rw [wifstopped, status_killed, and_low8, decide_eq_false_iff_not]
    split_ifs <;> omega

theorem wtermsig_killed (sig : Signal) (core : Bool) :
    wtermsig (Change.ended (.killed sig core)).status = sig.num := by
  have hle := sig.le
  rw [wtermsig, status_killed, and_low7]
  split_ifs <;> omega

theorem wifsignaled_killed (sig : Signal) (core : Bool) :
    wifsignaled (Change.ended (.killed sig core)).status = true := by
  have hpos := sig.pos
  have hle := sig.le
  have hsmall : (BitVec.ofNat 8 (sig.num + 1)).toInt = sig.num + 1 := by
    rw [BitVec.toInt_eq_toNat_cond, BitVec.toNat_ofNat]
    split_ifs <;> omega
  rw [wifsignaled, wtermsig_killed, decide_eq_true_eq, hsmall]
  omega

theorem finish_exited (ignored : Nat → Bool) (code : UInt8) :
    finish ignored (Change.ended (.exited code)).status = .exit code.toNat := by
  have hlt : code.toNat < 256 := code.toNat_lt
  have hterm : wtermsig (Change.ended (.exited code)).status = 0 := by
    rw [wtermsig, status_exited, and_low7]
    omega
  have hcode : wexitstatus (Change.ended (.exited code)).status = code.toNat := by
    have hmask : (0xff00 : Nat) = 0xff <<< 8 := rfl
    show (code.toNat <<< 8 &&& 0xff00) >>> 8 = _
    rw [hmask, ← Nat.shiftLeft_and_distrib, Nat.shiftLeft_shiftRight, and_low8,
      Nat.mod_eq_of_lt hlt]
  simp [finish, wifexited, hterm, hcode]

theorem finish_killed (ignored : Nat → Bool) (sig : Signal) (core : Bool) :
    finish ignored (Change.ended (.killed sig core)).status =
      if ignored sig.num then .exit exitFailure else .killedBy sig.num := by
  have hpos := sig.pos
  have hexited : wifexited (Change.ended (.killed sig core)).status = false := by
    rw [wifexited, wtermsig_killed, decide_eq_false_iff_not]
    omega
  unfold finish
  rw [wifsignaled_killed, wtermsig_killed, hexited]
  cases ignored sig.num <;> simp

/-- `enter` ends as the child does, unless it ignores the signal. -/
theorem finish_ended (ignored : Nat → Bool) (e : End) :
    finish ignored (Change.ended e).status = e.finish ↔
      ∀ sig core, e = .killed sig core → ignored sig.num = false := by
  cases e with
  | exited code => simp [finish_exited, End.finish]
  | killed sig core =>
    rw [finish_killed]
    cases hign : ignored sig.num <;> simp [End.finish, hign]

/-- If `waitpid` returns the pid that it is compared with, all stops are passed on. -/
theorem waitLoop_same (pid : Int) (stops : List Signal) (last : End) (status : Nat) :
    waitLoop pid pid status (stops.map .stopped ++ [.ended last]) =
      (History.actions ⟨stops, last⟩, (Change.ended last).status) := by
  induction stops generalizing status with
  | nil => simp [waitLoop, wifstopped_ended, History.actions]
  | cons sig stops ih =>
    simp only [List.map_cons, List.cons_append, waitLoop, wifstopped_stopped, and_self,
      ↓reduceIte, ih]
    simp [History.actions]

theorem waitLoop_other {pid child : Int} (hne : child ≠ pid) (c : Change) (cs : List Change)
    (status : Nat) : waitLoop pid child status (c :: cs) = ([.wait c], c.status) := by
  simp [waitLoop, hne]

/-- **`enter` stands for its child** exactly if the child is never stopped, or has the pid of the
pod, and it is not killed by a signal that `enter` ignores. -/
theorem enter_iff (pid child : Int) (ignored : Nat → Bool) (h : History) :
    enter pid child ignored h.changes = (h.actions, h.last.finish) ↔
      (h.stops = [] ∨ child = pid) ∧
        ∀ sig core, h.last = .killed sig core → ignored sig.num = false := by
  obtain ⟨stops, last⟩ := h
  by_cases hpid : child = pid
  · subst hpid
    simp only [enter, History.changes, waitLoop_same, Prod.mk.injEq, true_and, or_true,
      finish_ended]
  · cases stops with
    | nil =>
      simp only [enter, History.changes, List.map_nil, List.nil_append, waitLoop_other hpid,
        Prod.mk.injEq, finish_ended, true_or, true_and]
      simp [History.actions]
    | cons sig stops =>
      -- the trace is too short: the end of the child is not in it
      simp only [enter, History.changes, List.map_cons, List.cons_append, waitLoop_other hpid]
      simp [History.actions, hpid]

/-- The child stops once, and would exit with 0 later. -/
def stopsOnce : History := ⟨[⟨20, by decide, by decide⟩], .exited 0⟩

/-- A stop of the child ends `enter`, with a failure. -/
theorem enter_ends_at_stop :
    enter 100 200 (fun _ => false) stopsOnce.changes =
      ([.wait (.stopped ⟨20, by decide, by decide⟩)], .exit 1) ∧
    enter 100 200 (fun _ => false) stopsOnce.changes ≠
      (stopsOnce.actions, stopsOnce.last.finish) := by
  decide

end Rkt.Enter
