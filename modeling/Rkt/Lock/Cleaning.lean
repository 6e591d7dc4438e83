import Rkt.Conc.Record
import Rkt.Lock.Exclusion

set_option autoImplicit false

namespace Rkt.Lock

open Conc Proto Flock

/-- `NewKeyLock`, followed by a blocking lock call. -/
def newAndLock (mode : Mode) (maxRetries : Nat) : Prog lockSig (Except Err FileLock) := do
  match ← newKeyLock with
  | .error e => return .error e
  | .ok fd =>
    match ← lock (some fd) ⟨mode, false⟩ maxRetries with
    | (.error e, _) => return .error e
    | (.ok (), l) => return .ok l

/-- What a client does after `newAndLock` if it gives up at an error. -/
def Script.goOn (script : Script) : Except Err FileLock → Prog lockSig Unit
  | .error _ => return ()
  | .ok l => script.run l

/-- A client whose first call is a blocking lock call, and which gives up if it fails. -/
theorem new_prog (mode : Mode) (maxRetries : Nat) {k : Except Err Unit → Script}
    (hk : ∀ e, k (.error e) = .done) :
    (Client.new (.call (.lock ⟨mode, false⟩ maxRetries) k)).prog =
      newAndLock mode maxRetries >>= (k (.ok ())).goOn := by
  show newKeyLock >>= _ = (newKeyLock >>= _) >>= _
  rw [Conc.Call.bind_assoc]
  congr 1
  funext r
  rcases r with e | fd
  · rfl
  show lock (some fd) ⟨mode, false⟩ maxRetries >>= _ =
    (lock (some fd) ⟨mode, false⟩ maxRetries >>= _) >>= _
  rw [Conc.Call.bind_assoc]
  congr 1
  funext x
  obtain ⟨r, l⟩ := x
  rcases r with e | _
  · show (k (.error e)).run l = _
    rw [hk]
    rfl
  · rfl

def isOther {α : Type} : Except Errno α → Bool
  | .error .other => true
  | _ => false

def ioError : (o : Op) → o.Res → Bool
  | .mkdirAll, r | .flockWait _ _ _, r | .flockUn _, r | .remove, r => isOther (α := Unit) r
  | .openCreate, r | .openFile, r => isOther (α := Fd) r
  | .fstat _, r => isOther (α := Ino) r
  | .listed, r => isOther (α := Bool) r
  | _, _ => false

def absent : (o : Op) → o.Res → Bool
  | .openFile, .error .noent => true
  | _, _ => false

def removed : (o : Op) → o.Res → Bool
  | .remove, .ok () => true
  | _, _ => false

def removes : Move lockSig → Bool
  | .run _ o r => removed o r
  | .die _ => false

def removals (ms : List (Move lockSig)) : Nat := ms.countP removes

theorem removals_append (ms : List (Move lockSig)) (m : Move lockSig) :
    removals (ms ++ [m]) = removals ms + if removes m then 1 else 0 := by
  simp [removals, List.countP_append, List.countP_singleton]

variable {p : Pid} {s s' : Files} {o : Op} {n i : Nat}

theorem next_path {r : o.Res} (h : next p o r s = some s') (hpath : s.path = some i) :
    s'.path = some i ∨ removed o r = true := by
  by_cases hf : o.failed r = true
  · rw [next_failed hf h]
    exact .inl hpath
  cases o with
  | mkdirAll | openCreate | openFile | fstat | listed =>
    exact .inl ((quiet_next (by rfl) h).path i hpath)
  | flockDrop fd mode =>
    obtain ⟨-, ⟨⟩⟩ := Option.ite_none_right_eq_some.mp h
    refine .inl ?_
    split <;> exact hpath
  | flockWait | flockUn =>
    simp only [next] at h
    split at h <;> (try split at h) <;> cases h <;> exact .inl hpath
  | close | returned =>
    cases h
    exact .inl hpath
  | remove =>
    rcases r with e | _
    · exact absurd rfl hf
    · exact .inr rfl

theorem moves_path {m : Move lockSig} (h : lockMachine.Moves m s s') (hpath : s.path = some i) :
    s'.path = some i ∨ removes m = true := by
  cases m with
  | run q o r => exact next_path (lockMachine_next h).2 hpath
  | die q =>
    cases h
    exact .inl hpath

/-- Since the number of removals was at least `n`, the path has led to `i`; or else the file was
removed once more. -/
def Since (n : Nat) (i : Ino) (s : Files × List (Move lockSig)) : Prop :=
  n ≤ removals s.2 ∧ (s.1.path = some i ∨ n < removals s.2)

def Clear (p : Pid) (s : Files × List (Move lockSig)) : Prop :=
  ¬ Made p ioError s.2 ∧ ¬ Made p absent s.2

/-- There was an I/O error, or an open of `p` has found no file after a removal. -/
def Failed (p : Pid) (s : Files × List (Move lockSig)) : Prop :=
  Made p ioError s.2 ∨ Made p absent s.2 ∧ 0 < removals s.2

theorem removals_lasting (n : Nat) : (free lockMachine).Lasting fun s => n ≤ removals s.2 := by
  rintro q s s' - - ⟨m, -, hrec, -⟩ h
  show n ≤ removals s'.2
  rw [hrec, removals_append]
  omega

theorem since_lasting (n : Nat) (i : Ino) : (free lockMachine).Lasting (Since n i) := by
  rintro q s s' - - ⟨m, -, hrec, hmoves⟩ ⟨hn, h⟩
  unfold Since
  rw [hrec, removals_append]
  rcases h with hpath | hlt
  · rcases moves_path hmoves hpath with hpath' | hrem
    · exact ⟨by omega, .inl hpath'⟩
    · simp only [hrem, if_true]
      exact ⟨by omega, .inr (by omega)⟩
  · exact ⟨by omega, .inr (by omega)⟩

theorem Since.removed {s : Files × List (Move lockSig)} (h : Since n i s)
    (hpath : s.1.path ≠ some i) : n < removals s.2 := h.2.resolve_left hpath

theorem clear_stable (p : Pid) : (free lockMachine).Stable p (Clear p) :=
  not_made_stable.and not_made_stable

theorem failed_lasting (p : Pid) : (free lockMachine).Lasting (Failed p) := by
  rintro q s s' h1 h2 hg (hio | ⟨habsent, hrem⟩)
  · exact .inl (made_lasting q s s' h1 h2 hg hio)
  · exact .inr ⟨made_lasting q s s' h1 h2 hg habsent, removals_lasting 1 q s s' h1 h2 hg hrem⟩

theorem Clear.next {s s' : Files} {ms : List (Move lockSig)} {r : o.Res} (h : Clear p (s, ms))
    (hio : ioError o r = false) (habsent : absent o r = false) :
    Clear p (s', ms ++ [.run p o r]) := by
  unfold Clear
  rw [made_last, made_last, hio, habsent]
  simpa [Clear] using h

theorem failed_io {s : Files} {ms : List (Move lockSig)} {r : o.Res} (h : ioError o r = true) :
    Failed p (s, ms ++ [.run p o r]) := .inl (made_last.mpr (.inr h))

theorem sure_free (hio : ∀ r, ioError o r = false) (habsent : ∀ r, absent o r = false) :
    (free lockMachine).Triple p (Clear p) (sys o) (fun _ => Clear p) :=
  free_call (clear_stable p) fun _ _ r _ h _ => h.next (hio r) (habsent r)

theorem mkdirAll_free : (free lockMachine).Triple p (Clear p) (sys .mkdirAll)
    (Result (Failed p) fun _ => Clear p) := by
  refine free_call (clear_stable p) fun s ms r s' h hn => ?_
  have hn' := (lockMachine_next hn).2
  rcases r with e | _
  · cases e with
    | other => exact failed_io rfl
    | _ => cases hn'
  · exact h.next rfl rfl

theorem openCreate_free : (free lockMachine).Triple p
    (fun s => Clear p s ∧ n ≤ removals s.2) (sys .openCreate)
    (Result (Failed p) fun fd s => Clear p s ∧ Since n fd.ino s) := by
  refine free_call ((clear_stable p).and (removals_lasting n).stable) ?_
  rintro s ms r s' ⟨h, hle⟩ hn
  have hn' := (lockMachine_next hn).2
  rcases r with e | fd
  · cases e with
    | other => exact failed_io rfl
    | _ => cases hn'
  · refine ⟨h.next rfl rfl, ?_, .inl ?_⟩
    · rw [removals_append]
      exact Nat.le_add_right_of_le hle
    · show s'.path = some fd.ino
      simp only [Lock.next] at hn'
      split at hn' <;> split at hn' <;> cases hn'
      · rename_i hpath hfd
        rw [hfd]
        exact hpath
      · rfl

/-- An open that finds no file does so after a removal, and so does one that finds another
inode. -/
theorem openFile_free : (free lockMachine).Triple p
    (fun s => Clear p s ∧ Since n i s) (sys .openFile) (Result (Failed p) fun fd s =>
      Clear p s ∧ Since n fd.ino s ∧ (fd.ino ≠ i → n < removals s.2)) := by
  have hsince := since_lasting n i
  refine free_call ((clear_stable p).and hsince.stable) ?_
  rintro s ms r s' ⟨h, hs⟩ hn
  have hs' : Since n i (s', ms ++ [.run p .openFile r]) :=
    hsince p (s, ms) _ trivial trivial ⟨.run p .openFile r, rfl, rfl, hn⟩ hs
  have hn' := (lockMachine_next hn).2
  rcases r with e | fd
  · cases e with
    | other => exact failed_io rfl
    | noent =>
      obtain ⟨hnone, ⟨⟩⟩ := Option.ite_none_right_eq_some.mp hn'
      have hlt := hs'.removed (by simp [hnone])
      exact .inr ⟨made_last.mpr (.inr rfl), by omega⟩
    | _ => cases hn'
  · simp only [Lock.next] at hn'
    split at hn'
    · rename_i j hpath
      obtain ⟨hfd, ⟨⟩⟩ := Option.ite_none_right_eq_some.mp hn'
      have hpath' : (s.addFd fd).path = some fd.ino := by
        rw [hfd]
        exact hpath
      refine ⟨h.next rfl rfl, ⟨hs'.1, .inl hpath'⟩, fun hne => hs'.removed ?_⟩
      rw [hpath']
      simpa using hne
    · cases hn'

theorem fstat_free (fd : Fd) : (free lockMachine).Triple p (Clear p) (sys (.fstat fd))
    (Result (Failed p) fun j s => Clear p s ∧ j = fd.ino) := by
  refine free_call (clear_stable p) fun s ms r s' h hn => ?_
  have hn' := (lockMachine_next hn).2
  rcases r with e | j
  · cases e with
    | other => exact failed_io rfl
    | _ => cases hn'
  · exact ⟨h.next rfl rfl, (Option.ite_none_right_eq_some.mp hn').1⟩

theorem flock_free (fd : Fd) (m : Mode) : (free lockMachine).Triple p (Clear p)
    (flock (some fd) m false) (Result (Failed p) fun _ => Clear p) := by
  have hdrop : (free lockMachine).Triple p (Clear p) (sys (.flockDrop fd m)) (fun _ => Clear p) :=
    sure_free (fun _ => rfl) (fun _ => rfl)
  have hwait : (free lockMachine).Triple p (Clear p) (sys (.flockWait fd m false))
      (Result (Failed p) fun _ => Clear p) := by
    refine free_call (clear_stable p) fun s ms r s' h hn => ?_
    have hn' := (lockMachine_next hn).2
    rcases r with e | _
    · cases e with
      | other => exact failed_io rfl
      | wouldblock =>
        simp only [Lock.next, Bool.false_eq_true, false_and, if_false] at hn'
        cases hn'
      | _ => cases hn'
    · exact h.next rfl rfl
  refine hdrop.bind fun same => ?_
  cases same with
  | true => exact Triple.ret fun _ h => h
  | false => exact hwait

theorem takeLock_free (fd : Fd) (m : Mode) : (free lockMachine).Triple p (Clear p)
    (takeLock (some fd) ⟨m, false⟩) (Result (Failed p) fun _ => Clear p) := by
  cases m <;> exact flock_free fd _

theorem newKeyLock_free : (free lockMachine).Triple p
    (fun s => Clear p s ∧ n ≤ removals s.2) newKeyLock
    (Result (Failed p) fun fd s => Clear p s ∧ Since n fd.ino s) := by
  have fail : ∀ {e : Err}, (free lockMachine).Triple p (Failed p) (pure (.error e))
      (Result (Failed p) fun (fd : Fd) s => Clear p s ∧ Since n fd.ino s) :=
    Triple.ret fun _ h => h
  have hmkdir := (mkdirAll_free (p := p)).frame (removals_lasting n)
  refine Triple.bind hmkdir fun r => ?_
  rcases r with e | _
  · exact fail.pre fun _ h => h.1
  refine Triple.onResult openCreate_free (fun f => ?_) fun e => fail
  have hclose := (sure_free (p := p) (o := .close f) (fun _ => rfl) fun _ => rfl).frame
    (since_lasting n f.ino)
  refine Triple.bind hclose fun _ => ?_
  have hopen : (free lockMachine).Triple p (fun s => Clear p s ∧ Since n f.ino s) newLock
      (Result (Failed p) fun fd s => Clear p s ∧ Since n fd.ino s) := by
    refine Triple.onResult openFile_free (fun fd => ?_) fun e => Triple.ret fun _ h => h
    have hstat := (fstat_free (p := p) fd).frame (since_lasting n fd.ino)
    refine Triple.bind (hstat.pre fun _ h => ⟨h.1, h.2.1⟩) fun r => ?_
    rcases r with e | j
    · exact Triple.ret fun _ h => h.1
    · exact Triple.ret fun _ h => ⟨h.1.1, h.2⟩
  exact Triple.onResult hopen (fun fd => Triple.ret fun _ h => h) fun e => fail

/-- If the check says that the file has changed then it was removed once more. -/
theorem sameFile_free (fd : Fd) : (free lockMachine).Triple p
    (fun s => Clear p s ∧ Since n fd.ino s) (sameFile fd)
    (Result (Failed p) fun same s => Clear p s ∧ (same = false → n + 1 ≤ removals s.2)) := by
  have hstat := (fstat_free (p := p) fd).frame (since_lasting n fd.ino)
  refine Triple.bind hstat fun r => ?_
  rcases r with e | lockIno
  · exact Triple.ret fun _ h => h.1
  suffices h : lockIno = fd.ino → (free lockMachine).Triple p
      (fun s => Clear p s ∧ Since n fd.ino s) _ _ from
    (Triple.given h).pre fun _ h => ⟨⟨h.1.1, h.2⟩, h.1.2⟩
  intro hlock
  refine Triple.onResult openFile_free (fun cur => ?_) fun e => Triple.ret fun _ h => h
  -- whether the inodes differ is known from here on, and so is the removal if they do
  have hchanged : (free lockMachine).Lasting fun s => cur.ino ≠ fd.ino → n + 1 ≤ removals s.2 :=
    (removals_lasting (n + 1)).imp
  have hcur := (fstat_free (p := p) cur).frame hchanged
  refine Triple.bind (hcur.pre fun _ h => ⟨h.1, h.2.2⟩) fun r => ?_
  rcases r with e | curIno
  · have hclose := free_keeps (p := p) (failed_lasting p) (sys (.close cur))
    exact Triple.bind (hclose.pre fun _ h => h.1) fun _ => Triple.ret fun _ h => h
  suffices h : curIno = cur.ino → (free lockMachine).Triple p
      (fun s => Clear p s ∧ (cur.ino ≠ fd.ino → n + 1 ≤ removals s.2)) _ _ from
    (Triple.given h).pre fun _ h => ⟨⟨h.1.1, h.2⟩, h.1.2⟩
  intro hcurIno
  have hclose := (sure_free (p := p) (o := .close cur) (fun _ => rfl) fun _ => rfl).frame hchanged
  refine Triple.bind hclose fun _ => Triple.ret fun s h => ⟨h.1, fun hdiffer => h.2 ?_⟩
  have hne : lockIno ≠ curIno := by simpa using hdiffer
  rw [← hcurIno, ← hlock]
  exact Ne.symm hne

def Ended (p : Pid) (maxRetries : Nat) (r : Except Err Unit × FileLock)
    (s : Files × List (Move lockSig)) : Prop :=
  Result (fun s => Failed p s ∨ maxRetries < removals s.2) (fun _ => Clear p) r.1 s

variable {m : Mode} {maxRetries : Nat}

theorem lockRound_free (fd : Fd) {changed : Prog lockSig (Except Err Unit × FileLock)}
    (hchanged : (free lockMachine).Triple p (fun s => Clear p s ∧ n + 1 ≤ removals s.2) changed
      (Ended p maxRetries)) : (free lockMachine).Triple p (fun s => Clear p s ∧ Since n fd.ino s)
      (lockRound ⟨m, false⟩ (some fd) changed) (Ended p maxRetries) := by
  have fail : ∀ {e : Err}, (free lockMachine).Triple p (Failed p) (pure (.error e, some fd))
      (Ended p maxRetries) := Triple.ret fun _ h => .inl h
  have htake := (takeLock_free (p := p) fd m).frame (since_lasting n fd.ino)
  refine Triple.bind htake fun r => ?_
  rcases r with e | _
  · exact fail.pre fun _ h => h.1
  refine Triple.onResult (sameFile_free fd) (fun same => ?_) fun e => fail
  cases same with
  | false => exact hchanged.pre fun _ h => ⟨h.1, h.2 rfl⟩
  | true =>
    have hreturned : (free lockMachine).Triple p (Clear p) (sys (.returned m))
        (fun _ => Clear p) := sure_free (fun _ => rfl) fun _ => rfl
    exact Triple.bind (hreturned.pre fun _ h => h.1) fun _ => Triple.ret fun _ h => h

/-- **The retries are enough.** Each round that finds another file has seen one more removal, so
the error of the last round is that of more than `maxRetries` removals. -/
theorem lockLoop_free (left : Nat) : ∀ (n : Nat) (fd : Fd), n + left = maxRetries →
    (free lockMachine).Triple p (fun s => Clear p s ∧ Since n fd.ino s)
      (lockLoop ⟨m, false⟩ maxRetries left (some fd)) (Ended p maxRetries) := by
  induction left with
  | zero =>
    intro n fd hn
    refine lockRound_free fd (Triple.ret fun s h => .inr ?_)
    have hrem := h.2
    show maxRetries < removals s.2
    omega
  | succ left ih =>
    intro n fd hn
    have hclose := (sure_free (p := p) (o := .close fd) (fun _ => rfl) fun _ => rfl).frame
      (removals_lasting (n + 1))
    have hdiscard : (free lockMachine).Triple p (fun s => Clear p s ∧ n + 1 ≤ removals s.2)
        (FileLock.close (some fd)) (fun _ s => Clear p s ∧ n + 1 ≤ removals s.2) :=
      hclose.bind fun _ => Triple.ret fun _ h => h
    refine lockRound_free fd (Triple.bind hdiscard fun _ => ?_)
    refine Triple.onResult newKeyLock_free (fun fd' => ?_) fun e => Triple.ret fun _ h => .inl h
    exact ih (n + 1) fd' (by omega)

theorem newAndLock_free : (free lockMachine).Triple p (Clear p) (newAndLock m maxRetries)
    (Result (fun s => Failed p s ∨ maxRetries < removals s.2) fun _ => Clear p) := by
  refine Triple.onResult (newKeyLock_free.pre fun _ h => ⟨h, Nat.zero_le _⟩) (fun fd => ?_)
    fun e => Triple.ret fun _ h => .inl h
  refine Triple.bind (lockLoop_free maxRetries 0 fd (Nat.zero_add _)) fun x => ?_
  obtain ⟨r, l⟩ := x
  rcases r with e | _
  · exact Triple.ret fun _ h => h
  · exact Triple.ret fun _ h => h

/-- **When a lock call fails.** In any company, and from any state of the lock file: if a call of
`NewKeyLock`, followed by a blocking lock call with `maxRetries`, meets no I/O error and the lock
file is removed at most `maxRetries` times meanwhile, then it succeeds exactly if none of its opens
finds no file. It succeeds if the file is not removed at all. -/
theorem lock_succeeds_iff {c c' : Config lockSig Files}
    {k : Except Err FileLock → Prog lockSig Unit} {ms : List (Move lockSig)} {seen : List Files}
    {a : Except Err FileLock}
    (hc : c.procs p = newAndLock m maxRetries >>= k)
    (hcall : playCall lockMachine p ms c (newAndLock m maxRetries) = some (seen, a, c'))
    (hio : ¬ Made p ioError ms) (hfew : removals ms ≤ maxRetries) :
    (a.isOk = true ↔ ¬ Made p absent ms) ∧ (removals ms = 0 → a.isOk = true) := by
  have hend := playCall_holds newAndLock_free hc ⟨not_made_nil, not_made_nil⟩ hcall
  rcases a with e | l
  · -- what is left of the reasons is an open that found no file
    have habsent : Made p absent ms ∧ 0 < removals ms := by
      rcases hend with (hmade | habsent) | hmany
      · exact absurd hmade hio
      · exact habsent
      · exact absurd hfew (Nat.not_le.mpr hmany)
    refine ⟨⟨fun h => (by cases h), fun h => absurd habsent.1 h⟩, fun h => ?_⟩
    have hrem := habsent.2
    omega
  · exact ⟨⟨fun _ => hend.2, fun _ => rfl⟩, fun _ => rfl⟩

def lockOrClean (p : Pid) : Client :=
  if p = 1 then .clean else .new (.call (.lock keyLockExclusive 2) fun _ => .done)

/-- Process 1 takes the lock of inode 7 and removes the file; its descriptions are `n`, `n + 1` and
`n + 2`. -/
def cleansAway (n : Nat) : List (Move lockSig) :=
  [.run 1 .listed (.ok true), .run 1 .mkdirAll (.ok ()), .run 1 .openCreate (.ok ⟨1, n, 7⟩),
    .run 1 (.close ⟨1, n, 7⟩) (), .run 1 .openFile (.ok ⟨1, n + 1, 7⟩),
    .run 1 (.fstat ⟨1, n + 1, 7⟩) (.ok (7 : Nat)),
    .run 1 (.flockDrop ⟨1, n + 1, 7⟩ .exclusive) false,
    .run 1 (.flockWait ⟨1, n + 1, 7⟩ .exclusive true) (.ok ()),
    .run 1 (.fstat ⟨1, n + 1, 7⟩) (.ok (7 : Nat)), .run 1 .openFile (.ok ⟨1, n + 2, 7⟩),
    .run 1 (.fstat ⟨1, n + 2, 7⟩) (.ok (7 : Nat)), .run 1 (.close ⟨1, n + 2, 7⟩) (),
    .run 1 (.returned .exclusive) (), .run 1 .remove (.ok ()), .run 1 (.close ⟨1, n + 1, 7⟩) ()]

/-- `NewKeyLock` of process `p` creates or finds the file and closes it; the inode is `i`. -/
def creates (p : Pid) (n : Nat) (i : Ino) : List (Move lockSig) :=
  [.run p .mkdirAll (.ok ()), .run p .openCreate (.ok ⟨p, n, i⟩), .run p (.close ⟨p, n, i⟩) ()]

def opens (p : Pid) (n : Nat) (i : Ino) : List (Move lockSig) :=
  [.run p .openFile (.ok ⟨p, n, i⟩), .run p (.fstat ⟨p, n, i⟩) (.ok i)]

def takes (p : Pid) (fd : Fd) : List (Move lockSig) :=
  [.run p (.flockDrop fd .exclusive) false, .run p (.flockWait fd .exclusive false) (.ok ()),
    .run p (.fstat fd) (.ok fd.ino)]

theorem lockOrClean_zero (path : Option Ino) :
    (start path lockOrClean).procs 0 = newAndLock .exclusive 2 >>= Script.done.goOn :=
  new_prog .exclusive 2 fun _ => rfl

/-- The file is removed after process 0 has opened it, and process 2 creates a new one before the
check. The call takes the lock of the new file. -/
def removedBeforeLock : List (Move lockSig) :=
  creates 0 0 7 ++ opens 0 1 7 ++ cleansAway 2 ++ creates 2 5 8 ++ takes 0 ⟨0, 1, 7⟩ ++
    opens 0 6 8 ++ [.run 0 (.close ⟨0, 6, 8⟩) (), .run 0 (.close ⟨0, 1, 7⟩) ()] ++
    creates 0 7 8 ++ opens 0 8 8 ++ takes 0 ⟨0, 8, 8⟩ ++ opens 0 9 8 ++
    [.run 0 (.close ⟨0, 9, 8⟩) (), .run 0 (.returned .exclusive) ()]

theorem lock_succeeds_retried : removals removedBeforeLock = 1 ∧ ¬ Made 0 absent removedBeforeLock ∧
    ∃ seen l c', playCall lockMachine 0 removedBeforeLock (start (some 7) lockOrClean)
      (newAndLock .exclusive 2) = some (seen, .ok l, c') := by
  have hrem : removals removedBeforeLock = 1 := by decide
  have hplay : (playCall lockMachine 0 removedBeforeLock (start (some 7) lockOrClean)
      (newAndLock .exclusive 2)).map (fun y => y.2.1) = some (.ok (some ⟨0, 8, 8⟩)) := by
    decide +kernel
  obtain ⟨seen, c', hcall⟩ := playCall_returns hplay
  have hiff := lock_succeeds_iff (lockOrClean_zero (some 7)) hcall (by decide) (by decide)
  exact ⟨hrem, hiff.1.mp rfl, seen, _, c', hcall⟩

/-- **A lock call fails because the lock file was removed**, once, between its creation by
`NewKeyLock` and the open of `NewLock`. -/
theorem lock_fails_removed : ∃ ms, removals ms < 2 ∧ ¬ Made 0 ioError ms ∧ ¬ Made 1 ioError ms ∧
    ∃ seen c', playCall lockMachine 0 ms (start (some 7) lockOrClean) (newAndLock .exclusive 2) =
      some (seen, .error (.opening .noent), c') := by
  refine ⟨creates 0 0 7 ++ cleansAway 1 ++ [.run 0 .openFile (.error .noent)], ?_, ?_, ?_,
    playCall_returns ?_⟩
  · decide
  · decide
  · decide
  · decide +kernel

/-- **It also fails if the file is removed before the check**: the call gets the lock of the removed
file, and then there is no current file to compare it with. -/
theorem lock_fails_check : ∃ ms, removals ms < 2 ∧ ¬ Made 0 ioError ms ∧ ¬ Made 1 ioError ms ∧
    ∃ seen c', playCall lockMachine 0 ms (start (some 7) lockOrClean) (newAndLock .exclusive 2) =
      some (seen, .error (.errno .noent), c') := by
  refine ⟨creates 0 0 7 ++ opens 0 1 7 ++ cleansAway 2 ++ takes 0 ⟨0, 1, 7⟩ ++
    [.run 0 .openFile (.error .noent)], ?_, ?_, ?_, playCall_returns ?_⟩
  · decide
  · decide
  · decide
  · decide +kernel

end Rkt.Lock
