import Rkt.Conc.Proto
import Rkt.Lock.KeyLock

set_option autoImplicit false

namespace Rkt.Lock

open Conc Proto Flock

namespace Files

/-- `fd` holds the lock of its inode. -/
def Locked (s : Files) (fd : Fd) (m : Mode) : Prop := (s.lock fd.ino).holds fd m = true

/-- Process `p` holds the lock of the current inode. -/
def Valid (s : Files) (p : Pid) (m : Mode) : Prop :=
  ∃ fd : Fd, fd.pid = p ∧ s.path = some fd.ino ∧ s.Locked fd m

end Files

/-- Whoever counts as a holder holds the lock of the current inode. -/
def Inv (s : Files) : Prop := ∀ p m, s.held p = some m → s.Valid p m

structure Guar (q : Pid) (s s' : Files) : Prop where
  held : ∀ p, p ≠ q → s'.held p = s.held p
  locked : ∀ (fd : Fd) m, fd.pid ≠ q → s.Locked fd m → s'.Locked fd m
  path : ∀ i, s.path = some i → s'.path = some i ∨
    ∃ g : Fd, g.pid = q ∧ g.ino = i ∧ s.Locked g .exclusive
  nextFd : s.nextFd ≤ s'.nextFd

variable {p q : Pid} {s s' : Files} {fd : Fd} {m : Mode} {o : Op}

theorem Guar.current (hg : Guar q s s') (hfd : fd.pid ≠ q) (hpath : s.path = some fd.ino)
    (hl : s.Locked fd m) : s'.path = some fd.ino ∧ s'.Locked fd m := by
  refine ⟨?_, hg.locked fd m hfd hl⟩
  rcases hg.path fd.ino hpath with h | ⟨g, hgq, hgi, hge⟩
  · exact h
  · -- the remover would hold the same inode exclusively
    have hl' : (s.lock g.ino).holds fd m = true := by
      rw [hgi]
      exact hl
    have heq : fd = g := holds_unique hge hl'
    rw [heq] at hfd
    exact absurd hgq hfd

/-- The others' claims survive a step of `q`; its own has to be shown. -/
theorem Guar.inv (hg : Guar q s s') (hi : Inv s)
    (hq : ∀ m, s'.held q = some m → s'.Valid q m) : Inv s' := by
  intro p m hp
  by_cases hpq : p = q
  · subst hpq
    exact hq m hp
  · rw [hg.held p hpq] at hp
    obtain ⟨fd, rfl, hpath, hl⟩ := hi p m hp
    obtain ⟨hpath', hl'⟩ := hg.current hpq hpath hl
    exact ⟨fd, rfl, hpath', hl'⟩

/-- A change of one lock by `q`, after which `q` does not count as a holder. -/
theorem setLock_guar {l : Flock Fd} {i : Ino}
    (hl : ∀ (fd : Fd) m, fd.pid ≠ q → (s.lock i).holds fd m = true → l.holds fd m = true) :
    Guar q s (s.setLock q i l) := by
  refine ⟨fun p hp => ?_, fun fd m hfd h => ?_, fun i h => .inl h, Nat.le_refl _⟩
  · simp [Files.setLock, hp]
  · by_cases hi : fd.ino = i
    · subst hi
      simpa [Files.Locked, Files.setLock] using hl fd m hfd h
    · simpa [Files.Locked, Files.setLock, hi] using h

theorem ne_of_pid (hfd : fd.pid = q) {g : Fd} (hg : g.pid ≠ q) : g ≠ fd := by
  rintro rfl
  exact hg hfd

theorem unlock_guar (hfd : fd.pid = q) :
    Guar q s (s.setLock q fd.ino ((s.lock fd.ino).unlock fd)) :=
  setLock_guar fun _ _ hg h => holds_unlock (ne_of_pid hfd hg) h

theorem grant_guar (hfd : fd.pid = q) (hcan : (s.lock fd.ino).can fd m = true) :
    Guar q s (s.setLock q fd.ino ((s.lock fd.ino).grant fd m)) :=
  setLock_guar fun _ _ hg h => holds_grant (ne_of_pid hfd hg) hcan h

theorem die_guar (q : Pid) (s : Files) : Guar q s (s.die q) := by
  refine ⟨fun p hp => ?_, fun fd m hfd h => ?_, fun i h => .inl h, Nat.le_refl _⟩
  · simp [Files.die, hp]
  · exact holds_release (by simpa using hfd) h

def lockProto : Proto lockMachine where
  inv := Inv
  guar := Guar
  inv_die := fun p s h => (die_guar p s).inv h (by simp [Files.die])
  guar_die := fun p s _ => die_guar p s

theorem lockMachine_next {r : o.Res} (h : lockMachine.next p o r s = some s') :
    p ∉ s.dead ∧ next p o r s = some s' := Option.ite_none_left_eq_some.mp h

/-- The operation has failed. -/
def Op.failed : (o : Op) → o.Res → Bool
  | .mkdirAll, .error _ | .openCreate, .error _ | .openFile, .error _ | .fstat _, .error _
  | .flockWait _ _ _, .error _ | .flockUn _, .error _ | .listed, .error _ | .remove, .error _ => true
  | _, _ => false

theorem next_failed {r : o.Res} (hr : o.failed r = true) (h : next p o r s = some s') : s' = s := by
  cases o with
  | flockDrop | close | returned => cases hr
  | _ =>
    cases r with
    | ok _ => cases hr
    | error e => cases e <;> simp only [next] at h <;> (try split at h) <;> cases h <;> rfl

theorem always_stable (p : Pid) : lockProto.Stable p (fun _ => True) :=
  fun _ _ _ _ _ _ _ _ => trivial

theorem locked_stable (hfd : fd.pid = p) : lockProto.Stable p (fun s => s.Locked fd m) :=
  fun _ _ _ hq _ _ hg h => Guar.locked hg fd m (by rw [hfd]; exact Ne.symm hq) h

theorem current_stable (hfd : fd.pid = p) :
    lockProto.Stable p (fun s => s.Locked fd m ∧ s.path = some fd.ino) := by
  rintro q s s' hq _ _ hg ⟨hl, hpath⟩
  obtain ⟨h1, h2⟩ := Guar.current hg (by rw [hfd]; exact Ne.symm hq) hpath hl
  exact ⟨h2, h1⟩

theorem held_stable (p : Pid) (m : Option Mode) : lockProto.Stable p (fun s => s.held p = m) :=
  fun _ _ _ hq _ _ hg h => (Guar.held hg p (Ne.symm hq)).trans h

/-- The description, if there is one, was opened by `p` before. -/
def Mine (p : Pid) (l : FileLock) (s : Files) : Prop :=
  ∀ fd, l = some fd → fd.pid = p ∧ fd.n < s.nextFd

theorem mine_lasting (p : Pid) (l : FileLock) : lockProto.Lasting (Mine p l) := by
  intro q s s' _ _ hg h fd hl
  have hle := Guar.nextFd hg
  obtain ⟨h1, h2⟩ := h fd hl
  exact ⟨h1, by omega⟩

/-- An operation that does not touch locks and holders, and takes no path away. -/
structure Quiet (s s' : Files) : Prop where
  held : s'.held = s.held
  lock : s'.lock = s.lock
  path : ∀ i, s.path = some i → s'.path = some i
  nextFd : s.nextFd ≤ s'.nextFd

theorem Quiet.refl (s : Files) : Quiet s s := ⟨rfl, rfl, fun _ h => h, Nat.le_refl _⟩

theorem Quiet.locked (h : Quiet s s') (hl : s.Locked fd m) : s'.Locked fd m := by
  unfold Files.Locked
  rw [h.lock]
  exact hl

theorem Quiet.ok (h : Quiet s s') (hi : Inv s) : Inv s' ∧ Guar p s s' := by
  have hg : Guar p s s' :=
    ⟨fun p _ => by rw [h.held], fun fd m _ hl => h.locked hl, fun i hp => .inl (h.path i hp),
      h.nextFd⟩
  refine ⟨hg.inv hi fun m hm => ?_, hg⟩
  rw [h.held] at hm
  obtain ⟨fd, hfd, hpath, hl⟩ := hi p m hm
  exact ⟨fd, hfd, h.path _ hpath, h.locked hl⟩

theorem unchanged_ok {R : Prop} (hi : Inv s) (h : R) : Inv s ∧ Guar p s s ∧ R :=
  and_assoc.mp ⟨(Quiet.refl s).ok hi, h⟩

/-- An operation after which `p` does not count as a holder need only be within the
guarantee. -/
theorem Guar.ok (hg : Guar p s s') (hi : Inv s) (h : s'.held p = none) : Inv s' ∧ Guar p s s' := by
  refine ⟨hg.inv hi fun m hm => ?_, hg⟩
  rw [h] at hm
  cases hm

/-- The operations that touch neither locks nor holders. -/
def Op.quiet : Op → Bool
  | .mkdirAll | .openCreate | .openFile | .fstat _ | .listed => true
  | _ => false

theorem quiet_next {r : o.Res} (ho : o.quiet = true) (h : next p o r s = some s') : Quiet s s' := by
  by_cases hf : o.failed r = true
  · rw [next_failed hf h]
    exact Quiet.refl s
  cases o with
  | mkdirAll | fstat | listed =>
    simp only [next] at h
    split at h <;> (try split at h) <;> cases h <;> exact Quiet.refl s
  | openCreate | openFile =>
    rcases r with e | fd
    · exact absurd rfl hf
    simp only [next] at h
    split at h <;> (try split at h) <;> cases h
    · exact ⟨rfl, rfl, fun _ h => h, Nat.le_succ _⟩
    all_goals
      rename_i hnone _
      refine ⟨rfl, rfl, fun i hi => ?_, Nat.le_succ _⟩
      rw [hnone] at hi
      cases hi
  | _ => cases ho

variable {A : Files → Prop}

theorem quiet_triple {Q : o.Res → Files → Prop} (ho : o.quiet = true) (hst : lockProto.Stable p A)
    (hQ : ∀ s r s', A s → Quiet s s' → next p o r s = some s' → Q r s') :
    lockProto.Triple p A (sys o) Q := by
  refine Triple.call hst fun s r s' hi hA hn => ?_
  have hn' := (lockMachine_next hn).2
  have hq := quiet_next ho hn'
  obtain ⟨hi', hg⟩ := hq.ok hi
  exact ⟨hi', hg, hQ s r s' hA hq hn'⟩

/-- What is opened is a new description of `p`, on the inode that is current right then. -/
theorem openFile_triple (l : FileLock) (hst : lockProto.Stable p A)
    (hA : ∀ s s', Quiet s s' → A s → A s') :
    lockProto.Triple p (fun s => A s ∧ Mine p l s) (sys .openFile)
      (Ends (fun s => A s ∧ Mine p l s) fun fd s => s.path = some fd.ino ∧ Mine p (some fd) s ∧
        l ≠ some fd) := by
  refine quiet_triple (by rfl) (hst.and (mine_lasting p l).stable) ?_
  rintro s r s' ⟨hs, hm⟩ hq hn
  have hm' : Mine p l s' := fun fd hl => ⟨(hm fd hl).1, Nat.lt_of_lt_of_le (hm fd hl).2 hq.nextFd⟩
  rcases r with e | fd
  · exact ⟨hA s s' hq hs, hm'⟩
  · simp only [next] at hn
    split at hn
    · rename_i i hpath
      obtain ⟨rfl, ⟨⟩⟩ := Option.ite_none_right_eq_some.mp hn
      refine ⟨⟨hA s _ hq hs, hm'⟩, hpath, ?_, fun hl => ?_⟩
      · rintro _ ⟨rfl⟩
        exact ⟨rfl, Nat.lt_succ_self _⟩
      · exact absurd (hm _ hl).2 (Nat.lt_irrefl _)
    · cases hn

theorem close_triple (hst : lockProto.Stable p A) (hfd : fd.pid = p)
    (hA : ∀ s, A s → A { s.setLock p fd.ino ((s.lock fd.ino).unlock fd) with
      opened := s.opened.erase fd }) :
    lockProto.Triple p A (sys (.close fd)) (fun _ s => A s ∧ s.held p = none) := by
  refine Triple.call hst fun s r s' hi hs hn => ?_
  cases (lockMachine_next hn).2
  have hg : Guar p s (s.setLock p fd.ino ((s.lock fd.ino).unlock fd)) := unlock_guar hfd
  have hheld : (s.setLock p fd.ino ((s.lock fd.ino).unlock fd)).held p = none := by
    simp [Files.setLock]
  obtain ⟨hi', -⟩ := hg.ok hi hheld
  exact ⟨hi', ⟨hg.held, hg.locked, hg.path, hg.nextFd⟩, hA s hs, hheld⟩

/-- **`flock`**: on success the description holds the lock. -/
theorem flock_triple (hfd : fd.pid = p) (nonBlocking : Bool) :
    lockProto.Triple p (fun _ => True) (flock (some fd) m nonBlocking)
      (Ends (fun _ => True) fun _ s => s.Locked fd m) := by
  have hdrop : lockProto.Triple p (fun _ => True) (sys (.flockDrop fd m))
      (fun same s => (same : Bool) = true → s.Locked fd m) := by
    refine Triple.call (always_stable p) fun s same s' hi _ hn => ?_
    obtain ⟨hsame, ⟨⟩⟩ := Option.ite_none_right_eq_some.mp (lockMachine_next hn).2
    cases hs : (show Bool from same) with
    | true =>
      rw [hs] at hsame
      have hg : Guar p s { s with held := Function.update s.held p none } :=
        ⟨fun q hq => by simp [hq], fun _ _ _ h => h, fun _ h => .inl h, Nat.le_refl _⟩
      obtain ⟨hi', hg'⟩ := hg.ok hi (by simp)
      exact ⟨hi', hg', fun _ => hsame.symm⟩
    | false =>
      obtain ⟨hi', hg⟩ := (unlock_guar hfd).ok hi (by simp [Files.setLock])
      exact ⟨hi', hg, fun h => by cases h⟩
  have hwait : lockProto.Triple p (fun _ => True) (sys (.flockWait fd m nonBlocking))
      (Ends (fun _ => True) fun _ s => s.Locked fd m) := by
    refine Triple.call (always_stable p) fun s r s' hi _ hn => ?_
    have hn' := (lockMachine_next hn).2
    rcases r with e | _
    · obtain rfl := next_failed rfl hn'
      exact unchanged_ok hi trivial
    · obtain ⟨hcan, ⟨⟩⟩ := Option.ite_none_right_eq_some.mp hn'
      obtain ⟨hi', hg⟩ := (grant_guar hfd hcan).ok hi (by simp [Files.setLock])
      refine ⟨hi', hg, trivial, ?_⟩
      simp [Files.Locked, Files.setLock, grant_holds]
  refine Triple.bind hdrop fun same => ?_
  cases same with
  | true => exact Triple.ok fun s h => ⟨trivial, h rfl⟩
  | false => exact hwait.pre fun _ _ => trivial

/-- The part of the check that the others cannot spoil: once the path was seen to lead to the
locked inode, it keeps leading there. -/
def Checked (fd : Fd) (m : Mode) (same : Prop) (s : Files) : Prop :=
  s.Locked fd m ∧ (same → s.path = some fd.ino)

theorem checked_stable (hfd : fd.pid = p) (same : Prop) :
    lockProto.Stable p (Checked fd m same) := by
  rintro q s s' hq h1 h2 hg ⟨hl, hpath⟩
  refine ⟨locked_stable hfd q s s' hq h1 h2 hg hl, fun hs => ?_⟩
  exact (current_stable hfd q s s' hq h1 h2 hg ⟨hl, hpath hs⟩).2

theorem checked_quiet {same : Prop} (s s' : Files) (hq : Quiet s s')
    (h : Checked fd m same s) : Checked fd m same s' :=
  ⟨hq.locked h.1, fun hs => hq.path _ (h.2 hs)⟩

theorem checked_close {same : Prop} {cur : Fd} (hne : fd ≠ cur) (s : Files)
    (h : Checked fd m same s) :
    Checked fd m same { s.setLock p cur.ino ((s.lock cur.ino).unlock cur) with
      opened := s.opened.erase cur } := by
  refine ⟨?_, h.2⟩
  by_cases hi : fd.ino = cur.ino
  · have hl : (s.lock cur.ino).holds fd m = true := by
      rw [← hi]
      exact h.1
    simpa [Files.Locked, Files.setLock, hi] using holds_unlock hne hl
  · simpa [Files.Locked, Files.setLock, hi] using h.1

theorem fstat_triple (g : Fd) (hst : lockProto.Stable p A) (hA : ∀ s s', Quiet s s' → A s → A s') :
    lockProto.Triple p A (sys (.fstat g)) (Ends A fun i _ => i = g.ino) := by
  refine quiet_triple (by rfl) hst fun s r s' hs hq hn => ?_
  rcases r with e | i
  · exact hA s s' hq hs
  · exact ⟨hA s s' hq hs, (Option.ite_none_right_eq_some.mp hn).1⟩

theorem mine_quiet {l : FileLock} (s s' : Files) (hq : Quiet s s') (h : Mine p l s) : Mine p l s' :=
  fun fd hl => ⟨(h fd hl).1, Nat.lt_of_lt_of_le (h fd hl).2 hq.nextFd⟩

/-- **The check of a lock call.** If it says that the file is the same, the locked inode is the
current one, and stays so. -/
theorem sameFile_triple : lockProto.Triple p
    (fun s => s.Locked fd m ∧ Mine p (some fd) s) (sameFile fd)
    (Ends (Mine p (some fd)) fun b s => b = true → Checked fd m True s) := by
  rintro s ⟨hl, hm⟩
  obtain ⟨hfd, -⟩ := hm fd rfl
  -- what is known before and after the path is opened
  let A (same : Prop) (s : Files) : Prop := Checked fd m same s ∧ Mine p (some fd) s
  have hst : ∀ same, lockProto.Stable p (A same) := fun same =>
    (checked_stable hfd same).and (mine_lasting p (some fd)).stable
  have hquiet : ∀ same s s', Quiet s s' → A same s → A same s' := fun same s s' hq h =>
    ⟨checked_quiet s s' hq h.1, mine_quiet s s' hq h.2⟩
  suffices h : lockProto.Triple p (A False) _ _ from h s ⟨⟨hl, False.elim⟩, hm⟩
  refine Triple.attempt (fstat_triple fd (hst False) (hquiet False)) (fun i => ?_)
    fun e => .error fun _ h => h.2
  refine Triple.given fun hi => ?_
  refine Triple.attempt (openFile_triple (some fd) (checked_stable hfd False) checked_quiet)
    (fun cur => ?_) fun e => .error fun _ h => h.2
  rintro s ⟨⟨hc, hm⟩, hpath, hcur, hne⟩
  obtain ⟨hcurp, -⟩ := hcur cur rfl
  have hne' : fd ≠ cur := fun h => hne (by rw [h])
  have hclose : lockProto.Triple p (A (cur.ino = fd.ino)) (sys (.close cur))
      (fun _ s => A (cur.ino = fd.ino) s ∧ s.held p = none) :=
    close_triple (hst _) hcurp fun s h => ⟨checked_close hne' s h.1, h.2⟩
  suffices h : lockProto.Triple p (A (cur.ino = fd.ino)) _ _ from
    h s ⟨⟨hc.1, fun hs => by rw [hpath, hs]⟩, hm⟩
  refine Triple.attempt (fstat_triple cur (hst _) (hquiet _)) (fun j => ?_) fun e => ?_
  · refine Triple.given fun hj => Triple.bind hclose fun _ => Triple.ok fun s h => ⟨h.1.2, ?_⟩
    intro hsame
    refine ⟨h.1.1.1, fun _ => h.1.1.2 ?_⟩
    have hij : i = j := by simpa using hsame
    rw [← hj, ← hij, hi]
  · exact Triple.bind hclose fun _ => .error fun s h => h.1.2

theorem newKeyLock_triple : lockProto.Triple p (fun _ => True) newKeyLock
    (Ends (fun _ => True) fun fd s => Mine p (some fd) s) := by
  have fail : ∀ {A : Files → Prop} {e : Err}, lockProto.Triple p A (pure (.error e))
      (Ends (fun _ => True) fun (fd : Fd) s => Mine p (some fd) s) :=
    Triple.error fun _ _ => trivial
  have hcreate : lockProto.Triple p (fun _ => True) (sys .openCreate)
      (Ends (fun _ => True) fun fd _ => fd.pid = p) := by
    refine quiet_triple (by rfl) (always_stable p) fun s r s' _ _ hn => ?_
    rcases r with e | fd
    · trivial
    · simp only [next] at hn
      split at hn
      · obtain ⟨hfd, -⟩ := Option.ite_none_right_eq_some.mp hn
        exact ⟨trivial, by rw [hfd]; rfl⟩
      · obtain ⟨⟨hfd, -⟩, -⟩ := Option.ite_none_right_eq_some.mp hn
        exact ⟨trivial, by rw [hfd]; rfl⟩
  have hopen : lockProto.Triple p (fun _ => True) newLock
      (Ends (fun _ => True) fun fd s => Mine p (some fd) s) := by
    refine Triple.attempt ((openFile_triple none (always_stable p) fun _ _ _ h => h).pre
      fun s _ => ⟨trivial, fun fd h => by cases h⟩) (fun fd => ?_)
      fun e => .error fun _ _ => trivial
    refine Triple.attempt ((fstat_triple fd (mine_lasting p (some fd)).stable mine_quiet).pre
      fun _ h => h.2.2.1) (fun i => ?_) fun e => .error fun _ _ => trivial
    exact Triple.ok fun s h => ⟨trivial, h.1⟩
  refine Triple.bind (quiet_triple (by rfl) (always_stable p) fun _ _ _ h _ _ => h) fun r => ?_
  rcases r with e | _
  · exact fail
  refine Triple.attempt hcreate (fun f => ?_) fun e => fail
  refine Triple.given fun hf => ?_
  refine Triple.bind (close_triple (always_stable p) hf fun _ h => h) fun _ => ?_
  exact Triple.attempt (hopen.pre fun _ _ => trivial) (fun fd => .ok fun s h => h) fun e => fail

/-- After a lock call the lock is still `p`'s own, and on success `p` counts as a holder. -/
def Called (p : Pid) (m : Mode) (r : Except Err Unit × FileLock) (s : Files) : Prop :=
  Mine p r.2 s ∧ (r.1 = .ok () → s.held p = some m)

theorem takeLock_triple (hfd : fd.pid = p) (k : KeyLockMode) :
    lockProto.Triple p (fun _ => True) (takeLock (some fd) k)
      (Ends (fun _ => True) fun _ s => s.Locked fd k.mode) := by
  obtain ⟨mode, nonBlocking⟩ := k
  cases mode <;> cases nonBlocking <;> exact flock_triple hfd _

/-- A lock call that is about to return: the check still holds, so `p` may count as a holder. -/
theorem returned_triple (hfd : fd.pid = p) :
    lockProto.Triple p (fun s => Checked fd m True s) (sys (.returned m))
      (fun _ s => s.held p = some m) := by
  refine Triple.call (checked_stable hfd True) fun s r s' hi hs hn => ?_
  cases (lockMachine_next hn).2
  have hg : Guar p s { s with held := Function.update s.held p (some m) } :=
    ⟨fun q hq => by simp [hq], fun _ _ _ h => h, fun _ h => .inl h, Nat.le_refl _⟩
  have hheld : Function.update s.held p (some m) p = some m := Function.update_self _ _ _
  refine ⟨hg.inv hi fun m' hm => ?_, hg, hheld⟩
  have hmm : m' = m := by
    have := hheld.symm.trans hm
    cases this
    rfl
  subst hmm
  exact ⟨fd, hfd, hs.2 trivial, hs.1⟩

theorem closeLock_triple (l : FileLock) : lockProto.Triple p (Mine p l) (FileLock.close l)
    (fun l' s => Mine p l' s) := by
  cases l with
  | none => exact Triple.ret fun s _ fd h => by cases h
  | some fd =>
    intro s hm
    obtain ⟨hfd, -⟩ := hm fd rfl
    exact Triple.bind (close_triple (always_stable p) hfd fun _ h => h)
      (fun _ => Triple.ret fun s _ fd h => by cases h) s trivial

theorem lockRound_triple {k : KeyLockMode} {l : FileLock}
    {changed : Prog lockSig (Except Err Unit × FileLock)}
    (hchanged : lockProto.Triple p (Mine p l) changed (Called p k.mode)) :
    lockProto.Triple p (Mine p l) (lockRound k l changed) (Called p k.mode) := by
  have fail : ∀ {e : Err}, lockProto.Triple p (Mine p l) (pure (.error e, l))
      (Called p k.mode) := Triple.ret fun s h => ⟨h, fun h => by cases h⟩
  cases l with
  | none =>
    obtain ⟨mode, nonBlocking⟩ := k
    cases mode <;> cases nonBlocking <;> exact fail
  | some fd =>
    intro s hm
    obtain ⟨hfd, -⟩ := hm fd rfl
    suffices h : lockProto.Triple p (Mine p (some fd)) _ _ from h s hm
    have htake := (takeLock_triple hfd k).frame (mine_lasting p (some fd))
    refine Triple.bind (htake.pre fun _ h => ⟨trivial, h⟩) fun r => ?_
    rcases r with e | _
    · exact fail.pre fun _ h => h.2
    refine Triple.attempt (sameFile_triple.pre fun s h => ⟨h.1.2, h.2⟩) (fun same => ?_)
      fun e => fail
    cases same with
    | false => exact hchanged.pre fun _ h => h.1
    | true =>
      have hret := (returned_triple (m := k.mode) hfd).frame (mine_lasting p (some fd))
      refine Triple.bind (hret.pre fun s h => ⟨h.2 rfl, h.1⟩) fun _ => ?_
      exact Triple.ret fun s h => ⟨h.2, fun _ => h.1⟩

theorem lockLoop_triple (k : KeyLockMode) (maxRetries left : Nat) : ∀ l : FileLock,
    lockProto.Triple p (Mine p l) (lockLoop k maxRetries left l) (Called p k.mode) := by
  induction left with
  | zero =>
    intro l
    exact lockRound_triple (Triple.ret fun s h => ⟨h, fun h => by cases h⟩)
  | succ left ih =>
    intro l
    refine lockRound_triple (Triple.bind (closeLock_triple l) fun l' => ?_)
    have hnew := (newKeyLock_triple (p := p)).frame (mine_lasting p l')
    refine Triple.bind (hnew.pre fun _ h => ⟨trivial, h⟩) fun r => ?_
    rcases r with e | fd
    · exact Triple.ret fun s h => ⟨h.2, fun h => by cases h⟩
    · exact (ih (some fd)).pre fun s h => h.1.2

theorem createAndLock_triple (k : KeyLockMode) : lockProto.Triple p (fun _ => True)
    (createAndLock k) (Ends (fun _ => True) fun l s => s.held p = some k.mode ∧ Mine p l s) := by
  refine Triple.attempt newKeyLock_triple (fun fd => ?_) fun e => .error fun _ _ => trivial
  refine Triple.bind ((lockLoop_triple k _ _ (some fd)).pre fun s h => h.2) fun r => ?_
  obtain ⟨r, l⟩ := r
  rcases r with e | _
  · refine Triple.bind ((closeLock_triple l).pre fun s h => h.1) fun _ => ?_
    exact Triple.error fun _ _ => trivial
  · exact Triple.ok fun s h => ⟨trivial, h.2 rfl, h.1⟩

/-- Whoever holds the exclusive lock may remove the file: nobody else holds a lock. -/
theorem remove_triple : lockProto.Triple p (fun s => s.held p = some .exclusive) (sys .remove)
    (fun _ _ => True) := by
  refine Triple.call (held_stable p _) fun s r s' hi hs hn => ?_
  have hn' := (lockMachine_next hn).2
  rcases r with e | _
  · obtain rfl := next_failed rfl hn'
    exact unchanged_ok hi trivial
  obtain ⟨-, ⟨⟩⟩ := Option.ite_none_left_eq_some.mp hn'
  have hvalid : s.Valid p .exclusive := hi p _ hs
  obtain ⟨fd, hfd, hpath, hl⟩ := hvalid
  have hg : Guar p s { s with path := none, held := Function.update s.held p none } := by
    refine ⟨fun q hq => by simp [hq], fun _ _ _ h => h, fun i hi' => .inr ⟨fd, hfd, ?_, hl⟩,
      Nat.le_refl _⟩
    rw [hpath] at hi'
    cases hi'
    rfl
  obtain ⟨hi', hg'⟩ := hg.ok hi (by simp)
  exact ⟨hi', hg', trivial⟩

theorem cleanKeyLock_triple : lockProto.Triple p (fun _ => True) cleanKeyLock
    (fun _ _ => True) := by
  have done : ∀ {A : Files → Prop} {r : Except Err Unit},
      lockProto.Triple p A (pure r) (fun _ _ => True) := Triple.ret fun _ _ => trivial
  refine Triple.bind (quiet_triple (by rfl) (always_stable p) fun _ _ _ h _ _ => h) fun r => ?_
  rcases r with e | _ | _
  · exact done
  · exact done
  refine Triple.attempt (createAndLock_triple _) (fun l => ?_) fun e => ?_
  · have hrem := (remove_triple (p := p)).frame (mine_lasting p l)
    refine Triple.bind (hrem.pre fun s h => h.2) fun r => ?_
    rcases r with e | _ <;>
      exact Triple.bind ((closeLock_triple l).pre fun s h => h.2) fun _ => done
  · cases e with
    | errno e => cases e <;> exact done
    | _ => exact done

theorem unlock_triple (l : FileLock) : lockProto.Triple p (Mine p l) (FileLock.unlock l)
    (fun _ => Mine p l) := by
  cases l with
  | none => exact Triple.ret fun s h => h
  | some fd =>
    refine Triple.call (mine_lasting p _).stable fun s r s' hi hs hn => ?_
    obtain ⟨hfd, -⟩ := hs fd rfl
    have hn' := (lockMachine_next hn).2
    rcases r with e | _
    · obtain rfl := next_failed rfl hn'
      exact unchanged_ok hi hs
    · cases hn'
      obtain ⟨hi', hg⟩ := (unlock_guar hfd).ok hi (by simp [Files.setLock])
      exact ⟨hi', hg, hs⟩

theorem perform_triple (c : Call) (l : FileLock) : lockProto.Triple p (Mine p l) (c.perform l)
    (fun r s => Mine p r.2 s) := by
  cases c with
  | lock m maxRetries => exact (lockLoop_triple m _ _ l).post fun _ _ h => h.1
  | unlock =>
    refine Triple.bind (unlock_triple l) fun r => ?_
    rcases r with e | _ <;> exact Triple.ret fun s h => h
  | close => exact Triple.bind (closeLock_triple l) fun l' => Triple.ret fun s h => h

theorem run_triple (script : Script) : ∀ l, lockProto.Triple p (Mine p l) (script.run l)
    (fun _ _ => True) := by
  induction script with
  | done => exact fun l => Triple.ret fun _ _ => trivial
  | call c k ih =>
    intro l
    exact Triple.bind (perform_triple c l) fun r => ih r.1 r.2

theorem Client.triple (c : Client) : lockProto.Triple p (fun _ => True) c.prog
    (fun _ _ => True) := by
  cases c with
  | new script =>
    exact Triple.attempt newKeyLock_triple
      (fun fd => (run_triple script (some fd)).pre fun _ h => h.2)
      fun e => Triple.ret fun _ h => h
  | createAndLock m script =>
    exact Triple.attempt (createAndLock_triple m)
      (fun l => (run_triple script l).pre fun _ h => h.2.2) fun e => Triple.ret fun _ h => h
  | clean => exact Triple.bind cleanKeyLock_triple fun _ => Triple.ret fun _ h => h

theorem start_ok (path : Option Ino) (clients : Pid → Client) : lockProto.Ok (start path clients) :=
  ⟨fun p m h => (by cases h), fun p => (clients p).triple _ trivial⟩

/-- **Key locks exclude each other.** Whatever the clients do with their key locks, in whatever
order they take their steps and wherever they die, and however often the lock file is cleaned
away and created again in between: while one of them holds the key exclusively, no other one
holds it in any mode. -/
theorem keyLock_exclusive (path : Option Ino) (clients : Pid → Client)
    {c : Config lockSig Files} (hr : Reach lockMachine (start path clients) c) {p q : Pid}
    (hpq : p ≠ q) (hp : c.shared.held p = some .exclusive) : c.shared.held q = none := by
  have hi : Inv c.shared := ((start_ok path clients).reach hr).1
  cases hq : c.shared.held q with
  | none => rfl
  | some m =>
    obtain ⟨f, rfl, hfpath, hf⟩ := hi p _ hp
    obtain ⟨g, rfl, hgpath, hg⟩ := hi q m hq
    -- both hold the lock of the current inode
    have hino : g.ino = f.ino := by
      rw [hfpath] at hgpath
      exact (Option.some.inj hgpath).symm
    have hg' : (c.shared.lock f.ino).holds g m = true := by
      rw [← hino]
      exact hg
    have heq : g = f := holds_unique hf hg'
    exact absurd (by rw [heq]) hpq

/-- Process 0 creates the lock file and takes the lock while process 1 has the file open. -/
theorem keyLock_exclusive_created : ∃ c, Reach lockMachine
      (start none fun _ => .createAndLock keyLockExclusive .done) c ∧
    c.shared.held 0 = some .exclusive ∧ c.shared.held 1 = none := by
  obtain ⟨c, c', hr, hs, h⟩ := observe_step (M := lockMachine)
    (c := start none fun _ => .createAndLock keyLockExclusive .done)
    [.run 0 .mkdirAll (.ok ()), .run 0 .openCreate (.ok ⟨0, 0, 7⟩), .run 1 .mkdirAll (.ok ()),
      .run 1 .openCreate (.ok ⟨1, 1, 7⟩), .run 0 (.close ⟨0, 0, 7⟩) (),
      .run 0 .openFile (.ok ⟨0, 2, 7⟩), .run 0 (.fstat ⟨0, 2, 7⟩) (.ok (7 : Nat)),
      .run 0 (.flockDrop ⟨0, 2, 7⟩ .exclusive) false,
      .run 0 (.flockWait ⟨0, 2, 7⟩ .exclusive false) (.ok ()),
      .run 0 (.fstat ⟨0, 2, 7⟩) (.ok (7 : Nat)), .run 0 .openFile (.ok ⟨0, 3, 7⟩),
      .run 0 (.fstat ⟨0, 3, 7⟩) (.ok (7 : Nat)), .run 0 (.close ⟨0, 3, 7⟩) ()]
    (.run 0 (.returned .exclusive) ()) (fun _ c => c.shared.held 0 == some .exclusive)
    (by decide)
  have hheld : c'.shared.held 0 = some .exclusive := by simpa using h
  exact ⟨c', hr.tail hs, hheld, keyLock_exclusive none _ (hr.tail hs) (by decide) hheld⟩

end Rkt.Lock
