import Rkt.Conc.Flock
import Rkt.Conc.System

set_option autoImplicit false

namespace Rkt.Pods

open Conc

abbrev UUID := Nat

inductive Dir where
  | embryo
  | prepare
  | prepared
  | run
  | exitedGarbage
  | garbage
  deriving DecidableEq, Repr

/-- The files of a pod's directory that rkt reads through the pod's lock. -/
inductive PodFile where
  | pod
  | stage1ID
  | overlayPrepared
  | netInfo
  deriving DecidableEq, Repr

/-- An open file description on the directory of pod `uuid`, the `n`-th one opened. -/
structure Fd where
  pid : Pid
  n : Nat
  uuid : UUID
  deriving DecidableEq, Repr

/-- The errors of system calls the code tells apart: `ENOENT` (`lock.ErrNotExist`),
`EWOULDBLOCK` (`lock.ErrLocked`) and any other. -/
inductive Errno where
  | noent
  | wouldblock
  | other
  deriving DecidableEq, Repr

structure World where
  dirs : Dir → Finset UUID
  lock : UUID → Flock Fd
  files : UUID → Finset PodFile
  nextFd : Nat
  dead : Finset Pid
  panicked : Finset Pid
  drawnBy : UUID → Option Pid
  creator : UUID → Option Pid
  runner : UUID → Option Pid
  ran : List (UUID × Pid)

def World.empty : World where
  dirs := fun _ => ∅
  lock := fun _ => Flock.free
  files := fun _ => ∅
  nextFd := 0
  dead := ∅
  panicked := ∅
  drawnBy := fun _ => none
  creator := fun _ => none
  runner := fun _ => none
  ran := []

inductive Op where
  /-- `initPods`: create the six directories. -/
  | initPods
  /-- `types.NewUUID(uuid.New())`. -/
  | newUUID
  /-- `os.Mkdir`. -/
  | mkdir (d : Dir) (u : UUID)
  /-- `os.Remove` of an empty directory. -/
  | remove (d : Dir) (u : UUID)
  /-- `lock.NewLock(path, lock.Dir)`: open the directory. -/
  | newLock (d : Dir) (u : UUID)
  /-- `FileLock.ExclusiveLock`: blocks while somebody else holds a lock. -/
  | exclusiveLock (fd : Fd)
  /-- `FileLock.TrySharedLock`. -/
  | trySharedLock (fd : Fd)
  /-- `FileLock.Unlock`. -/
  | unlock (fd : Fd)
  /-- `FileLock.Close`. -/
  | close (fd : Fd)
  /-- `os.Rename` of the pod's directory. -/
  | rename (d d' : Dir) (u : UUID)
  /-- `os.Open` and `Sync` of one of the six directories. -/
  | syncDir (d : Dir)
  /-- `ioutil.ReadDir` of one of the six directories. -/
  | readDir (d : Dir)
  /-- `syscall.Lstat` of the pod's directory; the answer is its change time. -/
  | lstat (d : Dir) (u : UUID)
  /-- `time.Now`. -/
  | now
  /-- `ioutil.WriteFile` or `os.Create` under the pod's directory. -/
  | writeFile (d : Dir) (u : UUID) (f : PodFile)
  /-- `pod.openFile`: open a file relative to the pod's lock. -/
  | openFile (fd : Fd) (f : PodFile)
  /-- The first half of `os.RemoveAll`: unlink the contents. -/
  | removeFiles (d : Dir) (u : UUID)
  /-- The second half of `os.RemoveAll`: remove the directory itself. -/
  | removeDir (d : Dir) (u : UUID)
  /-- Work that leaves the pods directory and its locks alone and may fail. -/
  | aside
  /-- A Go panic. -/
  | panic
  /-- `xToRun` returned without an error. -/
  | ran (u : UUID)
  deriving DecidableEq, Repr

def Op.Res : Op → Type
  | .newUUID => UUID
  | .newLock _ _ => Except Errno Fd
  | .readDir _ => Except Errno (Finset UUID)
  | .lstat _ _ => Except Errno Nat
  | .now => Nat
  | .removeFiles _ _ => Finset PodFile × Option Errno
  | .close _ | .panic | .ran _ => Unit
  | _ => Except Errno Unit

abbrev podSig : Sig := ⟨Op, Op.Res⟩

abbrev sys (o : Op) : Prog podSig o.Res := Prog.call (S := podSig) o

namespace World

def setLock (s : World) (u : UUID) (l : Flock Fd) : World :=
  { s with lock := Function.update s.lock u l }

def unlink (s : World) (d : Dir) (u : UUID) : World :=
  { s with dirs := Function.update s.dirs d ((s.dirs d).erase u) }

def link (s : World) (d : Dir) (u : UUID) : World :=
  { s with dirs := Function.update s.dirs d (insert u (s.dirs d)) }

/-- `rename(2)` by process `p`; a rename into `run` is recorded. -/
def move (s : World) (p : Pid) (d d' : Dir) (u : UUID) : World :=
  let s' := (s.unlink d u).link d' u
  if d' = .run then { s' with runner := Function.update s'.runner u (some p) } else s'

/-- The death of a process: all its descriptions are closed. -/
def die (p : Pid) (s : World) : World :=
  { s with
    dead := insert p s.dead
    lock := fun u => (s.lock u).release (fun fd => decide (fd.pid = p)) }

end World

/-- What an operation of a live process does. An answer `.error .other` (an I/O error) is
possible everywhere and changes nothing. -/
def next (p : Pid) : (o : Op) → o.Res → World → Option World
  | .initPods, _, s => some s
  | .newUUID, (u : UUID), s =>
    if s.drawnBy u = none then some { s with drawnBy := Function.update s.drawnBy u (some p) }
    else none
  | .mkdir d u, r, s =>
    match r with
    | .ok () =>
      if u ∈ s.dirs d then none
      else some { s.link d u with creator := Function.update s.creator u (some p) }
    | .error _ => some s
  | .remove d u, r, s =>
    match r with
    | .ok () => if u ∈ s.dirs d ∧ s.files u = ∅ then some (s.unlink d u) else none
    | .error _ => some s
  | .newLock d u, r, s =>
    match r with
    | .ok fd =>
      if u ∈ s.dirs d ∧ fd = ⟨p, s.nextFd, u⟩ then some { s with nextFd := s.nextFd + 1 }
      else none
    | .error .noent => if u ∈ s.dirs d then none else some s
    | .error .wouldblock => none
    | .error .other => some s
  | .exclusiveLock fd, r, s =>
    match r with
    | .ok () => if (s.lock fd.uuid).canEx fd then some (s.setLock fd.uuid (.excl fd)) else none
    | .error .other => some s
    | .error _ => none
  | .trySharedLock fd, r, s =>
    match r with
    | .ok () =>
      if (s.lock fd.uuid).canSh fd then some (s.setLock fd.uuid ((s.lock fd.uuid).share fd))
      else none
    | .error .wouldblock => if (s.lock fd.uuid).canSh fd then none else some s
    | .error .other => some s
    | .error .noent => none
  | .unlock fd, r, s =>
    match r with
    | .ok () => some (s.setLock fd.uuid ((s.lock fd.uuid).unlock fd))
    | .error .other => some s
    | .error _ => none
  | .close fd, _, s => some (s.setLock fd.uuid ((s.lock fd.uuid).unlock fd))
  | .rename d d' u, r, s =>
    match r with
    | .ok () => if u ∈ s.dirs d ∧ u ∉ s.dirs d' then some (s.move p d d' u) else none
    | .error .noent => if u ∈ s.dirs d then none else some s
    | .error .wouldblock => none
    | .error .other => some s
  | .syncDir _, _, s => some s
  | .readDir d, r, s =>
    match r with
    | .ok us => if us = s.dirs d then some s else none
    | .error _ => some s
  | .lstat d u, r, s =>
    match r with
    | .ok _ => if u ∈ s.dirs d then some s else none
    | .error .noent => if u ∈ s.dirs d then none else some s
    | .error _ => some s
  | .now, _, s => some s
  | .writeFile d u f, r, s =>
    match r with
    | .ok () =>
      if u ∈ s.dirs d then
        some { s with files := Function.update s.files u (insert f (s.files u)) }
      else none
    | .error _ => some s
  | .openFile fd f, r, s =>
    match r with
    | .ok () => if f ∈ s.files fd.uuid then some s else none
    | .error .noent => if f ∈ s.files fd.uuid then none else some s
    | .error _ => some s
  | .removeFiles d u, (gone, e), s =>
    -- the contents go one by one; on an error, or a death, some of them are left
    if u ∈ s.dirs d then
      if gone ⊆ s.files u ∧ (e = none → gone = s.files u) then
        some { s with files := Function.update s.files u (s.files u \ gone) }
      else none
    else if gone = ∅ then some s else none
  | .removeDir d u, r, s =>
    match r with
    | .ok () =>
      if u ∈ s.dirs d then if s.files u = ∅ then some (s.unlink d u) else none
      else some s
    | .error _ => some s
  | .aside, _, s => some s
  | .panic, _, s => some { s with panicked := insert p s.panicked }
  | .ran u, _, s => some { s with ran := (u, p) :: s.ran }

/-- The pods directory as a machine. A dead process does nothing. -/
def podMachine : Machine podSig World where
  next p o r s := if p ∈ s.dead then none else next p o r s
  die := World.die

/-- The operation has failed. -/
def Op.failed : (o : Op) → o.Res → Bool
  | .mkdir _ _, .error _ | .remove _ _, .error _ | .exclusiveLock _, .error _
  | .trySharedLock _, .error _ | .unlock _, .error _ | .rename _ _ _, .error _
  | .removeDir _ _, .error _ => true
  | _, _ => false

variable {p : Pid} {o : Op} {r : o.Res} {s s' : World}

theorem next_failed (hr : o.failed r = true) (h : next p o r s = some s') : s' = s := by
  cases o with
  | mkdir | remove | exclusiveLock | trySharedLock | unlock | rename | removeDir =>
    cases r with
    | ok _ => cases hr
    | error e => cases e <;> simp only [next] at h <;> (try split at h) <;> cases h <;> rfl
  | _ => cases hr

theorem next_frame (h : next p o r s = some s') : s'.dead = s.dead ∧
    s'.panicked = if o = .panic then insert p s.panicked else s.panicked := by
  cases o with
  | rename d d' v =>
    rcases r with e | _
    · rw [next_failed rfl h]
      exact ⟨rfl, rfl⟩
    · obtain ⟨-, ⟨⟩⟩ := Option.ite_none_right_eq_some.mp h
      unfold World.move
      split <;> exact ⟨rfl, rfl⟩
  | removeFiles d v =>
    obtain ⟨gone, e⟩ := r
    simp only [next] at h
    repeat' split at h
    all_goals cases h
    all_goals exact ⟨rfl, rfl⟩
  | _ =>
    simp only [next] at h
    repeat' split at h
    all_goals cases h
    all_goals exact ⟨rfl, rfl⟩

/-- The answers of a system without I/O errors. Every drawn UUID is 5; nothing has been changed
after time 0, and the clock reads 1. -/
def smooth (p : Pid) : (o : Op) → World → Option o.Res
  | .initPods, _ | .mkdir _ _, _ | .remove _ _, _ | .exclusiveLock _, _ | .unlock _, _
  | .syncDir _, _ | .writeFile _ _ _, _ | .removeDir _ _, _ | .aside, _ => some (.ok ())
  | .newUUID, _ => some (5 : Nat)
  | .newLock d u, s =>
    some (if u ∈ s.dirs d then .ok ⟨p, s.nextFd, u⟩ else .error .noent)
  | .trySharedLock fd, s =>
    some (if (s.lock fd.uuid).canSh fd then .ok () else .error .wouldblock)
  | .rename d _ u, s => some (if u ∈ s.dirs d then .ok () else .error .noent)
  | .readDir d, s => some (.ok (s.dirs d))
  | .lstat d u, s => some (if u ∈ s.dirs d then .ok 0 else .error .noent)
  | .now, _ => some (1 : Nat)
  | .openFile fd f, s => some (if f ∈ s.files fd.uuid then .ok () else .error .noent)
  | .removeFiles d u, s => some (if u ∈ s.dirs d then s.files u else ∅, none)
  | .close _, _ | .panic, _ | .ran _, _ => some ()

end Rkt.Pods
