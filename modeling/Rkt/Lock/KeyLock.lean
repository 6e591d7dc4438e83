import Rkt.Conc.Flock
import Rkt.Conc.System

set_option autoImplicit false

namespace Rkt.Lock

open Conc Flock

abbrev Ino := Nat

/-- An open file description of process `pid` on inode `ino`. -/
structure Fd where
  pid : Pid
  n : Nat
  ino : Ino
  deriving DecidableEq, Repr

/-- The errors of system calls: `ENOENT`, `EWOULDBLOCK`, `EBADF` and any other. -/
inductive Errno where
  | noent
  | wouldblock
  | badf
  | other
  deriving DecidableEq, Repr

structure Files where
  path : Option Ino
  opened : Finset Fd
  lock : Ino → Flock Fd
  nextFd : Nat
  dead : Finset Pid
  held : Pid → Option Mode

/-- Nobody has the lock file open, which may exist or not. -/
def Files.initial (path : Option Ino) : Files where
  path := path
  opened := ∅
  lock := fun _ => Flock.free
  nextFd := 0
  dead := ∅
  held := fun _ => none

inductive Op where
  /-- `os.MkdirAll(lockDir)`. -/
  | mkdirAll
  /-- `os.OpenFile(keyLockFile, O_RDONLY|O_CREATE)`. -/
  | openCreate
  /-- `syscall.Open(keyLockFile, O_RDONLY)`. -/
  | openFile
  /-- `syscall.Fstat`; the answer is the inode number. -/
  | fstat (fd : Fd)
  /-- The first half of `flock(2)`: `true` if `fd` holds the lock in this mode already; else
  what it holds is dropped. -/
  | flockDrop (fd : Fd) (mode : Mode)
  /-- The second half of `flock(2)`. -/
  | flockWait (fd : Fd) (mode : Mode) (nonBlocking : Bool)
  /-- `flock(fd, LOCK_UN)`. -/
  | flockUn (fd : Fd)
  /-- `syscall.Close`. -/
  | close (fd : Fd)
  /-- Does `Readdir` of `lockDir` show the lock file? -/
  | listed
  /-- `os.Remove` of the lock file. -/
  | remove
  /-- A lock call returned without an error. -/
  | returned (mode : Mode)
  deriving DecidableEq, Repr

def Op.Res : Op → Type
  | .openCreate | .openFile => Except Errno Fd
  | .fstat _ => Except Errno Ino
  | .flockDrop _ _ => Bool
  | .listed => Except Errno Bool
  | .close _ | .returned _ => Unit
  | _ => Except Errno Unit

abbrev lockSig : Sig := ⟨Op, Op.Res⟩

abbrev sys (o : Op) : Prog lockSig o.Res := Prog.call (S := lockSig) o

namespace Files

/-- The next description of process `p`, on inode `i`. -/
def newFd (s : Files) (p : Pid) (i : Ino) : Fd := ⟨p, s.nextFd, i⟩

def addFd (s : Files) (fd : Fd) : Files :=
  { s with opened := insert fd s.opened, nextFd := s.nextFd + 1 }

/-- The lock of inode `i` becomes `l`, and `p` does not count as a holder. -/
def setLock (s : Files) (p : Pid) (i : Ino) (l : Flock Fd) : Files :=
  { s with lock := Function.update s.lock i l, held := Function.update s.held p none }

def die (p : Pid) (s : Files) : Files :=
  { s with
    opened := s.opened.filter (fun fd => fd.pid ≠ p)
    lock := fun i => (s.lock i).release (fun fd => decide (fd.pid = p))
    dead := insert p s.dead
    held := Function.update s.held p none }

end Files

/-- What a system call of process `p` does; `.error .other` is possible everywhere and changes
nothing. -/
def next (p : Pid) : (o : Op) → o.Res → Files → Option Files
  | .mkdirAll, r, s =>
    match r with
    | .ok () | .error .other => some s
    | .error _ => none
  | .openCreate, r, s =>
    match r with
    | .ok fd =>
      match s.path with
      | some i => if fd = s.newFd p i then some (s.addFd fd) else none
      | none =>
        -- a number is not reused while a description on it is open
        if fd = s.newFd p fd.ino ∧ ∀ g ∈ s.opened, g.ino ≠ fd.ino then
          some { s.addFd fd with path := some fd.ino }
        else none
    | .error .other => some s
    | .error _ => none
  | .openFile, r, s =>
    match r with
    | .ok fd =>
      match s.path with
      | some i => if fd = s.newFd p i then some (s.addFd fd) else none
      | none => none
    | .error .noent => if s.path = none then some s else none
    | .error .other => some s
    | .error _ => none
  | .fstat fd, r, s =>
    match r with
    | .ok i => if i = fd.ino then some s else none
    | .error .other => some s
    | .error _ => none
  | .flockDrop fd mode, (same : Bool), s =>
    if same = (s.lock fd.ino).holds fd mode then
      some (if same then { s with held := Function.update s.held p none }
        else s.setLock p fd.ino ((s.lock fd.ino).unlock fd))
    else none
  | .flockWait fd mode nonBlocking, r, s =>
    match r with
    | .ok () =>
      if (s.lock fd.ino).can fd mode then
        some (s.setLock p fd.ino ((s.lock fd.ino).grant fd mode))
      else none
    | .error .wouldblock =>
      if nonBlocking ∧ ¬ (s.lock fd.ino).can fd mode then some s else none
    | .error .other => some s
    | .error _ => none
  | .flockUn fd, r, s =>
    match r with
    | .ok () => some (s.setLock p fd.ino ((s.lock fd.ino).unlock fd))
    | .error .other => some s
    | .error _ => none
  | .close fd, _, s =>
    some { s.setLock p fd.ino ((s.lock fd.ino).unlock fd) with opened := s.opened.erase fd }
  | .listed, r, s =>
    match r with
    | .ok b => if b = s.path.isSome then some s else none
    | .error .other => some s
    | .error _ => none
  | .remove, r, s =>
    match r with
    | .ok () =>
      if s.path = none then none
      else some { s with path := none, held := Function.update s.held p none }
    | .error .noent => if s.path = none then some s else none
    | .error .other => some s
    | .error _ => none
  | .returned mode, _, s => some { s with held := Function.update s.held p (some mode) }

/-- The lock file as a machine. A dead process does nothing. -/
def lockMachine : Machine lockSig Files where
  next p o r s := if p ∈ s.dead then none else next p o r s
  die := Files.die

inductive Err where
  /-- An error of a system call, handed on as it is; `EWOULDBLOCK` is `ErrLocked` and `ENOENT`
  of `NewLock` is `ErrNotExist`. -/
  | errno (e : Errno)
  /-- `error creating key lock file: %v`. -/
  | creating (e : Errno)
  /-- `error opening key lock file: %v`. -/
  | opening (e : Errno)
  /-- `cannot acquire lock after %d retries`. -/
  | retries (n : Nat)
  /-- `error opening lockDir: %v` or `error getting lock files list: %v`. -/
  | listing (e : Errno)
  /-- `error removing lock file: %v`. -/
  | removing (e : Errno)
  deriving DecidableEq, Repr

/-- A `FileLock`; `none` is the descriptor -1 of a closed lock. -/
abbrev FileLock := Option Fd

/-- `NewLock`: open the file and check that it is a regular one. -/
def newLock : Prog lockSig (Except Errno Fd) := do
  match ← sys .openFile with
  | .error e => return .error e
  | .ok fd =>
    match ← sys (.fstat fd) with
    | .error e => return .error e
    | .ok _ => return .ok fd

/-- `flock(2)`. -/
def flock (l : FileLock) (mode : Mode) (nonBlocking : Bool) :
    Prog lockSig (Except Errno Unit) := do
  match l with
  | none => return .error .badf
  | some fd =>
    let same : Bool ← sys (.flockDrop fd mode)
    if same then return .ok () else sys (.flockWait fd mode nonBlocking)

namespace FileLock

def exclusiveLock (l : FileLock) := flock l .exclusive false
def tryExclusiveLock (l : FileLock) := flock l .exclusive true
def sharedLock (l : FileLock) := flock l .shared false
def trySharedLock (l : FileLock) := flock l .shared true

def unlock (l : FileLock) : Prog lockSig (Except Errno Unit) :=
  match l with
  | none => return .error .badf
  | some fd => sys (.flockUn fd)

/-- Close the lock; what is left has the descriptor -1. -/
def close (l : FileLock) : Prog lockSig FileLock := do
  match l with
  | none => return none
  | some fd =>
    sys (.close fd)
    return none

end FileLock

structure KeyLockMode where
  mode : Mode
  nonBlocking : Bool
  deriving DecidableEq, Repr

def keyLockExclusive : KeyLockMode := ⟨.exclusive, false⟩
def keyLockShared : KeyLockMode := ⟨.shared, false⟩
def KeyLockMode.orNonBlocking (m : KeyLockMode) : KeyLockMode := { m with nonBlocking := true }

def defaultLockRetries : Nat := 3

/-- Create the lock file if it does not exist, close it, and open it again as a lock. -/
def newKeyLock : Prog lockSig (Except Err Fd) := do
  match ← sys .mkdirAll with
  | .error e => return .error (.errno e)
  | .ok () =>
    match ← sys .openCreate with
    | .error e => return .error (.creating e)
    | .ok f =>
      sys (.close f)
      match ← newLock with
      | .error e => return .error (.opening e)
      | .ok fd => return .ok fd

def takeLock (l : FileLock) (m : KeyLockMode) : Prog lockSig (Except Errno Unit) :=
  match m.mode, m.nonBlocking with
  | .exclusive, false => l.exclusiveLock
  | .exclusive, true => l.tryExclusiveLock
  | .shared, false => l.sharedLock
  | .shared, true => l.trySharedLock

/-- Is the file that the held descriptor refers to still the current file? -/
def sameFile (fd : Fd) : Prog lockSig (Except Errno Bool) := do
  match ← sys (.fstat fd) with
  | .error e => return .error e
  | .ok lockIno =>
    match ← sys .openFile with
    | .error e => return .error e
    | .ok cur =>
      match ← sys (.fstat cur) with
      | .error e =>
        sys (.close cur)
        return .error e
      | .ok curIno =>
        sys (.close cur)
        return .ok (lockIno == curIno)

/-- One round of the loop of `KeyLock.lock`; `changed` is what it goes on with when the file
has changed. The result comes with the changed lock. -/
def lockRound (m : KeyLockMode) (l : FileLock)
    (changed : Prog lockSig (Except Err Unit × FileLock)) :
    Prog lockSig (Except Err Unit × FileLock) := do
  match ← takeLock l m with
  | .error e => return (.error (.errno e), l)
  | .ok () =>
    match l with
    | none => return (.error (.errno .badf), l)
    | some fd =>
      match ← sameFile fd with
      | .error e => return (.error (.errno e), l)
      | .ok true =>
        sys (.returned m.mode)
        return (.ok (), l)
      | .ok false => changed

/-- The loop of `KeyLock.lock`, with the given number of retries left of `maxRetries`. -/
def lockLoop (m : KeyLockMode) (maxRetries : Nat) :
    Nat → FileLock → Prog lockSig (Except Err Unit × FileLock)
  | 0, l => lockRound m l (return (.error (.retries maxRetries), l))
  | left + 1, l => lockRound m l (do
      -- the file has changed: discard this lock and try to take another lock
      let l ← FileLock.close l
      match ← newKeyLock with
      | .error e => return (.error e, l)
      | .ok fd => lockLoop m maxRetries left (some fd))

/-- `KeyLock.lock`: take a lock and handle changed lock files. -/
def lock (l : FileLock) (m : KeyLockMode) (maxRetries : Nat) :
    Prog lockSig (Except Err Unit × FileLock) :=
  lockLoop m maxRetries maxRetries l

def createAndLock (m : KeyLockMode) : Prog lockSig (Except Err FileLock) := do
  match ← newKeyLock with
  | .error e => return .error e
  | .ok fd =>
    match ← lock (some fd) m defaultLockRetries with
    | (.error e, l) =>
      let _ ← FileLock.close l
      return .error e
    | (.ok (), l) => return .ok l

/-- The part of `CleanKeyLocks` that concerns one key. -/
def cleanKeyLock : Prog lockSig (Except Err Unit) := do
  match ← sys .listed with
  | .error e => return .error (.listing e)
  | .ok false => return .ok ()
  | .ok true =>
    match ← createAndLock keyLockExclusive.orNonBlocking with
    | .error (.errno .wouldblock) => return .ok ()
    | .error e => return .error e
    | .ok l =>
      match ← sys .remove with
      | .error e =>
        let _ ← FileLock.close l
        return .error (.removing e)
      | .ok () =>
        let _ ← FileLock.close l
        return .ok ()

inductive Call where
  | lock (m : KeyLockMode) (maxRetries : Nat)
  | unlock
  | close

/-- What a client does with its `KeyLock`: each next call may depend on how the one before
ended. -/
inductive Script where
  | done
  | call (c : Call) (k : Except Err Unit → Script)

def Call.perform (l : FileLock) : Call → Prog lockSig (Except Err Unit × FileLock)
  | .lock m maxRetries => Lock.lock l m maxRetries
  | .unlock => do
    match ← FileLock.unlock l with
    | .error e => return (.error (.errno e), l)
    | .ok () => return (.ok (), l)
  | .close => do
    let l ← FileLock.close l
    return (.ok (), l)

def Script.run : Script → FileLock → Prog lockSig Unit
  | .done, _ => return ()
  | .call c k, l => do
    let (r, l) ← c.perform l
    (k r).run l

/-- What a process does: it gets a `KeyLock` from `NewKeyLock` or, already locked, from one of
the functions on top of `createAndLock`, and uses it; or it cleans up. -/
inductive Client where
  | new (s : Script)
  | createAndLock (m : KeyLockMode) (s : Script)
  | clean

def Client.prog : Client → Prog lockSig Unit
  | .new s => do
    match ← newKeyLock with
    | .error _ => return ()
    | .ok fd => s.run (some fd)
  | .createAndLock m s => do
    match ← Lock.createAndLock m with
    | .error _ => return ()
    | .ok l => s.run l
  | .clean => do
    let _ ← cleanKeyLock

def start (path : Option Ino) (clients : Pid → Client) : Config lockSig Files :=
  ⟨Files.initial path, fun p => (clients p).prog⟩

end Rkt.Lock
