import Rkt.Pods.World
import Mathlib.Data.Finset.Sort

set_option autoImplicit false

namespace Rkt.Pods

open Conc Prog

inductive Err where
  /-- An error of a system call, handed on as it is. -/
  | errno (e : Errno)
  /-- `error creating directory: %v`. -/
  | initPods (e : Errno)
  /-- A transition called on a pod in the wrong state. -/
  | bug (text : String)
  /-- `pod %q not found`. -/
  | notFound (u : UUID)
  /-- `error opening pod %q: %v`. -/
  | opening (u : UUID) (e : Errno)
  /-- `unexpected lock error: %v`. -/
  | lock (e : Errno)
  /-- `error opening pod %v netinfo: %v`. -/
  | netinfo (u : UUID) (e : Errno)
  /-- `cannot read pods directory: %v`. -/
  | readDir (e : Errno)
  /-- `failed to get pods: %v`. -/
  | getPods (e : Err)
  deriving DecidableEq, Repr

/-- The struct `pod`. Its list of networks is left out: nothing here reads it. -/
structure Pod where
  lock : Fd
  uuid : UUID
  createdByMe : Bool := false
  isEmbryo : Bool := false
  isPreparing : Bool := false
  isAbortedPrepare : Bool := false
  isPrepared : Bool := false
  isExited : Bool := false
  isExitedGarbage : Bool := false
  isExitedDeleting : Bool := false
  isGarbage : Bool := false
  isDeleting : Bool := false
  isGone : Bool := false
  deriving DecidableEq, Repr

namespace Pod

def isRunning (p : Pod) : Bool :=
  !p.isEmbryo && !p.isAbortedPrepare && !p.isPreparing && !p.isPrepared &&
    !p.isExited && !p.isExitedGarbage && !p.isExitedDeleting && !p.isGarbage &&
    !p.isDeleting && !p.isGone

/-- The directory the pod is in according to the cached state; `none` is the empty path. -/
def path (p : Pod) : Option Dir :=
  if p.isEmbryo then some .embryo
  else if p.isPreparing || p.isAbortedPrepare then some .prepare
  else if p.isPrepared then some .prepared
  else if p.isExitedGarbage then some .exitedGarbage
  else if p.isGarbage then some .garbage
  else if p.isGone then none
  else some .run

/-- `os.Rename(p.path(), …)`. -/
def renamePath (p : Pod) (d : Dir) : Prog podSig (Except Errno Unit) :=
  match p.path with
  | some d₀ => sys (.rename d₀ d p.uuid)
  | none => return .error .noent

/-- The common end of the transitions: sync the target directory, then set the flags. -/
def syncThen (d : Dir) (p : Pod) : Prog podSig (Except Err Pod) := do
  match ← sys (.syncDir d) with
  | .error e => return .error (.errno e)
  | .ok () => return .ok p

/-- Embryo → preparing; leaves the pod locked in the prepare directory. Only the creator of
the pod may do this. -/
def xToPreparing (p : Pod) : Prog podSig (Except Err Pod) := do
  if !p.createdByMe then
    return .error (.bug "bug: only pods created by me may transition to preparing")
  if !p.isEmbryo then
    return .error (.bug "bug: only embryonic pods can transition to preparing")
  match ← sys (.exclusiveLock p.lock) with
  | .error e => return .error (.errno e)
  | .ok () =>
    match ← sys (.rename .embryo .prepare p.uuid) with
    | .error e => return .error (.errno e)
    | .ok () => syncThen .prepare { p with isEmbryo := false, isPreparing := true }

/-- Preparing → prepared; leaves the pod unlocked in the prepared directory. Only the creator
of the pod may do this. -/
def xToPrepared (p : Pod) : Prog podSig (Except Err Pod) := do
  if !p.createdByMe then
    return .error (.bug "bug: only pods created by me may transition to prepared")
  if !p.isPreparing then
    return .error (.bug "bug: only preparing pods may transition to prepared")
  match ← p.renamePath .prepared with
  | .error e => return .error (.errno e)
  | .ok () =>
    match ← sys (.unlock p.lock) with
    | .error e => return .error (.errno e)
    | .ok () => syncThen .prepared { p with isPreparing := false, isPrepared := true }

/-- Prepared → run; leaves the pod locked in the run directory. The creator of the pod may
also jump directly from preparing to run. -/
def xToRun (p : Pod) : Prog podSig (Except Err Pod) := do
  if !p.createdByMe && !p.isPrepared then
    return .error (.bug "bug: only prepared pods may transition to run")
  if p.createdByMe && !p.isPrepared && !p.isPreparing then
    return .error (.bug "bug: only prepared or preparing pods may transition to run")
  match ← sys (.exclusiveLock p.lock) with
  | .error e => return .error (.errno e)
  | .ok () =>
    match ← p.renamePath .run with
    | .error e => return .error (.errno e)
    | .ok () => syncThen .run { p with isPreparing := false, isPrepared := false }

def xToExitedGarbage (p : Pod) : Prog podSig (Except Err Pod) := do
  if !p.isExited || p.isExitedGarbage then
    return .error (.bug
      "bug: only exited non-garbage pods may transition to exited-garbage")
  match ← sys (.rename .run .exitedGarbage p.uuid) with
  | .error e => return .error (.errno e)
  | .ok () => syncThen .exitedGarbage { p with isExitedGarbage := true }

def xToGarbage (p : Pod) : Prog podSig (Except Err Pod) := do
  if !p.isAbortedPrepare && !p.isPrepared then
    return .error (.bug
      "bug: only failed prepare or prepared pods may transition to garbage")
  match ← p.renamePath .garbage with
  | .error e => return .error (.errno e)
  | .ok () =>
    syncThen .garbage
      { p with isAbortedPrepare := false, isPrepared := false, isGarbage := true }

end Pod

def initPods : Prog podSig (Except Err Unit) := do
  match ← sys .initPods with
  | .error e => return .error (.initPods e)
  | .ok () => return .ok ()

/-- Create a new pod directory in the preparing state. The returned pod is exclusively
locked. -/
def newPod : Prog podSig (Except Err Pod) := do
  match ← initPods with
  | .error e => return .error e
  | .ok () =>
    let u ← sys .newUUID
    match ← sys (.mkdir .embryo u) with
    | .error e => return .error (.errno e)
    | .ok () =>
      match ← sys (.newLock .embryo u) with
      | .error e =>
        let _ ← sys (.remove .embryo u)
        return .error (.errno e)
      | .ok l =>
        Pod.xToPreparing { lock := l, uuid := u, createdByMe := true, isEmbryo := true }

/-- The value that `getPod` starts from when it finds the pod in `d`. -/
def openedIn (d : Dir) (l : Fd) (u : UUID) : Pod :=
  match d with
  | .embryo => { lock := l, uuid := u, isEmbryo := true }
  | .prepare => { lock := l, uuid := u, isAbortedPrepare := true }
  | .prepared => { lock := l, uuid := u, isPrepared := true }
  | .run => { lock := l, uuid := u, isExited := true }
  | .exitedGarbage => { lock := l, uuid := u, isExitedGarbage := true, isExited := true }
  | .garbage => { lock := l, uuid := u, isGarbage := true }

/-- Try to open the pod in all possible directories, in the same order the states occur. -/
def openPod (u : UUID) : Prog podSig (Except Err Pod) := do
  match ← sys (.newLock .embryo u) with
  | .ok l => return .ok { lock := l, uuid := u, isEmbryo := true }
  | .error .noent =>
    match ← sys (.newLock .prepare u) with
    -- treat as aborted prepare until lock is tested
    | .ok l => return .ok { lock := l, uuid := u, isAbortedPrepare := true }
    | .error .noent =>
      match ← sys (.newLock .prepared u) with
      | .ok l => return .ok { lock := l, uuid := u, isPrepared := true }
      | .error .noent =>
        match ← sys (.newLock .run u) with
        -- treat as exited until lock is tested
        | .ok l => return .ok { lock := l, uuid := u, isExited := true }
        | .error .noent =>
          match ← sys (.newLock .exitedGarbage u) with
          | .error .noent =>
            match ← sys (.newLock .garbage u) with
            | .ok l => return .ok { lock := l, uuid := u, isGarbage := true }
            | .error _ => return .error (.notFound u)
          | .ok l => return .ok { lock := l, uuid := u, isExitedGarbage := true, isExited := true }
          | .error e => return .error (.opening u e)
        | .error e => return .error (.opening u e)
      | .error e => return .error (.opening u e)
    | .error e => return .error (.opening u e)
  | .error e => return .error (.opening u e)

/-- The flags of a pod whose directory turned out to be exclusively locked. -/
def Pod.locked (p : Pod) : Pod :=
  if p.isExitedGarbage then
    -- locked exitedGarbage is also being deleted
    { p with isExitedDeleting := true }
  else if p.isExited then
    -- locked exited and !exitedGarbage is not exited (default in the run dir)
    { p with isExited := false }
  else if p.isAbortedPrepare then
    -- locked in preparing is preparing, not aborted (default in the preparing dir)
    { p with isAbortedPrepare := false, isPreparing := true }
  else if p.isGarbage then
    -- locked in non-exited garbage is deleting
    { p with isDeleting := true }
  else p

/-- Test the lock with a momentary shared lock: the prepare, run, exitedGarbage and garbage
directories use exclusive locks to indicate preparing, running and deleting. -/
def testLock (p : Pod) : Prog podSig (Except Err Pod) := do
  if !p.isPrepared && !p.isEmbryo then
    match ← sys (.trySharedLock p.lock) with
    | .error .wouldblock => return .ok p.locked
    | .error e =>
      sys (.close p.lock)
      return .error (.lock e)
    | .ok () =>
      let _ ← sys (.unlock p.lock)
      return .ok p
  else return .ok p

def loadNets (p : Pod) : Prog podSig (Except Err Pod) := do
  if p.isRunning then
    match ← sys (.openFile p.lock .netInfo) with
    | .ok () => return .ok p
    -- ENOENT is ok -- assume running without --private-net
    | .error .noent => return .ok p
    | .error e => return .error (.netinfo p.uuid e)
  else return .ok p

/-- A pod value for the given UUID. The returned lock is open but not held. -/
def getPod (u : UUID) : Prog podSig (Except Err Pod) := do
  match ← initPods with
  | .error e => return .error e
  | .ok () =>
    match ← openPod u with
    | .error e => return .error e
    | .ok p =>
      match ← testLock p with
      | .error e => return .error e
      | .ok p => loadNets p

abbrev IncludeMask := Dir → Bool

def includePrepareDir : IncludeMask := fun d => d = .prepare
def includePreparedDir : IncludeMask := fun d => d = .prepared
def includeRunDir : IncludeMask := fun d => d = .run
def includeExitedGarbageDir : IncludeMask := fun d => d = .exitedGarbage
def includeGarbageDir : IncludeMask := fun d => d = .garbage
def includeMostDirs : IncludeMask := fun d =>
  includeRunDir d || includeExitedGarbageDir d || includePrepareDir d || includePreparedDir d
def listPodsFromDir (d : Dir) : Prog podSig (Except Err (Finset UUID)) := do
  match ← sys (.readDir d) with
  | .error .noent => return .ok ∅
  | .error e => return .error (.readDir e)
  | .ok ps => return .ok ps

/-- Read the directories of a list that are included, and collect what is in them. -/
def listDirs (incl : IncludeMask) : List Dir → Finset UUID →
    Prog podSig (Except Err (Finset UUID))
  | [], ups => return .ok ups
  | d :: ds, ups => do
    if incl d then
      match ← listPodsFromDir d with
      | .error e => return .error e
      | .ok ps => listDirs incl ds (ups ∪ ps)
    else listDirs incl ds ups

/-- The order is significant: embryo → preparing → prepared → running → exitedGarbage. -/
def allDirs : List Dir := [.embryo, .prepare, .prepared, .run, .exitedGarbage, .garbage]

/-- The UUIDs in the included directories, uniqued due to the possibility of a pod being
renamed across directories during the list operation. -/
def listPods (incl : IncludeMask) : Prog podSig (Except Err (Finset UUID)) :=
  listDirs incl allDirs ∅

/-- Pods found in unrequested states; this is to cover a race between `listPods` finding the
UUIDs and pod states changing. -/
def omits (incl : IncludeMask) (p : Pod) : Bool :=
  p.isEmbryo && !incl .embryo ||
    p.isExitedGarbage && !incl .exitedGarbage ||
    p.isGarbage && !incl .garbage ||
    p.isPrepared && !incl .prepared ||
    ((p.isPreparing || p.isAbortedPrepare) && !incl .prepare) ||
    p.isRunning && !incl .run

def walkList {β : Type} (incl : IncludeMask) (f : β → Pod → Prog podSig β) :
    List UUID → β → Prog podSig β
  | [], b => return b
  | u :: us, b => do
    match ← getPod u with
    | .error _ => walkList incl f us b
    | .ok p =>
      if omits incl p then
        sys (.close p.lock)
        walkList incl f us b
      else
        let b ← f b p
        sys (.close p.lock)
        walkList incl f us b

/-- Call `f` for every pod found in the included directories. -/
def walkPods {β : Type} (incl : IncludeMask) (f : β → Pod → Prog podSig β) (b : β) :
    Prog podSig (Except Err β) := do
  match ← initPods with
  | .error e => return .error e
  | .ok () =>
    match ← listPods incl with
    | .error e => return .error (.getPods e)
    | .ok us => return .ok (← walkList incl f (us.sort (· ≤ ·)) b)

end Rkt.Pods
