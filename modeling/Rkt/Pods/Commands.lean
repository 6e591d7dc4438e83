import Rkt.Pods.Pod

set_option autoImplicit false

namespace Rkt.Pods

open Conc Prog

/-- `os.RemoveAll` of a pod's directory. -/
def removeAll (d : Dir) (u : UUID) : Prog podSig (Except Errno Unit) := do
  match ← sys (.removeFiles d u) with
  | (_, some e) => return .error e
  | (_, none) => sys (.removeDir d u)

/-- `os.RemoveAll(p.path())`; its error is only printed. -/
def Pod.removeAllPath (p : Pod) : Prog podSig Unit := do
  match p.path with
  | some d => let _ ← removeAll d p.uuid
  | none => return ()

/-- What `deletePod` does for an exited pod before the removal; `false` if it gives up. -/
def cleanExited (p : Pod) : Prog podSig Bool := do
  -- store.NewStore
  match ← sys .aside with
  | .error _ => return false
  | .ok () =>
  match ← sys (.openFile p.lock .stage1ID) with
  | .error _ => return false
  | .ok () =>
  -- stage0.GC
  match ← sys .aside with
  | .error _ => return false
  | .ok () =>
  match ← sys (.openFile p.lock .overlayPrepared) with
  | .error _ => return true
  | .ok () =>
  match ← sys (.openFile p.lock .pod) with
  | .error _ => return false
  | .ok () =>
  -- the unmounts of the apps are best effort, the one of stage1 is not
  match ← sys .aside with
  | .error _ => return false
  | .ok () => return true

/-- Clean up files and resources associated with the pod. The pod must be under exclusive lock
and be in either the exited-garbage or the garbage state. -/
def deletePod (p : Pod) : Prog podSig Unit := do
  if !p.isExitedGarbage && !p.isGarbage then
    -- logic error: deletePod called with non-garbage pod
    sys .panic
  else if p.isExitedGarbage then
    if ← cleanExited p then p.removeAllPath else return ()
  else p.removeAllPath

def lockAndDelete (p : Pod) : Prog podSig Unit := do
  match ← sys (.exclusiveLock p.lock) with
  | .error _ => return ()
  | .ok () => deletePod p

/-- Do `act` if the pod's directory was changed longer than `age` ago. -/
def ifExpired (age : Nat) (p : Pod) (act : Prog podSig Unit) : Prog podSig Unit := do
  match p.path with
  | none => return ()
  | some d =>
    match ← sys (.lstat d p.uuid) with
    | .error _ => return ()
    | .ok ctime =>
      let now : Nat ← sys .now
      if ctime + age < now then act else return ()

/-- Rename exited pods to the exited-garbage directory. -/
def renameExited : Prog podSig (Except Err Unit) :=
  walkPods includeRunDir (fun _ p => do
    if p.isExited then
      let _ ← p.xToExitedGarbage) ()

/-- Discard sufficiently aged pods from the exited-garbage directory. -/
def emptyExitedGarbage (gracePeriod : Nat) : Prog podSig (Except Err Unit) :=
  walkPods includeExitedGarbageDir (fun _ p => ifExpired gracePeriod p (lockAndDelete p)) ()

/-- Rename failed prepares to the garbage directory. -/
def renameAborted : Prog podSig (Except Err Unit) :=
  walkPods includePrepareDir (fun _ p => do
    if p.isAbortedPrepare then
      let _ ← p.xToGarbage) ()

/-- Rename expired prepared pods to the garbage directory. -/
def renameExpired (preparedExpiration : Nat) : Prog podSig (Except Err Unit) :=
  walkPods includePreparedDir (fun _ p => ifExpired preparedExpiration p (do
    let _ ← p.xToGarbage)) ()

def emptyGarbage : Prog podSig (Except Err Unit) :=
  walkPods includeGarbageDir (fun _ p => lockAndDelete p) ()

def runGC (gracePeriod preparedExpiration : Nat) : Prog podSig Unit := do
  match ← renameExited with
  | .error _ => return ()
  | .ok () =>
  match ← renameAborted with
  | .error _ => return ()
  | .ok () =>
  match ← renameExpired preparedExpiration with
  | .error _ => return ()
  | .ok () =>
  match ← emptyExitedGarbage gracePeriod with
  | .error _ => return ()
  | .ok () =>
    let _ ← emptyGarbage

/-- Bring the pod into a garbage state, lock and delete it. -/
def removePod (p : Pod) : Prog podSig Bool := do
  if p.isRunning then return false
  else if p.isEmbryo || p.isPreparing then return false
  else if p.isExitedDeleting || p.isDeleting then return false
  else if p.isAbortedPrepare || p.isPrepared then
    match ← p.xToGarbage with
    | .error _ => return false
    | .ok p => lockDelete p
  else if p.isExited then
    match ← p.xToExitedGarbage with
    | .error _ => return false
    | .ok p => lockDelete p
  else lockDelete p
where
  /-- The end of `removePod`. -/
  lockDelete (p : Pod) : Prog podSig Bool := do
    match ← sys (.exclusiveLock p.lock) with
    | .error _ => return false
    | .ok () =>
      deletePod p
      return true

/-- The loop of `rkt rm` over its arguments. After an error of `getPod` the source goes on to
call `removePod` on a nil pointer. -/
def runRm : List UUID → Prog podSig Unit
  | [] => return ()
  | u :: us => do
    match ← getPod u with
    | .error _ => sys .panic
    | .ok p =>
      let _ ← removePod p
      runRm us

/-- The loop of `rkt rm`, with `failed` for what happens after an error of `getPod`. -/
def runRmOr (failed : Prog podSig Unit) : List UUID → Prog podSig Unit
  | [] => return ()
  | u :: us => do
    match ← getPod u with
    | .error _ => failed
    | .ok p =>
      let _ ← removePod p
      runRmOr failed us

theorem runRm_eq (us : List UUID) : runRm us = runRmOr (sys .panic) us := by
  induction us with
  | nil => rfl
  | cons u us ih =>
    simp only [runRm, runRmOr, ih]

def hexText (n u : Nat) : List Char :=
  (List.range n).reverse.map fun i => Nat.digitChar (u / 16 ^ i % 16)

/-- `UUID.String`: the name of the pod's directory. -/
def UUID.text (u : UUID) : List Char :=
  hexText 8 (u / 16 ^ 24) ++ '-' :: hexText 4 (u / 16 ^ 20) ++ '-' :: hexText 4 (u / 16 ^ 16) ++
    '-' :: hexText 4 (u / 16 ^ 12) ++ '-' :: hexText 12 u

/-- The directories in which an argument is looked for. -/
def matchedDirs : IncludeMask := fun d =>
  includePrepareDir d || includePreparedDir d || includeRunDir d || includeExitedGarbageDir d

/-- `stage0.Prepare`: `true` if it succeeded. -/
def stage0Prepare (useOverlay : Bool) (p : Pod) : Prog podSig Bool := do
  match p.path with
  | none => return false
  | some d =>
  -- prepareStage1Image, generatePodManifest or validatePodManifest
  match ← sys .aside with
  | .error _ => return false
  | .ok () =>
  match ← sys (.writeFile d p.uuid .pod) with
  | .error _ => return false
  | .ok () =>
  match ← sys (.writeFile d p.uuid .stage1ID) with
  | .error _ => return false
  | .ok () =>
  if useOverlay then
    match ← sys (.writeFile d p.uuid .overlayPrepared) with
    | .error _ => return false
    | .ok () => return true
  else return true

/-- The end of `rkt run` and `rkt run-prepared`: `xToRun`, read the app list, exec stage1. -/
def runPod (p : Pod) : Prog podSig Unit := do
  match ← p.xToRun with
  | .error _ => return ()
  | .ok p =>
    sys (.ran p.uuid)
    match ← sys (.openFile p.lock .pod) with
    | .error _ => return ()
    | .ok () =>
      -- stage0.Run: execs, never returns
      let _ ← sys .aside

def runRun (useOverlay : Bool) : Prog podSig Unit := do
  match ← newPod with
  | .error _ => return ()
  | .ok p =>
    -- writeUUIDToFile, label.InitLabels
    match ← sys .aside with
    | .error _ => return ()
    | .ok () => if ← stage0Prepare useOverlay p then runPod p else return ()

def runPrepare (useOverlay : Bool) : Prog podSig Unit := do
  match ← newPod with
  | .error _ => return ()
  | .ok p =>
    if ← stage0Prepare useOverlay p then
      -- p.sync
      match ← sys .aside with
      | .error _ => return ()
      | .ok () => let _ ← p.xToPrepared
    else return ()

def runRunPrepared (u : UUID) : Prog podSig Unit := do
  -- store.NewStore
  match ← sys .aside with
  | .error _ => return ()
  | .ok () =>
    match ← getPod u with
    | .error _ => return ()
    | .ok p =>
      if !p.isPrepared then return ()
      else
        -- p.getAppCount
        match ← sys .aside with
        | .error _ => return ()
        | .ok () => runPod p

inductive Command where
  | run (useOverlay : Bool)
  | prepare (useOverlay : Bool)
  | runPrepared (u : UUID)
  | gc (gracePeriod preparedExpiration : Nat)
  | rm (us : List UUID)

def Command.prog : Command → Prog podSig Unit
  | .run useOverlay => runRun useOverlay
  | .prepare useOverlay => runPrepare useOverlay
  | .runPrepared u => runRunPrepared u
  | .gc gracePeriod preparedExpiration => runGC gracePeriod preparedExpiration
  | .rm us => runRm us

/-- No pod exists and each process is about to run its command. -/
def start (cmds : Pid → Command) : Config podSig World :=
  ⟨World.empty, fun p => (cmds p).prog⟩

end Rkt.Pods
