import Rkt.Code.Result
import Rkt.Num.Decimal

set_option autoImplicit false

namespace Rkt.Stage1

open Decimal Result

abbrev Str := List Char

/-- `types.EventHandler`. -/
structure EventHandler where
  name : Str
  exec : List Str
  deriving DecidableEq, Repr

/-- The part of `types.App` the command lines are made from. -/
structure App where
  exec : List Str
  user : Str
  group : Str
  workingDirectory : Str := []
  eventHandlers : List EventHandler := []
  deriving DecidableEq, Repr

/-- Why `appToSystemd` gives up before it writes the unit. -/
inductive Err
  /-- `non-numerical user id not supported yet` -/
  | userId
  /-- `non-numerical group id not supported yet` -/
  | groupId
  /-- `unrecognized eventHandler: %v` -/
  | eventHandler (name : Str)
  deriving DecidableEq, Repr

inductive ExecOption
  | execStart
  | execStartPre
  | execStopPost
  deriving DecidableEq, Repr

/-- A command of the unit: the option, and the arguments that are quoted into it. -/
structure Command where
  option : ExecOption
  argv : List Str
  deriving DecidableEq, Repr

/-- `common.RelAppRootfsPath`. -/
def relAppRootfsPath (appName : Str) : Str :=
  "/opt/stage2/".toList ++ appName ++ "/rootfs".toList

def relEnvFilePath (appName : Str) : Str := "/rkt/env/".toList ++ appName

/-- The id that a `User` or `Group` string stands for: `root`, or a number. -/
def parseId (s : Str) : Option Int :=
  if s = "root".toList then some 0 else atoi s

/-- `parseId`, with the error that is reported for the field. -/
def readId (s : Str) (err : Err) : Except Err Int :=
  match parseId s with
  | some id => .ok id
  | none => .error err

def handlerOption (name : Str) : Except Err ExecOption :=
  if name = "pre-start".toList then .ok .execStartPre
  else if name = "post-stop".toList then .ok .execStopPost
  else .error (.eventHandler name)

def handlerCommands (execWrap : List Str) : List EventHandler → Except Err (List Command)
  | [] => .ok []
  | eh :: ehs => do
    let option ← handlerOption eh.name
    let rest ← handlerCommands execWrap ehs
    return ⟨option, execWrap ++ eh.exec⟩ :: rest

def execWrap (appName : Str) (app : App) (uid gid : Int) : List Str :=
  let workDir := if app.workingDirectory ≠ [] then app.workingDirectory else "/".toList
  ["/diagexec".toList, relAppRootfsPath appName, workDir, relEnvFilePath appName,
    itoa uid, itoa gid]

/-- The commands `appToSystemd` writes into the service unit of the app. -/
def appToSystemd (appName : Str) (app : App) : Except Err (List Command) := do
  let uid ← readId app.user .userId
  let gid ← readId app.group .groupId
  let wrap := execWrap appName app uid gid
  let handlers ← handlerCommands wrap app.eventHandlers
  return ⟨.execStart, wrap ++ app.exec⟩ :: handlers

theorem readId_eq_ok {s : Str} {err : Err} {id : Int} :
    readId s err = .ok id ↔ parseId s = some id := by
  unfold readId
  cases parseId s <;> simp

theorem parseId_range {s : Str} {id : Int} (h : parseId s = some id) :
    -2 ^ 63 ≤ id ∧ id < 2 ^ 63 := by
  unfold parseId at h
  split_ifs at h
  · cases h
    omega
  · exact atoi_range h

theorem handlerCommands_argv {wrap : List Str} {ehs : List EventHandler} {cmds : List Command}
    (h : handlerCommands wrap ehs = .ok cmds) : ∀ cmd ∈ cmds, ∃ exec, cmd.argv = wrap ++ exec := by
  induction ehs generalizing cmds with
  | nil =>
    cases h
    simp
  | cons eh ehs ih =>
    unfold handlerCommands at h
    obtain ⟨option, -, h⟩ := bind_eq_ok.mp h
    obtain ⟨rest, hrest, h⟩ := bind_eq_ok.mp h
    cases h
    intro cmd hcmd
    rcases List.mem_cons.mp hcmd with rfl | hcmd
    · exact ⟨eh.exec, rfl⟩
    · exact ih hrest cmd hcmd

/-- **Every command of the unit is wrapped**, with the ids that the app's `User` and `Group`
stand for. -/
theorem appToSystemd_argv {appName : Str} {app : App} {cmds : List Command}
    (h : appToSystemd appName app = .ok cmds) :
    ∃ uid gid, parseId app.user = some uid ∧ parseId app.group = some gid ∧
      ∀ cmd ∈ cmds, ∃ exec, cmd.argv = execWrap appName app uid gid ++ exec := by
  unfold appToSystemd at h
  obtain ⟨uid, huid, h⟩ := bind_eq_ok.mp h
  obtain ⟨gid, hgid, h⟩ := bind_eq_ok.mp h
  obtain ⟨handlers, hhandlers, h⟩ := bind_eq_ok.mp h
  cases h
  refine ⟨uid, gid, readId_eq_ok.mp huid, readId_eq_ok.mp hgid, ?_⟩
  intro cmd hcmd
  rcases List.mem_cons.mp hcmd with rfl | hcmd
  · exact ⟨app.exec, rfl⟩
  · exact handlerCommands_argv hhandlers cmd hcmd

end Rkt.Stage1
