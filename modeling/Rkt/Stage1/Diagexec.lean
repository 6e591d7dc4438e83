import Rkt.Stage1.Units
import Mathlib.Data.BitVec

set_option autoImplicit false

namespace Rkt.Stage1

open Decimal Result

/-- `uid_t` and `gid_t`. -/
abbrev Id := BitVec 32

/-- The real, effective and saved ids of a process. -/
structure Ids where
  real : Id
  effective : Id
  saved : Id
  deriving DecidableEq, Repr

/-- The ids after `setresuid` or `setresgid`: an argument of `-1` leaves the id unchanged. -/
def Ids.setres (ids : Ids) (r e s : Id) : Ids where
  real := if r = -1 then ids.real else r
  effective := if e = -1 then ids.effective else e
  saved := if s = -1 then ids.saved else s

structure Creds where
  uid : Ids
  gid : Ids
  deriving DecidableEq, Repr

/-- The credentials that `User=0` and `Group=0` in the unit give to `diagexec`. -/
def Creds.root : Creds where
  uid := ⟨0, 0, 0⟩
  gid := ⟨0, 0, 0⟩

def cAtoi (s : Str) : Id := BitVec.ofInt 32 (strtol s)

structure Sys where
  /-- `load_env` returns. -/
  loadEnv : Str → Bool
  chroot : Str → Bool
  chdir : Str → Bool

/-- Why `diagexec` exits before it executes anything. -/
inductive Exit
  /-- `Usage: %s /path/to/root /work/directory /env/file uid gid /to/exec [args ...]` -/
  | usage
  | loadEnv (env : Str)
  /-- `Chroot "%s" failed` -/
  | chroot (root : Str)
  /-- `Chdir "%s" failed` -/
  | chdir (cwd : Str)
  deriving DecidableEq, Repr

/-- The call of `execvp`, and the credentials at that point. -/
structure Exec where
  exe : Str
  args : List Str
  creds : Creds
  deriving DecidableEq, Repr

/-- `pexit_if`. -/
def pexitIf (cond : Bool) (e : Exit) : Except Exit Unit :=
  if cond then .error e else .ok ()

/-- `main`, up to its `execvp`. -/
def main (sys : Sys) (creds : Creds) (argv : List Str) : Except Exit Exec :=
  match argv with
  | _ :: root :: cwd :: env :: uidStr :: gidStr :: exe :: args => do
    let uid := cAtoi uidStr
    let gid := cAtoi gidStr
    pexitIf (!sys.loadEnv env) (.loadEnv env)
    pexitIf (!sys.chroot root) (.chroot root)
    pexitIf (!sys.chdir cwd) (.chdir cwd)
    let gids := if gid > 0 then creds.gid.setres gid gid gid else creds.gid
    let uids := if uid > 0 then creds.uid.setres uid uid uid else creds.uid
    return { exe := exe, args := exe :: args, creds := { uid := uids, gid := gids } }
  | _ => .error .usage

/-- The id that the process ends up with, from 0 and an argument of `diagexec`. -/
def Ids.switch (s : Str) : Ids :=
  if cAtoi s > 0 then (⟨0, 0, 0⟩ : Ids).setres (cAtoi s) (cAtoi s) (cAtoi s) else ⟨0, 0, 0⟩

def Ids.Are (ids : Ids) (n : Int) : Prop :=
  (ids.real.toNat : Int) = n ∧ (ids.effective.toNat : Int) = n ∧ (ids.saved.toNat : Int) = n

instance (ids : Ids) (n : Int) : Decidable (ids.Are n) := inferInstanceAs (Decidable (_ ∧ _ ∧ _))

theorem Ids.switch_eq (s : Str) : ∃ id : Id, Ids.switch s = ⟨id, id, id⟩ ∧
    id = if cAtoi s = -1 then 0 else cAtoi s := by
  unfold Ids.switch Ids.setres
  by_cases hall : cAtoi s = -1
  · refine ⟨0, ?_, by rw [if_pos hall]⟩
    simp [hall]
  · refine ⟨cAtoi s, ?_, by rw [if_neg hall]⟩
    by_cases hpos : cAtoi s > 0
    · simp only [if_pos hpos, if_neg hall]
    · -- an unsigned number that is not positive is 0
      have hzero : cAtoi s = 0 := by bv_omega
      simp [hzero]

theorem toNat_cAtoi_itoa {n : Int} (hlo : -2 ^ 63 ≤ n) (hhi : n < 2 ^ 63) :
    ((cAtoi (itoa n)).toNat : Int) = n % 2 ^ 32 := by
  unfold cAtoi
  rw [strtol_itoa hlo hhi, BitVec.toNat_ofInt]
  omega

/-- **An id survives if it is a 32-bit number other than the largest one.** -/
theorem Ids.switch_are_iff {n : Int} (hlo : -2 ^ 63 ≤ n) (hhi : n < 2 ^ 63) :
    (Ids.switch (itoa n)).Are n ↔ 0 ≤ n ∧ n ≤ 2 ^ 32 - 2 := by
  obtain ⟨id, hid, hval⟩ := Ids.switch_eq (itoa n)
  have hnat := toNat_cAtoi_itoa hlo hhi
  have hthree : (Ids.switch (itoa n)).Are n ↔ (id.toNat : Int) = n := by
    rw [hid]
    unfold Ids.Are
    tauto
  rw [hthree, hval]
  by_cases hall : cAtoi (itoa n) = -1
  · -- the largest id: nothing is changed, and the process stays at 0
    have hmax : n % 2 ^ 32 = 2 ^ 32 - 1 := by
      rw [← hnat, hall]
      decide
    rw [if_pos hall]
    show ((0 : Nat) : Int) = n ↔ _
    omega
  · have hne : n % 2 ^ 32 ≠ 2 ^ 32 - 1 := by
      intro h
      apply hall
      apply BitVec.eq_of_toNat_eq
      have h1 : ((-1 : BitVec 32).toNat : Int) = 2 ^ 32 - 1 := by decide
      omega
    rw [if_neg hall, hnat]
    omega

/-- `diagexec`, started by the unit, switches to the ids on its command line. -/
theorem main_creds {sys : Sys} {arg0 root cwd env uidStr gidStr : Str} {rest : List Str}
    {exec : Exec}
    (h : main sys Creds.root (arg0 :: root :: cwd :: env :: uidStr :: gidStr :: rest) = .ok exec) :
    exec.creds = { uid := Ids.switch uidStr, gid := Ids.switch gidStr } := by
  cases rest with
  | nil => cases h
  | cons exe args =>
    unfold main at h
    obtain ⟨_, -, h⟩ := bind_eq_ok.mp h
    obtain ⟨_, -, h⟩ := bind_eq_ok.mp h
    obtain ⟨_, -, h⟩ := bind_eq_ok.mp h
    cases h
    rfl

/-- **As which user an app runs.** If a command of the unit that `appToSystemd` wrote reaches
its `execvp`, then the ids of the process are the numbers in the app's `User` and `Group`
exactly if both are between 0 and `2 ^ 32 - 2`. -/
theorem ids_as_written_iff (appName : Str) (app : App) (cmds : List Command) (cmd : Command)
    (sys : Sys) (exec : Exec) (hunit : appToSystemd appName app = .ok cmds) (hcmd : cmd ∈ cmds)
    (hexec : main sys Creds.root cmd.argv = .ok exec) :
    ∃ uid gid, parseId app.user = some uid ∧ parseId app.group = some gid ∧
      ((exec.creds.uid.Are uid ∧ exec.creds.gid.Are gid) ↔
        (0 ≤ uid ∧ uid ≤ 2 ^ 32 - 2) ∧ (0 ≤ gid ∧ gid ≤ 2 ^ 32 - 2)) := by
  obtain ⟨uid, gid, huid, hgid, hargv⟩ := appToSystemd_argv hunit
  obtain ⟨rest, hrest⟩ := hargv cmd hcmd
  rw [hrest] at hexec
  have hcreds : exec.creds = { uid := Ids.switch (itoa uid), gid := Ids.switch (itoa gid) } :=
    main_creds hexec
  obtain ⟨hulo, huhi⟩ := parseId_range huid
  obtain ⟨hglo, hghi⟩ := parseId_range hgid
  refine ⟨uid, gid, huid, hgid, ?_⟩
  rw [hcreds, Ids.switch_are_iff hulo huhi, Ids.switch_are_iff hglo hghi]

def app500 : App where
  exec := ["/bin/sh".toList]
  user := "500".toList
  group := "root".toList

def Sys.ok : Sys where
  loadEnv _ := true
  chroot _ := true
  chdir _ := true

theorem ids_as_written_500 : ∃ cmds cmd exec, appToSystemd "sh".toList app500 = .ok cmds ∧
    cmd ∈ cmds ∧ main Sys.ok Creds.root cmd.argv = .ok exec ∧
    exec.creds.uid.Are 500 ∧ exec.creds.gid.Are 0 := by
  refine ⟨_, _, _, rfl, List.mem_singleton_self _, rfl, ?_⟩
  obtain ⟨uid, gid, huid, hgid, hiff⟩ := ids_as_written_iff "sh".toList app500 _ _ Sys.ok _ rfl
    (List.mem_singleton_self _) rfl
  have hu : uid = 500 := by
    have h : parseId app500.user = some 500 := by decide
    rw [h] at huid
    exact (Option.some.inj huid).symm
  have hg : gid = 0 := by
    have h : parseId app500.group = some 0 := by decide
    rw [h] at hgid
    exact (Option.some.inj hgid).symm
  subst hu hg
  exact hiff.mpr (by omega)

def app2pow32 : App := { app500 with user := "4294967296".toList }

/-- **User `4294967296` runs as root**: the number is accepted and truncated to 0. -/
theorem user_2pow32_runs_as_root : ∃ cmds cmd exec, appToSystemd "sh".toList app2pow32 = .ok cmds ∧
    cmd ∈ cmds ∧ main Sys.ok Creds.root cmd.argv = .ok exec ∧
    parseId app2pow32.user = some 4294967296 ∧ exec.creds.uid.Are 0 ∧
    ¬ exec.creds.uid.Are 4294967296 := by
  refine ⟨_, _, _, rfl, List.mem_singleton_self _, rfl, by decide, ?_⟩
  decide

end Rkt.Stage1
