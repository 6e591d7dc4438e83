import Rkt.Store.Tx

set_option autoImplicit false

namespace Rkt.Store

open Conc Prog

variable {d d₁ w : Database}

def Update.setsVersion : Update → Bool
  | .deleteVersion | .insertVersion _ | .createVersion => true
  | _ => false

/-- A statement that deletes or inserts a version fails. -/
def Stmt.failsVersion : (o : Stmt) → o.Res → Bool
  | .exec .deleteVersion, r | .exec (.insertVersion _), r => Option.isNone (α := Unit) r
  | _, _ => false

/-- What a statement does, if updates of the version do not fail. -/
def surely (o : Stmt) (r : o.Res) (d : Database) : Option Database :=
  if o.failsVersion r then none else o.run r d

theorem surely_run {o : Stmt} {r : o.Res} (h : surely o r d = some w) : o.run r d = some w := by
  unfold surely at h
  split_ifs at h
  exact h

theorem runs_surely {α : Type} {x : TxProg α} {a : α} (h : x.Runs surely d a w) :
    x.Runs Stmt.run d a w :=
  h.mono fun _ _ _ _ => surely_run

theorem Update.run_version {u : Update} (hu : u.setsVersion = false) (h : u.run d = some w) :
    w.version = d.version := by
  cases u with
  | deleteVersion | insertVersion | createVersion => cases hu
  | insertRemote row | insertACIInfo row =>
    simp only [Update.run] at h
    split_ifs at h
    cases h
    rfl
  | _ =>
    cases h
    rfl

theorem foldlM_cons_ok {u : Update} {us : List Update}
    (h : (u :: us).foldlM Update.run d = some w) :
    ∃ d₁, u.run d = some d₁ ∧ us.foldlM Update.run d₁ = some w := by
  rw [List.foldlM_cons] at h
  exact Option.bind_eq_some_iff.mp h

theorem foldlM_version {us : List Update} (hus : ∀ u ∈ us, u.setsVersion = false)
    (h : us.foldlM Update.run d = some w) : w.version = d.version := by
  induction us generalizing d with
  | nil =>
    cases h
    rfl
  | cons u us ih =>
    obtain ⟨d₁, h1, h2⟩ := foldlM_cons_ok h
    have hrest : w.version = d₁.version := ih (fun v hv => hus v (List.mem_cons_of_mem _ hv)) h2
    rw [hrest]
    exact Update.run_version (hus u List.mem_cons_self) h1

section sure

variable {τ : Type} {run : (o : Stmt) → o.Res → τ → Option τ} {t t' : τ}

theorem exec_sure {u : Update} {r : Except Err Unit}
    (hu : u = .deleteVersion ∨ ∃ v, u = .insertVersion v)
    (h : (exec u).Runs (fun (o : Stmt) r t => if o.failsVersion r then none else run o r t)
      t r t') : r = .ok () ∧ run (.exec u) (some ()) t = some t' := by
  obtain ⟨r', t1, hcall, hr⟩ := runs_bind.mp h
  rw [runs_call] at hcall
  cases r' with
  | none =>
    rcases hu with rfl | ⟨v, rfl⟩
    · cases hcall
    · cases hcall
  | some r' =>
    obtain ⟨rfl, rfl⟩ := hr
    refine ⟨rfl, ?_⟩
    rcases hu with rfl | ⟨v, rfl⟩
    · exact hcall
    · exact hcall

/-- `updateDBVersion`, whose result nobody looks at, if its two statements do not fail. -/
theorem updateDBVersion_sure {v : Nat} {r : Except Err Unit} (h : (updateDBVersion v).Runs
      (fun (o : Stmt) r t => if o.failsVersion r then none else run o r t) t r t') :
    ∃ t1, run (.exec .deleteVersion) (some ()) t = some t1 ∧
      run (.exec (.insertVersion v)) (some ()) t1 = some t' := by
  obtain ⟨r1, t1, h1, h⟩ := runs_bind.mp h
  obtain ⟨rfl, hdel⟩ := exec_sure (.inl rfl) h1
  obtain ⟨r2, t2, h2, h⟩ := runs_bind.mp h
  obtain ⟨rfl, hins⟩ := exec_sure (.inr ⟨v, rfl⟩) h2
  obtain ⟨-, rfl⟩ := h
  exact ⟨t1, hdel, hins⟩

end sure

theorem updateDBVersion_surely {v : Nat} {vs : List Nat} {r : Except Err Unit}
    (hd : d.version = some vs) (h : (updateDBVersion v).Runs surely d r w) :
    w.version = some [v] := by
  obtain ⟨d₁, hdel, hins⟩ := updateDBVersion_sure h
  simp only [Stmt.run, Update.run, hd, Option.map_some, Option.some.injEq] at hdel
  subst hdel
  simp only [Stmt.run, Update.run, Option.map_some, Option.some.injEq] at hins
  subst hins
  rfl

theorem getDBVersion_ok {v : Nat} (h : getDBVersion.Runs Stmt.run d (.ok v) w) :
    w = d ∧ ∃ vs, d.version = some (v :: vs) := by
  obtain ⟨r, d₁, hsel, hr⟩ := runs_bind.mp h
  rw [runs_call] at hsel
  match r with
  | none => cases hr.1
  | some none => cases hr.1
  | some (some v') =>
    obtain ⟨hright, rfl⟩ := answer_some hsel
    obtain ⟨hv, rfl⟩ := hr
    cases hv
    obtain ⟨vs, hvs, hhead⟩ := Option.map_eq_some_iff.mp hright
    obtain ⟨vs', rfl⟩ := List.head?_eq_some_iff.mp hhead
    exact ⟨rfl, vs', hvs⟩

theorem migrateTo_version {v : Nat} (h : (migrateTo v).Runs Stmt.run d (.ok ()) w) :
    w.version = d.version := by
  unfold migrateTo at h
  split at h
  · obtain ⟨-, rfl⟩ := h
    rfl
  · refine foldlM_version ?_ (execAll_runs_ok.mp h)
    decide
  · exact Update.run_version rfl (exec_runs_ok.mp h)

theorem migrateLoop_ok {dbVersion rounds u : Nat} (hd : d.version = some [u])
    (h : (migrateLoop dbVersion rounds (u + 1)).Runs surely d (.ok ()) w) :
    w.version = some [u + rounds] := by
  induction rounds generalizing d u with
  | zero =>
    obtain ⟨-, rfl⟩ := h
    exact hd
  | succ n ih =>
    unfold migrateLoop at h
    split at h
    · cases h.1
    · rename_i f hf
      obtain ⟨r, d₁, h1, hrest⟩ := runs_bind.mp h
      cases r with
      | error e => cases hrest.1
      | ok r =>
        have hf' : f = migrateTo (u + 1) := by
          unfold migrateTable at hf
          split_ifs at hf
          exact (Option.some.inj hf).symm
        subst hf'
        have hd1 : d₁.version = some [u] := (migrateTo_version (runs_surely h1)).trans hd
        obtain ⟨r2, d2, h2, hrest⟩ := runs_bind.mp hrest
        have hd2 : d2.version = some [u + 1] := updateDBVersion_surely hd1 h2
        rw [ih hd2 hrest]
        congr 2
        omega

/-- `migrate` to a later version. -/
theorem migrate_ok {dbVersion u : Nat} (hd : d.version = some [u]) (hu : u ≤ dbVersion)
    (h : (migrate dbVersion dbVersion).Runs surely d (.ok ()) w) :
    w.version = some [dbVersion] := by
  unfold migrate at h
  rw [if_neg (lt_irrefl _)] at h
  obtain ⟨v, d₁, hget, hloop⟩ := runs_andThen_ok.mp h
  obtain ⟨rfl, vs, hvs⟩ := getDBVersion_ok (runs_surely hget)
  rw [hd] at hvs
  cases hvs
  rw [migrateLoop_ok hd hloop]
  congr 2
  omega

theorem dbCreateStmts_version {dbVersion : Nat} (hd : d.version = none)
    (h : (dbCreateStmts dbVersion).foldlM Update.run d = some w) :
    w.version = some [dbVersion] := by
  unfold dbCreateStmts at h
  obtain ⟨d₁, h1, h⟩ := foldlM_cons_ok h
  obtain ⟨d2, h2, h⟩ := foldlM_cons_ok h
  have hd1 : d₁.version = some [] := by
    cases h1
    simp [hd]
  have hd2 : d2.version = some [dbVersion] := by
    simp only [Update.run, hd1, Option.map_some, List.nil_append] at h2
    cases h2
    rfl
  rw [foldlM_version ?_ h, hd2]
  decide

/-- The first transaction of `NewStore`: it creates the database, or finds a version that is
not too new. -/
theorem populateTx_ok {dbVersion : Nat} {needsMigrate : Bool}
    (htx : (populateTx dbVersion).Runs Stmt.run d (.ok needsMigrate) w) :
    (d.version = none ∧ needsMigrate = false ∧ w.version = some [dbVersion]) ∨
      (w = d ∧ ∃ u vs, d.version = some (u :: vs) ∧ u ≤ dbVersion ∧
        needsMigrate = decide (u < dbVersion)) := by
  obtain ⟨r, d₁, hsel, h⟩ := runs_bind.mp htx
  rw [runs_call] at hsel
  match r with
  | none => cases h.1
  | some false =>
    obtain ⟨hright, rfl⟩ := answer_some hsel
    have hnone : d₁.version = none := by simpa using hright
    obtain ⟨_, d2, h2, hret⟩ := runs_andThen_ok.mp h
    obtain ⟨hr, rfl⟩ := hret
    cases hr
    exact .inl ⟨hnone, rfl, dbCreateStmts_version hnone (execAll_runs_ok.mp h2)⟩
  | some true =>
    obtain ⟨-, rfl⟩ := answer_some hsel
    obtain ⟨u, d2, hget, hret⟩ := runs_andThen_ok.mp h
    obtain ⟨rfl, vs, hvs⟩ := getDBVersion_ok hget
    obtain ⟨hr, rfl⟩ := hret
    split_ifs at hr with hgt
    cases hr
    exact .inr ⟨rfl, u, vs, hvs, by omega, rfl⟩

theorem importTx_version {key : Key} {image : Image} {latest : Bool}
    (h : (importTx key image latest).Runs Stmt.run d (.ok ()) w) : w.version = d.version := by
  obtain ⟨row, -, rfl⟩ := importTx_ok h
  rfl

theorem removeTx_version {key : Key} (h : (removeTx key).Runs Stmt.run d (.ok ()) w) :
    w.version = d.version := by
  obtain ⟨-, rfl⟩ := removeTx_ok h
  rfl

theorem getRemoteTx_version {url : Str} {r : Remote × Bool}
    (h : (getRemoteTx url).Runs Stmt.run d (.ok r) w) : w.version = d.version := by
  rw [(getRemoteTx_ok h).1]

theorem writeRemoteTx_version {row : Remote}
    (h : (writeRemoteTx row).Runs Stmt.run d (.ok ()) w) : w.version = d.version := by
  rw [writeRemoteTx_ok h]

end Rkt.Store
