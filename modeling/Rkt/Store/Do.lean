import Rkt.Conc.Sequential
import Rkt.Store.Tx

set_option autoImplicit false

namespace Rkt.Store

open Conc Prog

abbrev TxFunc := TxProg (Except Err Unit)

/-- The loop of `DB.DoTx`, and what follows it. The result of the commit is dropped. -/
def doFns : List TxFunc → StoreProg (Except Err Unit)
  | [] => do
    let _ ← commit
    return .ok ()
  | fn :: fns => do
    match ← fn.stmts with
    | .error e =>
      rollback
      return .error e
    | .ok () => doFns fns

/-- `DB.DoTx`. -/
def dbDoTxAll (fns : List TxFunc) : StoreProg (Except Err Unit) := check begin .begin (doFns fns)

/-- `DB.Do`. -/
def dbDoAll (fns : List TxFunc) : StoreProg (Except Err Unit) := do
  match ← dbOpen with
  | .error e => return .error e
  | .ok () =>
    let r ← dbDoTxAll fns
    let _ ← dbClose
    return r

/-- The functions one after the other, up to the first error. -/
def inOrder : List TxFunc → TxFunc
  | [] => return .ok ()
  | fn :: fns => andThen fn fun _ => inOrder fns

theorem dbDoAll_singleton (fn : TxFunc) : dbDoAll [fn] = dbDo fn := by
  have hdoTx : dbDoTxAll [fn] = dbDoTx fn := by
    unfold dbDoTxAll dbDoTx doFns
    congr 2
    funext r
    cases r with
    | error e => rfl
    | ok a => rfl
  show dbOpen >>= _ = dbOpen >>= _
  congr 1
  funext r
  cases r with
  | error e => rfl
  | ok a =>
    show dbDoTxAll [fn] >>= _ = dbDoTx fn >>= _
    rw [hdoTx]

variable {D : Type} {run : (o : Stmt) → o.Res → D → Option D} {ok : Bool} {p : Pid}

/-- What the operations do when `tx.Commit` answers `ok`. -/
def doStep (run : (o : Stmt) → o.Res → D → Option D) (ok : Bool) (p : Pid) :
    (o : DbOp Op Stmt) → DbOp.Res coreSig stmtSig o → DbState Core D → Option (DbState Core D)
  | .commit, (r : Bool), s => if r = ok then dbNext (T := stmtSig) coreMachine run p .commit r s
      else none
  | o, r, s => dbNext (T := stmtSig) coreMachine run p o r s

def Committed (d : D) (s : DbState Core D) : Prop := s.db = d

/-- The committed database is `d`, and a transaction has come to `w`. -/
def Open (p : Pid) (d w : D) (s : DbState Core D) : Prop := s.db = d ∧ s.work p = some w

section

variable {d w : D}

/-- The operations outside of a transaction leave the database alone. -/
theorem sys_meets (o : Op) :
    Meets (doStep run ok p) (Committed d) (sys o) fun _ => Committed d := by
  refine Meets.call fun s r s' hs hn => ?_
  have hn' : (next p o r s.core).map (fun c => { s with core := c }) = some s' := hn
  obtain ⟨c, -, rfl⟩ := Option.map_eq_some_iff.mp hn'
  exact hs

theorem acquire_meets : Meets (doStep run ok p) (Committed d) acquire fun _ => Committed d := by
  refine Meets.call fun s (r : Bool) s' hs hn => ?_
  simp only [doStep, dbNext] at hn
  split_ifs at hn
  · split at hn
    · cases hn
      exact hs
    · cases hn
  · cases hn
    exact hs

theorem release_meets : Meets (doStep run ok p) (Committed d) release fun _ => Committed d := by
  refine Meets.call fun s r s' hs hn => ?_
  simp only [doStep, dbNext, Option.some.injEq] at hn
  subst hn
  show (ite _ _ _ : DbState Core D).db = d
  split_ifs
  · exact hs
  · exact hs

theorem panic_meets {α : Type} {Q : α → DbState Core D → Prop} :
    Meets (doStep run ok p) (Committed d) (panic : StoreProg α) Q :=
  Meets.bind (sys_meets _) fun _ => Meets.bind (sys_meets .halted) fun never => nomatch never

theorem dbOpen_meets : Meets (doStep run ok p) (Committed d) dbOpen fun _ => Committed d := by
  refine Meets.bind (sys_meets .handle) fun h => ?_
  refine Meets.ite (fun _ => panic_meets) fun _ => ?_
  refine Meets.check (B := Committed d) (acquire_meets.post fun r s hs => ?_) ?_ fun s hs => hs
  · rwa [ite_self]
  refine Meets.bind (sys_meets _) fun _ => ?_
  refine Meets.bind (sys_meets .sqlOpen) fun opened => ?_
  refine Meets.ite (fun _ => ?_) fun _ => ?_
  · exact Meets.bind (sys_meets _) fun _ => Meets.ret fun s hs => hs
  · exact Meets.bind release_meets fun _ => Meets.ret fun s hs => hs

theorem dbClose_meets : Meets (doStep run ok p) (Committed d) dbClose fun _ => Committed d := by
  refine Meets.bind (sys_meets .handle) fun h => ?_
  refine Meets.ite (fun _ => panic_meets) fun _ => ?_
  refine Meets.ite (fun _ => panic_meets) fun _ => ?_
  refine Meets.check (B := Committed d) ((sys_meets .sqlClose).post fun r s hs => ?_) ?_
    fun s hs => hs
  · rwa [ite_self]
  refine Meets.bind (sys_meets _) fun _ => ?_
  refine Meets.bind release_meets fun _ => ?_
  exact Meets.bind (sys_meets _) fun _ => Meets.ret fun s hs => hs

theorem begin_meets : Meets (doStep run ok p) (Committed d) begin
    fun r s => if r then Open p d d s else Committed d s := by
  refine Meets.call fun s (r : Bool) s' hs hn => ?_
  simp only [doStep, dbNext, Option.some.injEq] at hn
  subst hn hs
  cases r with
  | false => exact rfl
  | true => exact ⟨rfl, Function.update_self _ _ _⟩

theorem stmts_meets {α : Type} (x : TxProg α) (w : D) :
    Meets (doStep run ok p) (Open p d w) (x.stmts (S := coreSig))
      fun a s => ∃ w', x.Runs run w a w' ∧ Open p d w' s := by
  induction x generalizing w with
  | ret a => exact Meets.ret fun s hs => ⟨w, ⟨rfl, rfl⟩, hs⟩
  | op o k ih =>
    rintro s a s' ⟨hd, hw⟩ ⟨r, s1, hn, hrest⟩
    have hn' : (run o r w).map (fun w' => s.setWork p (some w')) = some s1 := by
      simpa only [doStep, dbNext, hw] using hn
    obtain ⟨w1, hrun, rfl⟩ := Option.map_eq_some_iff.mp hn'
    have hopen1 : Open p d w1 (s.setWork p (some w1)) := ⟨hd, Function.update_self _ _ _⟩
    obtain ⟨w', hruns, hopen⟩ := ih r w1 _ a s' hopen1 hrest
    exact ⟨w', ⟨r, w1, hrun, hruns⟩, hopen⟩

theorem rollback_meets : Meets (doStep run ok p) (Open p d w) rollback fun _ => Committed d := by
  refine Meets.call fun s r s' hs hn => ?_
  simp only [doStep, dbNext, Option.some.injEq] at hn
  subst hn
  exact hs.1

theorem commit_meets : Meets (doStep run ok p) (Open p d w) commit
    fun _ => Committed (if ok then w else d) := by
  rintro s r s' ⟨hd, hw⟩ hr
  have hn : doStep run ok p .commit r s = some s' := runs_call.mp hr
  simp only [doStep, dbNext, hw] at hn
  by_cases hok : r = ok
  · rw [if_pos hok, Option.some.injEq] at hn
    subst hn hok hd
    rfl
  · rw [if_neg hok] at hn
    cases hn

/-- The functions have all run, with the given effect, or one of them has failed. -/
def Outcome (run : (o : Stmt) → o.Res → D → Option D) (fns : List TxFunc) (d w : D) (ok : Bool)
    (r : Except Err Unit) (d' : D) : Prop :=
  match r with
  | .ok () => ∃ w', (inOrder fns).Runs run w (.ok ()) w' ∧ d' = if ok then w' else d
  | .error _ => d' = d

/-- The loop over the functions, from a transaction that has come to `w`. -/
theorem doFns_meets (fns : List TxFunc) (w : D) :
    Meets (doStep run ok p) (Open p d w) (doFns fns) fun r s => Outcome run fns d w ok r s.db := by
  induction fns generalizing w with
  | nil =>
    refine Meets.bind commit_meets fun _ => Meets.ret fun s hs => ?_
    exact ⟨w, ⟨rfl, rfl⟩, hs⟩
  | cons fn fns ih =>
    refine Meets.bind (stmts_meets fn w) fun r => ?_
    cases r with
    | error e =>
      have hundo : ∀ w', Meets (doStep run ok p) (Open p d w')
          (do rollback; return .error e : StoreProg (Except Err Unit))
          fun r s => Outcome run (fn :: fns) d w ok r s.db :=
        fun w' => Meets.bind rollback_meets fun _ => Meets.ret fun s hs => hs
      rintro s r s' ⟨w', -, hopen⟩ hruns
      exact hundo w' s r s' hopen hruns
    | ok a =>
      rintro s r s' ⟨w', hfn, hopen⟩ hruns
      have hrest := ih w' s r s' hopen hruns
      cases r with
      | error e => exact hrest
      | ok _ =>
        obtain ⟨w'', hfns, hd⟩ := hrest
        exact ⟨w'', runs_andThen_ok.mpr ⟨a, w', hfn, hfns⟩, hd⟩

theorem dbDoAll_meets (fns : List TxFunc) : Meets (doStep run ok p) (Committed d) (dbDoAll fns)
    fun r s => Outcome run fns d d ok r s.db := by
  have hdoTx : Meets (doStep run ok p) (Committed d) (dbDoTxAll fns)
      fun r s => Outcome run fns d d ok r s.db :=
    Meets.check begin_meets (doFns_meets fns d) fun s hs => hs
  refine Meets.bind dbOpen_meets fun r => ?_
  cases r with
  | error e => exact Meets.ret fun s hs => hs
  | ok _ =>
    refine Meets.bind hdoTx fun r => ?_
    -- closing the database does not change what has come out
    rintro s r' s' hs hruns
    obtain ⟨_, s1, hclose, rfl, rfl⟩ := runs_bind.mp hruns
    have hdb : s'.db = s.db := dbClose_meets s _ s' rfl hclose
    rw [hdb]
    exact hs

end

variable {s s' : DbState Core D}

theorem doStep_eq (run : (o : Stmt) → o.Res → D → Option D) (ok : Bool) {o : DbOp Op Stmt}
    {r : DbOp.Res coreSig stmtSig o} (ho : opensAndCloses o r = true)
    (h : dbNext (T := stmtSig) coreMachine run p o r s = some s') :
    doStep run ok p o r s = some s' := by
  cases o with
  | commit => cases ho
  | _ => exact h

theorem stmts_runs (ok : Bool) {α : Type} {x : TxProg α} {a : α} {w w' : D}
    (hx : x.Runs run w a w') (hw : s.work p = some w) :
    ∃ s', (x.stmts (S := coreSig)).Runs (doStep run ok p) s a s' ∧ s'.work p = some w' ∧
      s'.db = s.db ∧ s'.core = s.core := by
  induction x generalizing w s with
  | ret b =>
    obtain ⟨rfl, rfl⟩ := hx
    exact ⟨s, ⟨rfl, rfl⟩, hw, rfl, rfl⟩
  | op o k ih =>
    obtain ⟨r, w1, hrun, hx⟩ := hx
    obtain ⟨s', hruns, hw', hdb, hcore⟩ := ih r hx
      (s := s.setWork p (some w1)) (Function.update_self _ _ _)
    refine ⟨s', ⟨r, _, ?_, hruns⟩, hw', hdb, hcore⟩
    simp [doStep, dbNext, hw, hrun]

theorem doFns_runs (ok : Bool) {fns : List TxFunc} {w w' : D}
    (hx : (inOrder fns).Runs run w (.ok ()) w') (hw : s.work p = some w) :
    ∃ s', (doFns fns).Runs (doStep run ok p) s (.ok ()) s' ∧
      s'.db = (if ok then w' else s.db) ∧ s'.core = s.core := by
  induction fns generalizing w s with
  | nil =>
    obtain ⟨-, rfl⟩ := hx
    refine ⟨{ s.setWork p none with db := if ok then w' else s.db }, ⟨ok, _, ?_, rfl, rfl⟩,
      rfl, rfl⟩
    simp [doStep, dbNext, hw]
  | cons fn fns ih =>
    obtain ⟨_, w1, hfn, hrest⟩ := runs_andThen_ok.mp hx
    obtain ⟨s1, hruns1, hw1, hdb1, hcore1⟩ := stmts_runs ok hfn hw
    obtain ⟨s', hruns, hdb, hcore⟩ := ih hrest hw1
    refine ⟨s', runs_bind.mpr ⟨.ok (), s1, hruns1, hruns⟩, ?_, hcore.trans hcore1⟩
    rw [hdb, hdb1]

/-- If the functions can all run, then `DB.Do` can return nil, and whether their effect is there
depends on the commit. -/
theorem dbDoAll_runs (ok : Bool) {fns : List TxFunc} {w : D}
    (hs : Closed p s) (hfns : (inOrder fns).Runs run s.db (.ok ()) w) :
    ∃ s', (dbDoAll fns).Runs (doStep run ok p) s (.ok ()) s' ∧ s'.db = if ok then w else s.db := by
  have hopen := dbOpen_runs (doStep_eq run ok) hs
  generalize hs1 : ({ s with owner := some p, core := _ } : DbState Core D) = s1 at hopen
  obtain ⟨s3, hdo, hdb3, hcore3⟩ := doFns_runs ok (s := s1.setWork p (some s1.db))
    (w := s1.db) (by rw [← hs1]; exact hfns) (Function.update_self _ _ _)
  have hdoTx : (dbDoTxAll fns).Runs (doStep run ok p) s1 (.ok ()) s3 :=
    runs_bind.mpr ⟨true, _, runs_call.mpr rfl, hdo⟩
  have hclose := dbClose_runs (doStep_eq run ok) (s := s3)
    (by rw [hcore3, ← hs1]; exact Function.update_self _ _ _)
  refine ⟨_, runs_bind.mpr ⟨.ok (), s1, hopen, runs_bind.mpr ⟨.ok (), s3, hdoTx,
    runs_bind.mpr ⟨.ok (), _, hclose, rfl, rfl⟩⟩⟩, hdb3.trans ?_⟩
  rw [← hs1]
  rfl

theorem dbDo_runs (ok : Bool) {fn : TxFunc} {w : D} (hs : Closed p s)
    (hfn : fn.Runs run s.db (.ok ()) w) :
    ∃ s', (dbDo fn).Runs (doStep run ok p) s (.ok ()) s' ∧ s'.db = if ok then w else s.db := by
  have hfns : (inOrder [fn]).Runs run s.db (.ok ()) w :=
    runs_andThen_ok.mpr ⟨(), w, hfn, rfl, rfl⟩
  rw [← dbDoAll_singleton]
  exact dbDoAll_runs ok hs hfns

/-- A store that nobody has opened, with an empty version table. -/
def versionless : DbState Core Database := initial Core.empty ⟨some [], [], []⟩

def insertTwo : List TxFunc := [exec (.insertVersion 1), exec (.insertVersion 2)]

end Rkt.Store
