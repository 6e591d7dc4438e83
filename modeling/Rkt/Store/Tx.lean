import Rkt.Conc.Fallible
import Rkt.Store.Store

set_option autoImplicit false

namespace Rkt.Store

open Conc Prog

variable {α β : Type} {d d' w : Database}

def Database.keys (d : Database) : List Key := d.aciinfo.map (·.blobKey)

instance (key : Key) (d : Database) : Decidable (key ∈ d.keys) :=
  inferInstanceAs (Decidable (key ∈ d.aciinfo.map (·.blobKey)))

variable {D : Type} {key : Key} {image : Image} {latest : Bool} {row : Remote}

theorem exec_runs {run : (o : Stmt) → o.Res → D → Option D} {d w : D} {u : Update} :
    (exec u).Runs run d (.ok ()) w ↔ run (.exec u) (some ()) d = some w := by
  unfold exec
  rw [runs_bind]
  constructor
  · rintro ⟨r, d1, hr, h⟩
    rw [runs_call] at hr
    cases r with
    | none => cases h.1
    | some r =>
      obtain ⟨-, rfl⟩ := h
      exact hr
  · intro h
    exact ⟨some (), w, runs_call.mpr h, rfl, rfl⟩

theorem exec_runs_ok {u : Update} :
    (exec u).Runs Stmt.run d (.ok ()) w ↔ u.run d = some w := exec_runs

theorem execAll_runs {run : (o : Stmt) → o.Res → D → Option D} {d w : D}
    {us : List Update} : (execAll us).Runs run d (.ok ()) w ↔
      us.foldlM (fun d u => run (.exec u) (some ()) d) d = some w := by
  induction us generalizing d with
  | nil =>
    show (Except.ok () = Except.ok () ∧ w = d) ↔ some d = some w
    simp [eq_comm]
  | cons u us ih =>
    unfold execAll
    rw [runs_andThen_ok, List.foldlM_cons]
    show _ ↔ (run (.exec u) (some ()) d).bind _ = some w
    rw [Option.bind_eq_some_iff]
    constructor
    · rintro ⟨_, d1, h1, h2⟩
      exact ⟨d1, exec_runs.mp h1, ih.mp h2⟩
    · rintro ⟨d1, h1, h2⟩
      exact ⟨(), d1, exec_runs.mpr h1, ih.mpr h2⟩

theorem execAll_runs_ok {us : List Update} :
    (execAll us).Runs Stmt.run d (.ok ()) w ↔ us.foldlM Update.run d = some w := execAll_runs

theorem execAll_pair_ok {u v : Update} (h : (execAll [u, v]).Runs Stmt.run d (.ok ()) w) :
    ∃ d1, u.run d = some d1 ∧ v.run d1 = some w := by
  obtain ⟨_, d1, h1, h⟩ := runs_andThen_ok.mp h
  obtain ⟨_, d2, h2, h⟩ := runs_andThen_ok.mp h
  obtain ⟨-, rfl⟩ := h
  exact ⟨d1, exec_runs_ok.mp h1, exec_runs_ok.mp h2⟩

/-- A query answered without an error changes nothing, and the answer is right. -/
theorem answer_some [DecidableEq α] {d d' : D} {a : Option α} {r : α}
    (h : answer a (some r) d = some d') : a = some r ∧ d' = d := by
  unfold answer at h
  by_cases hr : some r = none ∨ some r = a
  · rw [if_pos hr] at h
    cases h
    exact ⟨by simpa [eq_comm] using hr, rfl⟩
  · rw [if_neg hr] at h
    cases h

/-- `WriteACIInfo` replaces the row of the key. -/
theorem writeACIInfo_ok {row : ACIInfo} (h : (writeACIInfo row).Runs Stmt.run d (.ok ()) w) :
    w = { d with aciinfo := d.aciinfo.filter (·.blobKey ≠ row.blobKey) ++ [row] } := by
  obtain ⟨d1, hdel, hins⟩ := execAll_pair_ok h
  cases hdel
  simp only [Update.run] at hins
  split_ifs at hins
  exact (Option.some.inj hins).symm

theorem importTx_ok
    (h : (importTx key image latest).Runs Stmt.run d (.ok ()) w) :
    ∃ row : ACIInfo, row.blobKey = key ∧
      w = { d with aciinfo := d.aciinfo.filter (·.blobKey ≠ key) ++ [row] } := by
  obtain ⟨t, d1, hnow, h⟩ := runs_bind.mp h
  rw [runs_call] at hnow
  cases hnow
  exact ⟨_, rfl, writeACIInfo_ok h⟩

theorem removeTx_ok (htx : (removeTx key).Runs Stmt.run d (.ok ()) w) :
    key ∈ d.keys ∧ w = { d with
      aciinfo := d.aciinfo.filter (·.blobKey ≠ key)
      remote := d.remote.filter (·.blobKey ≠ key) } := by
  obtain ⟨r, d1, hget, h⟩ := runs_bind.mp htx
  -- the row that was found
  obtain ⟨rows, d2, hsel, hrows⟩ := runs_bind.mp hget
  rw [runs_call] at hsel
  cases rows with
  | none =>
    obtain ⟨rfl, -⟩ := hrows
    cases h.1
  | some rows =>
    obtain ⟨hright, rfl⟩ := answer_some hsel
    obtain ⟨rfl, rfl⟩ := hrows
    cases hhead : rows.head? with
    | none =>
      rw [hhead] at h
      cases h.1
    | some row =>
      rw [hhead] at h
      obtain ⟨_, d3, h1, h2⟩ := runs_andThen_ok.mp h
      cases exec_runs_ok.mp h1
      cases exec_runs_ok.mp h2
      refine ⟨?_, rfl⟩
      have hmem : row ∈ d1.aciinfo.filter (·.blobKey = key) := by
        rw [Option.some.inj hright]
        exact List.mem_of_mem_head? hhead
      obtain ⟨hrow, hkey⟩ := List.mem_filter.mp hmem
      exact List.mem_map.mpr ⟨row, hrow, by simpa using hkey⟩

theorem mem_keys_filter {k key : Key} :
    k ∈ (d.aciinfo.filter (·.blobKey ≠ key)).map (·.blobKey) ↔ k ≠ key ∧ k ∈ d.keys := by
  simp only [Database.keys, List.mem_map, List.mem_filter, decide_eq_true_eq]
  constructor
  · rintro ⟨row, ⟨hmem, hne⟩, rfl⟩
    exact ⟨hne, row, hmem, rfl⟩
  · rintro ⟨hne, row, hmem, rfl⟩
    exact ⟨row, ⟨hmem, hne⟩, rfl⟩

theorem importTx_remote
    (h : (importTx key image latest).Runs Stmt.run d (.ok ()) w) : w.remote = d.remote := by
  obtain ⟨row, -, rfl⟩ := importTx_ok h
  rfl

theorem importTx_keys (h : (importTx key image latest).Runs Stmt.run d (.ok ()) w) (k : Key) :
    k ∈ w.keys ↔ k = key ∨ k ∈ d.keys := by
  obtain ⟨row, hrow, rfl⟩ := importTx_ok h
  rw [Database.keys, List.map_append, List.mem_append, mem_keys_filter, List.map_singleton,
    List.mem_singleton, hrow]
  tauto

theorem removeTx_keys (h : (removeTx key).Runs Stmt.run d (.ok ()) w) (k : Key) :
    k ∈ w.keys ↔ k ≠ key ∧ k ∈ d.keys := by
  obtain ⟨-, rfl⟩ := removeTx_ok h
  exact mem_keys_filter

theorem nodup_keys_filter (h : d.keys.Nodup) :
    ((d.aciinfo.filter (·.blobKey ≠ key)).map (·.blobKey)).Nodup :=
  h.sublist (List.filter_sublist.map _)

theorem importTx_nodup
    (h : (importTx key image latest).Runs Stmt.run d (.ok ()) w) (hd : d.keys.Nodup) :
    w.keys.Nodup := by
  obtain ⟨row, hrow, rfl⟩ := importTx_ok h
  rw [Database.keys, List.map_append, List.map_singleton, hrow]
  refine (nodup_keys_filter hd).append (List.nodup_singleton key) ?_
  rw [List.disjoint_singleton]
  exact fun hmem => (mem_keys_filter.mp hmem).1 rfl

theorem removeTx_nodup (h : (removeTx key).Runs Stmt.run d (.ok ()) w)
    (hd : d.keys.Nodup) : w.keys.Nodup := by
  obtain ⟨-, rfl⟩ := removeTx_ok h
  exact nodup_keys_filter hd

theorem foldl_last_mem {rows : List Remote} (h : rows ≠ []) (row : Remote) :
    rows.foldl (fun _ row => row) row ∈ rows := by
  induction rows generalizing row with
  | nil => exact absurd rfl h
  | cons row' rows ih =>
    rw [List.foldl_cons]
    by_cases hrows : rows = []
    · subst hrows
      exact List.mem_cons_self
    · exact List.mem_cons_of_mem _ (ih hrows row')

/-- `GetRemote` finds a row of the URL, or returns the empty one. -/
theorem getRemoteTx_ok {url : Str} {found : Bool}
    (h : (getRemoteTx url).Runs Stmt.run d (.ok (row, found)) w) :
    w = d ∧ if found then row ∈ d.remote ∧ row.aciURL = url
      else row = Remote.zero ∧ ∀ row' ∈ d.remote, row'.aciURL ≠ url := by
  obtain ⟨rows, d1, hsel, hrows⟩ := runs_bind.mp h
  rw [runs_call] at hsel
  cases rows with
  | none => cases hrows.1
  | some rows =>
    obtain ⟨hright, rfl⟩ := answer_some hsel
    obtain ⟨hres, rfl⟩ := hrows
    cases hres
    refine ⟨rfl, ?_⟩
    by_cases hempty : rows = []
    · subst hempty
      refine ⟨rfl, fun row' hrow' hurl => ?_⟩
      have hnone := List.filter_eq_nil_iff.mp (Option.some.inj hright) row' hrow'
      exact hnone (by simpa using hurl)
    · have hmem := foldl_last_mem hempty Remote.zero
      have hne : rows.isEmpty = false := by simpa using hempty
      rw [hne]
      generalize rows.foldl (fun _ row => row) Remote.zero = row at hmem
      rw [← Option.some.inj hright] at hmem
      obtain ⟨hrow, hurl⟩ := List.mem_filter.mp hmem
      exact ⟨hrow, by simpa using hurl⟩

/-- `WriteRemote` replaces the row of the URL. -/
theorem writeRemoteTx_ok (h : (writeRemoteTx row).Runs Stmt.run d (.ok ()) w) :
    w = { d with remote := d.remote.filter (·.aciURL ≠ row.aciURL) ++ [row] } := by
  obtain ⟨d1, hdel, hins⟩ := execAll_pair_ok h
  cases hdel
  simp only [Update.run] at hins
  split_ifs at hins
  exact (Option.some.inj hins).symm

theorem writeRemoteTx_keys (h : (writeRemoteTx row).Runs Stmt.run d (.ok ()) w) :
    w.keys = d.keys := by
  rw [writeRemoteTx_ok h]
  rfl

theorem writeRemoteTx_remote (h : (writeRemoteTx row).Runs Stmt.run d (.ok ()) w)
    {row' : Remote} (hrow : row' ∈ w.remote) : row' ∈ d.remote ∨ row' = row := by
  rw [writeRemoteTx_ok h] at hrow
  rcases List.mem_append.mp hrow with hold | hnew
  · exact .inl (List.mem_filter.mp hold).1
  · exact .inr (List.mem_singleton.mp hnew)

/-- Nobody has the database, and `p` has not opened it. -/
structure Closed (p : Pid) (s : DbState Core D) : Prop where
  owner : s.owner = none
  handle : s.core.handle p = ⟨false, false⟩

def Core.setHandle (c : Core) (p : Pid) (h : Handle) : Core :=
  { c with handle := Function.update c.handle p h }

/-- The answers with which the database is opened and closed. -/
def opensAndCloses : (o : DbOp Op Stmt) → DbOp.Res coreSig stmtSig o → Bool
  | .acquire, (r : Bool) | .base .sqlOpen, (r : Bool) | .base .sqlClose, (r : Bool) => r
  | .base .handle, _ | .base (.setHandle _), _ | .release, _ => true
  | _, _ => false

section

variable {run : (o : Stmt) → o.Res → D → Option D} {p : Pid} {s : DbState Core D}
  {step : (o : DbOp Op Stmt) → DbOp.Res coreSig stmtSig o → DbState Core D →
    Option (DbState Core D)}
  (hstep : ∀ {o r s s'}, opensAndCloses o r = true →
    dbNext (T := stmtSig) coreMachine run p o r s = some s' → step o r s = some s')
include hstep

/-- A database that is closed can be opened. -/
theorem dbOpen_runs (hs : Closed p s) : dbOpen.Runs step s (.ok ()) { s with
    owner := some p
    core := (s.core.setHandle p ⟨true, false⟩).setHandle p ⟨true, true⟩ } := by
  have hhandle : dbNext (T := stmtSig) coreMachine run p (.base .handle) ⟨false, false⟩ s =
      some s := by
    simp [dbNext, coreMachine, next, hs.handle]
  have hacquire : dbNext (T := stmtSig) coreMachine run p .acquire true s =
      some { s with owner := some p } := by
    simp [dbNext, hs.owner]
  exact ⟨⟨false, false⟩, s, hstep rfl hhandle, true, _, hstep rfl hacquire, (), _, hstep rfl rfl,
    true, _, hstep rfl rfl, (), _, hstep rfl rfl, rfl, rfl⟩

/-- A database that is open can be closed. -/
theorem dbClose_runs (hs : s.core.handle p = ⟨true, true⟩) : dbClose.Runs step s (.ok ()) { s with
    owner := if s.owner = some p then none else s.owner
    core := (s.core.setHandle p ⟨true, false⟩).setHandle p ⟨false, false⟩ } := by
  have hhandle : dbNext (T := stmtSig) coreMachine run p (.base .handle) ⟨true, true⟩ s =
      some s := by
    simp [dbNext, coreMachine, next, hs]
  have hrelease : ∀ c : Core, dbNext (T := stmtSig) coreMachine run p .release ()
      { s with core := c } =
        some { s with owner := if s.owner = some p then none else s.owner, core := c } := by
    intro c
    by_cases howner : s.owner = some p
    · simp [dbNext, howner]
    · simp [dbNext, howner]
  exact ⟨⟨true, true⟩, s, hstep rfl hhandle, true, _, hstep rfl rfl, (), _, hstep rfl rfl, (), _,
    hstep rfl (hrelease _), (), _, hstep rfl rfl, rfl, rfl⟩

end

end Rkt.Store
