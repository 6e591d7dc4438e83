import Rkt.Store.Do
import Rkt.Store.Version

set_option autoImplicit false

namespace Rkt.Store

open Conc Prog Sql

abbrev Tables := Sql.Db Str

def versionName : Str := "version".toList
def remoteName : Str := "remote".toList
def aciinfoName : Str := "aciinfo".toList

/-- `(version int)`. -/
def versionColumns : List (Column Str) := [⟨versionName, .int⟩]

/-- The text of a statement. The statements of a migration that is still to come are not known. -/
def Update.statement : Update → Option (Statement Str)
  | .deleteVersion => some (.deleteAll versionName)
  | .insertVersion v => some (.insert versionName [.int v])
  | .createVersion => some (.create versionName versionColumns)
  | .createTable name columns => some (.create name columns)
  | .createIndex name => some (.createIndex name)
  | .addRemoteColumn c => some (.addColumn remoteName c)
  | .resetCacheMaxAge => some (.update remoteName "cachemaxage".toList (.int 0))
  | .setDownloadTime t => some (.update remoteName "downloadedtime".toList (.time t))
  | .future _ => none
  | .deleteRemoteURL url => some (.delete remoteName "aciurl".toList (.string url))
  | .deleteRemoteKey key => some (.delete remoteName "blobkey".toList (.string key))
  | .insertRemote row => some (.insert remoteName [.string row.aciURL, .string row.sigURL,
      .string row.etag, .string row.blobKey, .int row.cacheMaxAge, .time row.downloadTime])
  | .deleteACIInfo key => some (.delete aciinfoName "blobkey".toList (.string key))
  | .insertACIInfo row => some (.insert aciinfoName
      [.string row.blobKey, .string row.appName, .time row.importTime, .bool row.latest])

def Update.runTables (d : Tables) (u : Update) : Option Tables :=
  match u.statement with
  | some st => st.run d
  | none => some d

/-- `rows.Scan(&version)`. -/
def scanVersion : List Value → Option Nat
  | [.int v] => if 0 ≤ v then some v.toNat else none
  | _ => none

/-- The answer to `SELECT version FROM version`: the first row; `none` is an error. -/
def firstVersion (d : Tables) : Option (Option Nat) :=
  match d versionName with
  | none => none
  | some t =>
    match t.rows with
    | [] => some none
    | row :: _ => (scanVersion row).map some

/-- What a statement does to the tables. Every statement may fail. The answers to the queries that
no migration makes are left open. -/
def Stmt.runTables : (o : Stmt) → o.Res → Tables → Option Tables
  | .selectVersionTable, r, d => answer (some (d versionName).isSome) r d
  | .selectVersion, r, d => answer (firstVersion d) r d
  | .selectRemote _, _, d | .selectACIInfo _, _, d | .selectKeyPrefix _, _, d
  | .selectAppName _, _, d | .now, _, d => some d
  | .exec u, r, d =>
    match r with
    | none => some d
    | some () => u.runTables d

def versionTable (vs : List Nat) : Table Str where
  columns := versionColumns
  rows := vs.map fun v => [.int v]
  fits := by
    intro row hrow
    obtain ⟨v, -, rfl⟩ := List.mem_map.mp hrow
    rfl

structure Holds (d : Tables) (vs : List Nat) (remote aciinfo : Table Str) : Prop where
  version : d versionName = some (versionTable vs)
  remote : d remoteName = some remote
  aciinfo : d aciinfoName = some aciinfo

theorem versionTable_insert (vs : List Nat) (v : Nat) :
    (versionTable vs).insert [.int v] = some (versionTable (vs ++ [v])) := by
  obtain ⟨t, ht, hcolumns, hrows⟩ := Table.insert_eq (versionTable vs) [.int v] rfl
  rw [ht]
  congr 1
  apply Table.ext
  · exact hcolumns
  · rw [hrows]
    simp [versionTable]

section

variable {d : Tables} {vs : List Nat} {remote remote' aciinfo : Table Str}

theorem Holds.setVersion (h : Holds d vs remote aciinfo) (vs' : List Nat) :
    Holds (Function.update d versionName (some (versionTable vs'))) vs' remote aciinfo where
  version := Function.update_self _ _ _
  remote := by rw [Function.update_of_ne (by decide)]; exact h.remote
  aciinfo := by rw [Function.update_of_ne (by decide)]; exact h.aciinfo

theorem Holds.setRemote (h : Holds d vs remote aciinfo) (remote' : Table Str) :
    Holds (Function.update d remoteName (some remote')) vs remote' aciinfo where
  version := by rw [Function.update_of_ne (by decide)]; exact h.version
  remote := Function.update_self _ _ _
  aciinfo := by rw [Function.update_of_ne (by decide)]; exact h.aciinfo

theorem Holds.deleteVersion (h : Holds d vs remote aciinfo) :
    ∃ w, Update.runTables d .deleteVersion = some w ∧ Holds w [] remote aciinfo := by
  refine ⟨_, ?_, h.setVersion []⟩
  show Option.map _ ((d versionName).bind _) = _
  rw [h.version]
  rfl

theorem Holds.insertVersion (h : Holds d vs remote aciinfo) (v : Nat) :
    ∃ w, Update.runTables d (.insertVersion v) = some w ∧ Holds w (vs ++ [v]) remote aciinfo := by
  refine ⟨_, ?_, h.setVersion (vs ++ [v])⟩
  show Option.map _ ((d versionName).bind _) = _
  rw [h.version, Option.bind_some, versionTable_insert]
  rfl

theorem Holds.onRemote (h : Holds d vs remote aciinfo) {f : Table Str → Option (Table Str)}
    (hf : f remote = some remote') :
    ∃ w, Db.on d remoteName f = some w ∧ Holds w vs remote' aciinfo := by
  refine ⟨_, ?_, h.setRemote remote'⟩
  rw [Db.on, h.remote, Option.bind_some, hf]
  rfl

theorem Holds.firstVersion {v : Nat} (h : Holds d (v :: vs) remote aciinfo) :
    firstVersion d = some (some v) := by
  rw [Store.firstVersion, h.version]
  show (scanVersion [.int v]).map some = _
  simp [scanVersion]

end

def oldRemoteColumns : List (Column Str) := remoteColumns.take 4

def addedColumns : List (Column Str) :=
  [⟨"cachemaxage".toList, .int⟩, ⟨"downloadedtime".toList, .time⟩]

def addedValues : List Value := [.int 0, .time zeroTime]

theorem fit_added {row : List Value} (h : fit oldRemoteColumns row = true) :
    fit (oldRemoteColumns ++ addedColumns) (row ++ addedValues) = true :=
  fit_append h rfl

def migratedRemote (t : Table Str) (ht : t.columns = oldRemoteColumns) : Table Str where
  columns := oldRemoteColumns ++ addedColumns
  rows := t.rows.map (· ++ addedValues)
  fits := by
    intro row hrow
    obtain ⟨row', hrow', rfl⟩ := List.mem_map.mp hrow
    exact fit_added (ht ▸ t.fits row' hrow')

theorem setIn_added {row added : List Value} {name : Str} {v : Value}
    (hname : oldRemoteColumns.all (fun c => !decide (c.name = name)) = true)
    (h : fit oldRemoteColumns row = true) :
    setIn name v (oldRemoteColumns ++ addedColumns) (row ++ added) =
      row ++ setIn name v addedColumns added := by
  rw [setIn_append h, setIn_of_ne ?_ h]
  intro c hc
  simpa using List.all_eq_true.mp hname c hc

theorem migrateToV2_remote {t : Table Str} (ht : t.columns = oldRemoteColumns) :
    ∃ t1 t2 t3, t.addColumn ⟨"cachemaxage".toList, .int⟩ = some t1 ∧
      t1.addColumn ⟨"downloadedtime".toList, .time⟩ = some t2 ∧
      t2.update "cachemaxage".toList (.int 0) = some t3 ∧
      t3.update "downloadedtime".toList (.time zeroTime) = some (migratedRemote t ht) := by
  obtain ⟨t1, h1, hc1, hr1⟩ :=
    Table.addColumn_eq t ⟨"cachemaxage".toList, .int⟩ (by rw [ht]; decide)
  have hcols1 : t1.columns = oldRemoteColumns ++ [⟨"cachemaxage".toList, .int⟩] := by rw [hc1, ht]
  obtain ⟨t2, h2, hc2, hr2⟩ := Table.addColumn_eq t1 ⟨"downloadedtime".toList, .time⟩
    (by rw [hcols1]; decide)
  have hcols2 : t2.columns = oldRemoteColumns ++ addedColumns := by
    rw [hc2, hcols1, List.append_assoc]
    rfl
  obtain ⟨t3, h3, hc3, hr3⟩ := Table.update_eq t2 "cachemaxage".toList (.int 0)
    (by rw [hcols2]; decide) (by rw [hcols2]; decide)
  have hcols3 : t3.columns = oldRemoteColumns ++ addedColumns := hc3.trans hcols2
  obtain ⟨t4, h4, hc4, hr4⟩ := Table.update_eq t3 "downloadedtime".toList
    (.time zeroTime) (by rw [hcols3]; decide) (by rw [hcols3]; rfl)
  refine ⟨t1, t2, t3, h1, h2, h3, ?_⟩
  rw [h4]
  congr 1
  apply Table.ext
  · exact hc4.trans hcols3
  · rw [hr4, hr3, hr2, hr1, hcols3, hcols2, List.map_map, List.map_map, List.map_map]
    apply List.map_congr_left
    intro row hrow
    have hfit : fit oldRemoteColumns row = true := ht ▸ t.fits row hrow
    show setIn _ _ _ (setIn _ _ _ (row ++ [.null] ++ [.null])) = row ++ addedValues
    rw [List.append_assoc, setIn_added (by decide) hfit, setIn_added (by decide) hfit]
    rfl

section

variable {d : Tables} {vs : List Nat} {remote aciinfo : Table Str}

theorem Holds.migrateToV2 (h : Holds d vs remote aciinfo) (ht : remote.columns = oldRemoteColumns) :
    ∃ w, Store.migrateToV2.foldlM Update.runTables d = some w ∧
      Holds w vs (migratedRemote remote ht) aciinfo := by
  obtain ⟨t1, t2, t3, h1, h2, h3, h4⟩ := migrateToV2_remote ht
  obtain ⟨w1, hw1, hd1⟩ := h.onRemote (f := (·.addColumn _)) h1
  obtain ⟨w2, hw2, hd2⟩ := hd1.onRemote (f := (·.addColumn _)) h2
  obtain ⟨w3, hw3, hd3⟩ := hd2.onRemote (f := (·.update _ _)) h3
  obtain ⟨w4, hw4, hd4⟩ := hd3.onRemote (f := (·.update _ _)) h4
  refine ⟨w4, ?_, hd4⟩
  show (Db.on d _ _).bind _ = _
  rw [hw1]
  show (Db.on w1 _ _).bind _ = _
  rw [hw2]
  show (Db.on w2 _ _).bind _ = _
  rw [hw3]
  show (Db.on w3 _ _).bind _ = _
  rw [hw4]
  rfl

theorem Holds.updateVersion (h : Holds d vs remote aciinfo) (v : Nat) :
    ∃ w, [.deleteVersion, .insertVersion v].foldlM Update.runTables d = some w ∧
      Holds w [v] remote aciinfo := by
  obtain ⟨w1, hw1, hd1⟩ := h.deleteVersion
  obtain ⟨w2, hw2, hd2⟩ := hd1.insertVersion v
  refine ⟨w2, ?_, hd2⟩
  rw [List.foldlM_cons, hw1]
  show (Update.runTables w1 (.insertVersion v)).bind _ = _
  rw [hw2]
  rfl

end

/-- The answers of a database in which no statement fails. -/
def succeed : (o : Stmt) → Tables → o.Res
  | .selectVersionTable, d => some (d versionName).isSome
  | .selectVersion, d => firstVersion d
  | .selectRemote _, _ => some []
  | .selectACIInfo _, _ | .selectKeyPrefix _, _ | .selectAppName _, _ => some []
  | .exec _, _ => some ()
  | .now, _ => zeroTime

theorem eval_exec (u : Update) (d : Tables) :
    (exec u).eval Stmt.runTables succeed d = (u.runTables d).map fun w => (.ok (), w) := by
  unfold exec
  rw [eval_bind]
  show ((Prog.call (S := stmtSig) (.exec u)).eval Stmt.runTables succeed d).bind _ = _
  rw [eval_call]
  show ((u.runTables d).map _).bind _ = _
  cases u.runTables d with
  | none => rfl
  | some w => rfl

theorem eval_execAll (us : List Update) (d : Tables) : (execAll us).eval Stmt.runTables succeed d =
      (us.foldlM Update.runTables d).map fun w => (.ok (), w) := by
  induction us generalizing d with
  | nil => rfl
  | cons u us ih =>
    unfold execAll andThen
    rw [eval_bind, eval_exec, List.foldlM_cons]
    cases u.runTables d with
    | none => rfl
    | some w => exact ih w

section

variable {d : Tables} {remote aciinfo : Table Str}

theorem getDBVersion_eval {v : Nat} (h : firstVersion d = some (some v)) :
    getDBVersion.eval Stmt.runTables succeed d = some (.ok v, d) := by
  have hselect : (stmt .selectVersion).eval Stmt.runTables succeed d =
      some ((some (some v) : Option (Option Nat)), d) := by
    rw [eval_call]
    show (answer (firstVersion d) (firstVersion d) d).map (fun d' => (firstVersion d, d')) = _
    rw [answer, if_pos (.inr rfl), h]
    rfl
  unfold getDBVersion
  rw [eval_bind, hselect]
  rfl

theorem migrateLoop_eval {u n : Nat} {d1 d2 : Tables} (hu : u < 2)
    (hf : (migrateTo (u + 1)).eval Stmt.runTables succeed d = some (.ok (), d1))
    (hv : (updateDBVersion (u + 1)).eval Stmt.runTables succeed d1 = some (.ok (), d2)) :
    (migrateLoop 2 (n + 1) (u + 1)).eval Stmt.runTables succeed d =
      (migrateLoop 2 n (u + 1 + 1)).eval Stmt.runTables succeed d2 := by
  have htable : migrateTable 2 (u + 1) = some (migrateTo (u + 1)) :=
    if_pos ⟨by omega, by omega⟩
  rw [migrateLoop, htable]
  show ((migrateTo (u + 1)) >>= _).eval Stmt.runTables succeed d = _
  rw [eval_bind, hf]
  show (updateDBVersion (u + 1) >>= _).eval Stmt.runTables succeed d1 = _
  rw [eval_bind, hv]
  rfl

theorem updateDBVersion_eval {vs : List Nat} (h : Holds d vs remote aciinfo) (v : Nat) :
    ∃ w, (updateDBVersion v).eval Stmt.runTables succeed d = some (.ok (), w) ∧
      Holds w [v] remote aciinfo := by
  obtain ⟨w, hw, hd⟩ := h.updateVersion v
  refine ⟨w, ?_, hd⟩
  rw [updateDBVersion, eval_execAll, hw]
  rfl

theorem migrate_from_one (h : Holds d [1] remote aciinfo) (ht : remote.columns = oldRemoteColumns) :
    ∃ w, (migrateLoop 2 1 2).eval Stmt.runTables succeed d = some (.ok (), w) ∧
      Holds w [2] (migratedRemote remote ht) aciinfo := by
  obtain ⟨w1, hw1, hd1⟩ := h.migrateToV2 ht
  obtain ⟨w2, hw2, hd2⟩ := updateDBVersion_eval hd1 2
  have hf : (migrateTo 2).eval Stmt.runTables succeed d = some (.ok (), w1) := by
    show (execAll Store.migrateToV2).eval Stmt.runTables succeed d = _
    rw [eval_execAll, hw1]
    rfl
  refine ⟨w2, ?_, hd2⟩
  rw [migrateLoop_eval (by decide) hf hw2]
  rfl

/-- The round before: from version 0 to version 1, which has the same columns. -/
theorem migrate_from_zero (h : Holds d [0] remote aciinfo)
    (ht : remote.columns = oldRemoteColumns) :
    ∃ w, (migrateLoop 2 2 1).eval Stmt.runTables succeed d = some (.ok (), w) ∧
      Holds w [2] (migratedRemote remote ht) aciinfo := by
  obtain ⟨w1, hw1, hd1⟩ := updateDBVersion_eval h 1
  obtain ⟨w2, hw2, hd2⟩ := migrate_from_one hd1 ht
  refine ⟨w2, ?_, hd2⟩
  rw [migrateLoop_eval (by decide) rfl hw1]
  exact hw2

theorem migrate_eval {v : Nat} (hv : v < 2) (h : Holds d [v] remote aciinfo)
    (ht : remote.columns = oldRemoteColumns) :
    ∃ w, (migrate 2 2).eval Stmt.runTables succeed d = some (.ok (), w) ∧
      Holds w [2] (migratedRemote remote ht) aciinfo := by
  have hmigrate : (migrate 2 2).eval Stmt.runTables succeed d =
      (migrateLoop 2 (2 - v) (v + 1)).eval Stmt.runTables succeed d := by
    rw [migrate, if_neg (lt_irrefl 2), andThen, eval_bind, getDBVersion_eval h.firstVersion]
    rfl
  rw [hmigrate]
  obtain rfl | rfl : v = 0 ∨ v = 1 := by omega
  · exact migrate_from_zero h ht
  · exact migrate_from_one h ht

end

/-- A new database, filled with rows of `remote` before version 2, to which the default values are
added, and rows of `aciinfo`. -/
def created (remote aciinfo : List (List Value)) : Option Tables := do
  let d ← (dbCreateStmts 2).foldlM Update.runTables fun _ => none
  let d ← (remote.map fun row => Statement.insert remoteName (row ++ addedValues)).foldlM
    Statement.run d
  (aciinfo.map (Statement.insert aciinfoName)).foldlM Statement.run d

theorem foldlM_insert {name : Str} {rows : List (List Value)} {d : Tables} {t : Table Str}
    (hd : d name = some t) (hfit : ∀ row ∈ rows, fit t.columns row = true) :
    ∃ w t', (rows.map (Statement.insert name)).foldlM Statement.run d = some w ∧
      w name = some t' ∧ t'.columns = t.columns ∧ t'.rows = t.rows ++ rows ∧
      ∀ name', name' ≠ name → w name' = d name' := by
  induction rows generalizing d t with
  | nil => exact ⟨d, t, rfl, hd, rfl, by simp, fun _ _ => rfl⟩
  | cons row rows ih =>
    obtain ⟨hrow, hrows⟩ := List.forall_mem_cons.mp hfit
    obtain ⟨t1, ht1, hcols1, hrows1⟩ := Table.insert_eq t row hrow
    obtain ⟨w, t', hw, ht', hcols, hrows', hother⟩ :=
      ih (d := Function.update d name (some t1)) (Function.update_self _ _ _) (hcols1 ▸ hrows)
    refine ⟨w, t', ?_, ht', hcols.trans hcols1, ?_, fun name' hne => ?_⟩
    · rw [List.map_cons, List.foldlM_cons]
      show (Db.on d name _).bind _ = _
      rw [Db.on, hd, Option.bind_some, ht1]
      exact hw
    · rw [hrows', hrows1, List.append_assoc]
      rfl
    · rw [hother name' hne, Function.update_of_ne hne]

theorem dbCreateStmts_tables :
    ∃ d, (dbCreateStmts 2).foldlM Update.runTables (fun _ => none) = some d ∧
      Holds d [2] (.empty remoteColumns) (.empty aciinfoColumns) :=
  ⟨_, rfl, rfl, rfl, rfl⟩

theorem created_eq (remote aciinfo : Table Str) (hr : remote.columns = oldRemoteColumns)
    (ha : aciinfo.columns = aciinfoColumns) :
    ∃ f t, created remote.rows aciinfo.rows = some f ∧ Holds f [2] t aciinfo ∧
      t.columns = remoteColumns ∧ t.rows = remote.rows.map (· ++ addedValues) := by
  obtain ⟨d, hd, hversion, hremote, haciinfo⟩ := dbCreateStmts_tables
  have hfitr : ∀ row ∈ remote.rows.map (· ++ addedValues), fit remoteColumns row = true := by
    intro row hrow
    obtain ⟨row', hrow', rfl⟩ := List.mem_map.mp hrow
    have hold : fit oldRemoteColumns row' = true := hr ▸ remote.fits row' hrow'
    have hadded : fit (remoteColumns.drop 4) addedValues = true := rfl
    exact fit_append hold hadded
  have hfita : ∀ row ∈ aciinfo.rows, fit aciinfoColumns row = true := ha ▸ aciinfo.fits
  obtain ⟨w, t, hw, ht, hcols, hrows, hother⟩ := foldlM_insert hremote hfitr
  have haciinfo' : w aciinfoName = some (.empty aciinfoColumns) :=
    (hother _ (by decide)).trans haciinfo
  obtain ⟨f, t', hf, ht', hcols', hrows', hother'⟩ := foldlM_insert haciinfo' hfita
  have haci : t' = aciinfo := Table.ext (hcols'.trans ha.symm) hrows'
  refine ⟨f, t, ?_, ⟨?_, ?_, haci ▸ ht'⟩, hcols, hrows⟩
  · have hmap : (remote.rows.map fun row => Statement.insert remoteName (row ++ addedValues)) =
        (remote.rows.map (· ++ addedValues)).map (Statement.insert remoteName) := by
      rw [List.map_map]
      rfl
    rw [created, hd, hmap, Option.bind_eq_bind, Option.bind_some, hw, Option.bind_some]
    exact hf
  · rw [hother' _ (by decide), hother _ (by decide)]
    exact hversion
  · rw [hother' _ (by decide)]
    exact ht

/-- **A migrated database is a new one, but for the name of a column.** Take any database of
version 0 or 1, with any rows. `migrate(tx, 2)` gives one version, the old rows of `aciinfo`, and
the old rows of `remote` with the default values in the two columns that were added; all of this as
in a new database that is filled with the same data. The columns of `remote` have the same types,
and the same names but for the last one, which never has the same name. -/
theorem migrated_as_created {v : Nat} {d : Tables} {remote aciinfo : Table Str} (hv : v < 2)
    (hd : Holds d [v] remote aciinfo) (hr : remote.columns = oldRemoteColumns)
    (ha : aciinfo.columns = aciinfoColumns) :
    ∃ w f t t', (migrate 2 2).eval Stmt.runTables succeed d = some (.ok (), w) ∧
      created remote.rows aciinfo.rows = some f ∧
      Holds w [2] t aciinfo ∧ Holds f [2] t' aciinfo ∧
      t.rows = remote.rows.map (· ++ addedValues) ∧ t'.rows = t.rows ∧
      t'.columns = remoteColumns ∧
      t.columns = t'.columns.set 5 ⟨"downloadedtime".toList, .time⟩ ∧ t.columns ≠ t'.columns := by
  obtain ⟨w, hw, hdw⟩ := migrate_eval hv hd hr
  obtain ⟨f, t', hf, hdf, hcols, hrows⟩ := created_eq remote aciinfo hr ha
  refine ⟨w, f, migratedRemote remote hr, t', hw, hf, hdw, hdf, rfl, hrows, hcols, ?_, ?_⟩
  · rw [hcols]
    rfl
  · have hne : oldRemoteColumns ++ addedColumns ≠ remoteColumns := by decide
    exact hcols ▸ hne

def oneRemote : Table Str where
  columns := oldRemoteColumns
  rows := [[.string "u".toList, .string "s".toList, .string [], .string "k".toList]]
  fits := by decide

def oneACIInfo : Table Str where
  columns := aciinfoColumns
  rows := [[.string "k".toList, .string "a".toList, .time 0, .bool true]]
  fits := by decide

def oldTables : Tables := fun name =>
  if name = versionName then some (versionTable [1])
  else if name = remoteName then some oneRemote
  else if name = aciinfoName then some oneACIInfo
  else none

theorem oldTables_holds : Holds oldTables [1] oneRemote oneACIInfo := ⟨rfl, rfl, rfl⟩

theorem migrated_as_created_one :
    ∃ w f t t', (migrate 2 2).eval Stmt.runTables succeed oldTables = some (.ok (), w) ∧
      created oneRemote.rows oneACIInfo.rows = some f ∧
      Holds w [2] t oneACIInfo ∧ Holds f [2] t' oneACIInfo ∧
      t.rows = oneRemote.rows.map (· ++ addedValues) ∧ t'.rows = t.rows ∧
      t'.columns = remoteColumns ∧
      t.columns = t'.columns.set 5 ⟨"downloadedtime".toList, .time⟩ ∧ t.columns ≠ t'.columns :=
  migrated_as_created (by decide) oldTables_holds rfl rfl

/-- The migrated database has no column `downloadtime`. -/
theorem migrated_column_name :
    ∃ w f t t', (migrate 2 2).eval Stmt.runTables succeed oldTables = some (.ok (), w) ∧
      created oneRemote.rows oneACIInfo.rows = some f ∧
      w remoteName = some t ∧ f remoteName = some t' ∧
      t.columns.any (fun c => c.name = "downloadtime".toList) = false ∧
      t'.columns.any (fun c => c.name = "downloadtime".toList) = true := by
  obtain ⟨w, hw, hdw⟩ := migrate_eval (v := 1) (by decide) oldTables_holds rfl
  obtain ⟨f, t', hf, hdf, hcols, -⟩ := created_eq oneRemote oneACIInfo rfl rfl
  refine ⟨w, f, _, t', hw, hf, hdw.remote, hdf.remote, ?_, ?_⟩
  · decide
  · rw [hcols]
    decide

/-- The columns of `remote` in a database of version `v`. -/
def columnsAt (v : Nat) : List (Column Str) :=
  if v < 2 then oldRemoteColumns else oldRemoteColumns ++ addedColumns

/-- A database of version `v`: the version table says so, and the other tables have the columns of
that version. -/
def HasVersion (v : Nat) (d : Tables) : Prop :=
  ∃ remote aciinfo, Holds d [v] remote aciinfo ∧ remote.columns = columnsAt v ∧
    aciinfo.columns = aciinfoColumns

/-- What a statement does, if updates of the version do not fail. -/
def surelyTables (o : Stmt) (r : o.Res) (d : Tables) : Option Tables :=
  if o.failsVersion r then none else o.runTables r d

section

variable {d w : Tables} {vs : List Nat} {remote aciinfo : Table Str}

theorem surelyTables_run {o : Stmt} {r : o.Res} (h : surelyTables o r d = some w) :
    o.runTables r d = some w := by
  unfold surelyTables at h
  split_ifs at h
  exact h

/-- `getDBVersion` reads the version. -/
theorem getDBVersion_tables {v u : Nat} (hd : Holds d (u :: vs) remote aciinfo)
    (h : getDBVersion.Runs surelyTables d (.ok v) w) : v = u ∧ w = d := by
  obtain ⟨r, d1, hsel, hr⟩ := runs_bind.mp h
  have hrun := surelyTables_run (runs_call.mp hsel)
  match r with
  | none => cases hr.1
  | some none => cases hr.1
  | some (some v') =>
    obtain ⟨hright, rfl⟩ := answer_some hrun
    obtain ⟨hv, rfl⟩ := hr
    cases hv
    rw [hd.firstVersion] at hright
    cases hright
    exact ⟨rfl, rfl⟩

/-- A migration function that returns nil has added its columns, and has left the version
alone. -/
theorem migrateTo_tables {u : Nat} (hu : u < 2) (hd : Holds d vs remote aciinfo)
    (hcols : remote.columns = columnsAt u)
    (h : (migrateTo (u + 1)).Runs surelyTables d (.ok ()) w) :
    ∃ remote', Holds w vs remote' aciinfo ∧ remote'.columns = columnsAt (u + 1) := by
  match u, hu with
  | 0, _ =>
    obtain ⟨-, rfl⟩ := h
    exact ⟨remote, hd, hcols⟩
  | 1, _ =>
    obtain ⟨w', hw', hd'⟩ := hd.migrateToV2 hcols
    have hw : Store.migrateToV2.foldlM Update.runTables d = some w :=
      execAll_runs.mp (h.mono fun _ _ _ _ => surelyTables_run)
    rw [hw'] at hw
    cases hw
    exact ⟨migratedRemote remote hcols, hd', rfl⟩

theorem updateDBVersion_tables {v : Nat} {r : Except Err Unit} (hd : Holds d vs remote aciinfo)
    (h : (updateDBVersion v).Runs surelyTables d r w) : Holds w [v] remote aciinfo := by
  obtain ⟨d1, hdel, hins⟩ := updateDBVersion_sure h
  obtain ⟨w1, hw1, hd1⟩ := hd.deleteVersion
  obtain rfl : w1 = d1 := Option.some.inj (hw1.symm.trans hdel)
  obtain ⟨w2, hw2, hd2⟩ := hd1.insertVersion v
  obtain rfl : w2 = w := Option.some.inj (hw2.symm.trans hins)
  exact hd2

theorem migrateLoop_tables {rounds u : Nat} (hd : HasVersion u d)
    (h : (migrateLoop 2 rounds (u + 1)).Runs surelyTables d (.ok ()) w) :
    HasVersion (u + rounds) w := by
  induction rounds generalizing d u with
  | zero =>
    obtain ⟨-, rfl⟩ := h
    exact hd
  | succ n ih =>
    obtain ⟨remote, aciinfo, hd, hcols, haciinfo⟩ := hd
    by_cases hu : u < 2
    · have htable : migrateTable 2 (u + 1) = some (migrateTo (u + 1)) :=
        if_pos ⟨by omega, by omega⟩
      rw [migrateLoop, htable] at h
      obtain ⟨r, d1, hf, h⟩ := runs_bind.mp h
      cases r with
      | error e => cases h.1
      | ok _ =>
        obtain ⟨r', d2, hv, hrest⟩ := runs_bind.mp h
        obtain ⟨remote', hd1, hcols1⟩ := migrateTo_tables hu hd hcols hf
        have hd2 : Holds d2 [u + 1] remote' aciinfo := updateDBVersion_tables hd1 hv
        have hw := ih ⟨remote', aciinfo, hd2, hcols1, haciinfo⟩ hrest
        rwa [show u + 1 + n = u + (n + 1) by omega] at hw
    · have htable : migrateTable 2 (u + 1) = none := if_neg (by omega)
      rw [migrateLoop, htable] at h
      cases h.1

theorem migrate_tables {u target : Nat} (hd : HasVersion u d) (hu : u < target)
    (h : (migrate 2 target).Runs surelyTables d (.ok ()) w) : HasVersion target w := by
  unfold migrate at h
  by_cases htarget : target > 2
  · rw [if_pos htarget] at h
    cases h.1
  · rw [if_neg htarget] at h
    obtain ⟨v, d1, hget, hloop⟩ := runs_andThen_ok.mp h
    obtain ⟨remote, aciinfo, hholds, hcols⟩ := hd
    obtain ⟨rfl, rfl⟩ := getDBVersion_tables hholds hget
    have hw := migrateLoop_tables ⟨remote, aciinfo, hholds, hcols⟩ hloop
    rwa [show v + (target - v) = target by omega] at hw

end

/-- **A migration is all or nothing**, if no update of the version table fails: it returns an error
and the database is as before, or it returns nil, the version table has one row, the target, and
the tables have the columns of that version. -/
theorem migration_all_or_nothing (p : Pid) (u target : Nat) (hu : u < target)
    (s s' : DbState Core Tables) (hs : HasVersion u s.db) (r : Except Err Unit)
    (h : (dbDo (migrate 2 target)).Runs (doStep surelyTables true p) s r s') :
    (∃ e, r = .error e) ∧ s'.db = s.db ∨ r = .ok () ∧ HasVersion target s'.db := by
  rw [← dbDoAll_singleton] at h
  have hout := dbDoAll_meets [migrate 2 target] s r s' rfl h
  cases r with
  | error e => exact .inl ⟨⟨e, rfl⟩, hout⟩
  | ok _ =>
    obtain ⟨w, hruns, hd⟩ := hout
    rw [if_pos rfl] at hd
    obtain ⟨_, d₁, hmigrate, -, rfl⟩ := runs_andThen_ok.mp hruns
    rw [hd]
    exact .inr ⟨rfl, migrate_tables hs hu hmigrate⟩

/-- A store that nobody has opened, with a database of version 1. -/
def oldStore : DbState Core Tables := ⟨Core.empty, oldTables, none, fun _ => none⟩

theorem oldTables_hasVersion : HasVersion 1 oldTables := ⟨_, _, oldTables_holds, rfl, rfl⟩

/-- The answers of a database in which no statement fails are possible if no update of the version
fails. -/
theorem succeed_surely (o : Stmt) (d w : Tables) (h : o.runTables (succeed o d) d = some w) :
    surelyTables o (succeed o d) d = some w := by
  have hnot : o.failsVersion (succeed o d) = false := by
    cases o with
    | exec u => cases u <;> rfl
    | _ => rfl
  rw [surelyTables, hnot]
  exact h

theorem migration_all_or_nothing_old :
    ∃ s', (dbDo (migrate 2 2)).Runs (doStep surelyTables true 0) oldStore (.ok ()) s' ∧
      HasVersion 2 s'.db := by
  obtain ⟨w, hw, -⟩ := migrate_eval (by decide) oldTables_holds rfl
  have hmigrate : (migrate 2 2).Runs surelyTables oldTables (.ok ()) w :=
    runs_of_eval_of succeed_surely hw
  obtain ⟨s', hruns, -⟩ := dbDo_runs (p := 0) (s := oldStore) true ⟨rfl, rfl⟩ hmigrate
  refine ⟨s', hruns, ?_⟩
  rcases migration_all_or_nothing 0 1 2 (by decide) oldStore s' oldTables_hasVersion _ hruns with
    ⟨⟨e, he⟩, -⟩ | ⟨-, h⟩
  · cases he
  · exact h

/-- From any database of version 1: the `INSERT` of the version fails after the `DELETE`, `migrate`
returns nil, and the version table is empty. -/
theorem migrate_loses_version {d : Tables} {remote aciinfo : Table Str}
    (h : Holds d [1] remote aciinfo) (ht : remote.columns = oldRemoteColumns) :
    ∃ w, (migrate 2 2).Runs Stmt.runTables d (.ok ()) w ∧
      Holds w [] (migratedRemote remote ht) aciinfo := by
  obtain ⟨w1, hw1, hd1⟩ := h.migrateToV2 ht
  obtain ⟨w2, hw2, hd2⟩ := hd1.deleteVersion
  have hget : getDBVersion.Runs Stmt.runTables d (.ok 1) d :=
    runs_of_eval succeed (getDBVersion_eval h.firstVersion)
  have hto : (migrateTo 2).Runs Stmt.runTables d (.ok ()) w1 := execAll_runs.mpr hw1
  have hdelete : (exec .deleteVersion).Runs Stmt.runTables w1 (.ok ()) w2 := exec_runs.mpr hw2
  have hinsert : (exec (.insertVersion 2)).Runs Stmt.runTables w2 (.error .sql) w2 :=
    runs_bind.mpr ⟨none, w2, runs_call.mpr rfl, rfl, rfl⟩
  have hupdate : (updateDBVersion 2).Runs Stmt.runTables w1 (.error .sql) w2 :=
    runs_bind.mpr ⟨.ok (), w2, hdelete, runs_bind.mpr ⟨.error .sql, w2, hinsert, rfl, rfl⟩⟩
  have hloop : (migrateLoop 2 1 2).Runs Stmt.runTables d (.ok ()) w2 :=
    runs_bind.mpr ⟨.ok (), w1, hto, runs_bind.mpr ⟨_, w2, hupdate, rfl, rfl⟩⟩
  exact ⟨w2, runs_andThen_ok.mpr ⟨1, d, hget, hloop⟩, hd2⟩

/-- The migration commits and returns nil, and leaves a database without a version. -/
theorem migration_loses_version :
    ∃ s', (dbDo (migrate 2 2)).Runs (doStep Stmt.runTables true 0) oldStore (.ok ()) s' ∧
      s'.db versionName = some (versionTable []) ∧ ¬ HasVersion 2 s'.db := by
  obtain ⟨w, hmigrate, hw⟩ := migrate_loses_version oldTables_holds rfl
  obtain ⟨s', hruns, hdb⟩ := dbDo_runs (p := 0) (s := oldStore) true ⟨rfl, rfl⟩ hmigrate
  rw [if_pos rfl] at hdb
  have hversion : s'.db versionName = some (versionTable []) := by rw [hdb, hw.version]
  refine ⟨s', hruns, hversion, ?_⟩
  rintro ⟨remote, aciinfo, hd, -⟩
  have hrows := congrArg (Option.map Table.rows) (hd.version.symm.trans hversion)
  cases hrows

end Rkt.Store
