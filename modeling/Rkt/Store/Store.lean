import Rkt.Store.World

set_option autoImplicit false

namespace Rkt.Store

open Conc Prog

inductive Err where
  /-- An error of `lock.ExclusiveLock` on the database directory. -/
  | lockDB
  /-- An error of `sql.Open`. -/
  | sqlOpen
  /-- `cas db close failed: %v`. -/
  | sqlClose
  /-- An error of `sqldb.Begin`. -/
  | begin
  /-- An error of a statement. -/
  | sql
  /-- `db version table empty`. -/
  | versionTableEmpty
  /-- `Current store db version: %d greater than the current rkt expected version: %d`. -/
  | versionGreater (version dbVersion : Nat)
  /-- `required migrate final version greater than the last supported db version`. -/
  | finalVersion
  /-- `missing migrate function for version %d`. -/
  | missingMigrate (version : Nat)
  /-- `failed to migrate db to version %d: %v`. -/
  | migrate (version : Nat) (e : Err)
  /-- An error of a directory operation, handed on as it is. -/
  | dir
  /-- An error of the lock of the store. -/
  | storeLock
  /-- An error of `createBackup`. -/
  | backup
  /-- `error decompressing image: %v`. -/
  | decompressing
  /-- `error creating image: %v`. -/
  | creating
  /-- `error copying image: %v`. -/
  | copying
  /-- `error extracting image manifest: %v`. -/
  | extracting
  /-- `error closing image: %v`. -/
  | closing
  /-- `error locking image: %v`. -/
  | locking
  /-- `error importing image: %v`. -/
  | importing
  /-- `error marshalling image manifest: %v`. -/
  | marshalling
  /-- `error importing image manifest: %v`. -/
  | importingManifest
  /-- `error writing ACI Info: %v`. -/
  | writingACIInfo (e : Err)
  /-- `error getting aciinfo: %v`. -/
  | gettingACIInfo (e : Err)
  /-- `cannot find image with key: %s`. -/
  | cannotFind (key : Key)
  /-- `cannot remove image with key: %s from db: %v`. -/
  | cannotRemove (key : Key) (e : Err)
  /-- A `StoreRemovalError`, for the stores that failed. -/
  | storeRemoval (stores : List DiskvStore)
  deriving DecidableEq, Repr

/-- A function that is run inside of a transaction. -/
abbrev TxProg := Prog stmtSig

def panic {α : Type} : StoreProg α := do
  sys .panic
  let never ← sys .halted
  nomatch never

def acquire : StoreProg Bool := Prog.call (S := dbSig coreSig stmtSig) .acquire
def release : StoreProg Unit := Prog.call (S := dbSig coreSig stmtSig) .release
def begin : StoreProg Bool := Prog.call (S := dbSig coreSig stmtSig) .begin
def commit : StoreProg Bool := Prog.call (S := dbSig coreSig stmtSig) .commit
def rollback : StoreProg Unit := Prog.call (S := dbSig coreSig stmtSig) .rollback

/-- `DB.Open`. If `sql.Open` fails then the lock is closed, but the field stays set. -/
def dbOpen : StoreProg (Except Err Unit) := do
  let h : Handle ← sys .handle
  if h.lock then panic
  else check acquire .lockDB do
    sys (.setHandle { h with lock := true })
    let opened : Bool ← sys .sqlOpen
    if opened then
      sys (.setHandle ⟨true, true⟩)
      return .ok ()
    else
      release
      return .error .sqlOpen

/-- `DB.Close`. -/
def dbClose : StoreProg (Except Err Unit) := do
  let h : Handle ← sys .handle
  if h.lock = false then panic
  else if h.sqldb = false then panic
  else check (sys .sqlClose) .sqlClose do
    sys (.setHandle { h with sqldb := false })
    release
    sys (.setHandle ⟨false, false⟩)
    return .ok ()

/-- `DB.DoTx`. -/
def dbDoTx {α : Type} (fn : TxProg (Except Err α)) : StoreProg (Except Err α) :=
  check begin .begin do
    match ← fn.stmts with
    | .error e =>
      rollback
      return .error e
    | .ok a =>
      let _ ← commit
      return .ok a

/-- `DB.Do`. -/
def dbDo {α : Type} (fn : TxProg (Except Err α)) : StoreProg (Except Err α) := do
  match ← dbOpen with
  | .error e => return .error e
  | .ok () =>
    let r ← dbDoTx fn
    let _ ← dbClose
    return r

/-- `tx.Exec`. -/
def exec (u : Update) : TxProg (Except Err Unit) := do
  match ← stmt (.exec u) with
  | none => return .error .sql
  | some () => return .ok ()

/-- Updates one after the other, up to the first error. -/
def execAll : List Update → TxProg (Except Err Unit)
  | [] => return .ok ()
  | u :: us => andThen (exec u) fun _ => execAll us

def writeACIInfo (row : ACIInfo) : TxProg (Except Err Unit) :=
  execAll [.deleteACIInfo row.blobKey, .insertACIInfo row]

def removeACIInfo (key : Key) : TxProg (Except Err Unit) := exec (.deleteACIInfo key)

/-- `GetACIInfoWithBlobKey`: the first row, if there is one. -/
def getACIInfoWithBlobKey (key : Key) : TxProg (Except Err (Option ACIInfo)) := do
  match ← stmt (.selectACIInfo key) with
  | none => return .error .sql
  | some rows => return .ok rows.head?

/-- `GetRemote`: each row is scanned over the one before; and whether there was one. -/
def getRemoteTx (aciURL : Str) : TxProg (Except Err (Remote × Bool)) := do
  match ← stmt (.selectRemote aciURL) with
  | none => return .error .sql
  | some rows => return .ok (rows.foldl (fun _ row => row) Remote.zero, !rows.isEmpty)

/-- `WriteRemote`. -/
def writeRemoteTx (row : Remote) : TxProg (Except Err Unit) :=
  execAll [.deleteRemoteURL row.aciURL, .insertRemote row]

def removeRemote (key : Key) : TxProg (Except Err Unit) := exec (.deleteRemoteKey key)

def importTx (key : Key) (image : Image) (latest : Bool) : TxProg (Except Err Unit) := do
  let t ← stmt .now
  writeACIInfo ⟨key, image.manifest.name, t, latest⟩

def removeTx (key : Key) : TxProg (Except Err Unit) := do
  match ← getACIInfoWithBlobKey key with
  | .error e => return .error (.gettingACIInfo e)
  | .ok none => return .error (.cannotFind key)
  | .ok (some _) => andThen (removeACIInfo key) fun _ => removeRemote key

def importImage (key : Key) (image : Image) (latest : Bool) : StoreProg (Except Err Key) :=
  check (sys (.importBlob key image)) .importing <|
  check (sys .aside) .marshalling <|
  check (sys (.writeManifest key image.manifest)) .importingManifest do
    match ← dbDo (importTx key image latest) with
    | .error e => return .error (.writingACIInfo e)
    | .ok () => return .ok key

/-- `Store.WriteACI`; `hash` is `HashToKey` of the SHA-512 of an uncompressed image. -/
def writeACI (hash : Image → Key) (file : File) (latest : Bool) : StoreProg (Except Err Key) :=
  check (sys .aside) .decompressing <|
  check (sys .aside) .creating <|
  check (sys .aside) .copying <|
  match file with
  | none => return .error .extracting
  | some image =>
    check (sys .aside) .extracting <|
    check (sys .aside) .closing <|
    check (sys (.lockImage (hash image))) .locking do
      let r ← importImage (hash image) image latest
      sys (.closeImage (hash image))
      return r

/-- The loop of `RemoveACI` over the diskv stores; the result are the stores that failed. -/
def eraseAll (key : Key) : List DiskvStore → StoreProg (List DiskvStore)
  | [] => return []
  | store :: stores => do
    let ok : Bool ← sys (.erase store key)
    let failed ← eraseAll key stores
    return if ok then failed else store :: failed

def removeImage (key : Key) : StoreProg (Except Err Unit) := do
  match ← dbDo (removeTx key) with
  | .error e => return .error (.cannotRemove key e)
  | .ok () =>
    let failed ← eraseAll key [.blob, .imageManifest]
    return if failed ≠ [] then .error (.storeRemoval failed) else .ok ()

/-- `Store.RemoveACI`. -/
def removeACI (key : Key) : StoreProg (Except Err Unit) :=
  check (sys (.lockImage key)) .locking do
    let r ← removeImage key
    sys (.closeImage key)
    return r

/-- `Store.GetRemote`. -/
def getRemote (aciURL : Str) : StoreProg (Except Err (Remote × Bool)) := dbDo (getRemoteTx aciURL)

/-- `Store.WriteRemote`. -/
def writeRemote (row : Remote) : StoreProg (Except Err Unit) := dbDo (writeRemoteTx row)

def remoteColumns : List (Sql.Column Str) := [
  ⟨"aciurl".toList, .string⟩, ⟨"sigurl".toList, .string⟩, ⟨"etag".toList, .string⟩,
  ⟨"blobkey".toList, .string⟩, ⟨"cachemaxage".toList, .int⟩, ⟨"downloadtime".toList, .time⟩]

def aciinfoColumns : List (Sql.Column Str) := [
  ⟨"blobkey".toList, .string⟩, ⟨"appname".toList, .string⟩, ⟨"importtime".toList, .time⟩,
  ⟨"latest".toList, .bool⟩]

/-- `dbCreateStmts`, in a binary of the given version. -/
def dbCreateStmts (dbVersion : Nat) : List Update := [
  .createVersion, .insertVersion dbVersion,
  .createTable "remote".toList remoteColumns, .createIndex "aciurlidx".toList,
  .createTable "aciinfo".toList aciinfoColumns, .createIndex "blobkeyidx".toList,
  .createIndex "appnameidx".toList]

def getDBVersion : TxProg (Except Err Nat) := do
  match ← stmt .selectVersion with
  | none => return .error .sql
  | some none => return .error .versionTableEmpty
  | some (some v) => return .ok v

def updateDBVersion (v : Nat) : TxProg (Except Err Unit) :=
  execAll [.deleteVersion, .insertVersion v]

def migrateToV2 : List Update := [
  .addRemoteColumn ⟨"cachemaxage".toList, .int⟩, .addRemoteColumn ⟨"downloadedtime".toList, .time⟩,
  .resetCacheMaxAge, .setDownloadTime zeroTime]

def migrateTo : Nat → TxProg (Except Err Unit)
  | 1 => return .ok ()
  | 2 => execAll migrateToV2
  | v => exec (.future v)

/-- `migrateTable`: a binary has the functions up to its own version. -/
def migrateTable (dbVersion v : Nat) : Option (TxProg (Except Err Unit)) :=
  if 1 ≤ v ∧ v ≤ dbVersion then some (migrateTo v) else none

/-- The loop of `migrate`, with the given number of rounds left. The result of
`updateDBVersion` is dropped. -/
def migrateLoop (dbVersion : Nat) : (rounds v : Nat) → TxProg (Except Err Unit)
  | 0, _ => return .ok ()
  | n + 1, v =>
    match migrateTable dbVersion v with
    | none => return .error (.missingMigrate v)
    | some f => do
      match ← f with
      | .error e => return .error (.migrate v e)
      | .ok () =>
        let _ ← updateDBVersion v
        migrateLoop dbVersion n (v + 1)

def migrate (dbVersion finalVersion : Nat) : TxProg (Except Err Unit) :=
  if finalVersion > dbVersion then return .error .finalVersion
  else andThen getDBVersion fun version =>
    migrateLoop dbVersion (finalVersion - version) (version + 1)

/-- The first transaction of `NewStore`: is a migration needed? -/
def populateTx (dbVersion : Nat) : TxProg (Except Err Bool) := do
  match ← stmt .selectVersionTable with
  | none => return .error .sql
  | some false => andThen (execAll (dbCreateStmts dbVersion)) fun _ => return .ok false
  | some true =>
    andThen getDBVersion fun version =>
      return if version > dbVersion then .error (.versionGreater version dbVersion)
        else .ok (version < dbVersion)

/-- `NewStore`, in a binary of the given version. -/
def newStore (dbVersion : Nat) : StoreProg (Except Err Unit) :=
  check (sys .aside) .dir <|
  check (sys .aside) .dir <|
  check (sys .newStoreLock) .storeLock <|
  check (sys .aside) .dir do
    match ← dbDo (populateTx dbVersion) with
    | .error e => return .error e
    | .ok false => return .ok ()
    | .ok true =>
      check (sys .lockStore) .storeLock <|
      check (sys .createBackup) .backup <|
      dbDo (migrate dbVersion dbVersion)

end Rkt.Store
