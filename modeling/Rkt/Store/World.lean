import Rkt.Conc.Database
import Rkt.Sql.Table

set_option autoImplicit false

namespace Rkt.Store

open Conc

abbrev Str := List Char

abbrev Key := Str

/-- A point in time, in nanoseconds since the epoch. -/
abbrev Time := Int

/-- Go's `time.Time{}`: the beginning of the year 1. -/
def zeroTime : Time := -62135596800 * 10 ^ 9

/-- The part of `schema.ImageManifest` the store looks at. -/
structure Manifest where
  name : Str
  labels : List (Str × Str) := []
  deriving DecidableEq, Repr

structure Image where
  manifest : Manifest
  contents : Str
  deriving DecidableEq, Repr

/-- A file, read as an image: `none` if it is not one. -/
abbrev File := Option Image

structure ACIInfo where
  blobKey : Key
  appName : Str
  importTime : Time
  latest : Bool
  deriving DecidableEq, Repr

/-- A row of the table `remote`, and the record of who wrote it. -/
structure Remote where
  aciURL : Str
  sigURL : Str
  etag : Str
  blobKey : Key
  cacheMaxAge : Int
  downloadTime : Time
  verified : Bool
  deriving DecidableEq, Repr

def Remote.zero : Remote := ⟨[], [], [], [], 0, zeroTime, false⟩

structure Database where
  version : Option (List Nat)
  remote : List Remote
  aciinfo : List ACIInfo
  deriving DecidableEq, Repr

inductive Update where
  | deleteVersion
  | insertVersion (v : Nat)
  /-- `CREATE TABLE IF NOT EXISTS version`. -/
  | createVersion
  /-- `CREATE TABLE IF NOT EXISTS`, for one of the other tables. -/
  | createTable (name : Str) (columns : List (Sql.Column Str))
  /-- `CREATE INDEX IF NOT EXISTS` or `CREATE UNIQUE INDEX IF NOT EXISTS`. -/
  | createIndex (name : Str)
  /-- `ALTER TABLE remote ADD …`. -/
  | addRemoteColumn (column : Sql.Column Str)
  /-- `UPDATE remote cachemaxage = 0`. -/
  | resetCacheMaxAge
  /-- `UPDATE remote downloadedtime = $1`. -/
  | setDownloadTime (t : Time)
  /-- The statements of a migration to a version that is still to come; they concern tables that
  are not known yet. -/
  | future (v : Nat)
  /-- `DELETE FROM remote WHERE aciurl == $1`. -/
  | deleteRemoteURL (aciURL : Str)
  /-- `DELETE FROM remote WHERE blobkey == $1`. -/
  | deleteRemoteKey (key : Key)
  | insertRemote (row : Remote)
  /-- `DELETE from aciinfo where blobkey == $1`. -/
  | deleteACIInfo (key : Key)
  | insertACIInfo (row : ACIInfo)
  deriving DecidableEq, Repr

/-- What an update does; `none` if it can only fail: on a table that does not exist, and when
it breaks a unique index. -/
def Update.run (d : Database) : Update → Option Database
  | .deleteVersion => d.version.map fun _ => { d with version := some [] }
  | .insertVersion v => d.version.map fun vs => { d with version := some (vs ++ [v]) }
  | .createVersion => some { d with version := some (d.version.getD []) }
  | .createTable _ _ | .createIndex _ | .addRemoteColumn _ | .future _ => some d
  | .resetCacheMaxAge =>
    some { d with remote := d.remote.map fun row => { row with cacheMaxAge := 0 } }
  | .setDownloadTime t =>
    some { d with remote := d.remote.map fun row => { row with downloadTime := t } }
  | .deleteRemoteURL url => some { d with remote := d.remote.filter (·.aciURL ≠ url) }
  | .deleteRemoteKey key => some { d with remote := d.remote.filter (·.blobKey ≠ key) }
  | .insertRemote row =>
    if row.aciURL ∈ d.remote.map (·.aciURL) then none
    else some { d with remote := d.remote ++ [row] }
  | .deleteACIInfo key => some { d with aciinfo := d.aciinfo.filter (·.blobKey ≠ key) }
  | .insertACIInfo row =>
    if row.blobKey ∈ d.aciinfo.map (·.blobKey) then none
    else some { d with aciinfo := d.aciinfo ++ [row] }

inductive Stmt where
  /-- `SELECT Name FROM __Table where Name == "version"`; is there one? -/
  | selectVersionTable
  /-- `SELECT version FROM version`; the first row. -/
  | selectVersion
  /-- `SELECT * FROM remote WHERE aciurl == $1`. -/
  | selectRemote (aciURL : Str)
  /-- `SELECT * from aciinfo WHERE blobkey == $1`. -/
  | selectACIInfo (key : Key)
  /-- `SELECT * from aciinfo WHERE hasPrefix(blobkey, $1)`. -/
  | selectKeyPrefix (start : Str)
  /-- `SELECT * from aciinfo WHERE appname == $1`. -/
  | selectAppName (name : Str)
  /-- `tx.Exec`. -/
  | exec (u : Update)
  /-- `time.Now`, called inside of a transaction. -/
  | now
  deriving DecidableEq, Repr

def Stmt.Res : Stmt → Type
  | .selectVersionTable => Option Bool
  | .selectVersion => Option (Option Nat)
  | .selectRemote _ => Option (List Remote)
  | .selectACIInfo _ | .selectKeyPrefix _ | .selectAppName _ => Option (List ACIInfo)
  | .exec _ => Option Unit
  | .now => Time

abbrev stmtSig : Sig := ⟨Stmt, Stmt.Res⟩

abbrev stmt (o : Stmt) : Prog stmtSig o.Res := Prog.call (S := stmtSig) o

/-- A query, of which `a` is the right answer, is answered `r`. -/
def answer {α D : Type} [DecidableEq α] (a : Option α) (r : Option α) (d : D) : Option D :=
  if r = none ∨ r = a then some d else none

/-- A query for the rows `rows`, which may come in any order, is answered `r`. -/
def listing {α D : Type} [DecidableEq α] (rows : List α) (r : Option (List α)) (d : D) : Option D :=
  if r.all fun l => decide (l.Perm rows) then some d else none

/-- What a statement does to the working copy. Every statement may fail. -/
def Stmt.run : (o : Stmt) → o.Res → Database → Option Database
  | .selectVersionTable, r, d => answer (some d.version.isSome) r d
  | .selectVersion, r, d => answer (d.version.map List.head?) r d
  | .selectRemote url, r, d => answer (some (d.remote.filter (·.aciURL = url))) r d
  | .selectACIInfo key, r, d => answer (some (d.aciinfo.filter (·.blobKey = key))) r d
  | .selectKeyPrefix start, r, d => listing (d.aciinfo.filter (start.isPrefixOf ·.blobKey)) r d
  | .selectAppName name, r, d => listing (d.aciinfo.filter (·.appName = name)) r d
  | .exec u, r, d =>
    match r with
    | none => some d
    | some () => u.run d
  | .now, _, d => some d

/-- The fields of the `DB` struct of a process: is `lock` set, is `sqldb` set? -/
structure Handle where
  lock : Bool
  sqldb : Bool
  deriving DecidableEq, Repr

inductive DiskvStore where
  | blob
  | imageManifest
  deriving DecidableEq, Repr

structure Core where
  blob : Key → Option Image
  imageManifest : Key → Option Manifest
  imageLock : Key → Option Pid
  /-- Who has locked which image for reading. -/
  imageReaders : List (Pid × Key)
  storeLock : Option Pid
  handle : Pid → Handle
  panicked : List Pid
  accepted : List (Str × Image)
  returned : List Key
  storing : List (Pid × Key)
  users : List Pid
  opened : Pid → Option Nat

def Core.empty : Core where
  blob := fun _ => none
  imageManifest := fun _ => none
  imageLock := fun _ => none
  imageReaders := []
  storeLock := none
  handle := fun _ => ⟨false, false⟩
  panicked := []
  accepted := []
  returned := []
  storing := []
  users := []
  opened := fun _ => none

/-- The reply of a server: its status, two of its headers, and the body, which is `none` if it
is cut short. -/
structure Response where
  statusCode : Nat
  etag : Str
  cacheControl : Str
  body : Option File
  deriving DecidableEq, Repr

/-- How a signature check can fail: with a `SignatureError` or otherwise. -/
inductive SigErr where
  | signature
  | other
  deriving DecidableEq, Repr

inductive Op where
  /-- Read the fields of the `DB` struct. -/
  | handle
  /-- Write them. -/
  | setHandle (h : Handle)
  /-- `sql.Open`. -/
  | sqlOpen
  /-- `sqldb.Close`. -/
  | sqlClose
  /-- `lock.ExclusiveKeyLock(imageLockDir, key)`. -/
  | lockImage (key : Key)
  /-- `keyLock.Close` of an image lock. -/
  | closeImage (key : Key)
  /-- `lock.SharedKeyLock(imageLockDir, key)`. -/
  | shareImage (key : Key)
  /-- `keyLock.Close` of a shared image lock. -/
  | closeShared (key : Key)
  /-- `lock.NewLock(storeDir, lock.Dir)`: open the lock of the store. -/
  | newStoreLock
  /-- `storeLock.ExclusiveLock`. -/
  | lockStore
  /-- `createBackup`. -/
  | createBackup
  /-- Work on private files and directories, which may fail. -/
  | aside
  /-- `Diskv.Import` into the blob store. -/
  | importBlob (key : Key) (image : Image)
  /-- `Diskv.Write` into the store of image manifests. -/
  | writeManifest (key : Key) (manifest : Manifest)
  /-- `Diskv.Erase`. -/
  | erase (store : DiskvStore) (key : Key)
  /-- `Diskv.Read` of an image manifest. -/
  | readManifest (key : Key)
  /-- `time.Now`. -/
  | now
  /-- `url.Parse`; the answer is the scheme. -/
  | parseURL (url : Str)
  /-- A GET request with the given `If-None-Match`. -/
  | httpGet (url etag : Str)
  /-- `os.Open` of the path of a URL. -/
  | openFile (url : Str)
  /-- `docker2aci.Convert`, and the opening of what it makes. -/
  | convert (registryURL : Str)
  /-- `getPubKeyLocations` and `addKeys`. -/
  | trustKeys (appName : Str)
  /-- `Keystore.CheckSignature` for a name, of an image or of no contents at all. -/
  | checkSignature (name : Str) (signed : File)
  /-- `fetchImageFrom` returned a key, with or without a keystore, from a row or (`none`) from a
  download. -/
  | returned (ks : Bool) (row : Option Remote) (key : Key)
  /-- `fetchImageFrom` is about to store an image, or something that is not an image. -/
  | storing (key : Option Key)
  /-- `fetchImageFrom` has stored what it had to store, or has failed to. -/
  | stored
  /-- `NewStore` returned without an error, in a binary of the given version. -/
  | opened (version : Nat)
  /-- The process drops the store. -/
  | dropped
  /-- A Go panic. -/
  | panic
  /-- What follows a panic. -/
  | halted
  deriving DecidableEq, Repr

def Op.Res : Op → Type
  | .handle => Handle
  | .sqlOpen | .sqlClose | .lockImage _ | .shareImage _ | .newStoreLock | .lockStore
  | .createBackup | .aside | .importBlob _ _ | .writeManifest _ _ | .erase _ _ => Bool
  | .readManifest _ => Option Manifest
  | .now => Time
  | .parseURL _ => Option Str
  | .httpGet _ _ => Option Response
  | .openFile _ | .convert _ => Option File
  | .checkSignature _ _ => Except SigErr Unit
  | .halted => Empty
  | .setHandle _ | .closeImage _ | .closeShared _ | .trustKeys _ | .returned _ _ _ | .storing _
  | .stored | .opened _ | .dropped | .panic => Unit

abbrev coreSig : Sig := ⟨Op, Op.Res⟩

/-- Go's `getscheme`: what `url.Parse` takes for the scheme of a URL. -/
def getScheme : Str → Str
  | url => go [] url
where
  /-- The scheme, after the characters `seen` (backwards). -/
  go (seen : Str) : Str → Str
    | [] => []
    | c :: rest =>
      if c.isAlpha then go (c.toLower :: seen) rest
      else if c.isDigit ∨ c = '+' ∨ c = '-' ∨ c = '.' then
        if seen = [] then [] else go (c :: seen) rest
      else if c = ':' then seen.reverse
      else []

namespace Core

/-- `p` no longer stores anything. -/
def stored (p : Pid) (c : Core) : Core :=
  { c with storing := c.storing.filter (·.1 ≠ p) }

/-- `p` no longer uses the store. -/
def dropped (p : Pid) (c : Core) : Core :=
  { c with
    users := c.users.filter (· ≠ p)
    opened := Function.update c.opened p none }

/-- The image locks of `p`, the lock of the store and what `p` knows are gone. -/
def die (p : Pid) (c : Core) : Core :=
  { (c.stored p).dropped p with
    imageLock := fun k => if c.imageLock k = some p then none else c.imageLock k
    imageReaders := c.imageReaders.filter (·.1 ≠ p)
    storeLock := if c.storeLock = some p then none else c.storeLock
    handle := Function.update c.handle p ⟨false, false⟩ }

/-- `Diskv.Erase`, if the entry is there. -/
def erase (c : Core) (key : Key) : DiskvStore → Option Core
  | .blob =>
    if c.blob key = none then none
    else some { c with blob := Function.update c.blob key none }
  | .imageManifest =>
    if c.imageManifest key = none then none
    else some { c with imageManifest := Function.update c.imageManifest key none }

end Core

def next (p : Pid) : (o : Op) → o.Res → Core → Option Core
  | .handle, (h : Handle), c => if h = c.handle p then some c else none
  | .setHandle h, _, c => some { c with handle := Function.update c.handle p h }
  | .lockImage key, (r : Bool), c =>
    if r then
      match c.imageLock key with
      | none =>
        if c.imageReaders.any (·.2 = key) then none
        else some { c with imageLock := Function.update c.imageLock key (some p) }
      | some _ => none
    else some c
  | .closeImage key, _, c =>
    some (if c.imageLock key = some p then
      { c with imageLock := Function.update c.imageLock key none } else c)
  | .shareImage key, (r : Bool), c =>
    if r then
      match c.imageLock key with
      | none => some { c with imageReaders := (p, key) :: c.imageReaders }
      | some _ => none
    else some c
  | .closeShared key, _, c => some { c with imageReaders := c.imageReaders.erase (p, key) }
  | .lockStore, (r : Bool), c =>
    if r then
      match c.storeLock with
      | none => some { c with storeLock := some p }
      | some _ => none
    else some c
  | .newStoreLock, (r : Bool), c => some (if r then { c with users := p :: c.users } else c)
  | .importBlob key image, (r : Bool), c =>
    some (if r then { c with blob := Function.update c.blob key (some image) } else c)
  | .writeManifest key manifest, (r : Bool), c =>
    some (if r then
      { c with imageManifest := Function.update c.imageManifest key (some manifest) } else c)
  | .erase store key, (r : Bool), c => if r then c.erase key store else some c
  | .readManifest key, (r : Option Manifest), c =>
    if r = none ∨ r = c.imageManifest key then some c else none
  | .parseURL url, r, c =>
    match r with
    | some scheme => if scheme = getScheme url then some c else none
    | none => some c
  | .checkSignature name signed, r, c =>
    match signed, r with
    | some image, .ok () => some { c with accepted := (name, image) :: c.accepted }
    | _, _ => some c
  | .returned ks _ key, _, c => some (if ks then { c with returned := key :: c.returned } else c)
  | .storing key, _, c => some { c with storing := key.toList.map (p, ·) ++ c.storing }
  | .stored, _, c => some (c.stored p)
  | .opened v, _, c => some { c with opened := Function.update c.opened p (some v) }
  | .dropped, _, c => some (c.dropped p)
  | .panic, _, c => some { c with panicked := p :: c.panicked }
  | .sqlOpen, _, c | .sqlClose, _, c | .createBackup, _, c | .aside, _, c
  | .now, _, c | .httpGet _ _, _, c | .openFile _, _, c | .convert _, _, c | .trustKeys _, _, c
  | .halted, _, c => some c

def coreMachine : Machine coreSig Core where
  next := next
  die := Core.die

def storeMachine : Machine (dbSig coreSig stmtSig) (DbState Core Database) :=
  dbMachine coreMachine Stmt.run

/-- The programs of the package `store` and of those who use it. -/
abbrev StoreProg := Prog (dbSig coreSig stmtSig)

abbrev sys (o : Op) : StoreProg o.Res := Prog.call (S := dbSig coreSig stmtSig) (.base o)

def initial (c : Core) (d : Database) : DbState Core Database where
  core := c
  db := d
  owner := none
  work := fun _ => none

structure Outside where
  now : Time := 0
  reply : Str → Str → Option Response := fun _ _ => none
  /-- Is the signature good? -/
  signed : Bool := true
  /-- The processes whose commits fail. -/
  commitFails : Pid → Bool := fun _ => false

namespace Outside

def stmtAnswer (e : Outside) (w : Database) : (o : Stmt) → o.Res
  | .selectVersionTable => some w.version.isSome
  | .selectVersion => w.version.map List.head?
  | .selectRemote url => some (w.remote.filter (·.aciURL = url))
  | .selectACIInfo key => some (w.aciinfo.filter (·.blobKey = key))
  | .selectKeyPrefix start => some (w.aciinfo.filter (start.isPrefixOf ·.blobKey))
  | .selectAppName name => some (w.aciinfo.filter (·.appName = name))
  | .exec u => (u.run w).map fun _ => ()
  | .now => e.now

def coreAnswer (e : Outside) (p : Pid) (c : Core) : (o : Op) → Option o.Res
  | .handle => some (c.handle p)
  | .sqlOpen | .sqlClose | .newStoreLock | .createBackup | .aside | .importBlob _ _
  | .writeManifest _ _ => some true
  | .lockImage key => some ((c.imageLock key).isNone && !c.imageReaders.any (·.2 = key))
  | .shareImage key => some (c.imageLock key).isNone
  | .lockStore => some c.storeLock.isNone
  | .erase store key => some (c.erase key store).isSome
  | .readManifest key => some (c.imageManifest key)
  | .now => some e.now
  | .parseURL url => some (some (getScheme url))
  | .httpGet url etag => some (e.reply url etag)
  | .openFile _ | .convert _ => some none
  | .checkSignature _ _ => some (if e.signed then .ok () else .error .signature)
  | .halted => none
  | .setHandle _ | .closeImage _ | .closeShared _ | .trustKeys _ | .returned _ _ _ | .storing _
  | .stored | .opened _ | .dropped | .panic => some ()

def answer (e : Outside) (p : Pid) :
    (o : DbOp Op Stmt) → DbState Core Database → Option (DbOp.Res coreSig stmtSig o)
  | .base o, s => e.coreAnswer p s.core o
  | .stmt o, s => (s.work p).map fun w => e.stmtAnswer w o
  | .acquire, s => some s.owner.isNone
  | .begin, _ => some true
  | .commit, _ => some (!e.commitFails p)
  | .rollback, _ | .release, _ => some ()

end Outside

end Rkt.Store
