import Rkt.Code.Json
import Rkt.Conc.Fallible
import Rkt.Path.Clean
import Rkt.Tar.Times
import Rkt.Uid.Range

set_option autoImplicit false

namespace Rkt.Tar

open Conc Prog Json Path Uid

inductive Typeflag where
  | reg
  | regA
  | link
  | symlink
  | char
  | block
  | dir
  | fifo
  /-- Anything else, such as the header of a long name. -/
  | other (flag : UInt8)
  deriving DecidableEq, Repr

/-- `tar.Header`. The numbers are read from the stream as 64-bit integers. -/
structure Header where
  name : Bytes
  /-- `hdr.FileInfo().Mode()`. -/
  mode : UInt32
  uid : Int
  gid : Int
  typeflag : Typeflag
  linkname : Bytes
  devmajor : Int
  devminor : Int
  accessTime : Fileutil.Time
  modTime : Fileutil.Time
  deriving DecidableEq, Repr

structure Entry where
  hdr : Header
  data : Bytes
  deriving DecidableEq, Repr

structure Stream where
  entries : List Entry
  /-- Then the stream cannot be read on. -/
  broken : Bool
  deriving DecidableEq, Repr

def chars (b : Bytes) : Str := b.map fun x => Char.ofNat x.toNat

/-- The components of an absolute path, the last one first. -/
abbrev Loc := List Str

/-- `filepath.Join("/", name)`. -/
def joinRoot (name : Bytes) : Loc := (clean (split (chars name))).reverse

theorem joinRoot_text (name : Bytes) :
    '/' :: join (joinRoot name).reverse = filepathJoin ['/'] (chars name) := by
  rw [filepathJoin_slash, joinRoot, List.reverse_reverse]

/-- `filepath.Dir`; the parent of the root is the root. -/
def dir (p : Loc) : Loc := p.tail

/-- `filepath.Clean`. -/
def cleanName (name : Bytes) : Bytes := ascii (filepathClean (chars name))

def hdrToTimespec (hdr : Header) : Fileutil.Timespec × Fileutil.Timespec :=
  (Fileutil.timeToTimespec hdr.accessTime, Fileutil.timeToTimespec hdr.modTime)

inductive Sys where
  | removeAll (p : Loc)
  | mkdirAll (p : Loc) (mode : UInt32)
  /-- `os.OpenFile(p, os.O_CREATE|os.O_RDWR, mode)`. -/
  | openFile (p : Loc) (mode : UInt32)
  /-- `io.Copy` to the file that has just been opened. -/
  | copy (p : Loc) (data : Bytes)
  | openDir (p : Loc)
  /-- `dir.Chmod` of the directory that has just been opened. -/
  | fchmod (p : Loc) (mode : UInt32)
  | link (dest p : Loc)
  | symlink (target : Bytes) (p : Loc)
  /-- The device is `device.Makedev(major, minor)`. -/
  | mknod (p : Loc) (mode : UInt32) (major minor : UInt32)
  | mkfifo (p : Loc) (mode : UInt32)
  | lchown (p : Loc) (uid gid : UInt32)
  | chmod (p : Loc) (mode : UInt32)
  | utimesNano (p : Loc) (ts : Fileutil.Timespec × Fileutil.Timespec)
  | lUtimesNano (p : Loc) (ts : Fileutil.Timespec × Fileutil.Timespec)
  deriving DecidableEq, Repr

inductive Stat where
  | notExist
  | found (isDir : Bool)
  | failed
  deriving DecidableEq, Repr

inductive Op where
  | sys (c : Sys)
  | lstat (p : Loc)
  deriving DecidableEq, Repr

def Op.Res : Op → Type
  | .sys _ => Bool
  | .lstat _ => Stat

abbrev tarSig : Sig := ⟨Op, Op.Res⟩

abbrev TarProg := Prog tarSig

abbrev call (o : Op) : TarProg o.Res := Prog.call (S := tarSig) o

inductive FileErr where
  /-- The operation failed. -/
  | sys (c : Sys)
  | lstat (p : Loc)
  /-- `unsupported type: %v`. -/
  | unsupported (typ : Typeflag)
  | range (e : RangeErr)
  deriving DecidableEq, Repr

inductive TarErr where
  /-- `error extracting tarball: %v`, for an entry. -/
  | extracting (e : FileErr)
  /-- `error extracting tarball: %v`, for the stream. -/
  | next
  /-- The times of a directory could not be restored. -/
  | times (p : Loc)
  deriving DecidableEq, Repr

def sys (c : Sys) : TarProg Bool := call (.sys c)

def perform (c : Sys) : TarProg (Except FileErr Unit) := must (sys c) (.sys c)

/-- `DEFAULT_DIR_MODE`. -/
def defaultDirMode : UInt32 := 0o755

/-- `syscall.S_IFCHR`. -/
def sIFCHR : UInt32 := 0x2000

/-- `syscall.S_IFBLK`. -/
def sIFBLK : UInt32 := 0x6000

/-- What is there already is removed, unless the old and the new paths are both directories. -/
def removeOld (hdr : Header) : TarProg (Except FileErr Unit) := do
  let p := joinRoot hdr.name
  match ← call (.lstat p) with
  | .notExist => return .ok ()
  | .found isDir =>
    if !isDir ∨ hdr.typeflag ≠ .dir then perform (.removeAll p) else return .ok ()
  | .failed => return .error (.lstat p)

def create (e : Entry) : TarProg (Except FileErr Unit) :=
  let hdr := e.hdr
  let p := joinRoot hdr.name
  match hdr.typeflag with
  | .reg | .regA =>
    -- the file is not truncated
    andThen (perform (.openFile p hdr.mode)) fun _ => perform (.copy p e.data)
  | .dir =>
    andThen (perform (.mkdirAll p hdr.mode)) fun _ =>
    andThen (perform (.openDir p)) fun _ => perform (.fchmod p hdr.mode)
  | .link => perform (.link (joinRoot hdr.linkname) p)
  | .symlink => perform (.symlink hdr.linkname p)
  | .char =>
    perform (.mknod p (hdr.mode ||| sIFCHR) (.ofInt hdr.devmajor) (.ofInt hdr.devminor))
  | .block =>
    perform (.mknod p (hdr.mode ||| sIFBLK) (.ofInt hdr.devmajor) (.ofInt hdr.devminor))
  | .fifo => perform (.mkfifo p hdr.mode)
  | .other flag => return .error (.unsupported (.other flag))

/-- The mode and the times. The error that is tolerated for a symbolic link is a variable of this
package, which `LUtimesNano` never returns. -/
def restore (hdr : Header) : TarProg (Except FileErr Unit) :=
  let p := joinRoot hdr.name
  let ts := hdrToTimespec hdr
  andThen (if hdr.typeflag ≠ .symlink then perform (.chmod p hdr.mode) else pure (.ok ())) fun _ =>
  if hdr.typeflag ≠ .symlink then perform (.utimesNano p ts) else perform (.lUtimesNano p ts)

/-- `extractFile`. The conversion of the identifiers to `uint32` drops their upper half. -/
def extractFile (overwrite : Bool) (uidRange : UidRange) (e : Entry) :
    TarProg (Except FileErr Unit) :=
  let p := joinRoot e.hdr.name
  andThen (if overwrite then removeOld e.hdr else pure (.ok ())) fun _ =>
  andThen (perform (.mkdirAll (dir p) defaultDirMode)) fun _ =>
  andThen (create e) fun _ =>
  match uidRange.shiftRange (.ofInt e.hdr.uid) (.ofInt e.hdr.gid) with
  | .error err => return .error (.range err)
  | .ok (shiftedUid, shiftedGid) =>
    andThen (perform (.lchown p shiftedUid shiftedGid)) fun _ => restore e.hdr

/-- `PathWhitelistMap`; `none` is the nil map. -/
abbrev PathWhitelistMap := Option (List Bytes)

def selected (pwl : PathWhitelistMap) (e : Entry) : Bool :=
  match pwl with
  | none => true
  | some paths => paths.contains (cleanName e.hdr.name)

/-- The loop over the entries; `dirhdrs` are the headers of the directories so far. -/
def extractEach (overwrite : Bool) (pwl : PathWhitelistMap) (uidRange : UidRange) :
    List Entry → List Header → TarProg (Except TarErr (List Header))
  | [], dirhdrs => return .ok dirhdrs
  | e :: es, dirhdrs =>
    if selected pwl e then
      andThen (wrapError .extracting (extractFile overwrite uidRange e)) fun _ =>
      extractEach overwrite pwl uidRange es
        (if e.hdr.typeflag = .dir then dirhdrs ++ [e.hdr] else dirhdrs)
    else extractEach overwrite pwl uidRange es dirhdrs

/-- The times of the directories are restored, since extracting a file changes those of its
parent. -/
def restoreDirs : List Header → TarProg (Except TarErr Unit)
  | [] => return .ok ()
  | hdr :: hdrs =>
    let p := joinRoot hdr.name
    andThen (must (sys (.utimesNano p (hdrToTimespec hdr))) (.times p)) fun _ =>
    restoreDirs hdrs

def extractTar (tr : Stream) (overwrite : Bool) (pwl : PathWhitelistMap) (uidRange : UidRange) :
    TarProg (Except TarErr Unit) :=
  andThen (extractEach overwrite pwl uidRange tr.entries []) fun dirhdrs =>
  if tr.broken then return .error .next else restoreDirs dirhdrs

section runs

variable {σ : Type} {step : (o : Op) → o.Res → σ → Option σ} {s s' : σ}

variable {u : Unit} {uidRange : UidRange} {overwrite : Bool}

theorem runs_perform_ok {c : Sys} :
    (perform c).Runs step s (.ok u) s' ↔ step (.sys c) true s = some s' := by
  rw [perform, runs_must_ok]
  exact runs_call

theorem extractFile_ok {e : Entry} (h : (extractFile overwrite uidRange e).Runs step s (.ok u) s') :
    ∃ s1 s2 s3 s4 uid gid,
      (if overwrite then removeOld e.hdr else pure (.ok ())).Runs step s (.ok ()) s1 ∧
      step (.sys (.mkdirAll (dir (joinRoot e.hdr.name)) defaultDirMode)) true s1 = some s2 ∧
      (create e).Runs step s2 (.ok ()) s3 ∧
      uidRange.shiftRange (.ofInt e.hdr.uid) (.ofInt e.hdr.gid) = .ok (uid, gid) ∧
      step (.sys (.lchown (joinRoot e.hdr.name) uid gid)) true s3 = some s4 ∧
      (restore e.hdr).Runs step s4 (.ok ()) s' := by
  unfold extractFile at h
  obtain ⟨_, s1, hold, h⟩ := runs_andThen_ok.mp h
  obtain ⟨_, s2, hparent, h⟩ := runs_andThen_ok.mp h
  obtain ⟨_, s3, hcreate, h⟩ := runs_andThen_ok.mp h
  cases hshift : uidRange.shiftRange (.ofInt e.hdr.uid) (.ofInt e.hdr.gid) with
  | error err =>
    rw [hshift] at h
    cases h.1
  | ok ids =>
    rw [hshift] at h
    obtain ⟨_, s4, hchown, hrestore⟩ := runs_andThen_ok.mp h
    exact ⟨s1, s2, s3, s4, ids.1, ids.2, hold, runs_perform_ok.mp hparent, hcreate, rfl,
      runs_perform_ok.mp hchown, hrestore⟩

/-- A relation between the state and the selected entries so far, which holds after the loop if
every entry that is extracted keeps it. -/
theorem extractEach_induct {pwl : PathWhitelistMap} {I : List Entry → σ → Prop} {P : Entry → Prop}
    (hstep : ∀ done e s s' u, P e → I done s →
      (extractFile overwrite uidRange e).Runs step s (.ok u) s' → I (done ++ [e]) s')
    {es : List Entry} (hes : ∀ e ∈ es, P e) :
    ∀ {done : List Entry} {dirhdrs hdrs : List Header} {s s' : σ}, I done s →
      (extractEach overwrite pwl uidRange es dirhdrs).Runs step s (.ok hdrs) s' →
      I (done ++ es.filter (selected pwl)) s' := by
  induction es with
  | nil =>
    rintro done dirhdrs hdrs s s' hI ⟨-, rfl⟩
    rwa [List.filter_nil, List.append_nil]
  | cons e es ih =>
    intro done dirhdrs hdrs s s' hI h
    have hrest : ∀ e' ∈ es, P e' := fun e' he' => hes e' (List.mem_cons_of_mem e he')
    rw [extractEach] at h
    by_cases hsel : selected pwl e = true
    · rw [if_pos hsel] at h
      obtain ⟨_, s1, hfile, h⟩ := runs_andThen_ok.mp h
      have hnow := hstep done e s s1 _ (hes e List.mem_cons_self) hI (runs_wrapError_ok.mp hfile)
      have hend := ih hrest hnow h
      rwa [List.append_assoc, List.singleton_append, ← List.filter_cons_of_pos hsel] at hend
    · rw [if_neg hsel] at h
      rw [List.filter_cons_of_neg hsel]
      exact ih hrest hI h

/-- The same after a run of `extractTar`, if restoring times keeps it. -/
theorem extractTar_induct {pwl : PathWhitelistMap} {I : List Entry → σ → Prop} {P : Entry → Prop}
    (hstep : ∀ done e s s' u, P e → I done s →
      (extractFile overwrite uidRange e).Runs step s (.ok u) s' → I (done ++ [e]) s')
    (htimes : ∀ done p ts s s', I done s → step (.sys (.utimesNano p ts)) true s = some s' →
      I done s') {tr : Stream} (hes : ∀ e ∈ tr.entries, P e) (hI : I [] s)
    (h : (extractTar tr overwrite pwl uidRange).Runs step s (.ok u) s') :
    I (tr.entries.filter (selected pwl)) s' := by
  have hdirs : ∀ {hdrs : List Header} {s s' : σ} {u : Unit},
      I (tr.entries.filter (selected pwl)) s →
      (restoreDirs hdrs).Runs step s (.ok u) s' → I (tr.entries.filter (selected pwl)) s' := by
    intro hdrs
    induction hdrs with
    | nil =>
      rintro s s' u hI ⟨-, rfl⟩
      exact hI
    | cons hdr hdrs ih =>
      intro s s' u hI h
      obtain ⟨_, s1, hutimes, h⟩ := runs_andThen_ok.mp h
      exact ih (htimes _ _ _ _ _ hI (runs_call.mp (runs_must_ok.mp hutimes))) h
  unfold extractTar at h
  obtain ⟨hdrs, s1, heach, h⟩ := runs_andThen_ok.mp h
  have hafter := extractEach_induct hstep hes hI heach
  rw [List.nil_append] at hafter
  split_ifs at h
  · cases h.1
  · exact hdirs hafter h

end runs

end Rkt.Tar
