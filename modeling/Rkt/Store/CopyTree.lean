import Rkt.Code.Assoc
import Rkt.Conc.Fallible
import Rkt.Fs.Tree
import Rkt.Tar.Times

set_option autoImplicit false

namespace Rkt.Backup

open Conc Prog Fileutil

abbrev Name := List Char

abbrev Path := List Name

inductive Kind where
  | dir
  | regular (content : List UInt8)
  | symlink (target : List Char)
  | charDevice (dev : Nat)
  | blockDevice (dev : Nat)
  | namedPipe
  /-- Whatever else there is, such as a socket. -/
  | other
  deriving DecidableEq, Repr

@[ext]
structure Times where
  atime : Time
  mtime : Time
  deriving DecidableEq, Repr

/-- The attributes that are copied. -/
structure Attrs where
  mode : Nat
  uid : Nat
  gid : Nat
  times : Times
  deriving DecidableEq, Repr

structure Info where
  kind : Kind
  attrs : Attrs
  deriving DecidableEq, Repr

def Kind.isDir : Kind → Bool
  | .dir => true
  | _ => false

def Kind.isSymlink : Kind → Bool
  | .symlink _ => true
  | _ => false

/-- `CopyTree` can make it. -/
def Kind.supported : Kind → Bool
  | .other => false
  | _ => true

def Info.isDir (i : Info) : Bool := i.kind.isDir

/-- The slices of `syscall.Timespec`: the times of access and of modification. -/
abbrev Timespecs := Timespec × Timespec

/-- What `pathToTimespec` makes of the times of a file. -/
def Times.timespecs (t : Times) : Timespecs := (timeToTimespec t.atime, timeToTimespec t.mtime)

/-- What a file has after `utimensat`, which refuses nanoseconds that are out of range. -/
def setTimes (ts : Timespecs) : Option Times := do
  let atime ← ts.1.time?
  let mtime ← ts.2.time?
  return ⟨atime, mtime⟩

/-- `CopyTree` can copy it. -/
def Info.supported (i : Info) : Bool :=
  i.kind.supported && (setTimes i.attrs.times.timespecs).isSome

/-- The copy of a file: its times have gone through `TimeToTimespec`. -/
def Info.stamped (i : Info) : Info :=
  { i with attrs.times := (setTimes i.attrs.times.timespecs).getD i.attrs.times }

/-- The times are such that `TimeToTimespec` keeps them. -/
def Info.Timely (i : Info) : Prop := Kept i.attrs.times.atime ∧ Kept i.attrs.times.mtime

theorem setTimes_eq_some_iff {i : Info} :
    setTimes i.attrs.times.timespecs = some i.attrs.times ↔ i.Timely := by
  unfold setTimes Times.timespecs Info.Timely
  rw [← time?_eq_some_iff, ← time?_eq_some_iff]
  cases (timeToTimespec i.attrs.times.atime).time? <;>
    cases (timeToTimespec i.attrs.times.mtime).time? <;> simp [Times.ext_iff]

def linkMode : Nat := 0o777

/-- An entry of the backups directory, with all that is below it. -/
abbrev Entry := Fs.Tree Name Info.isDir

structure Disk where
  entries : Name → Entry
  names : Finset Name
  listed : ∀ name, (entries name).present = true → name ∈ names

def Disk.set (d : Disk) (name : Name) (e : Entry) : Disk where
  entries := Function.update d.entries name e
  names := insert name d.names
  listed x hx := by
    by_cases hname : x = name
    · exact hname ▸ Finset.mem_insert_self _ _
    · rw [Function.update_of_ne hname] at hx
      exact Finset.mem_insert_of_mem (d.listed x hx)

@[simp] theorem Disk.set_entries (d : Disk) (name : Name) (e : Entry) :
    (d.set name e).entries = Function.update d.entries name e := rfl

def Disk.empty : Disk := ⟨fun _ => .empty, ∅, fun _ h => by cases h⟩

/-- The directory of the database: what `filepath.Walk` visits, in this order. -/
structure Database where
  visits : List (Path × Info)
  root : ∃ a l, visits = ([], ⟨.dir, a⟩) :: l
  nodup : Assoc.Distinct visits
  /-- A directory is visited before what is in it. -/
  parents : ∀ l₁ n p i l₂, visits = l₁ ++ (n :: p, i) :: l₂ → (l₁.lookup p).any Info.isDir = true
  links : ∀ p i, (p, i) ∈ visits → i.kind.isSymlink = true → i.attrs.mode = linkMode

/-- `CopyTree` can copy all of it. -/
def Database.supported (db : Database) : Bool := db.visits.all fun x => x.2.supported

inductive Errno where
  | exist
  | noent
  | other
  deriving DecidableEq, Repr

inductive Written where
  | done
  /-- Only so many bytes were written. -/
  | broken (n : Nat)
  deriving DecidableEq, Repr

inductive Removed where
  | done
  /-- Only this has been removed, with all that is below it. -/
  | broken (gone : List Path)
  deriving DecidableEq, Repr

inductive Sys where
  /-- `os.MkdirAll` of the backups directory. -/
  | mkdirAll
  /-- What `filepath.Walk` does itself: `Lstat` and `readDirNames`. -/
  | visit (p : Path)
  /-- `os.Open`, `os.Readlink`, `syscall.Stat` or `os.Lstat` of something in the database. -/
  | source (p : Path)
  /-- `os.Open` of a directory below `tmp`. -/
  | openDir (p : Path)
  | lchown (p : Path) (uid gid : Nat)
  | chmod (p : Path) (mode : Nat)
  /-- `syscall.UtimesNano` or `LUtimesNano`. -/
  | utimes (p : Path) (ts : Timespecs)
  deriving DecidableEq, Repr

inductive Op where
  | sys (c : Sys)
  /-- `os.Mkdir`, `os.Symlink`, `syscall.Mknod` or `syscall.Mkfifo` below `tmp`. -/
  | make (p : Path) (k : Kind)
  /-- `os.Create` below `tmp`. -/
  | create (p : Path)
  /-- `io.Copy` to a file below `tmp`, and `Close`. -/
  | write (p : Path) (content : List UInt8)
  /-- The order in which Go iterates over the map `dirs`. -/
  | order (dirs : List (Path × Timespecs))
  /-- `ioutil.ReadDir` of the backups directory. -/
  | readDir
  /-- `os.RemoveAll` of an entry. -/
  | removeAll (name : Name)
  /-- `os.Rename` of an entry. -/
  | rename (old new : Name)
  deriving DecidableEq, Repr

/-- The answers. What is made gets its attributes from the system. -/
def Op.Res : Op → Type
  | .sys _ => Bool
  | .make _ _ | .create _ => Except Errno Attrs
  | .write _ _ => Written
  | .order _ => List (Path × Timespecs)
  | .readDir => Option (List Name)
  | .removeAll _ => Removed
  | .rename _ _ => Except Errno Unit

abbrev backupSig : Sig := ⟨Op, Op.Res⟩

abbrev BackupProg := Prog backupSig

abbrev call (o : Op) : BackupProg o.Res := Prog.call (S := backupSig) o

def tmpName : Name := ['t', 'm', 'p']

def Disk.tmp (d : Disk) : Entry := d.entries tmpName

def Disk.setTmp (d : Disk) (t : Entry) : Disk := d.set tmpName t

@[simp] theorem Disk.setTmp_tmp (d : Disk) (t : Entry) : (d.setTmp t).tmp = t := by
  rw [Disk.tmp, Disk.setTmp, Disk.set_entries, Function.update_self]

section edit

variable (t : Entry) (p : Path)

def setAttrs (f : Attrs → Attrs) : Entry :=
  t.modify p (fun i => { i with attrs := f i.attrs }) fun _ => rfl

/-- The times of the parent change when something is made in it. -/
def touch (times : Times) : Path → Entry
  | [] => t
  | _ :: q => setAttrs t q fun a => { a with times := times }

def Kind.isRegular : Kind → Bool
  | .regular _ => true
  | _ => false

def Kind.write (content : List UInt8) (k : Kind) : Kind :=
  if k.isRegular then .regular content else k

theorem Kind.write_isDir (content : List UInt8) (k : Kind) : (k.write content).isDir = k.isDir := by
  cases k <;> rfl

def setContent (content : List UInt8) : Entry :=
  t.modify p (fun i => { i with kind := i.kind.write content }) fun i => i.kind.write_isDir content

theorem setAttrs_node (f : Attrs → Attrs) (q : Path) : (setAttrs t p f).node q =
    if q = p then (t.node q).map fun i => { i with attrs := f i.attrs } else t.node q :=
  Fs.Tree.modify_node ..

theorem setContent_node (content : List UInt8) (q : Path) : (setContent t p content).node q =
    if q = p then (t.node q).map fun i => { i with kind := i.kind.write content } else t.node q :=
  Fs.Tree.modify_node ..

def isRegular : Bool := (t.node p).any fun i => i.kind.isRegular

end edit

/-- What the operation does to `tmp`, unless what it needs is not there. -/
def Sys.effect (t : Entry) : Sys → Option Entry
  | .mkdirAll | .visit _ | .source _ => some t
  | .openDir p => if t.node p = none then none else some t
  | .lchown p uid gid =>
    if t.node p = none then none
    else some (setAttrs t p fun a => { a with uid := uid, gid := gid })
  | .chmod p mode =>
    if t.node p = none then none else some (setAttrs t p fun a => { a with mode := mode })
  | .utimes p ts =>
    if t.node p = none then none
    else (setTimes ts).map fun times => setAttrs t p fun a => { a with times := times }

def Disk.make (d : Disk) (p : Path) (k : Kind) (a : Attrs) : Option Disk :=
  if h : d.tmp.node p = none ∧ d.tmp.parentOk p = true then
    some (d.setTmp (touch (d.tmp.make p ⟨k, a⟩ h) a.times p))
  else none

def step (faulty : Bool) : (o : Op) → o.Res → Disk → Option Disk
  | .sys c, (r : Bool), d =>
    match c.effect d.tmp with
    | some t => if r then some (d.setTmp t) else if faulty then some d else none
    | none => if r then none else some d
  | .make p k, (r : Except Errno Attrs), d =>
    match r with
    | .ok a => if k.isSymlink = true → a.mode = linkMode then d.make p k a else none
    | .error _ =>
      if faulty ∨ d.tmp.node p ≠ none ∨ d.tmp.parentOk p = false then some d else none
  | .create p, (r : Except Errno Attrs), d =>
    match r with
    | .ok a =>
      if isRegular d.tmp p then some (d.setTmp (setContent d.tmp p []))
      else d.make p (.regular []) a
    | .error _ =>
      if faulty ∨ isRegular d.tmp p = false ∧ (d.tmp.node p ≠ none ∨ d.tmp.parentOk p = false)
      then some d else none
  | .write p content, (r : Written), d =>
    match r with
    | .done => some (d.setTmp (setContent d.tmp p content))
    | .broken n => if faulty then some (d.setTmp (setContent d.tmp p (content.take n))) else none
  | .order dirs, (r : List (Path × Timespecs)), d => if r.Perm dirs then some d else none
  | .readDir, (r : Option (List Name)), d =>
    match r with
    | some list =>
      if list.toFinset = d.names.filter fun name => (d.entries name).present = true then some d
      else none
    | none => if faulty then some d else none
  | .removeAll name, (r : Removed), d =>
    match r with
    | .done => some (d.set name .empty)
    | .broken gone => if faulty then some (d.set name ((d.entries name).prune gone)) else none
  | .rename old new, (r : Except Errno Unit), d =>
    match r with
    | .ok () =>
      if (d.entries old).present then some ((d.set new (d.entries old)).set old .empty)
      else none
    | .error .noent => if (d.entries old).present then none else some d
    | .error _ => if faulty ∨ (d.entries new).present = true then some d else none

inductive Err where
  /-- The error of the operation. -/
  | sys (o : Op)
  /-- `unsupported mode: %v`. -/
  | unsupported (p : Path)
  deriving DecidableEq, Repr

def perform (c : Sys) : BackupProg (Except Err Unit) := must (call (.sys c)) (.sys (.sys c))

def makeNode (p : Path) (k : Kind) : BackupProg (Except Err Unit) := do
  match ← call (.make p k) with
  | .ok _ => return .ok ()
  | .error _ => return .error (.sys (.make p k))

def copyRegularFile (p : Path) (content : List UInt8) : BackupProg (Except Err Unit) :=
  andThen (perform (.source p)) fun _ => do
    match ← call (.create p) with
    | .error _ => return .error (.sys (.create p))
    | .ok _ =>
      match ← call (.write p content) with
      | .done => return .ok ()
      | .broken _ => return .error (.sys (.write p content))

def copyKind (p : Path) (i : Info) : BackupProg (Except Err Unit) :=
  match i.kind with
  | .dir =>
    andThen (makeNode p .dir) fun _ =>
    andThen (perform (.openDir p)) fun _ => perform (.chmod p i.attrs.mode)
  | .regular content => copyRegularFile p content
  | .symlink target => andThen (perform (.source p)) fun _ => makeNode p (.symlink target)
  | .charDevice dev => andThen (perform (.source p)) fun _ => makeNode p (.charDevice dev)
  | .blockDevice dev => andThen (perform (.source p)) fun _ => makeNode p (.blockDevice dev)
  | .namedPipe => makeNode p .namedPipe
  | .other => return .error (.unsupported p)

/-- The owner, the mode and the times. The range of user identifiers is blank, so there is no
shift. -/
def copyAttrs (p : Path) (i : Info) : BackupProg (Except Err Unit) :=
  andThen (perform (.lchown p i.attrs.uid i.attrs.gid)) fun _ =>
  andThen (if i.kind.isSymlink then return .ok () else perform (.chmod p i.attrs.mode)) fun _ =>
  andThen (perform (.source p)) fun _ => perform (.utimes p i.attrs.times.timespecs)

/-- `copyWalker`, between what `filepath.Walk` does before and after it. -/
def copyWalker (p : Path) (i : Info) : BackupProg (Except Err Unit) :=
  andThen (perform (.visit p)) fun _ =>
  andThen (copyKind p i) fun _ =>
  andThen (copyAttrs p i) fun _ => if i.isDir then perform (.visit p) else return .ok ()

/-- `filepath.Walk`; the result is the map `dirs`. -/
def copyEach : List (Path × Info) → List (Path × Timespecs) →
    BackupProg (Except Err (List (Path × Timespecs)))
  | [], dirs => return .ok dirs
  | (p, i) :: rest, dirs =>
    andThen (copyWalker p i) fun _ =>
    copyEach rest (if i.isDir then (p, i.attrs.times.timespecs) :: dirs else dirs)

def restoreTimes : List (Path × Timespecs) → BackupProg (Except Err Unit)
  | [] => return .ok ()
  | (p, ts) :: dirs => andThen (perform (.utimes p ts)) fun _ => restoreTimes dirs

def copyTree (db : Database) : BackupProg (Except Err Unit) :=
  andThen (copyEach db.visits []) fun dirs => do
    let dirs ← call (.order dirs)
    restoreTimes dirs

/-- The database as an entry of the backups directory. -/
def Database.entry (db : Database) : Entry where
  node p := db.visits.lookup p
  closed n p hne := by
    obtain ⟨i, hi⟩ := Option.ne_none_iff_exists'.mp hne
    obtain ⟨l₁, l₂, hvisits, -⟩ := List.lookup_eq_some_iff.mp hi
    -- the directory is among what was visited before
    obtain ⟨j, hj, hdir⟩ := (Option.any_eq_true _ _).mp (db.parents l₁ n p i l₂ hvisits)
    have hlookup : db.visits.lookup p = some j := by
      rw [hvisits, List.lookup_append, hj]
      rfl
    rw [hlookup]
    exact hdir

/-- The copy that `CopyTree` makes of it. -/
def Database.copy (db : Database) : Entry :=
  db.entry.map Info.stamped fun _ => rfl

/-- Times that are not looked at. -/
def noTimes : Times := ⟨.epoch, .epoch⟩

/-- The times of a directory do not count until the end. -/
def Info.untimed (i : Info) : Info :=
  if i.isDir then { i with attrs.times := noTimes } else i

theorem untimed_isDir (i : Info) : i.untimed.isDir = i.isDir := by
  unfold Info.untimed
  split <;> rfl

/-- The entry is a copy of what has been visited, but for the times of directories. -/
def Copied (l : List (Path × Info)) (t : Entry) : Prop :=
  ∀ p, (t.node p).map Info.untimed = (l.lookup p).map fun i => i.stamped.untimed

/-- The same, and a file with `P` is being made at `p`. -/
def Making (l : List (Path × Info)) (p : Path) (P : Info → Prop) (t : Entry) : Prop :=
  (∀ q, q ≠ p → (t.node q).map Info.untimed = (l.lookup q).map fun i => i.stamped.untimed) ∧
    ∃ i, t.node p = some i ∧ P i

section entries

variable {l : List (Path × Info)} {t : Entry} {p : Path} {P Q : Info → Prop}

theorem Copied.absent (h : Copied l t) (hp : l.lookup p = none) : t.node p = none := by
  have heq := h p
  rw [hp, Option.map_none, Option.map_eq_none_iff] at heq
  exact heq

theorem any_untimed (o : Option Info) : (o.map Info.untimed).any Info.isDir = o.any Info.isDir := by
  cases o with
  | none => rfl
  | some i => exact untimed_isDir i

theorem Copied.any_isDir (h : Copied l t) :
    (t.node p).any Info.isDir = (l.lookup p).any Info.isDir := by
  rw [← any_untimed, h p]
  cases l.lookup p with
  | none => rfl
  | some i => exact untimed_isDir i.stamped

theorem Making.setAttrs {f : Attrs → Attrs} (h : Making l p P t)
    (hf : ∀ i, P i → Q { i with attrs := f i.attrs }) : Making l p Q (setAttrs t p f) := by
  obtain ⟨hothers, i, hi, hP⟩ := h
  refine ⟨fun q hq => ?_, { i with attrs := f i.attrs }, ?_, hf i hP⟩
  · rw [setAttrs_node, if_neg hq]
    exact hothers q hq
  · rw [setAttrs_node, if_pos rfl, hi]
    rfl

theorem Making.setContent {content : List UInt8} (h : Making l p P t)
    (hf : ∀ i, P i → Q { i with kind := i.kind.write content }) :
    Making l p Q (setContent t p content) := by
  obtain ⟨hothers, i, hi, hP⟩ := h
  refine ⟨fun q hq => ?_, { i with kind := i.kind.write content }, ?_, hf i hP⟩
  · rw [setContent_node, if_neg hq]
    exact hothers q hq
  · rw [setContent_node, if_pos rfl, hi]
    rfl

theorem Making.present (h : Making l p P t) : t.node p ≠ .none := by
  obtain ⟨-, i, hi, -⟩ := h
  simp [hi]

theorem Making.mono (h : Making l p P t) (hPQ : ∀ i, P i → Q i) : Making l p Q t := by
  obtain ⟨hothers, i, hi, hP⟩ := h
  exact ⟨hothers, i, hi, hPQ i hP⟩

theorem Copied.make (h : Copied l t) {i : Info} (hi : t.node p = .none ∧ t.parentOk p = true)
    (times : Times) : Making l p (· = i) (touch (t.make p i hi) times p) := by
  cases p with
  | nil =>
    refine ⟨fun q hq => ?_, i, ?_, rfl⟩
    · rw [touch, Fs.Tree.make_node, if_neg hq]
      exact h q
    · rw [touch, Fs.Tree.make_node, if_pos rfl]
  | cons n p =>
    have hnew : p ≠ n :: p := (List.cons_ne_self n p).symm
    refine ⟨fun q hq => ?_, i, ?_, rfl⟩
    · rw [touch, setAttrs_node, Fs.Tree.make_node, if_neg hq]
      by_cases hqp : q = p
      · subst hqp
        obtain ⟨j, hj, hdir⟩ := (Option.any_eq_true _ _).mp hi.2
        rw [if_pos rfl, ← h q, hj]
        simp only [Option.map_some, Info.untimed, Info.isDir] at hdir ⊢
        simp [hdir]
      · rw [if_neg hqp]
        exact h q
    · rw [touch, setAttrs_node, Fs.Tree.make_node, if_neg (Ne.symm hnew), if_pos rfl]

theorem Making.copied {i : Info} (h : Making l p (· = i.stamped) t) (hp : l.lookup p = .none) :
    Copied (l ++ [(p, i)]) t := by
  obtain ⟨hothers, j, hj, rfl⟩ := h
  intro q
  rw [List.lookup_append, Assoc.lookup_cons]
  by_cases hq : q = p
  · subst hq
    rw [hp, hj]
    simp
  · rw [hothers q hq]
    simp [hq]

end entries

/-- The entries are those of `E`, but for `tmp`, which has `R`. -/
def Copying (E : Name → Entry) (R : Entry → Prop) (d : Disk) : Prop :=
  (∀ name, name ≠ tmpName → d.entries name = E name) ∧ R d.tmp

/-- The program takes an entry with `R` to one with `Q`, unless it fails for the reason `X`. -/
abbrev Copies {α : Type} (faulty : Bool) (X : Prop) (E : Name → Entry) (R : Entry → Prop)
    (x : BackupProg (Except Err α)) (Q : Entry → Prop) : Prop :=
  Meets (step faulty) (Copying E R) x (Outcome (fun _ _ => X) fun _ => Copying E Q)

section copies

variable {faulty : Bool} {X : Prop} {E : Name → Entry} {R Q : Entry → Prop}
  {l : List (Path × Info)} {p : Path} {i : Info} {d : Disk}

theorem Copying.setTmp {t : Entry} (h : Copying E R d) (ht : Q t) : Copying E Q (d.setTmp t) := by
  refine ⟨fun name hname => ?_, ?_⟩
  · rw [Disk.setTmp, Disk.set_entries, Function.update_of_ne hname]
    exact h.1 name hname
  · rw [Disk.setTmp_tmp]
    exact ht

variable {c : Sys}

theorem perform_copies (hX : faulty = true → X)
    (h : ∀ t, R t → ∃ t', c.effect t = some t' ∧ Q t') : Copies faulty X E R (perform c) Q := by
  have hcall : Meets (step faulty) (Copying E R) (call (.sys c)) fun (r : Bool) d =>
      if r then Copying E Q d else X := by
    refine Meets.call fun d r d' hd hs => ?_
    obtain ⟨t, ht, hQ⟩ := h d.tmp hd.2
    simp only [step, ht] at hs
    cases r with
    | true =>
      cases hs
      exact hd.setTmp hQ
    | false =>
      cases hf : faulty with
      | false =>
        rw [hf] at hs
        cases hs
      | true => exact hX hf
  refine Meets.bind hcall fun r => ?_
  cases r with
  | true => exact Meets.ret fun _ h => h
  | false => exact Meets.ret fun _ h => h

theorem perform_same (hX : faulty = true → X) (h : ∀ t, c.effect t = some t) :
    Copies faulty X E R (perform c) R :=
  perform_copies hX fun t ht => ⟨t, h t, ht⟩

/-- The place for the next file is free, and its directory is there. -/
def Free (l : List (Path × Info)) (p : Path) : Prop :=
  l.lookup p = none ∧ ∀ n q, p = n :: q → (l.lookup q).any Info.isDir = true

theorem Copied.free {t : Entry} (h : Copied l t) (hp : Free l p) :
    t.node p = none ∧ t.parentOk p = true := by
  refine ⟨h.absent hp.1, ?_⟩
  cases p with
  | nil => rfl
  | cons n q =>
    show (t.node q).any Info.isDir = true
    rw [h.any_isDir]
    exact hp.2 n q rfl

theorem make_copying {k : Kind} {a : Attrs} {d' : Disk} {P : Info → Prop} (hp : Free l p)
    (hd : Copying E (Copied l) d) (hP : P ⟨k, a⟩) (h : d.make p k a = some d') :
    Copying E (Making l p P) d' := by
  unfold Disk.make at h
  rw [dif_pos (hd.2.free hp)] at h
  cases h
  exact hd.setTmp ((hd.2.make (hd.2.free hp) a.times).mono fun j hj => hj ▸ hP)

theorem makeNode_copies (hX : faulty = true → X) {k : Kind} (hp : Free l p) :
    Copies faulty X E (Copied l) (makeNode p k)
      (Making l p fun j => j.kind = k ∧ (k.isSymlink = true → j.attrs.mode = linkMode)) := by
  have hmake : Meets (step faulty) (Copying E (Copied l)) (call (.make p k))
      (Outcome (fun _ _ => X) fun _ => Copying E
        (Making l p fun j => j.kind = k ∧ (k.isSymlink = true → j.attrs.mode = linkMode))) := by
    refine Meets.call fun d r d' hd hs => ?_
    cases r with
    | ok a =>
      simp only [step, Option.ite_none_right_eq_some] at hs
      exact make_copying hp hd ⟨rfl, hs.1⟩ hs.2
    | error e =>
      -- nothing is in the way
      obtain ⟨hnode, hparent⟩ := hd.2.free hp
      simp only [step, hnode, hparent, Option.ite_none_right_eq_some] at hs
      exact hX (by simpa using hs.1)
  refine Meets.bind hmake fun r => ?_
  cases r with
  | ok a => exact Meets.ret fun _ h => h
  | error e => exact Meets.ret fun _ h => h

theorem copyRegularFile_copies (hX : faulty = true → X) {content : List UInt8} (hp : Free l p) :
    Copies faulty X E (Copied l) (copyRegularFile p content)
      (Making l p fun j => j.kind = .regular content) := by
  have hcreate : Meets (step faulty) (Copying E (Copied l)) (call (.create p))
      (Outcome (fun _ _ => X) fun _ => Copying E (Making l p fun j => j.kind = .regular [])) := by
    refine Meets.call fun d r d' hd hs => ?_
    obtain ⟨hnode, hparent⟩ := hd.2.free hp
    have hno : isRegular d.tmp p = false := by simp [isRegular, hnode]
    cases r with
    | ok a =>
      simp only [step, hno] at hs
      exact make_copying hp hd rfl hs
    | error e =>
      simp only [step, hno, hnode, hparent, Option.ite_none_right_eq_some] at hs
      exact hX (by simpa using hs.1)
  have hwrite : Meets (step faulty) (Copying E (Making l p fun j => j.kind = .regular []))
      (call (.write p content)) fun (r : Written) d =>
        if r = .done then Copying E (Making l p fun j => j.kind = .regular content) d else X := by
    refine Meets.call fun d r d' hd hs => ?_
    cases r with
    | done =>
      cases hs
      refine hd.setTmp (hd.2.setContent fun j hj => ?_)
      rw [hj]
      rfl
    | broken n =>
      simp only [step, Option.ite_none_right_eq_some] at hs
      exact hX hs.1
  refine Meets.andThen (perform_same hX fun _ => rfl) fun _ => Meets.bind hcreate fun r => ?_
  cases r with
  | error e => exact Meets.ret fun _ h => h
  | ok a =>
    refine Meets.bind hwrite fun r => ?_
    cases r with
    | done => exact Meets.ret fun _ h => h
    | broken n => exact Meets.ret fun _ h => h

theorem making_copies (hX : faulty = true → X) {P P' : Info → Prop} {f : Attrs → Attrs}
    (hc : ∀ t : Entry, t.node p ≠ none → c.effect t = some (setAttrs t p f))
    (hf : ∀ j, P j → P' { j with attrs := f j.attrs }) :
    Copies faulty X E (Making l p P) (perform c) (Making l p P') :=
  perform_copies hX fun t ht => ⟨_, hc t ht.present, ht.setAttrs hf⟩

def OfKind (i j : Info) : Prop :=
  j.kind = i.kind ∧ (i.kind.isSymlink = true → j.attrs.mode = linkMode)

theorem copyKind_copies (hX : faulty = true → X) (hi : i.kind.supported = true)
    (hp : Free l p) : Copies faulty X E (Copied l) (copyKind p i) (Making l p (OfKind i)) := by
  unfold copyKind OfKind
  cases hk : i.kind with
  | dir =>
    refine Meets.andThen (makeNode_copies hX hp) fun _ => ?_
    refine Meets.andThen (perform_copies hX fun t ht => ⟨t, if_neg ht.present, ht⟩) fun _ => ?_
    exact making_copies hX (fun t ht => if_neg ht) fun j hj => ⟨hj.1, by simp [Kind.isSymlink]⟩
  | regular content =>
    refine (copyRegularFile_copies hX hp).post fun r d h => ?_
    cases r with
    | error e => exact h
    | ok a => exact ⟨h.1, h.2.mono fun j hj => ⟨hj, by simp [Kind.isSymlink]⟩⟩
  | symlink target | charDevice dev | blockDevice dev =>
    exact Meets.andThen (perform_same hX fun _ => rfl) fun _ => makeNode_copies hX hp
  | namedPipe => exact makeNode_copies hX hp
  | other =>
    rw [hk] at hi
    cases hi

theorem Info.stamped_eq {times : Times} (h : setTimes i.attrs.times.timespecs = some times) :
    i.stamped = { i with attrs.times := times } := by
  rw [Info.stamped, h]
  rfl

theorem copyAttrs_copies (hX : faulty = true → X) {times : Times}
    (htimes : setTimes i.attrs.times.timespecs = some times)
    (hlink : i.kind.isSymlink = true → i.attrs.mode = linkMode) :
    Copies faulty X E (Making l p (OfKind i)) (copyAttrs p i) (Making l p (· = i.stamped)) := by
  -- one attribute after the other becomes that of the source
  let owned (j : Info) : Prop :=
    OfKind i j ∧ j.attrs.uid = i.attrs.uid ∧ j.attrs.gid = i.attrs.gid
  let moded (j : Info) : Prop :=
    j.kind = i.kind ∧ j.attrs.mode = i.attrs.mode ∧ j.attrs.uid = i.attrs.uid ∧
      j.attrs.gid = i.attrs.gid
  have hlchown : Copies faulty X E (Making l p (OfKind i))
      (perform (.lchown p i.attrs.uid i.attrs.gid)) (Making l p owned) :=
    making_copies hX (fun t ht => if_neg ht) fun j hj => ⟨hj, rfl, rfl⟩
  have hchmod : Copies faulty X E (Making l p owned)
      (if i.kind.isSymlink then return .ok () else perform (.chmod p i.attrs.mode))
      (Making l p moded) := by
    refine Meets.ite (fun hsym => Meets.ret fun d h => ⟨h.1, h.2.mono ?_⟩) fun _ => ?_
    · rintro j ⟨⟨hkind, hmode⟩, huid, hgid⟩
      exact ⟨hkind, (hmode hsym).trans (hlink hsym).symm, huid, hgid⟩
    · refine making_copies hX (fun t ht => if_neg ht) ?_
      rintro j ⟨⟨hkind, -⟩, huid, hgid⟩
      exact ⟨hkind, rfl, huid, hgid⟩
  refine Meets.andThen hlchown fun _ => Meets.andThen hchmod fun _ => ?_
  refine Meets.andThen (perform_same hX fun _ => rfl) fun _ => ?_
  refine making_copies hX (fun t ht => (if_neg ht).trans (by rw [htimes]; rfl)) ?_
  rintro ⟨k, a⟩ ⟨hkind, hmode, huid, hgid⟩
  rw [Info.stamped_eq htimes]
  cases i
  simp_all

theorem copyWalker_copies (hX : faulty = true → X) (hi : i.supported = true)
    (hlink : i.kind.isSymlink = true → i.attrs.mode = linkMode) (hp : Free l p) :
    Copies faulty X E (Copied l) (copyWalker p i) (Copied (l ++ [(p, i)])) := by
  obtain ⟨hkind, hset⟩ := Bool.and_eq_true_iff.mp hi
  obtain ⟨times, htimes⟩ := Option.isSome_iff_exists.mp hset
  refine Meets.andThen (perform_same hX fun _ => rfl) fun _ => ?_
  refine Meets.andThen (copyKind_copies hX hkind hp) fun _ => ?_
  have hattrs : Copies faulty X E (Making l p (OfKind i)) (copyAttrs p i)
      (Copied (l ++ [(p, i)])) := by
    refine (copyAttrs_copies hX htimes hlink).post fun r d h => ?_
    cases r with
    | error e => exact h
    | ok _ => exact ⟨h.1, h.2.copied hp.1⟩
  refine Meets.andThen hattrs fun _ => ?_
  exact Meets.ite (fun _ => perform_same hX fun _ => rfl) fun _ => Meets.ret fun _ h => h

end copies

section database

variable {faulty : Bool} {E : Name → Entry} {db : Database}

theorem Database.free {l₁ l₂ : List (Path × Info)} {p : Path} {i : Info}
    (h : db.visits = l₁ ++ (p, i) :: l₂) : Free l₁ p := by
  constructor
  · have hnodup := db.nodup
    rw [h, Assoc.Distinct, List.map_append, List.map_cons] at hnodup
    rw [Assoc.lookup_eq_none_iff]
    exact fun hmem => (List.nodup_middle.mp hnodup).notMem (List.mem_append_left _ hmem)
  · rintro n q rfl
    exact db.parents l₁ n q i l₂ h

/-- The map `dirs` has the times of the directories. -/
def Records (l : List (Path × Info)) (dirs : List (Path × Timespecs)) : Prop :=
  ∀ p ts, (p, ts) ∈ dirs ↔ ∃ i, (p, i) ∈ l ∧ i.isDir = true ∧ i.attrs.times.timespecs = ts

variable {dirs : List (Path × Timespecs)}

theorem Records.snoc {l : List (Path × Info)} (h : Records l dirs) (p : Path) (i : Info) :
    Records (l ++ [(p, i)]) (if i.isDir then (p, i.attrs.times.timespecs) :: dirs else dirs) := by
  intro q ts
  have hq := h q ts
  by_cases hdir : i.isDir = true
  · simp only [hdir, if_true, List.mem_cons, hq, List.mem_append, Prod.mk.injEq, or_and_right,
      exists_or, List.not_mem_nil, or_false]
    constructor
    · rintro (⟨rfl, rfl⟩ | hold)
      · exact .inr ⟨i, ⟨rfl, rfl⟩, hdir, rfl⟩
      · exact .inl hold
    · rintro (hold | ⟨j, ⟨rfl, rfl⟩, -, rfl⟩)
      · exact .inr hold
      · exact .inl ⟨rfl, rfl⟩
  · simp only [hdir, if_false, hq, List.mem_append, List.mem_singleton, Prod.mk.injEq,
      or_and_right, exists_or, Bool.false_eq_true]
    constructor
    · exact .inl
    · rintro (hold | ⟨j, ⟨rfl, rfl⟩, hj, -⟩)
      · exact hold
      · exact absurd hj hdir

theorem copyWalker_unsupported {X : Prop} {p : Path} {i : Info} {A : Disk → Prop} (hX : X)
    (hi : i.supported = false) :
    Meets (step faulty) A (copyWalker p i) (Outcome (fun _ _ => X) fun _ _ => False) := by
  have hany : ∀ {α : Type} {A : Disk → Prop} {x : BackupProg (Except Err α)},
      Meets (step faulty) A x (Outcome (fun _ _ => X) fun _ _ => True) := by
    intro α A x d r d' _ _
    cases r with
    | error e => exact hX
    | ok _ => trivial
  refine Meets.andThen hany fun _ => ?_
  rcases Bool.and_eq_false_iff.mp hi with hkind | hset
  · have hstop : copyKind p i = pure (.error (.unsupported p)) := by
      unfold copyKind
      cases hk : i.kind with
      | other => rfl
      | _ =>
        rw [hk] at hkind
        cases hkind
    rw [hstop]
    exact Meets.andThen_fails (Meets.ret fun _ _ => hX)
  · -- `utimensat` refuses the times
    have hrefused : Meets (step faulty) (fun _ => True) (perform (.utimes p i.attrs.times.timespecs))
        (Outcome (fun _ _ => X) fun _ _ => False) := by
      have hcall : Meets (step faulty) (fun _ => True)
          (call (.sys (.utimes p i.attrs.times.timespecs))) fun (r : Bool) _ => r = false := by
        refine Meets.call fun d r d' _ hs => ?_
        have hnone : setTimes i.attrs.times.timespecs = none := by simpa using hset
        simp only [step, Sys.effect, hnone, Option.map_none, ite_self] at hs
        cases r with
        | false => rfl
        | true => cases hs
      refine Meets.bind hcall fun r => ?_
      cases r with
      | true => exact Meets.ret fun _ h => nomatch h
      | false => exact Meets.ret fun _ _ => hX
    refine Meets.andThen hany fun _ => Meets.andThen_fails ?_
    exact Meets.andThen hany fun _ => Meets.andThen hany fun _ => Meets.andThen hany fun _ => hrefused

variable (db) in
structure Walked (dirs : List (Path × Timespecs)) (t : Entry) : Prop where
  copied : Copied db.visits t
  records : Records db.visits dirs
  supported : db.supported = true

theorem copyEach_walks {rest : List (Path × Info)} : ∀ {l : List (Path × Info)}
    {dirs : List (Path × Timespecs)}, db.visits = l ++ rest → Records l dirs →
    (∀ x ∈ l, x.2.supported = true) →
    Meets (step faulty) (Copying E (Copied l)) (copyEach rest dirs)
      (Outcome (fun _ _ => faulty = true ∨ db.supported = false) fun dirs =>
        Copying E (Walked db dirs)) := by
  induction rest with
  | nil =>
    intro l dirs hl hrec hsup
    rw [List.append_nil] at hl
    subst hl
    have hall : db.supported = true := List.all_eq_true.mpr hsup
    exact Meets.ret fun d hd => ⟨hd.1, hd.2, hrec, hall⟩
  | cons x rest ih =>
    obtain ⟨p, i⟩ := x
    intro l dirs hl hrec hsup
    have hmem : (p, i) ∈ db.visits := by
      rw [hl]
      exact List.mem_append_right _ List.mem_cons_self
    by_cases hi : i.supported = true
    · have hwalk := copyWalker_copies (E := E) (X := faulty = true ∨ db.supported = false) .inl hi
        (db.links p i hmem) (Database.free hl)
      refine Meets.andThen hwalk fun _ => ih ?_ (hrec.snoc p i) ?_
      · rw [hl, List.append_assoc]
        rfl
      · intro y hy
        rcases List.mem_append.mp hy with hy | hy
        · exact hsup y hy
        · rw [List.mem_singleton.mp hy]
          exact hi
    · have hno : db.supported = false :=
        List.all_eq_false.mpr ⟨(p, i), hmem, hi⟩
      have hwalk : Meets (step faulty) (Copying E (Copied l)) (copyWalker p i)
          (Outcome (fun _ _ => faulty = true ∨ db.supported = false) fun _ _ => False) :=
        copyWalker_unsupported (.inr hno) (Bool.eq_false_iff.mpr hi)
      exact Meets.andThen_fails hwalk

variable (db) in
/-- The copy is exact, but for the times of the directories in `dirs`. -/
structure Restoring (dirs : List (Path × Timespecs)) (t : Entry) : Prop where
  copied : Copied db.visits t
  exact_times : ∀ p i, (p, i) ∈ db.visits → i.isDir = true →
    (p, i.attrs.times.timespecs) ∉ dirs → t.node p = some i.stamped

theorem mem_visits {p : Path} {i : Info} : (p, i) ∈ db.visits ↔ db.visits.lookup p = some i :=
  (Assoc.lookup_eq_some_iff db.nodup).symm

theorem Copied.dir {t : Entry} {p : Path} {i : Info} (h : Copied db.visits t)
    (hi : (p, i) ∈ db.visits) (hdir : i.isDir = true) :
    ∃ times, t.node p = some { i with attrs.times := times } := by
  have hp := h p
  rw [mem_visits.mp hi] at hp
  obtain ⟨j, hj, hji⟩ := Option.map_eq_some_iff.mp hp
  have hjdir : j.isDir = true := by
    rw [← untimed_isDir, hji, untimed_isDir]
    exact hdir
  have hidir : i.stamped.isDir = true := hdir
  replace hji : j.untimed = i.stamped.untimed := hji
  unfold Info.untimed at hji
  rw [if_pos hjdir, if_pos hidir] at hji
  refine ⟨j.attrs.times, hj.trans ?_⟩
  obtain ⟨kind, attrs⟩ := i
  obtain ⟨kind', attrs'⟩ := j
  simp only [Info.stamped, Info.mk.injEq, Attrs.mk.injEq] at hji
  obtain ⟨rfl, hmode, huid, hgid, -⟩ := hji
  simp [← hmode, ← huid, ← hgid]

theorem Restoring.next {t : Entry} {p : Path} {i : Info} {times : Times}
    (h : Restoring db ((p, i.attrs.times.timespecs) :: dirs) t) (hi : (p, i) ∈ db.visits)
    (hdir : i.isDir = true) (htimes : setTimes i.attrs.times.timespecs = some times) :
    Restoring db dirs (setAttrs t p fun a => { a with times := times }) := by
  obtain ⟨_, hp⟩ := h.copied.dir hi hdir
  have hnode : (setAttrs t p fun a => { a with times := times }).node p = some i.stamped := by
    rw [setAttrs_node, if_pos rfl, hp, Info.stamped_eq htimes]
    rfl
  refine ⟨fun q => ?_, fun q j hj hjdir hnot => ?_⟩
  · by_cases hq : q = p
    · rw [hq, hnode, mem_visits.mp hi]
      rfl
    · rw [setAttrs_node, if_neg hq]
      exact h.copied q
  · by_cases hq : q = p
    · subst hq
      have hij : some i = some j := (mem_visits.mp hi).symm.trans (mem_visits.mp hj)
      rw [hnode, Option.some.inj hij]
    · rw [setAttrs_node, if_neg hq]
      exact h.exact_times q j hj hjdir (by simp [hq, hnot])

theorem Restoring.done {t : Entry} (h : Restoring db [] t) : t = db.copy := by
  ext1 p
  show t.node p = (db.visits.lookup p).map Info.stamped
  have hp := h.copied p
  cases hi : db.visits.lookup p with
  | none => exact h.copied.absent hi
  | some i =>
    by_cases hdir : i.isDir = true
    · exact h.exact_times p i (mem_visits.mpr hi) hdir List.not_mem_nil
    · rw [hi] at hp
      obtain ⟨j, hj, hji⟩ := Option.map_eq_some_iff.mp hp
      have hidir : ¬ i.stamped.isDir = true := hdir
      have hjdir : ¬ j.isDir = true := by rwa [← untimed_isDir, hji, untimed_isDir]
      rw [hj, Option.map_some, show j = i.stamped by simpa [Info.untimed, hidir, hjdir] using hji]

theorem Database.settable (hsup : db.supported = true) {p : Path} {i : Info}
    (hi : (p, i) ∈ db.visits) : ∃ times, setTimes i.attrs.times.timespecs = some times :=
  Option.isSome_iff_exists.mp (Bool.and_eq_true_iff.mp (List.all_eq_true.mp hsup _ hi)).2

theorem restoreTimes_restores {X : Prop} (hX : faulty = true → X) (hsup : db.supported = true)
    (hdirs : ∀ p ts, (p, ts) ∈ dirs →
      ∃ i, (p, i) ∈ db.visits ∧ i.isDir = true ∧ i.attrs.times.timespecs = ts) :
    Copies faulty X E (Restoring db dirs) (restoreTimes dirs) (· = db.copy) := by
  induction dirs with
  | nil => exact Meets.ret fun d hd => ⟨hd.1, hd.2.done⟩
  | cons x dirs ih =>
    obtain ⟨p, ts⟩ := x
    obtain ⟨i, hi, hdir, rfl⟩ := hdirs p ts List.mem_cons_self
    obtain ⟨times, htimes⟩ := Database.settable hsup hi
    have hutimes : Copies faulty X E (Restoring db ((p, i.attrs.times.timespecs) :: dirs))
        (perform (.utimes p i.attrs.times.timespecs)) (Restoring db dirs) := by
      refine perform_copies hX fun t ht => ⟨_, ?_, ht.next hi hdir htimes⟩
      obtain ⟨_, hp⟩ := ht.copied.dir hi hdir
      simp [Sys.effect, hp, htimes]
    exact Meets.andThen hutimes fun _ => ih fun q ts hq => hdirs q ts (List.mem_cons_of_mem _ hq)

/-- **A copy of the database**: from an empty `tmp`, and unless there is a reason to fail. -/
theorem copyTree_copies : Meets (step faulty) (Copying E (· = .empty)) (copyTree db)
      (Outcome (fun _ _ => faulty = true ∨ db.supported = false) fun _ d =>
        Copying E (· = db.copy) d ∧ db.supported = true) := by
  have hwalk : Meets (step faulty) (Copying E (· = .empty)) (copyEach db.visits [])
      (Outcome (fun _ _ => faulty = true ∨ db.supported = false) fun dirs =>
        Copying E (Walked db dirs)) := by
    refine (copyEach_walks (l := []) rfl ?_ ?_).pre fun d hd => ⟨hd.1, ?_⟩
    · intro p ts
      simp
    · intro x hx
      cases hx
    · rw [hd.2]
      exact fun p => rfl
  refine Meets.andThen hwalk fun dirs => ?_
  have horder : Meets (step faulty) (Copying E (Walked db dirs)) (call (.order dirs))
      fun (r : List (Path × Timespecs)) d => Copying E (Walked db dirs) d ∧ r.Perm dirs := by
    refine Meets.call fun d r d' hd hs => ?_
    obtain ⟨hperm, hs⟩ := Option.ite_none_right_eq_some.mp hs
    cases hs
    exact ⟨hd, hperm⟩
  refine Meets.bind horder fun r d res d' hd hr => ?_
  obtain ⟨⟨hE, hwalked⟩, hperm⟩ := hd
  have hrestore : Copies faulty (faulty = true ∨ db.supported = false) E (Restoring db r)
      (restoreTimes r) (· = db.copy) :=
    restoreTimes_restores .inl hwalked.supported fun p ts hp =>
      (hwalked.records p ts).mp (hperm.mem_iff.mp hp)
  have hstart : Restoring db r d.tmp := by
    refine ⟨hwalked.copied, fun p i hi hdir hnot => absurd ?_ hnot⟩
    exact hperm.mem_iff.mpr ((hwalked.records p _).mpr ⟨i, hi, hdir, rfl⟩)
  have hend := hrestore d res d' ⟨hE, hstart⟩ hr
  cases res with
  | error e => exact hend
  | ok _ => exact ⟨hend, hwalked.supported⟩

end database

section blocked

variable {faulty : Bool} {E : Name → Entry} {db : Database}

theorem perform_entries {c : Sys} (h : ∀ t, c.effect t = some t) :
    Meets (step faulty) (fun d => d.entries = E) (perform c)
      (Outcome (fun _ d => d.entries = E) fun _ d => d.entries = E) := by
  refine Meets.must (Meets.call fun d r d' hd hs => ?_) fun d hd => hd
  simp only [step, h] at hs
  cases r with
  | true =>
    cases hs
    rw [Disk.setTmp, Disk.set_entries, Disk.tmp, Function.update_eq_self, hd]
  | false =>
    obtain ⟨-, hs⟩ := Option.ite_none_right_eq_some.mp hs
    cases hs
    exact hd

/-- **Nothing is copied over something**: the first thing to be made is `tmp` itself. -/
theorem copyTree_blocked (htmp : (E tmpName).present = true) :
    Meets (step faulty) (fun d => d.entries = E) (copyTree db)
      (Outcome (fun _ d => d.entries = E) fun _ _ => False) := by
  have hmake : Meets (step faulty) (fun d => d.entries = E) (makeNode [] .dir)
      (Outcome (fun _ d => d.entries = E) fun _ _ => False) := by
    have hcall : Meets (step faulty) (fun d => d.entries = E) (call (.make [] .dir))
        (Outcome (fun _ d => d.entries = E) fun _ _ => False) := by
      refine Meets.call fun d r d' hd hs => ?_
      cases r with
      | ok a =>
        have hnode : d.tmp.node [] ≠ none := by
          rw [Disk.tmp, hd]
          simpa [Fs.Tree.present, Option.isSome_iff_ne_none] using htmp
        simp [step, Disk.make, hnode] at hs
      | error e =>
        obtain ⟨-, hs⟩ := Option.ite_none_right_eq_some.mp hs
        cases hs
        exact hd
    refine Meets.bind hcall fun r => ?_
    cases r with
    | ok a => exact Meets.ret fun _ h => h
    | error e => exact Meets.ret fun _ h => h
  obtain ⟨a, l, hvisits⟩ := db.root
  have hwalk : Meets (step faulty) (fun d => d.entries = E) (copyWalker [] ⟨.dir, a⟩)
      (Outcome (fun _ d => d.entries = E) fun _ _ => False) := by
    refine Meets.andThen (perform_entries fun _ => rfl) fun _ => ?_
    have hkind : Meets (step faulty) (fun d => d.entries = E) (copyKind [] ⟨.dir, a⟩)
        (Outcome (fun _ d => d.entries = E) fun _ _ => False) := Meets.andThen_fails hmake
    exact Meets.andThen_fails hkind
  have heach : Meets (step faulty) (fun d => d.entries = E) (copyEach db.visits [])
      (Outcome (fun _ d => d.entries = E) fun _ _ => False) := by
    rw [hvisits]
    exact Meets.andThen_fails hwalk
  exact Meets.andThen_fails heach

end blocked

end Rkt.Backup
