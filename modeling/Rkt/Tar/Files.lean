import Rkt.Fs.Tree
import Rkt.Tar.Extract

set_option autoImplicit false

namespace Rkt.Tar

open Conc Prog Json Path Uid

inductive Node where
  | dir (mode : UInt32)
  | regular (data : Bytes) (mode : UInt32)
  deriving DecidableEq, Repr

def Node.isDir : Node → Bool
  | .dir _ => true
  | .regular _ _ => false

abbrev Files := Fs.Tree Str Node.isDir

def emptyRoot (mode : UInt32) : Files := Fs.Tree.empty.make [] (.dir mode) ⟨rfl, rfl⟩

/-- `os.MkdirAll`. -/
def mkdirAll (t : Files) (mode : UInt32) : Loc → Option Files
  | [] => if (t.node []).any Node.isDir then some t else none
  | n :: p =>
    match t.node (n :: p) with
    | some k => if k.isDir then some t else none
    | none =>
      (mkdirAll t mode p).bind fun t' =>
      if h : t'.node (n :: p) = none ∧ t'.parentOk (n :: p) = true then
        some (t'.make (n :: p) (.dir mode) h)
      else none

/-- `os.OpenFile`: a file that is there is opened as it is. -/
def openFile (t : Files) (mode : UInt32) (p : Loc) : Option Files :=
  match t.node p with
  | some (.regular _ _) => some t
  | some (.dir _) => none
  | none =>
    if h : t.node p = none ∧ t.parentOk p = true then some (t.make p (.regular [] mode) h)
    else none

/-- The data is written over the beginning of what is there. -/
def overlay (old data : Bytes) : Bytes := data ++ old.drop data.length

def Node.write (data : Bytes) : Node → Node
  | .regular old mode => .regular (overlay old data) mode
  | .dir mode => .dir mode

def Node.chmod (mode : UInt32) : Node → Node
  | .regular data _ => .regular data mode
  | .dir _ => .dir mode

@[simp] theorem Node.isDir_write (data : Bytes) (n : Node) : (n.write data).isDir = n.isDir := by
  cases n <;> rfl

@[simp] theorem Node.isDir_chmod (mode : UInt32) (n : Node) : (n.chmod mode).isDir = n.isDir := by
  cases n <;> rfl

/-- `io.Copy` to a file. -/
def copy (t : Files) (data : Bytes) (p : Loc) : Option Files :=
  if (t.node p).any (!·.isDir) then some (t.modify p (·.write data) (Node.isDir_write data))
  else none

def chmod (t : Files) (mode : UInt32) (p : Loc) : Option Files :=
  if (t.node p).isSome then some (t.modify p (·.chmod mode) (Node.isDir_chmod mode)) else none

/-- An operation that needs the file, and changes nothing that is looked at. -/
def touch (t : Files) (p : Loc) : Option Files := if (t.node p).isSome then some t else none

def sysStep : Sys → Files → Option Files
  | .removeAll p, t => if p = [] then none else some (t.prune [p])
  | .mkdirAll p mode, t => mkdirAll t mode p
  | .openFile p mode, t => openFile t mode p
  | .copy p data, t => copy t data p
  | .fchmod p mode, t | .chmod p mode, t => chmod t mode p
  | .openDir p, t | .lchown p _ _, t | .utimesNano p _, t | .lUtimesNano p _, t => touch t p
  -- these are not in the tarballs that are looked at
  | .link _ _, _ | .symlink _ _, _ | .mknod _ _ _ _, _ | .mkfifo _ _, _ => none

/-- A file stands where a directory is needed to get to the path. -/
def blocked (t : Files) (p : Loc) : Bool := p.tails.tail.any fun q => (t.node q).any (!·.isDir)

def lstatOk (t : Files) (p : Loc) : Stat → Bool
  | .notExist => (t.node p).isNone && !blocked t p
  | .found isDir => (t.node p).any fun n => n.isDir == isDir
  | .failed => true

def treeStep : (o : Op) → o.Res → Files → Option Files
  | .sys c, ok, t => if (show Bool from ok) then sysStep c t else some t
  | .lstat p, answer, t => if lstatOk t p answer then some t else none

/-- The contents and the mode of the regular files. -/
abbrev FileMap := Loc → Option (Bytes × UInt32)

def Node.file : Node → Option (Bytes × UInt32)
  | .regular data mode => some (data, mode)
  | .dir _ => none

def file (t : Files) : FileMap := fun p => (t.node p).bind Node.file

def content (m : FileMap) (p : Loc) : Bytes := ((m p).map (·.1)).getD []

def Entry.loc (e : Entry) : Loc := joinRoot e.hdr.name

def Entry.regular (e : Entry) : Bool := e.hdr.typeflag = .reg ∨ e.hdr.typeflag = .regA

def putEntry (overwrite : Bool) (m : FileMap) (e : Entry) : FileMap := fun p =>
  if p = e.loc then
    if e.regular then
      some (overlay (if overwrite then [] else content m p) e.data, e.hdr.mode)
    else none
  -- a file takes the place of a directory, and of all that is in it
  else if overwrite ∧ e.regular ∧ e.loc <:+ p then none
  else m p

variable {t t' : Files} {p q : Loc} {mode : UInt32}

theorem file_make {n : Node} (h : t.node p = none ∧ t.parentOk p = true) :
    file (t.make p n h) = Function.update (file t) p n.file := by
  funext q
  by_cases hq : q = p
  · subst hq
    simp [file, Fs.Tree.make_node]
  · simp [file, Fs.Tree.make_node, hq]

theorem file_modify {f : Node → Node} (hf : ∀ n, (f n).isDir = n.isDir) :
    file (t.modify p f hf) = Function.update (file t) p ((t.node p).bind fun n => (f n).file) := by
  funext q
  by_cases hq : q = p
  · subst hq
    cases hn : t.node q <;> simp [file, Fs.Tree.modify_node, hn]
  · simp [file, Fs.Tree.modify_node, hq]

theorem file_of_isDir (h : (t.node p).any Node.isDir = true) : file t p = none := by
  cases hn : t.node p with
  | none => simp [file, hn]
  | some n =>
    cases n with
    | dir m => simp [file, hn, Node.file]
    | regular d m =>
      rw [hn] at h
      cases h

theorem file_of_none (h : t.node p = none) : file t p = none := by
  simp [file, h]

/-- `os.MkdirAll` makes directories only, and only above the path. -/
theorem mkdirAll_ok (h : mkdirAll t mode p = some t') :
    file t' = file t ∧ (t'.node p).any Node.isDir = true ∧
      ∀ q, ¬ q <:+ p → t'.node q = t.node q := by
  induction p generalizing t' with
  | nil =>
    unfold mkdirAll at h
    split_ifs at h with hroot
    cases h
    exact ⟨rfl, hroot, fun _ _ => rfl⟩
  | cons n p ih =>
    unfold mkdirAll at h
    split at h
    case h_1 k hk =>
        split_ifs at h with hdir
        cases h
        exact ⟨rfl, by rw [hk]; exact hdir, fun _ _ => rfl⟩
    case h_2 hnone =>
        obtain ⟨t1, h1, h⟩ := Option.bind_eq_some_iff.mp h
        obtain ⟨hfile, -, hother⟩ := ih h1
        split_ifs at h with hmake
        cases h
        refine ⟨?_, by simp [Fs.Tree.make_node, Node.isDir], fun q hq => ?_⟩
        · rw [file_make, hfile]
          exact Function.update_eq_self_iff.mpr (file_of_none hnone).symm
        · have hne : q ≠ n :: p := fun heq => hq (heq ▸ List.suffix_refl _)
          rw [Fs.Tree.make_node, if_neg hne]
          exact hother q fun hsuffix => hq (hsuffix.trans (List.suffix_cons n p))

theorem openFile_ok (h : openFile t mode p = some t') : (t.node p).any Node.isDir = false ∧
      ∃ m, file t' = Function.update (file t) p (some (content (file t) p, m)) := by
  unfold openFile at h
  split at h
  case h_1 d m hnode =>
      cases h
      refine ⟨by rw [hnode]; rfl, m, ?_⟩
      have hfile : file t p = some (d, m) := by simp [file, hnode, Node.file]
      rw [content, hfile]
      exact (Function.update_eq_self_iff.mpr hfile.symm).symm
  case h_2 => cases h
  case h_3 hnone =>
      split_ifs at h
      cases h
      refine ⟨by rw [hnone]; rfl, mode, ?_⟩
      rw [file_make, content, file_of_none hnone]
      rfl

theorem copy_ok {data : Bytes} (h : copy t data p = some t') {old : Bytes}
    (hold : file t p = some (old, mode)) :
    file t' = Function.update (file t) p (some (overlay old data, mode)) := by
  unfold copy at h
  split_ifs at h
  cases h
  rw [file_modify]
  cases hn : t.node p with
  | none =>
    rw [file_of_none hn] at hold
    cases hold
  | some n =>
    cases n with
    | dir m => simp [file, hn, Node.file] at hold
    | regular d m =>
      have hsame : (d, m) = (old, mode) := by simpa [file, hn, Node.file] using hold
      cases hsame
      rfl

theorem chmod_ok (h : chmod t mode p = some t') :
    file t' = Function.update (file t) p ((file t p).map fun x => (x.1, mode)) := by
  unfold chmod at h
  split_ifs at h
  cases h
  rw [file_modify]
  congr 1
  cases hn : t.node p with
  | none => simp [file, hn]
  | some n => cases n <;> simp [file, hn, Node.file, Node.chmod]

theorem touch_ok (h : touch t p = some t') : t' = t := by
  unfold touch at h
  split_ifs at h
  exact (Option.some.inj h).symm

variable {u : Unit} {hdr : Header} {e : Entry}

/-- Nothing was there, or a directory that is kept, or what was there is removed. -/
theorem removeOld_ok (h : (removeOld hdr).Runs treeStep t (.ok u) t') :
    (t' = t ∧ t.node (joinRoot hdr.name) = none) ∨ (t' = t ∧ hdr.typeflag = .dir) ∨
    (t' = t.prune [joinRoot hdr.name] ∧
      ((t.node (joinRoot hdr.name)).any Node.isDir = false ∨ hdr.typeflag ≠ .dir)) := by
  unfold removeOld at h
  obtain ⟨answer, s1, hstat, h⟩ := runs_bind.mp h
  have hs : treeStep (.lstat (joinRoot hdr.name)) answer t = some s1 := runs_call.mp hstat
  simp only [treeStep] at hs
  split_ifs at hs with hanswer
  cases hs
  cases answer with
  | notExist =>
    obtain ⟨-, rfl⟩ := h
    simp only [lstatOk, Bool.and_eq_true, Option.isNone_iff_eq_none] at hanswer
    exact .inl ⟨rfl, hanswer.1⟩
  | failed =>
    obtain ⟨hne, -⟩ := h
    cases hne
  | found isDir =>
    dsimp only at h
    split_ifs at h with hremove
    · have hprune : sysStep (.removeAll (joinRoot hdr.name)) t = some t' := runs_perform_ok.mp h
      simp only [sysStep] at hprune
      split_ifs at hprune
      cases hprune
      refine .inr (.inr ⟨rfl, hremove.imp_left fun hfile => ?_⟩)
      have hfalse : isDir = false := by simpa using hfile
      cases hn : t.node (joinRoot hdr.name) with
      | none => rfl
      | some n => simpa [lstatOk, hn, hfalse] using hanswer
    · obtain ⟨-, rfl⟩ := h
      rw [not_or, not_not] at hremove
      exact .inr (.inl ⟨rfl, hremove.2⟩)

/-- After a file has been made room for, nothing is at its path or below it. -/
theorem removeOld_file (htyp : hdr.typeflag ≠ .dir)
    (h : (removeOld hdr).Runs treeStep t (.ok u) t') :
    file t' = fun p => if joinRoot hdr.name <:+ p then none else file t p := by
  funext p
  rcases removeOld_ok h with ⟨rfl, hnone⟩ | ⟨-, hdir⟩ | ⟨rfl, -⟩
  · split_ifs with hsuffix
    · refine file_of_none ?_
      by_cases hp : p = joinRoot hdr.name
      · rwa [hp]
      · exact Fs.Tree.node_of_notDir (by rw [hnone]; rfl) hsuffix hp
    · rfl
  · exact absurd hdir htyp
  · rw [file, Fs.Tree.prune_node]
    split_ifs <;> rfl

theorem removeOld_dir (htyp : hdr.typeflag = .dir)
    (h : (removeOld hdr).Runs treeStep t (.ok u) t') (hp : p ≠ joinRoot hdr.name) :
    file t' p = file t p := by
  rcases removeOld_ok h with ⟨rfl, -⟩ | ⟨rfl, -⟩ | ⟨rfl, hfile | hne⟩
  · rfl
  · rfl
  · rw [file, Fs.Tree.prune_node]
    split_ifs with hsuffix
    · exact (file_of_none (Fs.Tree.node_of_notDir hfile hsuffix hp)).symm
    · rfl
  · exact absurd htyp hne

theorem restore_ok (htyp : e.hdr.typeflag ≠ .symlink)
    (h : (restore e.hdr).Runs treeStep t (.ok u) t') : file t' = Function.update (file t) e.loc
      ((file t e.loc).map fun x => (x.1, e.hdr.mode)) := by
  dsimp only [restore] at h
  rw [if_pos htyp, if_pos htyp] at h
  obtain ⟨_, s1, hchmod, hutimes⟩ := runs_andThen_ok.mp h
  have hsame : t' = s1 := touch_ok (runs_perform_ok.mp hutimes)
  rw [hsame]
  exact chmod_ok (runs_perform_ok.mp hchmod)

theorem create_file (hreg : e.regular = true) (h : (create e).Runs treeStep t (.ok u) t') :
    ∃ m, file t' =
      Function.update (file t) e.loc (some (overlay (content (file t) e.loc) e.data, m)) := by
  have hrun : (andThen (perform (.openFile e.loc e.hdr.mode)) fun _ =>
      perform (.copy e.loc e.data)).Runs treeStep t (.ok u) t' := by
    have htyp : e.hdr.typeflag = .reg ∨ e.hdr.typeflag = .regA := by
      simpa [Entry.regular] using hreg
    dsimp only [create] at h
    rcases htyp with htyp | htyp <;> rwa [htyp] at h
  obtain ⟨_, s1, hopen, hcopy⟩ := runs_andThen_ok.mp hrun
  obtain ⟨-, m, hfile⟩ := openFile_ok (runs_perform_ok.mp hopen)
  have hold : file s1 e.loc = some (content (file t) e.loc, m) := by
    rw [hfile, Function.update_self]
  refine ⟨m, ?_⟩
  rw [copy_ok (runs_perform_ok.mp hcopy) hold, hfile, Function.update_idem]

theorem create_dir (htyp : e.hdr.typeflag = .dir)
    (h : (create e).Runs treeStep t (.ok u) t') : file t' = file t ∧ file t e.loc = none := by
  dsimp only [create] at h
  rw [htyp] at h
  obtain ⟨_, s1, hmkdir, h⟩ := runs_andThen_ok.mp h
  obtain ⟨_, s2, hopen, hchmod⟩ := runs_andThen_ok.mp h
  obtain ⟨hfile, hdir, -⟩ := mkdirAll_ok (runs_perform_ok.mp hmkdir)
  have hnone := file_of_isDir hdir
  have hsame : s2 = s1 := touch_ok (runs_perform_ok.mp hopen)
  rw [hsame] at hchmod
  constructor
  · rw [chmod_ok (runs_perform_ok.mp hchmod), hnone, ← hfile]
    exact Function.update_eq_self_iff.mpr hnone.symm
  · rw [← hfile]
    exact hnone

/-- **What an entry does to the regular files.** Without overwriting, a directory does not take the
place of a file. -/
theorem extractFile_puts {overwrite : Bool} {r : UidRange}
    (htyp : e.regular = true ∨ e.hdr.typeflag = .dir)
    (h : (extractFile overwrite r e).Runs treeStep t (.ok u) t') :
    file t' = putEntry overwrite (file t) e ∧
      (overwrite = false → e.hdr.typeflag = .dir → file t e.loc = none) := by
  obtain ⟨s1, s2, s3, s4, uid, gid, hold, hparent, hcreate, -, hchown, hrestore⟩ :=
    extractFile_ok h
  have hparent' : file s2 = file s1 := (mkdirAll_ok hparent).1
  have hchown' : s4 = s3 := touch_ok hchown
  rw [hchown'] at hrestore
  rcases htyp with hreg | hdir
  · have hne : e.hdr.typeflag ≠ .symlink ∧ e.hdr.typeflag ≠ .dir := by
      have htyp : e.hdr.typeflag = .reg ∨ e.hdr.typeflag = .regA := by
        simpa [Entry.regular] using hreg
      rcases htyp with htyp | htyp <;> simp [htyp]
    obtain ⟨m, hfile⟩ := create_file hreg hcreate
    have hend := restore_ok hne.1 hrestore
    rw [hfile, hparent', Function.update_idem, Function.update_self] at hend
    have hroom : file s1 = fun p => if overwrite = true ∧ e.loc <:+ p then none else file t p := by
      cases overwrite with
      | false =>
        obtain ⟨-, rfl⟩ := hold
        simp
      | true =>
        rw [removeOld_file hne.2 hold]
        simp [Entry.loc]
    refine ⟨?_, fun _ hdir => absurd hdir hne.2⟩
    rw [hend, hroom]
    funext p
    by_cases hp : p = e.loc
    · subst hp
      cases overwrite <;> simp [putEntry, hreg, content]
    · simp [putEntry, hreg, hp]
  · have hne : e.hdr.typeflag ≠ .symlink := by simp [hdir]
    have hreg : e.regular = false := by simp [Entry.regular, hdir]
    obtain ⟨hsame, hnone⟩ := create_dir hdir hcreate
    rw [hparent'] at hsame hnone
    have hend : file t' = file s1 := by
      rw [restore_ok hne hrestore, hsame, hnone]
      exact Function.update_eq_self_iff.mpr hnone.symm
    have hkept : ∀ p, p ≠ e.loc → file s1 p = file t p := by
      intro p hp
      cases overwrite with
      | false =>
        obtain ⟨-, rfl⟩ := hold
        rfl
      | true => exact removeOld_dir hdir hold hp
    constructor
    · rw [hend]
      funext p
      by_cases hp : p = e.loc
      · simp [putEntry, hreg, hp, hnone]
      · simp [putEntry, hreg, hp, hkept p hp]
    · rintro rfl -
      obtain ⟨-, rfl⟩ := hold
      exact hnone

end Rkt.Tar
