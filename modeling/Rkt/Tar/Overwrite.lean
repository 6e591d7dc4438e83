import Rkt.Tar.Files

set_option autoImplicit false

namespace Rkt.Tar

open Conc Prog Json Path Uid

/-- What the entries do to the regular files, one after the other. -/
def putAll (overwrite : Bool) (es : List Entry) : FileMap :=
  es.foldl (putEntry overwrite) fun _ => none

/-- The entry is that of a regular file, and the last one of its path. -/
structure Last (es done : List Entry) (e : Entry) (later : List Entry) : Prop where
  split : es = done ++ e :: later
  regular : e.regular = true
  last : ∀ e' ∈ later, e'.loc ≠ e.loc

/-- No entry of a directory comes after a file of the same path. -/
def NoDirOverFile (es : List Entry) : Prop :=
  ∀ done e later, es = done ++ e :: later → e.hdr.typeflag = .dir →
    putAll false done e.loc = none

variable {es done later : List Entry} {e e' : Entry} {overwrite : Bool} {p : Loc}

theorem putAll_concat (es : List Entry) (e : Entry) :
    putAll overwrite (es ++ [e]) = putEntry overwrite (putAll overwrite es) e := by
  simp [putAll]

theorem foldl_putEntry_of_ne (h : ∀ e' ∈ later, e'.loc ≠ p) (m : FileMap) :
    later.foldl (putEntry overwrite) m p =
      if overwrite = true ∧ ∃ e' ∈ later, e'.regular = true ∧ e'.loc <:+ p then none else m p := by
  induction later generalizing m with
  | nil => simp
  | cons e' later ih =>
    have hne : p ≠ e'.loc := (h e' List.mem_cons_self).symm
    rw [List.foldl_cons, ih fun e1 h1 => h e1 (List.mem_cons_of_mem e' h1)]
    have hput : putEntry overwrite m e' p =
        if overwrite = true ∧ e'.regular = true ∧ e'.loc <:+ p then none else m p := by
      simp [putEntry, hne]
    rw [hput]
    by_cases hnow : overwrite = true ∧ e'.regular = true ∧ e'.loc <:+ p
    · have hsome : overwrite = true ∧ ∃ e1 ∈ e' :: later, e1.regular = true ∧ e1.loc <:+ p :=
        ⟨hnow.1, e', List.mem_cons_self, hnow.2⟩
      rw [if_pos hnow, if_pos hsome, ite_self]
    · rw [if_neg hnow]
      refine if_congr ?_ rfl rfl
      constructor
      · rintro ⟨how, e1, h1, hreg⟩
        exact ⟨how, e1, List.mem_cons_of_mem e' h1, hreg⟩
      · rintro ⟨how, e1, h1, hreg⟩
        rcases List.mem_cons.mp h1 with rfl | h1
        · exact absurd ⟨how, hreg⟩ hnow
        · exact ⟨how, e1, h1, hreg⟩

theorem Last.putAll_loc (h : Last es done e later) : putAll overwrite es e.loc =
      if overwrite = true ∧ ∃ e' ∈ later, e'.regular = true ∧ e'.loc <:+ e.loc then none
      else some (overlay (if overwrite then [] else content (putAll overwrite done) e.loc) e.data,
        e.hdr.mode) := by
  have hfold : putAll overwrite es =
      later.foldl (putEntry overwrite) (putEntry overwrite (putAll overwrite done) e) := by
    rw [h.split, putAll, List.foldl_append, List.foldl_cons, putAll]
  rw [hfold, foldl_putEntry_of_ne h.last]
  simp [putEntry, h.regular]

theorem length_overlay (old data : Bytes) :
    (overlay old data).length = max data.length old.length := by
  simp only [overlay, List.length_append, List.length_drop]
  omega

theorem overlay_eq_iff (old data : Bytes) : overlay old data = data ↔ old.length ≤ data.length := by
  simp [overlay]

theorem NoDirOverFile.of_append (h : NoDirOverFile (es ++ later)) : NoDirOverFile es := by
  intro done e rest hsplit
  exact h done e (rest ++ later) (by simp [hsplit])

theorem content_putEntry_of_ne (hne : p ≠ e.loc) (m : FileMap) :
    content (putEntry false m e) p = content m p := by
  simp [content, putEntry, hne]

theorem content_putEntry_self (hreg : e.regular = true) (m : FileMap) :
    content (putEntry false m e) e.loc = overlay (content m e.loc) e.data := by
  simp [content, putEntry, hreg]

/-- Without overwriting, a file is as long as the longest of its entries. -/
theorem length_content_le_iff (htypes : ∀ e ∈ es, e.regular = true ∨ e.hdr.typeflag = .dir)
    (hdirs : NoDirOverFile es) {n : Nat} : (content (putAll false es) p).length ≤ n ↔
      ∀ e ∈ es, e.regular = true → e.loc = p → e.data.length ≤ n := by
  induction es using List.reverseRecOn with
  | nil => simp [putAll, content]
  | append_singleton es e ih =>
    have ih' := ih (fun e1 h1 => htypes e1 (List.mem_append_left _ h1)) hdirs.of_append
    rw [putAll_concat, List.forall_mem_append, List.forall_mem_singleton, ← ih']
    by_cases hp : p = e.loc
    · subst hp
      rcases htypes e (by simp) with hreg | hdir
      · rw [content_putEntry_self hreg, length_overlay]
        simp [hreg, and_comm]
      · -- the path of a directory has no file before it, nor after it
        have hreg : e.regular = false := by simp [Entry.regular, hdir]
        have hnone := hdirs es e [] (by simp) hdir
        simp [content, putEntry, hreg, hnone]
    · rw [content_putEntry_of_ne hp]
      simp [Ne.symm hp]

/-- Every file is what the last entry of its path says. -/
def LastWins (es : List Entry) (t : Files) : Prop :=
  ∀ done e later, Last es done e later → t.node e.loc = some (.regular e.data e.hdr.mode)

/-- Without overwriting, no earlier entry of the path is longer; with overwriting, no later entry is
a file at a directory of the path. -/
def Harmless (overwrite : Bool) (es : List Entry) : Prop :=
  ∀ done e later, Last es done e later →
    if overwrite then ∀ e' ∈ later, e'.regular = true → ¬ e'.loc <:+ e.loc
    else ∀ e' ∈ done, e'.regular = true → e'.loc = e.loc → e'.data.length ≤ e.data.length

theorem node_eq_regular {t : Files} {data : Bytes} {mode : UInt32} :
    t.node p = some (.regular data mode) ↔ file t p = some (data, mode) := by
  cases hn : t.node p with
  | none => simp [file, hn]
  | some n => cases n <;> simp [file, hn, Node.file]

theorem Last.wins_iff {t : Files} (h : Last es done e later)
    (htypes : ∀ e ∈ es, e.regular = true ∨ e.hdr.typeflag = .dir)
    (hfile : file t = putAll overwrite es) (hdirs : overwrite = false → NoDirOverFile es) :
    t.node e.loc = some (.regular e.data e.hdr.mode) ↔
      if overwrite then ∀ e' ∈ later, e'.regular = true → ¬ e'.loc <:+ e.loc
      else ∀ e' ∈ done, e'.regular = true → e'.loc = e.loc → e'.data.length ≤ e.data.length := by
  rw [node_eq_regular, hfile, h.putAll_loc]
  cases overwrite with
  | true =>
    have hempty : overlay [] e.data = e.data := by simp [overlay]
    simp [hempty]
  | false =>
    have hdone : NoDirOverFile done := (h.split ▸ hdirs rfl).of_append
    have htypes' : ∀ e ∈ done, e.regular = true ∨ e.hdr.typeflag = .dir := fun e' h' =>
      htypes e' (h.split ▸ List.mem_append_left _ h')
    simp only [Bool.false_eq_true, false_and, ↓reduceIte, Option.some.injEq, Prod.mk.injEq,
      and_true]
    rw [overlay_eq_iff, length_content_le_iff htypes' hdone]

theorem extractTar_puts {tr : Stream} {pwl : PathWhitelistMap} {r : UidRange} {mode : UInt32}
    {t : Files} (htypes : ∀ e ∈ tr.entries, e.regular = true ∨ e.hdr.typeflag = .dir)
    (h : (extractTar tr overwrite pwl r).Runs treeStep (emptyRoot mode) (.ok ()) t) :
    file t = putAll overwrite (tr.entries.filter (selected pwl)) ∧
      (overwrite = false → NoDirOverFile (tr.entries.filter (selected pwl))) := by
  refine extractTar_induct
    (I := fun es t => file t = putAll overwrite es ∧ (overwrite = false → NoDirOverFile es))
    ?_ ?_ htypes ?_ h
  · rintro done e s s' u htyp ⟨hfile, hdirs⟩ hrun
    obtain ⟨hput, hnone⟩ := extractFile_puts htyp hrun
    refine ⟨by rw [hput, hfile, putAll_concat], ?_⟩
    rintro rfl d e1 l hsplit hdir
    -- the entry is the new one, or one of those before
    rcases List.eq_nil_or_concat l with rfl | ⟨l, x, rfl⟩
    · obtain ⟨rfl, hlast⟩ := List.append_inj' hsplit rfl
      cases hlast
      rw [← hfile]
      exact hnone rfl hdir
    · have hsplit' : done ++ [e] = (d ++ e1 :: l) ++ [x] := by simpa using hsplit
      obtain ⟨hdone, -⟩ := List.append_inj' hsplit' rfl
      exact hdirs rfl d e1 l hdone hdir
  · rintro done p ts s s' hI hstep
    have hsame : s' = s := touch_ok hstep
    rwa [hsame]
  · refine ⟨?_, fun _ d e l hsplit => by simp at hsplit⟩
    rw [emptyRoot, file_make]
    funext p
    by_cases hp : p = []
    · subst hp
      simp [putAll, Node.file]
    · simp [putAll, hp, file]

/-- **The last entry of a path wins exactly if the tarball is harmless.** -/
theorem extractTar_last_iff {tr : Stream} {overwrite : Bool} {pwl : PathWhitelistMap} {r : UidRange}
    {mode : UInt32} {t : Files}
    (htypes : ∀ e ∈ tr.entries, e.regular = true ∨ e.hdr.typeflag = .dir)
    (h : (extractTar tr overwrite pwl r).Runs treeStep (emptyRoot mode) (.ok ()) t) :
    LastWins (tr.entries.filter (selected pwl)) t ↔
      Harmless overwrite (tr.entries.filter (selected pwl)) := by
  obtain ⟨hfile, hdirs⟩ := extractTar_puts htypes h
  have htypes' : ∀ e ∈ tr.entries.filter (selected pwl), e.regular = true ∨ e.hdr.typeflag = .dir :=
    fun e he => htypes e (List.mem_of_mem_filter he)
  exact forall_congr' fun done => forall_congr' fun e => forall_congr' fun later =>
    forall_congr' fun hlast => hlast.wins_iff htypes' hfile hdirs

/-- Operations only fail for a reason that lies in the files. -/
def honest : (o : Op) → Files → o.Res
  | .sys c, t => (sysStep c t).isSome
  | .lstat p, t =>
    match t.node p with
    | some n => .found n.isDir
    | none => if blocked t p then .failed else .notExist

def entryF (data : Bytes) : Entry :=
  ⟨⟨[0x66], 0o644, 0, 0, .reg, [], 0, 0, .zero, .zero⟩, data⟩

def twice (first second : Bytes) : Stream := ⟨[entryF first, entryF second], false⟩

/-- The outcome of the extraction, and what is at `/f` then. -/
def outcome (overwrite : Bool) (tr : Stream) : Option (Except TarErr Unit × Option Node) :=
  ((extractTar tr overwrite none ⟨0, 0⟩).eval treeStep honest (emptyRoot 0o755)).map fun x =>
    (x.1, x.2.node [['f']])

theorem runs_of_outcome {tr : Stream} {n : Option Node}
    (h : outcome overwrite tr = some (.ok (), n)) :
    ∃ t, (extractTar tr overwrite none ⟨0, 0⟩).Runs treeStep (emptyRoot 0o755) (.ok ()) t ∧
      t.node [['f']] = n := by
  obtain ⟨⟨result, t⟩, heval, heq⟩ := Option.map_eq_some_iff.mp h
  cases heq
  exact ⟨t, runs_of_eval honest heval, rfl⟩

theorem twice_harmless {first second : Bytes} (h : first.length ≤ second.length) :
    Harmless false (twice first second).entries := by
  rintro done e later ⟨hsplit, -, hlast⟩ e' he' - -
  cases done with
  | nil => cases he'
  | cons x done =>
    obtain ⟨hx, hrest⟩ := List.cons.inj hsplit
    cases done with
    | nil =>
      obtain ⟨he, -⟩ := List.cons.inj hrest
      have hx' : e' = x := List.mem_singleton.mp he'
      subst hx' hx he
      exact h
    | cons y done =>
      obtain ⟨-, hnil⟩ := List.cons.inj hrest
      simp at hnil

theorem extractTar_last_example :
    ∃ t, (extractTar (twice [0x61] [0x62, 0x63]) false none ⟨0, 0⟩).Runs treeStep
        (emptyRoot 0o755) (.ok ()) t ∧
      LastWins (twice [0x61] [0x62, 0x63]).entries t := by
  have houtcome : outcome false (twice [0x61] [0x62, 0x63]) =
      some (.ok (), some (.regular [0x62, 0x63] 0o644)) := rfl
  obtain ⟨t, hrun, -⟩ := runs_of_outcome houtcome
  have htypes : ∀ e ∈ (twice [0x61] [0x62, 0x63]).entries,
      e.regular = true ∨ e.hdr.typeflag = .dir := by decide
  exact ⟨t, hrun, (extractTar_last_iff htypes hrun).mpr (twice_harmless (by decide))⟩

/-- A shorter file does not replace a longer one. -/
theorem extractTar_keeps_longer :
    ∃ t, (extractTar (twice [0x61, 0x62, 0x63] [0x64]) false none ⟨0, 0⟩).Runs treeStep
        (emptyRoot 0o755) (.ok ()) t ∧
      t.node [['f']] = some (.regular [0x64, 0x62, 0x63] 0o644) ∧
      ¬ LastWins (twice [0x61, 0x62, 0x63] [0x64]).entries t := by
  have houtcome : outcome false (twice [0x61, 0x62, 0x63] [0x64]) =
      some (.ok (), some (.regular [0x64, 0x62, 0x63] 0o644)) := rfl
  obtain ⟨t, hrun, hnode⟩ := runs_of_outcome houtcome
  refine ⟨t, hrun, hnode, fun hwins => ?_⟩
  have hnode' : t.node [['f']] = some (.regular [0x64] 0o644) :=
    hwins [entryF [0x61, 0x62, 0x63]] (entryF [0x64]) [] ⟨rfl, rfl, List.forall_mem_nil _⟩
  rw [hnode] at hnode'
  simp at hnode'

end Rkt.Tar
