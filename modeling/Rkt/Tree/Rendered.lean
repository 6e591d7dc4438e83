import Rkt.Conc.Proto
import Rkt.Tree.TreeStore

set_option autoImplicit false

namespace Rkt.Tree

open Conc Prog Proto

/-- The files as the renderer leaves them: where it extracts a path twice, the last one
counts. -/
def built (files : List (Path × Content)) : Files :=
  files.foldl (fun t f => Function.update t f.1 (some f.2)) fun _ => none

/-- The tree is what the renderer produced, with the matching hash. -/
structure Full (H : Files → Content) (files : List (Path × Content)) (t : Files) : Prop where
  files : ∀ path, path ≠ hashfilename → path ≠ renderedfilename → t path = built files path
  hash : t hashfilename = some (H (hashed t))

def Complete (H : Files → Content) (s : World) (key : Key) : Prop :=
  ∃ t, s.trees key = some t ∧ Full H (s.rendering key) t

/-- The renderer leaves the two files of the tree store alone. -/
def Untouched (files : List (Path × Content)) : Prop :=
  ∀ f ∈ files, f.1 ≠ hashfilename ∧ f.1 ≠ renderedfilename

instance (files : List (Path × Content)) : Decidable (Untouched files) :=
  inferInstanceAs (Decidable (∀ f ∈ files, _))

/-- The removal of `rendered` does not fail, and the renderer leaves the two files of the tree
store alone. -/
def tidy : (o : Op) → o.Res → Bool
  | .removeRendered _, (ok : Bool) => ok
  | .render _, r => r.all fun files => Untouched files
  | _, _ => true

/-- The tree store, as long as its operations are tidy. -/
def tidyMachine (H : Files → Content) : Machine treeSig World :=
  (treeMachine H).restrict fun _ o r _ => tidy o r = true

theorem built_append (files : List (Path × Content)) (path : Path) (c : Content) :
    built (files ++ [(path, c)]) = Function.update (built files) path (some c) := by
  simp [built, List.foldl_append]

theorem built_of_notMem {files : List (Path × Content)} {path : Path}
    (h : ∀ f ∈ files, f.1 ≠ path) : built files path = none := by
  induction files using List.reverseRecOn with
  | nil => rfl
  | append_singleton files f ih =>
    have hf : path ≠ f.1 := Ne.symm (h f (by simp))
    rw [built_append, Function.update_of_ne hf]
    exact ih fun g hg => h g (by simp [hg])

theorem hashed_update {t : Files} {path : Path} {c : Option Content}
    (h : path = hashfilename ∨ path = renderedfilename) :
    hashed (Function.update t path c) = hashed t := by
  funext q
  by_cases hq : q = path
  · subst hq
    simp [hashed, h]
  · simp [hashed, Function.update_of_ne hq]

section proto

variable {H : Files → Content} {p : Pid} {key : Key} {s s' : World}
  {files : List (Path × Content)}

def Fine (H : Files → Content) (t : Option Files) (files : List (Path × Content)) : Prop :=
  ∀ t', t = some t' → t' renderedfilename ≠ none → Full H files t'

/-- A step leaves alone what belongs to the holder of another lock. -/
def Guar (p : Pid) (s s' : World) : Prop :=
  ∀ key q, s.locks key = some q → q ≠ p →
    s'.locks key = some q ∧ s'.trees key = s.trees key ∧ s'.rendering key = s.rendering key

def treeProto (H : Files → Content) : Proto (tidyMachine H) where
  inv s := ∀ key, Fine H (s.trees key) (s.rendering key)
  guar := Guar
  inv_die _ _ h := h
  guar_die p s _ key q hq hne := by
    refine ⟨?_, rfl, rfl⟩
    show (if s.locks key = some p then none else s.locks key) = some q
    rw [if_neg (by rw [hq]; simpa using hne), hq]

/-- Process `p` holds the lock of `key`, and `A` holds of its tree. -/
def Own (p : Pid) (key : Key) (A : Option Files → List (Path × Content) → Prop) (s : World) :
    Prop :=
  s.locks key = some p ∧ A (s.trees key) (s.rendering key)

variable {A B : Option Files → List (Path × Content) → Prop}

theorem own_stable : (treeProto H).Stable p (Own p key A) := by
  rintro q s s' hq - - hg ⟨hlock, hA⟩
  obtain ⟨hlock', htree, hfiles⟩ := hg key p hlock (Ne.symm hq)
  exact ⟨hlock', by rw [htree, hfiles]; exact hA⟩

theorem tidy_next {o : Op} {r : o.Res} (h : (tidyMachine H).next p o r s = some s') :
    tidy o r = true ∧ next H p o r s = some s' := by
  obtain ⟨htidy, hn⟩ := Machine.restrict_next h
  simp only [treeMachine] at hn
  split at hn
  · cases hn
  · exact ⟨htidy, hn⟩

/-- Only the tree of `key`, and what is being rendered for it, are touched. -/
structure Touches (key : Key) (s s' : World) : Prop where
  locks : s'.locks = s.locks
  trees : ∀ k, k ≠ key → s'.trees k = s.trees k
  rendering : ∀ k, k ≠ key → s'.rendering k = s.rendering k

/-- The rule for an operation on the tree of `key` by the holder of its lock. -/
theorem own_call {o : Op} {B : o.Res → Option Files → List (Path × Content) → Prop}
    (h : ∀ s r s', A (s.trees key) (s.rendering key) → Fine H (s.trees key) (s.rendering key) →
      tidy o r = true → next H p o r s = some s' → Touches key s s' ∧
        Fine H (s'.trees key) (s'.rendering key) ∧ B r (s'.trees key) (s'.rendering key)) :
    (treeProto H).Triple p (Own p key A) (sys o) (fun r => Own p key (B r)) := by
  refine Triple.call own_stable fun s r s' hi hs hn => ?_
  obtain ⟨hlock, hA⟩ := hs
  obtain ⟨htidy, hn'⟩ := tidy_next hn
  obtain ⟨ht, hfine, hB⟩ := h s r s' hA (hi key) htidy hn'
  have hlock' : s'.locks key = some p := by rw [ht.locks, hlock]
  refine ⟨fun k => ?_, fun k q hq hne => ?_, hlock', hB⟩
  · by_cases hk : k = key
    · rw [hk]
      exact hfine
    · rw [ht.trees k hk, ht.rendering k hk]
      exact hi k
  · have hk : k ≠ key := by
      intro hk
      rw [hk, hlock] at hq
      exact hne (Option.some.inj hq).symm
    exact ⟨by rw [ht.locks, hq], ht.trees k hk, ht.rendering k hk⟩

theorem Touches.refl (key : Key) (s : World) : Touches key s s :=
  ⟨rfl, fun _ _ => rfl, fun _ _ => rfl⟩

theorem touches_setTree (s : World) (key : Key) (t : Option Files) :
    Touches key s (s.setTree key t) :=
  ⟨rfl, fun _ hk => Function.update_of_ne hk _ _, fun _ _ => rfl⟩

@[simp] theorem setTree_trees (s : World) (key : Key) (t : Option Files) :
    (s.setTree key t).trees key = t := by simp [World.setTree]

@[simp] theorem setTree_rendering (s : World) (key : Key) (t : Option Files) :
    (s.setTree key t).rendering = s.rendering := rfl

theorem aside_triple :
    (treeProto H).Triple p (Own p key A) (sys .aside) (fun _ => Own p key A) := by
  refine own_call (B := fun _ => A) fun s r s' hA hf _ hn => ?_
  cases hn
  exact ⟨.refl key s, hf, hA⟩

def Unflagged (t : Option Files) (_ : List (Path × Content)) : Prop := flagged t = false

variable {t : Option Files} {path : Path} {c : Content}

theorem Unflagged.fine (h : Unflagged t files) : Fine H t files := by
  rintro t' rfl hflag
  have hsome : (t' renderedfilename).isSome = false := h
  exact absurd (Option.isSome_eq_false_iff.mp hsome) (by simpa using hflag)

/-- What the answer of `os.Stat` says, for a file that is there if `b`. -/
theorem stat_spec (s s' : World) (r : Stat) (b : Bool)
    (h : (match r with
      | .found => if b then some s else none
      | .notExist => if b then none else some s
      | .failed => some s) = some s') : s' = s ∧ (r = .notExist → b = false) := by
  cases r with
  | found =>
    cases b with
    | false => simp at h
    | true => exact ⟨(Option.some.inj h).symm, nofun⟩
  | notExist =>
    cases b with
    | false => exact ⟨(Option.some.inj h).symm, fun _ => rfl⟩
    | true => simp at h
  | failed => exact ⟨(Option.some.inj h).symm, nofun⟩

theorem statTree_triple : (treeProto H).Triple p (Own p key A) (sys (.statTree key))
    (fun r => Own p key fun t files => A t files ∧ (r = .notExist → t = none)) := by
  refine own_call fun s r s' hA hf _ hn => ?_
  obtain ⟨rfl, hnot⟩ := stat_spec s s' r (s.trees key).isSome (by cases r <;> exact hn)
  exact ⟨.refl key s', hf, hA, fun hr => by simpa using hnot hr⟩

theorem statRendered_triple : (treeProto H).Triple p (Own p key A) (sys (.statRendered key))
    (fun r => Own p key fun t files => A t files ∧ (r = .notExist → Unflagged t files)) := by
  refine own_call fun s r s' hA hf _ hn => ?_
  obtain ⟨rfl, hnot⟩ := stat_spec s s' r (flagged (s.trees key)) (by cases r <;> exact hn)
  exact ⟨.refl key s', hf, hA, hnot⟩

theorem removeRendered_triple : (treeProto H).Triple p (Own p key A) (sys (.removeRendered key))
    (fun _ => Own p key Unflagged) := by
  refine own_call (B := fun _ => Unflagged) fun s r s' _ _ htidy hn => ?_
  have hok : r = true := htidy
  subst hok
  obtain ⟨t, -, rfl⟩ := Option.map_eq_some_iff.mp hn
  have hflag : Unflagged (some (Function.update t renderedfilename none)) (s.rendering key) := by
    simp [Unflagged, flagged]
  refine ⟨touches_setTree s key _, ?_, ?_⟩
  · rw [setTree_trees, setTree_rendering]
    exact hflag.fine
  · rw [setTree_trees]
    exact hflag

theorem removeAll_triple : (treeProto H).Triple p (Own p key Unflagged) (removeAll key)
    (Result (Own p key Unflagged) fun _ => Own p key fun t _ => t = none) := by
  have hop : (treeProto H).Triple p (Own p key Unflagged) (sys (.removeAll key))
      (fun r => Own p key fun t files => Unflagged t files ∧ (r = none → t = none)) := by
    refine own_call fun s r s' hA _ _ hn => ?_
    cases r with
    | none =>
      cases hn
      refine ⟨touches_setTree s key _, ?_, ?_, ?_⟩
      · rw [setTree_trees]
        exact nofun
      · rw [setTree_trees]
        rfl
      · exact fun _ => setTree_trees s key none
    | some gone =>
      cases hn
      have hflag : Unflagged
          ((s.trees key).map fun t path => if gone.contains path then none else t path)
          (s.rendering key) := by
        unfold Unflagged flagged at hA ⊢
        cases htree : s.trees key with
        | none => rfl
        | some t =>
          rw [htree] at hA
          show (if gone.contains renderedfilename then none
            else t renderedfilename).isSome = false
          split
          · rfl
          · exact hA
      refine ⟨touches_setTree s key _, ?_, ?_, nofun⟩
      · rw [setTree_trees, setTree_rendering]
        exact hflag.fine
      · rw [setTree_trees]
        exact hflag
  refine Triple.bind hop fun r => ?_
  cases r with
  | none => exact Triple.ret fun s hs => ⟨hs.1, hs.2.2 rfl⟩
  | some gone => exact Triple.ret fun s hs => ⟨hs.1, hs.2.1⟩

/-- `Remove` leaves no tree if it succeeds. -/
theorem remove_triple : (treeProto H).Triple p (Own p key A) (remove key)
    (Result (Own p key fun _ _ => True) fun _ => Own p key fun t _ => t = none) := by
  have hend : (treeProto H).Triple p (Own p key Unflagged) (removeAll key)
      (Result (Own p key fun _ _ => True) fun _ => Own p key fun t _ => t = none) := by
    refine removeAll_triple.post fun r s hs => ?_
    cases r with
    | ok _ => exact hs
    | error e => exact ⟨hs.1, trivial⟩
  refine Triple.bind statTree_triple fun r => ?_
  cases r with
  | notExist => exact Triple.ret fun s hs => ⟨hs.1, hs.2.2 rfl⟩
  | failed => exact Triple.ret fun s hs => ⟨hs.1, trivial⟩
  | found =>
    refine Triple.bind statRendered_triple fun r => ?_
    cases r with
    | failed => exact Triple.ret fun s hs => ⟨hs.1, trivial⟩
    | notExist => exact hend.pre fun s hs => ⟨hs.1, hs.2.2 rfl⟩
    | found =>
      refine Triple.bind removeRendered_triple fun _ => ?_
      refine Triple.check_same aside_triple (fun s hs => ⟨hs.1, trivial⟩) ?_
      exact Triple.check_same aside_triple (fun s hs => ⟨hs.1, trivial⟩) hend

/-- What is in the tree while the files are extracted: those of `done` are there, those of
`rest` are not. -/
def Extracting (done rest : List (Path × Content)) (t : Option Files)
    (files : List (Path × Content)) : Prop :=
  t = some (built done) ∧ files = done ++ rest ∧ Untouched files

def Extracted (t : Option Files) (files : List (Path × Content)) : Prop :=
  t = some (built files) ∧ Untouched files

/-- All files are extracted, and the file `hash` is written. -/
def Hashed (H : Files → Content) (t : Option Files) (files : List (Path × Content)) : Prop :=
  t = some (Function.update (built files) hashfilename (some (H (hashed (built files))))) ∧
    Untouched files

theorem built_unflagged (h : Untouched files) : built files renderedfilename = none :=
  built_of_notMem fun f hf => (h f hf).2

theorem Extracting.unflagged {done rest : List (Path × Content)}
    (h : Extracting done rest t files) : Unflagged t files := by
  obtain ⟨rfl, rfl, hu⟩ := h
  have hdone : Untouched done := fun f hf => hu f (List.mem_append_left _ hf)
  simp [Unflagged, flagged, built_unflagged hdone]

theorem Extracted.unflagged (h : Extracted t files) : Unflagged t files := by
  obtain ⟨rfl, hu⟩ := h
  simp [Unflagged, flagged, built_unflagged hu]

theorem Hashed.full {t : Files} (h : Hashed H (some t) files) :
    Full H files (Function.update t renderedfilename (some [])) := by
  have ht := Option.some.inj h.1
  have hne : hashfilename ≠ renderedfilename := by decide
  constructor
  · intro path hhash hrendered
    rw [Function.update_of_ne hrendered, ht, Function.update_of_ne hhash]
  · rw [hashed_update (.inr rfl), Function.update_of_ne hne, ht, hashed_update (.inl rfl),
      Function.update_self]

theorem mkdirAll_triple :
    (treeProto H).Triple p (Own p key fun t _ => t = none) (sys (.mkdirAll key))
      (fun (ok : Bool) => Own p key fun t _ => if ok then t = some (built []) else t = none) := by
  refine own_call (o := .mkdirAll key)
    (B := fun (ok : Bool) t _ => if ok then t = some (built []) else t = none)
    fun s (ok : Bool) s' hA _ _ hn => ?_
  have hnone : s.trees key = none := hA
  cases ok with
  | false =>
    have hs : s' = s := (Option.some.inj hn).symm
    subst hs
    have hflag : Unflagged (s'.trees key) (s'.rendering key) := by
      rw [hnone]
      rfl
    exact ⟨.refl key s', hflag.fine, hA⟩
  | true =>
    have hs : s' = s.setTree key (some (built [])) := by
      have := (Option.some.inj hn).symm
      rwa [hnone] at this
    subst hs
    have hflag : Unflagged (some (built [])) (s.rendering key) := rfl
    exact ⟨touches_setTree s key _, by rw [setTree_trees]; exact hflag.fine,
      setTree_trees s key _⟩

theorem render_triple :
    (treeProto H).Triple p (Own p key fun t _ => t = some (built [])) (sys (.render key))
      (fun r => Own p key fun t files =>
        match r with
        | none => Unflagged t files
        | some l => Extracting [] l t files) := by
  refine own_call (o := .render key) (B := fun r t files => match r with
    | none => Unflagged t files
    | some l => Extracting [] l t files) fun s r s' hA _ htidy hn => ?_
  have hflag : ∀ files, Unflagged (s.trees key) files := by
    intro files
    rw [hA]
    rfl
  cases r with
  | none =>
    cases hn
    exact ⟨.refl key s, (hflag _).fine, hflag _⟩
  | some l =>
    cases hn
    have hu : Untouched l := by simpa [tidy] using htidy
    have ht : Touches key s { s with rendering := Function.update s.rendering key l } :=
      ⟨rfl, fun _ _ => rfl, fun _ hk => Function.update_of_ne hk _ _⟩
    refine ⟨ht, (hflag _).fine, hA, ?_, ?_⟩
    · simp
    · simpa using hu

theorem write_spec {t : Files} (ht : s.trees key = some t) (hn : s.write key path c = some s') :
    Touches key s s' ∧ s'.trees key = some (Function.update t path (some c)) ∧
      s'.rendering key = s.rendering key := by
  simp only [World.write, ht, Option.map_some, Option.some.injEq] at hn
  subst hn
  exact ⟨touches_setTree s key _, setTree_trees s key _, rfl⟩

theorem unflagged_write {t : Files} (ht : s.trees key = some t)
    (hflag : t renderedfilename = none) (hne : renderedfilename ≠ path)
    (hn : s.write key path c = some s') : Unflagged (s'.trees key) (s'.rendering key) := by
  obtain ⟨-, htree, -⟩ := write_spec ht hn
  simp [Unflagged, flagged, htree, Function.update_of_ne hne, hflag]

theorem extract_triple {done rest : List (Path × Content)} :
    (treeProto H).Triple p (Own p key (Extracting done ((path, c) :: rest)))
      (sys (.extract key path c)) (Result (Own p key Unflagged) fun _ =>
        Own p key (Extracting (done ++ [(path, c)]) rest)) := by
  have hop := @own_call H p key (Extracting done ((path, c) :: rest)) (.extract key path c)
    (fun r t files => match r with
      | .ok _ => Extracting (done ++ [(path, c)]) rest t files
      | .error _ => Unflagged t files) ?_
  · refine hop.post fun r s hs => ?_
    cases r with
    | ok _ => exact hs
    | error e => exact hs
  · intro s r s' hA _ _ hn
    obtain ⟨ht, hfiles, hu⟩ := hA
    have hpath : (path, c) ∈ s.rendering key := by simp [hfiles]
    have hne : renderedfilename ≠ path := Ne.symm (hu _ hpath).2
    have hdone : Untouched done := fun f hf => hu f (by simp [hfiles, hf])
    cases r with
    | ok _ =>
      obtain ⟨htouch, htree, hrend⟩ := write_spec ht hn
      have hnew : Extracting (done ++ [(path, c)]) rest (s'.trees key) (s'.rendering key) :=
        ⟨by rw [htree, built_append], by simp [hrend, hfiles], by rw [hrend]; exact hu⟩
      exact ⟨htouch, hnew.unflagged.fine, hnew⟩
    | error e =>
      have hold : Unflagged (s.trees key) (s.rendering key) := by
        simp [Unflagged, flagged, ht, built_unflagged hdone]
      cases e with
      | none =>
        cases hn
        exact ⟨.refl key s, hold.fine, hold⟩
      | some part =>
        have hnew := unflagged_write ht (built_unflagged hdone) hne hn
        exact ⟨(write_spec ht hn).1, hnew.fine, hnew⟩

/-- Every file is extracted, or the tree is not flagged; by induction on the files that are
left. -/
theorem extractAll_triple (rest : List (Path × Content)) : ∀ done,
    (treeProto H).Triple p (Own p key (Extracting done rest)) (extractAll key rest)
      (Result (Own p key Unflagged) fun _ => Own p key Extracted) := by
  induction rest with
  | nil =>
    intro done
    refine Triple.ret fun s hs => ⟨hs.1, ?_⟩
    obtain ⟨ht, hfiles, hu⟩ := hs.2
    exact ⟨by rw [ht, hfiles, List.append_nil], hu⟩
  | cons f rest ih =>
    intro done
    exact Triple.onResult extract_triple (fun _ => ih _) fun _ => Triple.ret fun _ hs => hs

theorem hash_triple : (treeProto H).Triple p (Own p key Extracted) (sys (.hash key))
    (fun r => Own p key fun t files =>
      Extracted t files ∧ ∀ h, r = some h → h = H (hashed (built files))) := by
  refine own_call fun s r s' hA hf _ hn => ?_
  cases r with
  | none =>
    cases hn
    exact ⟨.refl key s, hf, hA, nofun⟩
  | some h =>
    simp only [next, hA.1, Option.bind_some] at hn
    split at hn <;> cases hn
    rename_i hh
    refine ⟨.refl key s, hf, hA, fun h' heq => ?_⟩
    rw [← Option.some.inj heq, hh]

theorem writeHash_triple {h : Content} : (treeProto H).Triple p
      (Own p key fun t files => Extracted t files ∧ h = H (hashed (built files)))
      (sys (.writeHash key h)) (Result (Own p key Unflagged) fun _ => Own p key (Hashed H)) := by
  have hop := @own_call H p key
    (fun t files => Extracted t files ∧ h = H (hashed (built files))) (.writeHash key h)
    (fun r t files => match r with
      | .ok _ => Hashed H t files
      | .error _ => Unflagged t files) ?_
  · refine hop.post fun r s hs => ?_
    cases r with
    | ok _ => exact hs
    | error e => exact hs
  · intro s r s' hA hf _ hn
    obtain ⟨hex, rfl⟩ := hA
    obtain ⟨ht, hu⟩ := id hex
    have hne : renderedfilename ≠ hashfilename := by decide
    cases r with
    | ok _ =>
      obtain ⟨htouch, htree, hrend⟩ := write_spec ht hn
      have hnew := unflagged_write ht (built_unflagged hu) hne hn
      exact ⟨htouch, hnew.fine, by rw [hrend]; exact htree, by rw [hrend]; exact hu⟩
    | error e =>
      cases e with
      | none =>
        cases hn
        exact ⟨.refl key s, hf, hex.unflagged⟩
      | some part =>
        have hnew := unflagged_write ht (built_unflagged hu) hne hn
        exact ⟨(write_spec ht hn).1, hnew.fine, hnew⟩

theorem createRendered_triple :
    (treeProto H).Triple p (Own p key (Hashed H)) (sys (.createRendered key))
      (fun _ => Own p key fun _ _ => True) := by
  refine own_call (o := .createRendered key) (B := fun _ _ _ => True)
    fun s (ok : Bool) s' hA hf _ hn => ?_
  cases ok with
  | false =>
    have hs : s' = s := (Option.some.inj hn).symm
    subst hs
    exact ⟨.refl key s', hf, trivial⟩
  | true =>
    obtain ⟨htouch, htree, hrend⟩ := write_spec hA.1 hn
    refine ⟨htouch, fun t ht _ => ?_, trivial⟩
    rw [htree, Option.some.injEq] at ht
    subst ht
    rw [hrend]
    exact Hashed.full ⟨rfl, hA.2⟩

abbrev Holds (p : Pid) (key : Key) : World → Prop := Own p key fun _ _ => True

theorem Own.holds (h : Own p key A s) : Holds p key s := ⟨h.1, trivial⟩

theorem finishTree_triple :
    (treeProto H).Triple p (Own p key Extracted) (finishTree key) (fun _ => Holds p key) := by
  refine Triple.bind hash_triple fun r => ?_
  cases r with
  | none => exact Triple.ret fun s hs => hs.holds
  | some h =>
    refine Triple.onResult (writeHash_triple.pre fun s hs => ?_) (fun _ => ?_) fun _ => ?_
    · exact ⟨hs.1, hs.2.1, hs.2.2 h rfl⟩
    · refine Triple.check_same aside_triple (fun s hs => hs.holds) ?_
      refine Triple.check_same aside_triple (fun s hs => hs.holds) ?_
      refine Triple.bind createRendered_triple fun ok => Triple.ite (fun _ => ?_) fun _ => ?_
      · exact Triple.check_same aside_triple (fun s hs => hs) (Triple.ret fun s hs => hs)
      · exact Triple.ret fun s hs => hs
    · exact Triple.ret fun s hs => hs.holds

theorem renderTree_triple : (treeProto H).Triple p (Own p key fun t _ => t = some (built []))
    (renderTree key) (fun _ => Holds p key) := by
  refine Triple.bind render_triple fun r => ?_
  cases r with
  | none => exact Triple.ret fun s hs => hs.holds
  | some files =>
    exact Triple.onResult (extractAll_triple files []) (fun _ => finishTree_triple)
      fun _ => Triple.ret fun s hs => hs.holds

/-- `Write` into no tree. -/
theorem write_triple :
    (treeProto H).Triple p (Own p key fun t _ => t = none) (write key) (fun _ => Holds p key) := by
  have hrender : (treeProto H).Triple p (Own p key fun t _ => t = none)
      (check (sys .aside) .imageID <| check (sys (.mkdirAll key)) (.mkdir key) <| renderTree key)
      (fun _ => Holds p key) := by
    refine Triple.check_same aside_triple (fun s hs => hs.holds) ?_
    refine Triple.bind mkdirAll_triple fun (ok : Bool) => ?_
    cases ok with
    | false => exact Triple.ret fun s hs => hs.holds
    | true => exact renderTree_triple.pre fun s hs => hs
  refine Triple.bind statTree_triple fun r => ?_
  cases r with
  | found => exact Triple.ret fun s hs => hs.holds
  | notExist => exact hrender.pre fun s hs => ⟨hs.1, hs.2.1⟩
  | failed => exact hrender.pre fun s hs => ⟨hs.1, hs.2.1⟩

theorem isRendered_triple :
    (treeProto H).Triple p (Holds p key) (isRendered key) (fun _ => Holds p key) := by
  refine Triple.bind statRendered_triple fun r => ?_
  cases r <;> exact Triple.ret fun s hs => hs.holds

theorem rebuildTree_triple :
    (treeProto H).Triple p (Holds p key) (rebuildTree key) (fun _ => Holds p key) :=
  Triple.onResult remove_triple (fun _ => write_triple) fun _ => Triple.ret fun _ hs => hs

theorem locked_triple {x : TreeProg (Except Err Unit)}
    (hx : (treeProto H).Triple p (Holds p key) x (fun _ => Holds p key)) :
    (treeProto H).Triple p (fun _ => True) (locked key x) (fun _ _ => True) := by
  have hlock : (treeProto H).Triple p (fun _ => True) (sys (.lock key))
      (fun (ok : Bool) s => ok = true → Holds p key s) := by
    refine Triple.call (fun _ _ _ _ _ _ _ _ => trivial) fun s (ok : Bool) s' hi _ hn => ?_
    obtain ⟨-, hn⟩ := tidy_next hn
    cases ok with
    | false =>
      have hs : s' = s := (Option.some.inj hn).symm
      subst hs
      exact ⟨hi, fun k q hq _ => ⟨hq, rfl, rfl⟩, nofun⟩
    | true =>
      simp only [next, if_true] at hn
      split at hn <;> cases hn
      rename_i hfree
      refine ⟨hi, fun k q hq hne => ⟨?_, rfl, rfl⟩, fun _ => ⟨?_, trivial⟩⟩
      · have hk : k ≠ key := by
          rintro rfl
          rw [hfree] at hq
          cases hq
        simp only [World.setLock, Function.update_of_ne hk, hq]
      · simp [World.setLock]
  have hclose : (treeProto H).Triple p (Holds p key) (sys (.close key)) (fun _ _ => True) := by
    refine Triple.call own_stable fun s r s' hi hs hn => ?_
    obtain ⟨-, hn⟩ := tidy_next hn
    simp only [next, hs.1, if_true, Option.some.injEq] at hn
    subst hn
    refine ⟨hi, fun k q hq hne => ⟨?_, rfl, rfl⟩, trivial⟩
    have hk : k ≠ key := by
      rintro rfl
      rw [hs.1] at hq
      exact hne (Option.some.inj hq).symm
    simp only [World.setLock, Function.update_of_ne hk, hq]
  refine Triple.bind hlock fun (ok : Bool) => Triple.ite (fun hok => ?_) fun _ => ?_
  · refine (hx.pre fun s hs => hs hok).bind fun r => ?_
    exact hclose.bind fun _ => Triple.ret fun _ hs => hs
  · exact Triple.ret fun _ _ => trivial

theorem renderTreeStore_triple {rebuild : Bool} :
    (treeProto H).Triple p (fun _ => True) (renderTreeStore key rebuild) (fun _ _ => True) := by
  refine locked_triple (Triple.ite (fun _ => rebuildTree_triple) fun _ => ?_)
  refine Triple.bind isRendered_triple fun r => ?_
  rcases r with e | _ | _
  · exact Triple.ret fun _ hs => hs
  · exact rebuildTree_triple
  · exact Triple.ret fun _ hs => hs

theorem removeTreeStore_triple :
    (treeProto H).Triple p (fun _ => True) (removeTreeStore key) (fun _ _ => True) := by
  refine locked_triple (Triple.onResult remove_triple (fun _ => ?_) fun _ => ?_)
  · exact Triple.ret fun s hs => hs.holds
  · exact Triple.ret fun s hs => hs

theorem script_triple (calls : List Call) :
    (treeProto H).Triple p (fun _ => True) (script calls) (fun _ _ => True) := by
  induction calls with
  | nil => exact Triple.ret fun _ _ => trivial
  | cons call calls ih =>
    cases call with
    | render key rebuild => exact renderTreeStore_triple.bind fun _ => ih
    | remove key => exact removeTreeStore_triple.bind fun _ => ih

theorem start_ok (calls : Pid → List Call) : (treeProto H).Ok (start calls) :=
  ⟨fun _ => nofun, fun p => script_triple (calls p) _ trivial⟩

end proto

/-- `IsRendered` only says yes to a flagged tree. -/
theorem flagged_of_isRendered {H : Files → Content} {p : Pid} {key : Key} {s s' : World}
    (h : (isRendered key).Runs ((treeMachine H).next p) s (.ok true) s') :
    flagged (s.trees key) = true := by
  obtain ⟨r, s1, hn, hr⟩ := Prog.runs_bind.mp h
  have hn := Prog.runs_call.mp hn
  simp only [treeMachine] at hn
  split at hn
  · cases hn
  · cases r with
    | found =>
      simp only [next] at hn
      split at hn
      · assumption
      · cases hn
    | notExist => cases hr.1
    | failed => cases hr.1

/-- **A tree that is flagged as rendered is complete**: in every run of any number of processes,
in which operations fail and processes die at any time, as long as the flag can be removed and
the renderer leaves the two files of the tree store alone. -/
theorem rendered_complete (H : Files → Content) (calls : Pid → List Call)
    {c : Config treeSig World} (hc : Reach (tidyMachine H) (start calls) c) (p : Pid) (key : Key)
    (s' : World) (h : (isRendered key).Runs ((treeMachine H).next p) c.shared (.ok true) s') :
    Complete H c.shared key := by
  have hinv := ((start_ok calls).reach hc).1 key
  have hflag := flagged_of_isRendered h
  obtain ⟨t, ht, hsome⟩ := (Option.any_eq_true _ _).mp hflag
  exact ⟨t, ht, hinv t ht (Option.ne_none_iff_isSome.mpr hsome)⟩

/-- A key, the one file of its image, and a hash function for the two runs below. -/
def someKey : Key := "k".toList
def someFile : Path × Content := ("rootfs/a".toList, [1])
def someHash : Files → Content := fun _ => [7]

/-- `RenderTreeStore`, with nothing there before and nothing failing. -/
def rendersTree : List (Move treeSig) :=
  [.run 0 (.lock someKey) true, .run 0 (.statRendered someKey) .notExist,
   .run 0 (.statTree someKey) .notExist, .run 0 (.statTree someKey) .notExist,
   .run 0 .aside true, .run 0 (.mkdirAll someKey) true,
   .run 0 (.render someKey) (some [someFile]),
   .run 0 (.extract someKey someFile.1 someFile.2) (.ok ()), .run 0 (.hash someKey) (some [7]),
   .run 0 (.writeHash someKey [7]) (.ok ()), .run 0 .aside true, .run 0 .aside true,
   .run 0 (.createRendered someKey) true, .run 0 .aside true, .run 0 (.close someKey) ()]

/-- `RemoveTreeStore`, in which `os.Remove` fails, and `os.RemoveAll` after it has removed the
file of the image. -/
def failsToRemove : List (Move treeSig) :=
  [.run 0 (.lock someKey) true, .run 0 (.statTree someKey) .found,
   .run 0 (.statRendered someKey) .found, .run 0 (.removeRendered someKey) false,
   .run 0 .aside true, .run 0 .aside true, .run 0 (.removeAll someKey) (some [someFile.1]),
   .run 0 (.close someKey) ()]

def renderThenRemove : Pid → List Call := fun p =>
  if p = 0 then [.render someKey false, .remove someKey] else []

/-- After the first call the tree is complete. -/
theorem rendered_complete_once :
    ∃ c, play (tidyMachine someHash) (start renderThenRemove) rendersTree = some c ∧
      (isRendered someKey).Runs ((treeMachine someHash).next 1) c.shared (.ok true) c.shared ∧
      Complete someHash c.shared someKey := by
  obtain ⟨c, hc, hyes⟩ : ∃ c,
      play (tidyMachine someHash) (start renderThenRemove) rendersTree = some c ∧
      (isRendered someKey).Runs ((treeMachine someHash).next 1) c.shared (.ok true) c.shared :=
    ⟨_, rfl, .found, _, rfl, rfl, rfl⟩
  exact ⟨c, hc, hyes, rendered_complete someHash renderThenRemove (play_reach hc) 1 someKey _ hyes⟩

/-- **A tree that lost its files is still flagged.** The removal of `rendered` fails, the rest
goes on, and `IsRendered` says yes to what is left. -/
theorem partial_tree_flagged :
    ∃ c, Reach (treeMachine someHash) (start renderThenRemove) c ∧
      (isRendered someKey).Runs ((treeMachine someHash).next 1) c.shared (.ok true) c.shared ∧
      ¬ Complete someHash c.shared someKey := by
  obtain ⟨c, hc, hyes, hlost, hrend⟩ : ∃ c,
      play (treeMachine someHash) (start renderThenRemove) (rendersTree ++ failsToRemove)
        = some c ∧
      (isRendered someKey).Runs ((treeMachine someHash).next 1) c.shared (.ok true) c.shared ∧
      (c.shared.trees someKey).bind (fun t => t someFile.1) = none ∧
      c.shared.rendering someKey = [someFile] :=
    ⟨_, rfl, ⟨.found, _, rfl, rfl, rfl⟩, rfl, rfl⟩
  refine ⟨c, play_reach hc, hyes, fun hfull => ?_⟩
  obtain ⟨t, ht, hfiles, -⟩ := hfull
  have hthere : t someFile.1 = built [someFile] someFile.1 := by
    rw [← hrend]
    exact hfiles _ (by decide) (by decide)
  rw [ht, Option.bind_some, hthere] at hlost
  exact absurd hlost (by decide)

end Rkt.Tree
