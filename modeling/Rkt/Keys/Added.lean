import Rkt.Keys.Files

set_option autoImplicit false

namespace Rkt.Keys

open Conc Prog Path

def findAt (n : Option Node) (path : List Str) : Option Node := n.bind (Node.find path)

/-- There are files for the keys in `K` and the prefix `P`. All other files are those of `ks`. -/
structure Keystore.Added (P : List Str) (K : Str → Prop) (ks ks' : Keystore) : Prop where
  config : ks'.config = ks.config
  systemPrefix : ks'.systemPrefix = ks.systemPrefix
  localRoot : ks'.localRoot = ks.localRoot
  systemRoot : ks'.systemRoot = ks.systemRoot
  has : ∀ c path, HasAt ks'.localPrefix c path ↔
    HasAt ks.localPrefix c path ∨ ∃ fp, K fp ∧ path = P ++ [fp] ∧ c = .key fp
  new : ∀ x, K x → findAt ks'.localPrefix (P ++ [x]) = some (.file (.key x))
  old : ∀ x, ¬ K x → findAt ks'.localPrefix (P ++ [x]) = findAt ks.localPrefix (P ++ [x])

namespace Keystore

variable {P : List Str} {K K₁ K₂ : Str → Prop} {ks ks₁ ks' : Keystore}

theorem Added.none (P : List Str) (ks : Keystore) : Added P (fun _ => False) ks ks where
  config := rfl
  systemPrefix := rfl
  localRoot := rfl
  systemRoot := rfl
  has c path := by simp
  new x h := h.elim
  old x _ := rfl

theorem Added.trans (h1 : Added P K₁ ks ks₁) (h2 : Added P K₂ ks₁ ks')
    (hK : ∀ x, K x ↔ K₁ x ∨ K₂ x) : Added P K ks ks' where
  config := h2.config.trans h1.config
  systemPrefix := h2.systemPrefix.trans h1.systemPrefix
  localRoot := h2.localRoot.trans h1.localRoot
  systemRoot := h2.systemRoot.trans h1.systemRoot
  has c path := by
    simp only [h2.has, h1.has, hK, or_and_right, exists_or, or_assoc]
  new x hx := by
    by_cases h : K₂ x
    · exact h2.new x h
    · rw [h2.old x h]
      exact h1.new x (((hK x).mp hx).resolve_right h)
  old x hx := by
    rw [hK, not_or] at hx
    rw [h2.old x hx.2, h1.old x hx.1]

theorem Added.noMasks (hP : P ≠ []) (h : Added P K ks ks') (hks : ks.NoMasks) : ks'.NoMasks where
  systemRoot := by
    rw [h.systemRoot]
    exact hks.systemRoot
  localRoot := by
    rw [h.localRoot]
    exact hks.localRoot
  systemPrefix := by
    rw [h.systemPrefix]
    exact hks.systemPrefix
  localPrefix := by
    intro n hn
    rw [Node.prefixKeys_iff]
    intro c path hhas
    rcases (h.has c path).mp ⟨n, hn, hhas⟩ with ⟨n0, hn0, hold⟩ | ⟨fp, -, hpath, hc⟩
    · exact Node.prefixKeys_iff.mp (hks.localPrefix n0 hn0) c path hold
    · exact ⟨P, fp, hP, hpath, hc⟩

theorem stored_iff {Q : List Str} {fp : Str} : ks.Stored Q fp ↔
    HasAt ks.systemPrefix (.key fp) (Q ++ [fp]) ∨ HasAt ks.localPrefix (.key fp) (Q ++ [fp]) := by
  simp only [Stored, HasAt, or_and_right, exists_or]

theorem Added.stored_iff (h : Added P K ks ks') {Q : List Str} {fp : Str} :
    ks'.Stored Q fp ↔ ks.Stored Q fp ∨ Q = P ∧ K fp := by
  rw [Keystore.stored_iff, Keystore.stored_iff, h.systemPrefix, h.has, or_assoc]
  refine or_congr_right (or_congr_right ⟨?_, ?_⟩)
  · rintro ⟨x, hx, hpath, hc⟩
    cases hc
    exact ⟨(List.append_inj' hpath rfl).1, hx⟩
  · rintro ⟨rfl, hfp⟩
    exact ⟨fp, hfp, rfl, rfl⟩

theorem Added.inRoot_iff (h : Added P K ks ks') {fp : Str} : ks'.InRoot fp ↔ ks.InRoot fp := by
  unfold InRoot
  rw [h.systemRoot, h.localRoot]

/-- **The keyrings afterwards.** The keys are added to those that the prefix is walked over for. -/
theorem Added.keyring (hP : P ≠ []) (h : Added P K ks ks') (hks : ks.NoMasks) {id : Str}
    (hid : validACIdentifier id = true) : ∃ keys keys', loadKeyring ks id = .ok keys ∧
      loadKeyring ks' id = .ok keys' ∧
      ∀ fp, fp ∈ keys' ↔ fp ∈ keys ∨ Reached P (split id) ∧ K fp := by
  obtain ⟨keys, hload, hkeys⟩ := loadKeyring_eq hks hid
  obtain ⟨keys', hload', hkeys'⟩ := loadKeyring_eq (h.noMasks hP hks) hid
  refine ⟨keys, keys', hload, hload', fun fp => ?_⟩
  rw [hkeys', hkeys, h.inRoot_iff, or_assoc]
  refine or_congr_right ?_
  constructor
  · rintro ⟨Q, hhead, hpre, hstored⟩
    rcases h.stored_iff.mp hstored with hold | ⟨rfl, hfp⟩
    · exact .inl ⟨Q, hhead, hpre, hold⟩
    · exact .inr ⟨⟨hhead, hpre⟩, hfp⟩
  · rintro (⟨Q, hhead, hpre, hstored⟩ | ⟨⟨hhead, hpre⟩, hfp⟩)
    · exact ⟨Q, hhead, hpre, h.stored_iff.mpr (.inl hstored)⟩
    · exact ⟨P, hhead, hpre, h.stored_iff.mpr (.inr ⟨rfl, hfp⟩)⟩

end Keystore

/-- There is no file at the path in a place, nor on the way to it. -/
def OpenAt (n : Option Node) (path : List Str) : Prop := ∀ Q, Q <+: path → ∀ c, ¬ HasAt n c Q

/-- The key can be stored for the prefix: no file is where a directory has to be, and no directory
where the file has to be. Whether a file of the system is in the way is not noticed if there is a
local file already. -/
structure Keystore.Free (ks : Keystore) (P : List Str) (fp : Str) : Prop where
  noFile : OpenAt ks.localPrefix P
  noDir : ∀ es, findAt ks.localPrefix (P ++ [fp]) ≠ some (.dir es)
  system : HasAt ks.localPrefix (.key fp) (P ++ [fp]) ∨ OpenAt ks.systemPrefix P

theorem find_getD (n : Option Node) (path : List Str) (x : Str) :
    (n.getD (.dir .nil)).find (path ++ [x]) = findAt n (path ++ [x]) := by
  cases n with
  | none => exact Node.find_empty path x
  | some n => rfl

variable {path : List Str} {n : Option Node}

theorem hasAt_some {n : Node} {c : Content} : HasAt (some n) c path ↔ n.Has c path := by
  simp [HasAt]

theorem hasAt_iff_findAt (hwf : n.all Node.wf = true) {c : Content}
    : HasAt n c path ↔ findAt n path = some (.file c) := by
  cases n with
  | none => simp [HasAt, findAt]
  | some n =>
    rw [hasAt_some]
    exact Node.has_iff_find hwf

namespace Keystore

variable {P : List Str} {fp : Str} {ks ks₁ ks' : Keystore}

theorem mkdirAll_local (htidy : ks.config.Tidy) (rel : List Str) :
    ks.mkdirAll (ks.config.localPrefixPath ++ rel) =
      ((ks.localPrefix.getD (.dir .nil)).mkdirAll rel).bind ks.setLocalPrefix := by
  have hplace : ks.config.locate (ks.config.localPrefixPath ++ rel) = some (.localPrefix, rel) :=
    htidy.locate .localPrefix rel
  rw [mkdirAll, hplace]

theorem writeFile_local (htidy : ks.config.Tidy) (rel : List Str) (c : Content) :
    ks.writeFile (ks.config.localPrefixPath ++ rel) c =
      ks.localPrefix.bind fun n => (n.put false c rel).bind ks.setLocalPrefix := by
  have hplace : ks.config.locate (ks.config.localPrefixPath ++ rel) = some (.localPrefix, rel) :=
    htidy.locate .localPrefix rel
  rw [writeFile, hplace]

theorem NoMasks.key {c : Content} (hks : ks.NoMasks) (h : HasAt ks.localPrefix c (P ++ [fp])) :
    c = .key fp := by
  obtain ⟨n, hn, hhas⟩ := h
  obtain ⟨Q, x, -, hpath, rfl⟩ := Node.prefixKeys_iff.mp (hks.localPrefix n hn) c _ hhas
  obtain ⟨-, hx⟩ := List.append_inj' hpath rfl
  cases hx
  rfl

theorem store_added (htidy : ks.config.Tidy) (hks : ks.NoMasks) (hP : ∀ name ∈ P, Plain name)
    (hfp : Plain fp) (hopen : OpenAt ks.localPrefix P)
    (hdir : ∀ es, findAt ks.localPrefix (P ++ [fp]) ≠ some (.dir es)) :
    ∃ ks₁ ks2, ks.mkdirAll (ks.config.localPrefixPath ++ P) = some ks₁ ∧
      ks₁.writeFile (ks.config.localPrefixPath ++ (P ++ [fp])) (.key fp) = some ks2 ∧
      Added P (· = fp) ks ks2 := by
  have hopen0 : (ks.localPrefix.getD (.dir .nil)).Open P := by
    intro Q hQ c hhas
    exact hopen Q hQ c ((has_getD _ c Q).mp hhas)
  obtain ⟨n1, hn1, hmade⟩ := Node.mkdirAll_of_open hP (wf_getD _ ks.localPrefix_wf) hopen0
  have hfind1 : ∀ x, n1.find (P ++ [x]) = findAt ks.localPrefix (P ++ [x]) := by
    intro x
    rw [hmade.find, find_getD]
  obtain ⟨es, hes⟩ := hmade.dir
  obtain ⟨n2, hn2⟩ := Node.put_of_find (c := .key fp) (x := fp) hes fun es' => by
    rw [hfind1]
    exact hdir es'
  have hplain : ∀ name ∈ P ++ [fp], Plain name :=
    List.forall_mem_append.mpr ⟨hP, List.forall_mem_singleton.mpr hfp⟩
  obtain ⟨hwf2, hputs⟩ := Node.puts_of_put hn2 hplain hmade.wf
  obtain ⟨-, hfind2⟩ := Node.find_put hn2
  let ks₁ : Keystore := { ks with localPrefix := some n1, localPrefix_wf := hmade.wf }
  have hmkdir : ks.mkdirAll (ks.config.localPrefixPath ++ P) = some ks₁ := by
    rw [mkdirAll_local htidy, hn1]
    exact dif_pos hmade.wf
  have hwrite : ks₁.writeFile (ks.config.localPrefixPath ++ (P ++ [fp])) (.key fp) =
      some { ks with localPrefix := some n2, localPrefix_wf := hwf2 } := by
    have htidy1 : ks₁.config.Tidy := htidy
    refine (writeFile_local htidy1 _ _).trans ?_
    show (n1.put false (.key fp) (P ++ [fp])).bind ks₁.setLocalPrefix = _
    rw [hn2]
    exact dif_pos hwf2
  refine ⟨ks₁, _, hmkdir, hwrite, rfl, rfl, rfl, rfl, fun c path => ?_, fun x hx => ?_,
    fun x hx => ?_⟩
  · rw [hasAt_some, hputs, hmade.has, has_getD]
    simp only [exists_eq_left]
    by_cases hpath : path = P ++ [fp]
    · subst hpath
      simp only [if_true, true_and]
      exact ⟨.inr, fun h => h.elim hks.key id⟩
    · simp [hpath]
  · subst hx
    exact (hfind2 x).trans (if_pos rfl)
  · exact ((hfind2 x).trans (if_neg hx)).trans (hfind1 x)

theorem setLocalPrefix_some {n : Node} (h : ks.setLocalPrefix n = some ks') :
    ks'.localPrefix = some n ∧ ks'.config = ks.config := by
  unfold setLocalPrefix at h
  split at h
  · cases h
    exact ⟨rfl, rfl⟩
  · cases h

theorem free_of_store (htidy : ks.config.Tidy) (hP : ∀ name ∈ P, Plain name)
    (hmkdir : ks.mkdirAll (ks.config.localPrefixPath ++ P) = some ks₁)
    (hwrite : ks₁.writeFile (ks.config.localPrefixPath ++ (P ++ [fp])) (.key fp) = some ks') :
    OpenAt ks.localPrefix P ∧ ∀ es, findAt ks.localPrefix (P ++ [fp]) ≠ some (.dir es) := by
  rw [mkdirAll_local htidy] at hmkdir
  obtain ⟨n1, hn1, hset⟩ := Option.bind_eq_some_iff.mp hmkdir
  obtain ⟨hlocal, hconfig⟩ := setLocalPrefix_some hset
  have hwf := wf_getD _ ks.localPrefix_wf
  have hopen := Node.open_of_mkdirAll hwf hn1
  constructor
  · intro Q hQ c hhas
    exact hopen Q hQ c ((has_getD _ c Q).mpr hhas)
  · intro es
    rw [← hconfig, writeFile_local (hconfig ▸ htidy), hlocal, Option.bind_some] at hwrite
    obtain ⟨n2, hn2, -⟩ := Option.bind_eq_some_iff.mp hwrite
    -- making the directories has not changed what is there
    obtain ⟨n, hn, hmade⟩ := Node.mkdirAll_of_open hP hwf hopen
    cases hn1.symm.trans hn
    rw [← find_getD, ← hmade.find]
    exact (Node.find_put hn2).1 es

theorem stat_place (htidy : ks.config.Tidy) (p : Place) (rel : List Str) :
    ks.stat (ks.config.path p ++ rel) = (ks.node p).elim .notExist (Node.stat rel) := by
  rw [Keystore.stat, htidy.locate]
  cases hn : ks.node p with
  | none => simp [hn]
  | some n => simp [hn]

end Keystore

theorem stat_failed_iff (hwf : n.all Node.wf = true) {P : List Str} {x : Str} :
    n.elim .notExist (Node.stat (P ++ [x])) = .failed ↔ ¬ OpenAt n P := by
  cases n with
  | none =>
    refine iff_of_false (by simp) (not_not.mpr fun Q _ c h => ?_)
    obtain ⟨n, hn, -⟩ := h
    cases hn
  | some n =>
    have hopen : OpenAt (some n) P ↔ n.Open P := by
      simp only [OpenAt, Node.Open, hasAt_some]
    rw [hopen]
    exact Node.stat_failed_iff hwf

theorem stat_found_iff :
    n.elim .notExist (Node.stat path) = .found ↔ ∃ n', findAt n path = some n' := by
  cases n with
  | none => simp [findAt]
  | some n => exact Node.stat_found_iff

theorem stat_root (hn : ∀ n', n = some n' → n'.RootKeys) (x : Str) :
    n.elim .notExist (Node.stat [x]) ≠ .failed := by
  cases n with
  | none => simp
  | some n =>
    cases n with
    | file c => exact (hn _ rfl).elim
    | dir es =>
      show (Node.dir es).stat [x] ≠ .failed
      unfold Node.stat
      cases es.lookup x with
      | none => simp
      | some n => simp [Node.stat]

/-- What the loop of `TrustedKeyPrefixExists` finds. -/
def Keystore.existing (ks : Keystore) : List (List Str) → Except AddErr Bool
  | [] => .ok false
  | p :: ps =>
    match ks.stat p with
    | .found => .ok true
    | .notExist => ks.existing ps
    | .failed => .error (.checking p)

theorem anyExists_eval (w : Sources) (ks : Keystore) (ps : List (List Str)) :
    (anyExists ps).eval (fileStep w) (answer w) ks = some (ks.existing ps, ks) := by
  induction ps with
  | nil => rfl
  | cons p ps ih =>
    have hstat : answer w (.stat p) ks = ks.stat p := rfl
    rw [anyExists, eval_sys, hstat, Keystore.existing]
    cases ks.stat p with
    | found => rfl
    | notExist => exact ih
    | failed => rfl

namespace Keystore

variable {P : List Str} {fp : Str} {ks : Keystore}

/-- The four places of a key, in the order in which they are looked at. -/
def keyPaths (c : Config) (P : List Str) (fp : Str) : List (List Str) :=
  [c.localPrefixPath ++ (P ++ [fp]), c.systemPrefixPath ++ (P ++ [fp]), c.localRootPath ++ [fp],
    c.systemRootPath ++ [fp]]

theorem existing_cons_ok {p : List Str} {ps : List (List Str)} :
    (∃ b, ks.existing (p :: ps) = .ok b) ↔
      ks.stat p ≠ .failed ∧ (ks.stat p = .found ∨ ∃ b, ks.existing ps = .ok b) := by
  rw [existing]
  cases ks.stat p <;> simp

theorem existing_ok_iff (htidy : ks.config.Tidy) (hks : ks.NoMasks) :
    (∃ b, ks.existing (keyPaths ks.config P fp) = .ok b) ↔ OpenAt ks.localPrefix P ∧
      ((∃ n, findAt ks.localPrefix (P ++ [fp]) = some n) ∨ OpenAt ks.systemPrefix P) := by
  have hlocal : ks.stat (ks.config.localPrefixPath ++ (P ++ [fp])) =
      ks.localPrefix.elim .notExist (Node.stat (P ++ [fp])) := stat_place htidy .localPrefix _
  have hsystem : ks.stat (ks.config.systemPrefixPath ++ (P ++ [fp])) =
      ks.systemPrefix.elim .notExist (Node.stat (P ++ [fp])) := stat_place htidy .systemPrefix _
  have hlocalRoot : ks.stat (ks.config.localRootPath ++ [fp]) =
      ks.localRoot.elim .notExist (Node.stat [fp]) := stat_place htidy .localRoot _
  have hsystemRoot : ks.stat (ks.config.systemRootPath ++ [fp]) =
      ks.systemRoot.elim .notExist (Node.stat [fp]) := stat_place htidy .systemRoot _
  have hroots : ∃ b, ks.existing [ks.config.localRootPath ++ [fp],
      ks.config.systemRootPath ++ [fp]] = .ok b := by
    rw [existing_cons_ok, existing_cons_ok]
    refine ⟨?_, .inr ⟨?_, .inr ⟨false, rfl⟩⟩⟩
    · exact hlocalRoot ▸ stat_root hks.localRoot fp
    · exact hsystemRoot ▸ stat_root hks.systemRoot fp
  rw [keyPaths, existing_cons_ok, existing_cons_ok, hlocal, hsystem, stat_found_iff]
  simp only [hroots, or_true, and_true]
  rw [Ne, stat_failed_iff ks.localPrefix_wf, not_not, Ne, stat_failed_iff ks.systemPrefix_wf,
    not_not]

/-- What is found where a key should be is that key, unless it is a directory. -/
theorem NoMasks.hasAt_iff (hks : ks.NoMasks)
    (hdir : ∀ es, findAt ks.localPrefix (P ++ [fp]) ≠ some (.dir es)) :
    HasAt ks.localPrefix (.key fp) (P ++ [fp]) ↔
      ∃ n, findAt ks.localPrefix (P ++ [fp]) = some n := by
  rw [hasAt_iff_findAt ks.localPrefix_wf]
  refine ⟨fun h => ⟨_, h⟩, ?_⟩
  rintro ⟨n, hn⟩
  cases n with
  | dir es => exact absurd hn (hdir es)
  | file c =>
    have hc : c = .key fp := hks.key ((hasAt_iff_findAt ks.localPrefix_wf).mpr hn)
    rw [hn, hc]

/-- The key can be stored if the check and the two operations succeed. -/
theorem free_iff (htidy : ks.config.Tidy) (hks : ks.NoMasks) :
    ks.Free P fp ↔ (∃ b, ks.existing (keyPaths ks.config P fp) = .ok b) ∧
      OpenAt ks.localPrefix P ∧ ∀ es, findAt ks.localPrefix (P ++ [fp]) ≠ some (.dir es) := by
  rw [existing_ok_iff htidy hks]
  constructor
  · intro h
    exact ⟨⟨h.noFile, h.system.imp_left (hks.hasAt_iff h.noDir).mp⟩, h.noFile, h.noDir⟩
  · rintro ⟨⟨-, hsystem⟩, hopen, hdir⟩
    exact ⟨hopen, hdir, hsystem.imp_left (hks.hasAt_iff hdir).mpr⟩

theorem Added.openAt_iff {K : Str → Prop} {ks' : Keystore} (h : Added P K ks ks') :
    OpenAt ks'.localPrefix P ↔ OpenAt ks.localPrefix P := by
  refine forall_congr' fun Q => forall_congr' fun hQ => forall_congr' fun c => not_congr ?_
  rw [h.has]
  refine or_iff_left ?_
  rintro ⟨x, -, rfl, -⟩
  have hlen := hQ.length_le
  rw [List.length_append, List.length_singleton] at hlen
  omega

theorem Added.free_iff {K : Str → Prop} {ks' : Keystore} (h : Added P K ks ks')
    (hK : ∀ x, K x → ks.Free P x) (x : Str) : ks'.Free P x ↔ ks.Free P x := by
  by_cases hx : K x
  · refine iff_of_true ⟨h.openAt_iff.mpr (hK x hx).noFile, ?_, .inl ?_⟩ (hK x hx)
    · intro es
      rw [h.new x hx]
      simp
    · exact (h.has _ _).mpr (.inr ⟨x, hx, rfl, rfl⟩)
  · have hhas : HasAt ks'.localPrefix (.key x) (P ++ [x]) ↔
        HasAt ks.localPrefix (.key x) (P ++ [x]) := by
      rw [hasAt_iff_findAt ks'.localPrefix_wf, h.old x hx, hasAt_iff_findAt ks.localPrefix_wf]
    constructor
    · rintro ⟨hfile, hdir, hsystem⟩
      rw [h.old x hx] at hdir
      rw [hhas, h.systemPrefix] at hsystem
      exact ⟨h.openAt_iff.mp hfile, hdir, hsystem⟩
    · rintro ⟨hfile, hdir, hsystem⟩
      refine ⟨h.openAt_iff.mpr hfile, ?_, ?_⟩
      · rw [h.old x hx]
        exact hdir
      · rw [hhas, h.systemPrefix]
        exact hsystem

end Keystore

section

variable {c : Settings} {w : Sources} {ks ks₁ ks' : Keystore} {fp : Str}

theorem getPubKey_reads {l scheme : Str} (hs : c.scheme l = some scheme) (hget : Retrievable c l)
    (hl : w.contents l = some (.key fp)) :
    (getPubKey scheme l c.allowHTTP).eval (fileStep w) (answer w) ks =
      some (.ok (.key fp), ks) := by
  rcases getPubKey_eq hs hget with heq | heq
  · have hanswer : answer w (.openFile l) ks = some (.key fp) := hl
    rw [heq, eval_sys, hanswer]
    rfl
  · have hanswer : answer w (.download l) ks = some (.key fp) := hl
    rw [heq, eval_sys, hanswer]
    rfl

theorem Config.Tidy.clean_below {c : Config} (h : c.Tidy) (p : Place) {rel : List Str}
    (hrel : ∀ name ∈ rel, Plain name) : clean (c.path p ++ rel) = c.path p ++ rel :=
  clean_of_plain (List.forall_mem_append.mpr ⟨h.plain p, hrel⟩)

theorem trustedKeyPrefixExists_checks {pfx : Str} (htidy : ks.config.Tidy)
    (hpfx : validACIdentifier pfx = true) (hfp : Plain fp) :
    (trustedKeyPrefixExists ks.config pfx (.key fp)).eval (fileStep w) (answer w) ks =
      some (ks.existing (Keystore.keyPaths ks.config (split pfx) fp), ks) := by
  have hbelow : ∀ p, clean (ks.config.path p ++ split pfx ++ [fp]) =
      ks.config.path p ++ (split pfx ++ [fp]) := by
    intro p
    rw [List.append_assoc]
    exact htidy.clean_below p (plain_keyPath hpfx hfp)
  have hroot : ∀ p, clean (ks.config.path p ++ [fp]) = ks.config.path p ++ [fp] :=
    fun p => htidy.clean_below p (List.forall_mem_singleton.mpr hfp)
  have hpaths : [clean (ks.config.localPrefixPath ++ split pfx ++ [fp]),
      clean (ks.config.systemPrefixPath ++ split pfx ++ [fp]),
      clean (ks.config.localRootPath ++ [fp]), clean (ks.config.systemRootPath ++ [fp])] =
      Keystore.keyPaths ks.config (split pfx) fp :=
    congrArg₂ List.cons (hbelow .localPrefix) (congrArg₂ List.cons (hbelow .systemPrefix)
      (congrArg₂ List.cons (hroot .localRoot) (congrArg₂ List.cons (hroot .systemRoot) rfl)))
  rw [trustedKeyPrefixExists, readArmoredKeyRing]
  simp only [assertValid_of_valid hpfx, if_true]
  rw [hpaths, anyExists_eval]

theorem storeTrustedKey_ok_iff {dir : List Str} :
    (storeTrustedKey dir (.key fp)).eval (fileStep w) (answer w) ks = some (.ok (), ks') ↔
      ∃ ks₁, ks.mkdirAll dir = some ks₁ ∧
        ks₁.writeFile (clean (dir ++ [fp])) (.key fp) = some ks' := by
  let path := clean (dir ++ [fp])
  let write : KeyProg (Except AddErr Unit) := do
    let written : Bool ← sys (.writeFile path (.key fp))
    return if written then .ok () else .error .storing
  have hmake : (storeTrustedKey dir (.key fp)).eval (fileStep w) (answer w) ks =
      (if (ks.mkdirAll dir).isSome then write else pure (.error .storing)).eval (fileStep w)
        (answer w) ((ks.mkdirAll dir).getD ks) := eval_sys w (.mkdirAll dir) _ ks
  have hwrite : ∀ s, write.eval (fileStep w) (answer w) s =
      some (if (s.writeFile path (.key fp)).isSome then .ok () else .error .storing,
        (s.writeFile path (.key fp)).getD s) := fun s => eval_sys w (.writeFile path (.key fp)) _ s
  rw [hmake]
  cases ks.mkdirAll dir with
  | none => simp
  | some ks₁ =>
    simp only [Option.isSome_some, if_true, Option.getD_some, Option.some.injEq, exists_eq_left',
      hwrite]
    show _ ↔ ks₁.writeFile path (.key fp) = some ks'
    cases ks₁.writeFile path (.key fp) with
    | none => simp
    | some ks2 => simp

theorem storeKey_ok_iff {pfx : Str} (htidy : ks.config.Tidy) (hpfx : validACIdentifier pfx = true)
    (hfp : Plain fp) :
    (storeKey ks.config pfx (.key fp)).eval (fileStep w) (answer w) ks = some (.ok (), ks') ↔
      ∃ ks₁, ks.mkdirAll (ks.config.localPrefixPath ++ split pfx) = some ks₁ ∧
        ks₁.writeFile (ks.config.localPrefixPath ++ (split pfx ++ [fp])) (.key fp) = some ks' := by
  have hne : pfx ≠ [] := by
    rintro rfl
    cases hpfx
  have hdir : clean (ks.config.localPrefixPath ++ split pfx) =
      ks.config.localPrefixPath ++ split pfx :=
    htidy.clean_below .localPrefix fun _ => plain_of_valid hpfx
  have hfile : clean (ks.config.localPrefixPath ++ split pfx ++ [fp]) =
      ks.config.localPrefixPath ++ (split pfx ++ [fp]) := by
    rw [List.append_assoc]
    exact htidy.clean_below .localPrefix (plain_keyPath hpfx hfp)
  rw [← hfile, ← storeTrustedKey_ok_iff (w := w), storeKey, if_neg hne, storeTrustedKeyPrefix,
    if_pos (assertValid_of_valid hpfx), hdir, eval_bind]
  -- the error, if there is one, is wrapped
  generalize (storeTrustedKey _ _).eval _ _ ks = r
  cases r with
  | none => simp
  | some r =>
    obtain ⟨r, s⟩ := r
    cases r with
    | error e => simp [Except.mapError]
    | ok a => simp [Except.mapError]

theorem addKeysLoop_stores {l : Str} (ls : List Str) (hks : ks.NoMasks) (htidy : ks.config.Tidy)
    (hpfx : validACIdentifier c.pfx = true) (hover : c.allowOverride = true)
    (hget : Retrievable c l) (hl : w.contents l = some (.key fp)) (hfp : Plain fp)
    (hfree : ks.Free (split c.pfx) fp) : ∃ ks₁, Keystore.Added (split c.pfx) (· = fp) ks ks₁ ∧
      (addKeysLoop c ks.config (l :: ls) true).eval (fileStep w) (answer w) ks =
        (addKeysLoop c ks.config ls true).eval (fileStep w) (answer w) ks₁ := by
  obtain ⟨⟨b, hb⟩, hopen, hdir⟩ := (Keystore.free_iff htidy hks).mp hfree
  obtain ⟨s, ks₁, hmkdir, hwrite, hadded⟩ :=
    Keystore.store_added htidy hks (fun _ => plain_of_valid hpfx) hfp hopen hdir
  have hstore := (storeKey_ok_iff (w := w) htidy hpfx hfp).mpr ⟨s, hmkdir, hwrite⟩
  obtain ⟨scheme, hs⟩ := hget.scheme
  refine ⟨ks₁, hadded, ?_⟩
  simp only [addKeysLoop, hs, eval_bind, getPubKey_reads hs hget hl, Option.bind_some,
    trustedKeyPrefixExists_checks htidy hpfx hfp, hb, readArmoredKeyRing, hover, Bool.not_true,
    Bool.and_false, Bool.false_eq_true, if_false, forceNow_true, acceptKey, if_true, eval_pure,
    hstore]

theorem free_of_addKeysLoop {l : Str} {ls : List Str} (hks : ks.NoMasks) (htidy : ks.config.Tidy)
    (hpfx : validACIdentifier c.pfx = true) (hover : c.allowOverride = true)
    (hget : Retrievable c l) (hl : w.contents l = some (.key fp)) (hfp : Plain fp)
    (hrun : (addKeysLoop c ks.config (l :: ls) true).eval (fileStep w) (answer w) ks =
      some (.ok (), ks')) : ks.Free (split c.pfx) fp := by
  obtain ⟨scheme, hs⟩ := hget.scheme
  simp only [addKeysLoop, hs, eval_bind, getPubKey_reads hs hget hl, Option.bind_some,
    trustedKeyPrefixExists_checks htidy hpfx hfp] at hrun
  cases hexists : ks.existing (Keystore.keyPaths ks.config (split c.pfx) fp) with
  | error e => simp [hexists] at hrun
  | ok b =>
    simp only [hexists, readArmoredKeyRing, hover, Bool.not_true, Bool.and_false,
      Bool.false_eq_true, if_false, forceNow_true, acceptKey, if_true, eval_bind, eval_pure,
      Option.bind_some] at hrun
    obtain ⟨⟨r, s⟩, hstore, hrest⟩ := Option.bind_eq_some_iff.mp hrun
    cases r with
    | error e => cases hrest
    | ok a =>
      obtain ⟨s1, hmkdir, hwrite⟩ := (storeKey_ok_iff htidy hpfx hfp).mp hstore
      have hstored := Keystore.free_of_store htidy (fun _ => plain_of_valid hpfx) hmkdir hwrite
      exact (Keystore.free_iff htidy hks).mpr ⟨⟨b, hexists⟩, hstored⟩

end

def Sources.Given (w : Sources) (pkls : List Str) (fp : Str) : Prop :=
  ∃ l ∈ pkls, w.contents l = some (.key fp)

/-- There is a key at the location, and it can be read. -/
def Readable (c : Settings) (w : Sources) (l : Str) : Prop :=
  Retrievable c l ∧ ∃ fp, w.contents l = some (.key fp) ∧ Plain fp

theorem Sources.given_cons {w : Sources} {l : Str} {fp : Str}
    (hl : w.contents l = some (.key fp)) (ls : List Str) (x : Str) :
    w.Given (l :: ls) x ↔ x = fp ∨ w.Given ls x := by
  simp only [Sources.Given, List.mem_cons, or_and_right, exists_or, exists_eq_left, hl,
    Option.some.injEq, Content.key.injEq]
  exact or_congr_left eq_comm

section

variable {c : Settings} {w : Sources} {pkls : List Str}

/-- **The loop adds the keys** if all of them can be stored, and is left with an error if not; by
induction on the locations. -/
theorem addKeysLoop_ok (hpfx : validACIdentifier c.pfx = true) (hover : c.allowOverride = true)
    (hpkls : ∀ l ∈ pkls, Readable c w l) : ∀ {ks : Keystore}, ks.NoMasks → ks.config.Tidy →
      ((∀ fp, w.Given pkls fp → ks.Free (split c.pfx) fp) →
        ∃ ks', (addKeysLoop c ks.config pkls true).eval (fileStep w) (answer w) ks =
          some (.ok (), ks') ∧ Keystore.Added (split c.pfx) (w.Given pkls) ks ks') ∧
      ∀ ks', (addKeysLoop c ks.config pkls true).eval (fileStep w) (answer w) ks =
        some (.ok (), ks') → ∀ fp, w.Given pkls fp → ks.Free (split c.pfx) fp := by
  induction pkls with
  | nil =>
    have hnone : ∀ fp, ¬ w.Given [] fp := by
      rintro fp ⟨l, hl, -⟩
      cases hl
    intro ks _ _
    refine ⟨fun _ => ⟨ks, rfl, ?_⟩, fun _ _ fp hfp => (hnone fp hfp).elim⟩
    rw [funext fun fp => eq_false (hnone fp)]
    exact .none _ _
  | cons l ls ih =>
    intro ks hks htidy
    obtain ⟨hget, fp, hl, hfp⟩ := hpkls l List.mem_cons_self
    have hgiven := Sources.given_cons hl ls
    by_cases hfree : ks.Free (split c.pfx) fp
    · obtain ⟨ks₁, hadded, heval⟩ :=
        addKeysLoop_stores ls hks htidy hpfx hover hget hl hfp hfree
      have hiff := hadded.free_iff fun y hy => hy ▸ hfree
      have hrest := ih (fun l' hl' => hpkls l' (List.mem_cons_of_mem _ hl'))
        (hadded.noMasks (split_ne_nil _) hks) (hadded.config ▸ htidy)
      rw [hadded.config, ← heval] at hrest
      constructor
      · intro h
        obtain ⟨ks', hrun, hadded'⟩ :=
          hrest.1 fun x hx => (hiff x).mpr (h x ((hgiven x).mpr (.inr hx)))
        exact ⟨ks', hrun, hadded.trans hadded' hgiven⟩
      · intro ks' hrun x hx
        rcases (hgiven x).mp hx with rfl | hx
        · exact hfree
        · exact (hiff x).mp (hrest.2 ks' hrun x hx)
    · refine ⟨fun h => absurd (h fp ((hgiven fp).mpr (.inl rfl))) hfree, fun ks' hrun => ?_⟩
      exact absurd (free_of_addKeysLoop hks htidy hpfx hover hget hl hfp hrun) hfree

theorem addKeysLoop_root {ks : Keystore} {l : Str} {ls : List Str} (hpfx : c.pfx = [])
    (hl : Readable c w l) :
    (addKeysLoop c ks.config (l :: ls) true).eval (fileStep w) (answer w) ks =
      some (.error (.reading l .identifier), ks) := by
  obtain ⟨hget, fp, hcontents, -⟩ := hl
  obtain ⟨scheme, hs⟩ := hget.scheme
  have hempty : assertValid [] = false := by decide
  simp only [addKeysLoop, hs, eval_bind, getPubKey_reads hs hget hcontents, Option.bind_some,
    trustedKeyPrefixExists, readArmoredKeyRing, hpfx, hempty, Bool.false_eq_true, if_false,
    eval_pure]

end

/-- The name has the prefix. Every name has the empty one. -/
def Covers (pfx id : Str) : Prop := pfx = [] ∨ split pfx <+: split id

/-- What `rkt trust` is for: the call succeeds, the keys are then trusted for the names that have
the prefix, and nothing else has changed for the other names. -/
structure Keystore.Trusting (ks : Keystore) (c : Settings) (w : Sources) (pkls : List Str)
    (ks' : Keystore) : Prop where
  succeeds : ∀ r s, (addKeys c (some ks.config) pkls true).Runs (fileStep w) ks r s ↔
    r = .ok () ∧ s = ks'
  trusted : ∀ id, validACIdentifier id = true → Covers c.pfx id →
    ∃ keys, loadKeyring ks' id = .ok keys ∧ ∀ fp, w.Given pkls fp → fp ∈ keys
  unchanged : ∀ id, validACIdentifier id = true → ¬ Covers c.pfx id →
    loadKeyring ks' id = loadKeyring ks id

/-- **`rkt trust` does what it is for** if there is a prefix, nothing is in the way of the keys,
and the names that have the prefix as a string only trusted them before; and in no other case. -/
theorem addKeys_trusts_iff (c : Settings) (w : Sources) (ks : Keystore) (pkls : List Str)
    (hks : ks.NoMasks) (htidy : ks.config.Tidy)
    (hpfx : c.pfx = [] ∨ validACIdentifier c.pfx = true) (hover : c.allowOverride = true)
    (hpkls : ∀ l ∈ pkls, Readable c w l) :
    (∃ ks', ks.Trusting c w pkls ks') ↔ pkls = [] ∨ c.pfx ≠ [] ∧ ∀ fp, w.Given pkls fp →
      ks.Free (split c.pfx) fp ∧
        ∀ id, validACIdentifier id = true → FalsePrefix (split c.pfx) (split id) →
          ∃ keys, loadKeyring ks id = .ok keys ∧ fp ∈ keys := by
  have hruns : ∀ r s, (addKeys c (some ks.config) pkls true).Runs (fileStep w) ks r s ↔
      (addKeysLoop c ks.config pkls true).eval (fileStep w) (answer w) ks = some (r, s) :=
    fun r s => runs_fileStep_iff
  constructor
  · rintro ⟨ks', h⟩
    by_cases hnil : pkls = []
    · exact .inl hnil
    have hrun := (hruns _ _).mp ((h.succeeds _ _).mpr ⟨rfl, rfl⟩)
    have hne : c.pfx ≠ [] := by
      intro hempty
      obtain ⟨l, ls, rfl⟩ := List.exists_cons_of_ne_nil hnil
      rw [addKeysLoop_root hempty (hpkls l List.mem_cons_self)] at hrun
      cases hrun
    have hvalid := hpfx.resolve_left hne
    have hfree := (addKeysLoop_ok hvalid hover hpkls hks htidy).2 _ hrun
    obtain ⟨ks'', hrun', hadded⟩ := (addKeysLoop_ok hvalid hover hpkls hks htidy).1 hfree
    cases hrun.symm.trans hrun'
    refine .inr ⟨hne, fun fp hfp => ⟨hfree fp hfp, fun id hid hfalse => ?_⟩⟩
    obtain ⟨keys, keys', hload, hload', hmem⟩ := hadded.keyring (split_ne_nil _) hks hid
    have hsame := h.unchanged id hid (not_or.mpr ⟨hne, hfalse.2.2⟩)
    rw [hload, hload'] at hsame
    cases hsame
    exact ⟨keys, hload, (hmem fp).mpr (.inr ⟨⟨hfalse.1, hfalse.2.1⟩, hfp⟩)⟩
  · rintro (rfl | ⟨hne, hcond⟩)
    · refine ⟨ks, fun r s => ?_, fun id hid _ => ?_, fun _ _ _ => rfl⟩
      · rw [hruns]
        show some (.ok (), ks) = some (r, s) ↔ _
        rw [Option.some.injEq, Prod.mk.injEq, eq_comm, eq_comm (a := ks)]
      · obtain ⟨keys, hload, -⟩ := loadKeyring_eq hks hid
        refine ⟨keys, hload, ?_⟩
        rintro fp ⟨l, hl, -⟩
        cases hl
    · have hvalid := hpfx.resolve_left hne
      obtain ⟨ks', hrun, hadded⟩ := (addKeysLoop_ok hvalid hover hpkls hks htidy).1
        fun fp hfp => (hcond fp hfp).1
      refine ⟨ks', fun r s => ?_, fun id hid hcov => ?_, fun id hid hcov => ?_⟩
      · rw [hruns, hrun, Option.some.injEq, Prod.mk.injEq, eq_comm, eq_comm (a := ks')]
      · obtain ⟨keys, keys', -, hload', hmem⟩ := hadded.keyring (split_ne_nil _) hks hid
        have hreached := reached_of_prefix (split_ne_nil _) (hcov.resolve_left hne)
        exact ⟨keys', hload', fun fp hfp => (hmem fp).mpr (.inr ⟨hreached, hfp⟩)⟩
      · obtain ⟨keys, keys', hload, hload', hmem⟩ := hadded.keyring (split_ne_nil _) hks hid
        have hsame : keys' = keys := by
          ext fp
          rw [hmem]
          refine or_iff_left_of_imp ?_
          rintro ⟨⟨hhead, hpre⟩, hfp⟩
          obtain ⟨keys₀, hload₀, hold⟩ :=
            (hcond fp hfp).2 id hid ⟨hhead, hpre, (not_or.mp hcov).2⟩
          cases hload.symm.trans hload₀
          exact hold
        rw [hload, hload', hsame]

def exampleSources : Sources where
  contents l := if l = localKey then some (.key "5ce312".toList) else none
  input := []

theorem exampleSources_readable (c : Settings) (h : c.scheme localKey = some []) :
    ∀ l ∈ [localKey], Readable c exampleSources l := by
  rw [List.forall_mem_singleton]
  exact ⟨.inl h, "5ce312".toList, by decide, by decide⟩

theorem fooKeystore_tidy : fooKeystore.config.Tidy where
  plain p := by
    cases p <;> decide
  apart p q := by
    cases p <;> cases q <;> decide

theorem not_falsePrefix_singleton (x : Str) (comps : List Str) : ¬ FalsePrefix [x] comps := by
  rintro ⟨hhead, -, hpre⟩
  cases comps with
  | nil => cases hhead
  | cons y ys =>
    cases hhead
    exact hpre (List.cons_prefix_cons.mpr ⟨rfl, List.nil_prefix⟩)

theorem fooKeystore_free : fooKeystore.Free ["example.com".toList] "5ce312".toList where
  noFile Q hQ c h := by
    have hfind := (hasAt_iff_findAt fooKeystore.localPrefix_wf).mp h
    rcases List.prefix_cons_iff.mp hQ with rfl | ⟨Q', rfl, hnil⟩
    · cases hfind
    · rw [List.prefix_nil.mp hnil] at hfind
      cases hfind
  noDir es h := by cases h
  system := .inr fun Q _ c h => by
    obtain ⟨n, hn, -⟩ := h
    cases hn

theorem addKeys_trusts_example :
    ∃ ks', fooKeystore.Trusting exampleSettings exampleSources [localKey] ks' := by
  refine (addKeys_trusts_iff exampleSettings exampleSources fooKeystore [localKey]
    fooKeystore_noMasks fooKeystore_tidy (.inr (by decide)) rfl
    (exampleSources_readable _ (by decide))).mpr (.inr ⟨by decide, ?_⟩)
  have hsplit : split exampleSettings.pfx = ["example.com".toList] := by decide
  rintro fp ⟨l, hl, hfp⟩
  rw [List.mem_singleton] at hl
  subst hl
  cases hfp
  rw [hsplit]
  exact ⟨fooKeystore_free, fun id _ hfalse => absurd hfalse (not_falsePrefix_singleton _ _)⟩

/-- **No key can be trusted for all images.** The empty prefix is no identifier, so the check for
an existing key fails. -/
theorem addKeys_fails_for_root :
    fooKeystore.NoMasks ∧ fooKeystore.config.Tidy ∧
      (∀ l ∈ [localKey], Readable { exampleSettings with pfx := [] } exampleSources l) ∧
      ∀ r s, (addKeys { exampleSettings with pfx := [] } (some fooKeystore.config) [localKey]
        true).Runs (fileStep exampleSources) fooKeystore r s ↔
          r = .error (.reading localKey .identifier) ∧ s = fooKeystore := by
  have hread : ∀ l ∈ [localKey], Readable { exampleSettings with pfx := [] } exampleSources l :=
    exampleSources_readable _ (by decide)
  refine ⟨fooKeystore_noMasks, fooKeystore_tidy, hread, fun r s => ?_⟩
  rw [runs_fileStep_iff, addKeys, addKeysLoop_root rfl (hread _ List.mem_cons_self),
    Option.some.injEq, Prod.mk.injEq, eq_comm, eq_comm (a := fooKeystore)]

end Rkt.Keys
