import Rkt.Store.Best

set_option autoImplicit false

namespace Rkt.Store

open Conc Proto DbProto Relation

section remove

variable {p q : Pid} {M : Machine (dbSig coreSig stmtSig) (DbState Core Database)}
  {hM : M.Sub (dbMachine coreMachine Stmt.run)}

theorem shrink_triple (hq : q ≠ p) {o : Op} (ho : ∀ r c c', next q o r c = some c' →
      ∀ key m, c'.imageManifest key = some m → c.imageManifest key = some m) :
    ((lookProto p).proto hM).Triple q (Out q) (sys o) fun _ => Out q :=
  base_triple steady_true.stable fun c _ r c' _ _ hn =>
    ⟨trivial, ⟨⟨.refl _, ho r c c' hn⟩, fun h => absurd h hq⟩, trivial⟩

variable {c c' : Core} {key : Key}

theorem lockImage_manifests {r : Bool}
    (h : next q (.lockImage key) r c = some c') : c'.imageManifest = c.imageManifest := by
  cases r with
  | false =>
    cases h
    rfl
  | true => rw [(lockImage_next h).2]

theorem closeImage_manifests {r : Unit}
    (h : next q (.closeImage key) r c = some c') : c'.imageManifest = c.imageManifest := by
  cases h
  split <;> rfl

theorem erase_manifests {store : DiskvStore} {r : Bool}
    (h : next q (.erase store key) r c = some c') {key' : Key} {m : Manifest}
    (hm : c'.imageManifest key' = some m) : c.imageManifest key' = some m := by
  cases r with
  | false =>
    cases h
    exact hm
  | true =>
    rcases Core.erase_eq h with rfl | rfl
    · exact hm
    · rcases update_eq_some hm with hold | ⟨-, hnew⟩
      · exact hold
      · cases hnew

theorem remove_commits_look (hq : q ≠ p) (key : Key) :
    Commits Stmt.run (lookProto p) M q (fun _ _ => True) (removeTx key) fun _ _ _ => True where
  commit _ _ _ _ hruns _ _ _ _ := by
    obtain ⟨-, rfl⟩ := removeTx_ok hruns
    exact ⟨trivial, ⟨⟨List.filter_sublist, fun _ _ h => h⟩, fun h => absurd h hq⟩, trivial⟩
  fail _ _ _ _ _ _ _ _ _ := trivial

theorem removeACI_look (hq : q ≠ p) (key : Key) :
    ((lookProto p).proto hM).Triple q (Out q) (removeACI key) fun _ => Out q :=
  removeACI_parts
    (shrink_triple hq fun r c c' hn key m hm => by rwa [lockImage_manifests hn] at hm)
    (out_dbDo lookProto_tolerant (remove_commits_look hq key))
    (fun store => shrink_triple hq fun r c c' hn key m hm => erase_manifests hn hm)
    (shrink_triple hq fun r c c' hn key m hm => by rwa [closeImage_manifests hn] at hm)

end remove

theorem Shrinks.trans {c1 c2 c3 : Core} {d1 d2 d3 : Database} (h : Shrinks c1 d1 c2 d2)
    (h' : Shrinks c2 d2 c3 d3) : Shrinks c1 d1 c3 d3 :=
  ⟨h'.rows.trans h.rows, fun key m hm => h.manifests key m (h'.manifests key m hm)⟩

def Later (s s' : DbState Core Database) : Prop := Shrinks s.core s.db s'.core s'.db

instance : IsTrans (DbState Core Database) Later := ⟨fun _ _ _ => Shrinks.trans⟩

theorem Keyed.later {hash : Image → Key} {s s' : DbState Core Database} (h : Keyed hash s.db)
    (hl : Later s s') : Keyed hash s'.db where
  nodup := h.nodup.sublist (hl.rows.map _)
  hashes key hkey := h.hashes key ((hl.rows.map _).subset hkey)

theorem later_total {seen : List (DbState Core Database)} (h : seen.IsChain Later)
    {s s' : DbState Core Database} (hs : s ∈ seen) (hs' : s' ∈ seen) : Later s s' ∨ Later s' s := by
  have hpair : seen.Pairwise fun s s' => Later s s' ∨ Later s' s :=
    (List.isChain_iff_pairwise.mp h).imp .inl
  have hsymm : Std.Symm fun s s' => Later s s' ∨ Later s' s := ⟨fun _ _ => Or.symm⟩
  exact hpair.forall_of_forall (fun s _ => .inl (.refl s.core s.db)) hs hs'

theorem later_first {s0 : DbState Core Database} {rest : List (DbState Core Database)}
    (h : (s0 :: rest).IsChain Later) {s : DbState Core Database} (hs : s ∈ s0 :: rest) :
    Later s0 s := by
  rcases List.mem_cons.mp hs with rfl | hrest
  · exact .refl s.core s.db
  · exact List.rel_of_pairwise_cons (List.isChain_iff_pairwise.mp h) hrest

section scan

variable {H : DbState Core Database → Prop} {name : Str} {labels : List (Str × Str)}
  {cur : Option ACIInfo} {rows : List ACIInfo}

/-- A manifest of the row was read, with states in `H`. -/
def Read (H : DbState Core Database → Prop) (row : ACIInfo) (r : Except LookupErr Manifest) :
    Prop :=
  ∃ s₁ s₂ : DbState Core Database, H s₁ ∧ H s₂ ∧ manifestAt s₁.db s₂.core row.blobKey = r

theorem prefer_eq (v : Bool) (cur : Option ACIInfo) (row : ACIInfo) :
    prefer v cur row = row ∨ cur = some (prefer v cur row) := by
  cases cur with
  | none => exact .inl rfl
  | some cur =>
    simp only [prefer]
    split_ifs <;> simp

/-- A key that is returned is that of a row whose manifest has the labels. -/
theorem scan_ok {key : Key} (h : Scan H name labels cur rows (.ok key)) :
    (∃ row, cur = some row ∧ row.blobKey = key) ∨
      ∃ row ∈ rows, row.blobKey = key ∧ ∃ m, Read H row (.ok m) ∧ hasLabels labels m = true := by
  generalize hr : (Except.ok key : Except LookupErr Key) = r at h
  induction h with
  | done => exact .inl (found_ok_iff.mp hr.symm)
  | fails => cases hr
  | @takes cur row rows m s₁ s₂ r h1 h2 hm hl _ ih =>
    rcases ih hr with ⟨row', hcur, hkey⟩ | ⟨row', hrow', h⟩
    · rcases prefer_eq (versionRequested labels) cur row with heq | heq
      · obtain rfl : row = row' := heq.symm.trans (Option.some.inj hcur)
        exact .inr ⟨row, List.mem_cons_self, hkey, m, ⟨s₁, s₂, h1, h2, hm⟩, hl⟩
      · exact .inl ⟨row', heq.trans hcur, hkey⟩
    · exact .inr ⟨row', List.mem_cons_of_mem _ hrow', h⟩
  | skips _ _ _ _ _ ih =>
    rcases ih hr with hcur | ⟨row', hrow', h⟩
    · exact .inl hcur
    · exact .inr ⟨row', List.mem_cons_of_mem _ hrow', h⟩

/-- If there is an error then a manifest could not be read, or none had the labels. -/
theorem scan_error {e : LookupErr} (h : Scan H name labels cur rows (.error e)) :
    (∃ row ∈ rows, ∃ e', Read H row (.error e')) ∨
      cur = none ∧ ∀ row ∈ rows, ∃ m, Read H row (.ok m) ∧ hasLabels labels m = false := by
  generalize hr : (Except.error e : Except LookupErr Key) = r at h
  induction h with
  | @done cur =>
    cases cur with
    | none => exact .inr ⟨rfl, fun _ h => absurd h List.not_mem_nil⟩
    | some row => cases hr
  | @fails cur row rows e s₁ s₂ h1 h2 he =>
    exact .inl ⟨row, List.mem_cons_self, e, s₁, s₂, h1, h2, he⟩
  | takes _ _ _ _ _ ih =>
    rcases ih hr with ⟨row', hrow', h⟩ | ⟨hcur, -⟩
    · exact .inl ⟨row', List.mem_cons_of_mem _ hrow', h⟩
    · cases hcur
  | @skips cur row rows m s₁ s₂ r h1 h2 hm hl _ ih =>
    rcases ih hr with ⟨row', hrow', h⟩ | ⟨hcur, h⟩
    · exact .inl ⟨row', List.mem_cons_of_mem _ hrow', h⟩
    · refine .inr ⟨hcur, List.forall_mem_cons.mpr ⟨?_, h⟩⟩
      exact ⟨m, ⟨s₁, s₂, h1, h2, hm⟩, hl⟩

end scan

theorem Keyed.manifestAt_key {sum : Image → Digest} {d : Database}
    (h : Keyed (fun image => keyToString (sum image)) d) {image : Image} {c : Core} {m : Manifest} :
    manifestAt d c (keyToString (sum image)) = .ok m ↔
      keyToString (sum image) ∈ d.keys ∧ c.imageManifest (keyToString (sum image)) = some m := by
  rw [manifestAt_ok_iff]
  constructor
  · rintro ⟨K, hres, hm⟩
    obtain ⟨rfl, hK⟩ := h.resolve_key.mp hres
    exact ⟨hK, hm⟩
  · rintro ⟨hK, hm⟩
    exact ⟨_, h.resolve_key.mpr ⟨rfl, hK⟩, hm⟩

section states

variable {sum : Image → Digest} {seen : List (DbState Core Database)} {name : Str}
  {labels : List (Str × Str)}

variable {row : ACIInfo}

theorem Read.manifest (hkeys : ∀ s ∈ seen, Keyed (fun image => keyToString (sum image)) s.db)
    {s0 : DbState Core Database} (hs0 : s0 ∈ seen) (hrow : row ∈ s0.db.aciinfo)
    {m : Manifest} (h : Read (· ∈ seen) row (.ok m)) :
    ∃ s ∈ seen, s.core.imageManifest row.blobKey = some m := by
  obtain ⟨s₁, s₂, h1, h2, hm⟩ := h
  obtain ⟨image, himage⟩ := (hkeys s0 hs0).hashes _ (List.mem_map_of_mem hrow)
  rw [← himage] at hm ⊢
  exact ⟨s₂, h2, ((hkeys s₁ h1).manifestAt_key.mp hm).2⟩

/-- If a manifest could not be read then the row or the manifest was gone. -/
theorem Read.gone (hkeys : ∀ s ∈ seen, Keyed (fun image => keyToString (sum image)) s.db)
    {s0 : DbState Core Database} (hs0 : s0 ∈ seen) (hrow : row ∈ s0.db.aciinfo)
    {e : LookupErr} (h : Read (· ∈ seen) row (.error e)) :
    ∃ s ∈ seen, row ∉ s.db.aciinfo ∨ s.core.imageManifest row.blobKey = none := by
  obtain ⟨s₁, s₂, h1, h2, he⟩ := h
  obtain ⟨image, himage⟩ := (hkeys s0 hs0).hashes _ (List.mem_map_of_mem hrow)
  by_cases hrow1 : row ∈ s₁.db.aciinfo
  · refine ⟨s₂, h2, .inr ?_⟩
    cases hm : s₂.core.imageManifest row.blobKey with
    | none => rfl
    | some m =>
      have hmem : row.blobKey ∈ s₁.db.keys := List.mem_map_of_mem hrow1
      rw [← himage] at hm hmem he
      rw [(hkeys s₁ h1).manifestAt_key.mpr ⟨hmem, hm⟩] at he
      cases he
  · exact ⟨s₁, h1, .inl hrow1⟩

/-- The image whose key is returned was there, and matched, at some moment. -/
theorem answers_ok (hkeys : ∀ s ∈ seen, Keyed (fun image => keyToString (sum image)) s.db)
    (hchain : seen.IsChain Later) {key : Key} (h : Answers (· ∈ seen) name labels (.ok key)) :
    ∃ s ∈ seen, ∃ row, Matches s name labels row ∧ row.blobKey = key := by
  obtain ⟨s0, rows, hs0, hperm, hscan⟩ := h
  rcases scan_ok hscan with ⟨row, hcur, -⟩ | ⟨row, hrow, hkey, m, hread, hl⟩
  · cases hcur
  · obtain ⟨hrow, hname⟩ := List.mem_filter.mp (hperm.mem_iff.mp hrow)
    have hname := of_decide_eq_true hname
    have hl := hasLabels_iff.mp hl
    obtain ⟨s, hs, hm⟩ := hread.manifest hkeys hs0 hrow
    -- the earlier one of the two states has the row and the manifest
    rcases later_total hchain hs0 hs with hlater | hlater
    · exact ⟨s0, hs0, row, ⟨hrow, hname, m, hlater.manifests _ _ hm, hl⟩, hkey⟩
    · exact ⟨s, hs, row, ⟨hlater.rows.subset hrow, hname, m, hm, hl⟩, hkey⟩

/-- There is an error only if an image that was listed was gone when its manifest was to be
read. -/
theorem answers_error (hkeys : ∀ s ∈ seen, Keyed (fun image => keyToString (sum image)) s.db)
    {e : LookupErr} (h : Answers (· ∈ seen) name labels (.error e))
    (hrow : ∀ s ∈ seen, Matches s name labels row) :
    ∃ s0 ∈ seen, ∃ row ∈ s0.db.aciinfo, row.appName = name ∧
      ∃ s ∈ seen, row ∉ s.db.aciinfo ∨ s.core.imageManifest row.blobKey = none := by
  obtain ⟨s0, rows, hs0, hperm, hscan⟩ := h
  have hmem : ∀ row, row ∈ rows ↔ row ∈ s0.db.aciinfo ∧ row.appName = name := by
    intro row
    rw [hperm.mem_iff, List.mem_filter, decide_eq_true_eq]
  rcases scan_error hscan with ⟨row', hrow', e', hread⟩ | ⟨-, hall⟩
  · obtain ⟨hrow', hname⟩ := (hmem row').mp hrow'
    exact ⟨s0, hs0, row', hrow', hname, hread.gone hkeys hs0 hrow'⟩
  · -- the manifest of the image that is always there was read
    have hrow0 := hrow s0 hs0
    obtain ⟨m, hread, hl⟩ := hall row ((hmem row).mpr ⟨hrow0.stored, hrow0.named⟩)
    obtain ⟨s, hs, hm⟩ := hread.manifest hkeys hs0 hrow0.stored
    obtain ⟨m', hm', hl'⟩ := (hrow s hs).labelled
    cases hm.symm.trans hm'
    rw [hasLabels_iff.mpr hl'] at hl
    cases hl

end states

theorem getACI_call {p : Pid} {c c' : Config (dbSig coreSig stmtSig) (DbState Core Database)}
    {k : Except LookupErr Key → StoreProg Unit} {name : Str} {labels : List (Str × Str)}
    {seen : List (DbState Core Database)} {r : Except LookupErr Key}
    {hsub : (sureMachine p).Sub (dbMachine coreMachine Stmt.run)}
    (hok : ((lookProto p).proto hsub).OkBut p c) (hout : Out p c.shared)
    (hcall : Call (sureMachine p) p k c (getACI name labels) seen r c') :
    Answers (· ∈ seen) name labels r ∧ ∃ rest, seen = c.shared :: rest ∧ seen.IsChain Later := by
  have hsub' : ((sureMachine p).within (· ∈ seen)).Sub (dbMachine coreMachine Stmt.run) :=
    ⟨fun hn => hsub.next (Machine.within_next hn).2, rfl⟩
  have hlook : Looks p (· ∈ seen) ((sureMachine p).within (· ∈ seen)) := by
    intro o r s s' hn
    obtain ⟨hs, hn⟩ := Machine.within_next hn
    exact ⟨(Machine.restrict_next hn).1 rfl, hs⟩
  have hsafe : ((lookProto p).proto hsub').Safe p (getACI name labels)
      (fun r s => Out p s ∧ Answers (· ∈ seen) name labels r) c.shared :=
    getACI_triple hlook name labels _ hout
  have hok' : ((lookProto p).proto hsub').OkBut p c := hok.sub Machine.within_sub
  have hcall' := hcall.within fun s hs => hs
  obtain ⟨rest, hseen, hchain⟩ := hsafe.chain hok' hcall'
  refine ⟨(hsafe.call hok' hcall').1.2, rest, hseen, hchain.imp fun s s' h => ?_⟩
  obtain ⟨q, hg⟩ := h
  exact hg.1.1

/-- **`GetACI` next to `RemoveACI`.** The other processes remove images, one after the other; what
they do may fail. A key that `GetACI` returns is that of an image that was stored, with the name and
the labels, at some moment of the call. If there is such an image throughout the call, and none of
the images of that name vanishes during the call, then it returns a key. -/
theorem getACI_beside_removeACI (sum : Image → Digest) (p : Pid)
    (c₀ c c' : Config (dbSig coreSig stmtSig) (DbState Core Database))
    (k : Except LookupErr Key → StoreProg Unit) (name : Str) (labels : List (Str × Str))
    (seen : List (DbState Core Database)) (r : Except LookupErr Key)
    (hkeys : Keyed (fun image => keyToString (sum image)) c₀.shared.db)
    (hidle : ∀ q, c₀.shared.work q = none)
    (hothers : ∀ q, q ≠ p → MakesCalls removeACI (c₀.procs q))
    (hbefore : ReflTransGen (fun c c' => ∃ q, p ≠ q ∧ StepOf (sureMachine p) q c c') c₀ c)
    (hcall : Call (sureMachine p) p k c (getACI name labels) seen r c') :
    (∀ key, r = .ok key → ∃ s ∈ seen, ∃ row, Matches s name labels row ∧ row.blobKey = key) ∧
    ((∃ row, ∀ s ∈ seen, Matches s name labels row) →
      (∀ row ∈ c.shared.db.aciinfo, row.appName = name → ∀ s ∈ seen,
        row ∈ s.db.aciinfo ∧ s.core.imageManifest row.blobKey ≠ none) →
      ∃ key, r = .ok key) := by
  have hsub : (sureMachine p).Sub (dbMachine coreMachine Stmt.run) := Machine.restrict_sub
  have hok₀ : ((lookProto p).proto hsub).OkBut p c₀ := by
    refine ⟨⟨trivial, fun q w hw => ?_⟩, fun q hq => ?_⟩
    · rw [hidle q] at hw
      cases hw
    · exact ((hothers q hq).triple (removeACI_look hq)).post (fun _ _ _ => trivial) _
        ⟨hidle q, by simp, trivial⟩
  obtain ⟨hok, henv⟩ := hok₀.others hbefore
  have hout : Out p c.shared := steady_true.stable.idle.star henv ⟨hidle p, by simp, trivial⟩
  have hkeys : Keyed (fun image => keyToString (sum image)) c.shared.db := by
    refine Stable.star (A := fun s => Keyed (fun image => keyToString (sum image)) s.db) ?_ henv
      hkeys
    exact fun q s s' _ _ _ hg h => h.later hg.1.1
  obtain ⟨hanswers, rest, rfl, hchain⟩ := getACI_call hok hout hcall
  have hkeys : ∀ s ∈ c.shared :: rest, Keyed (fun image => keyToString (sum image)) s.db :=
    fun s hs => hkeys.later (later_first hchain hs)
  refine ⟨fun key hr => ?_, fun ⟨row, hrow⟩ hstay => ?_⟩
  · subst hr
    exact answers_ok hkeys hchain hanswers
  · cases r with
    | ok key => exact ⟨key, rfl⟩
    | error e =>
      obtain ⟨s₀, hs₀, row', hrow', hname, s, hs, hgone⟩ := answers_error hkeys hanswers hrow
      have hfirst := (later_first hchain hs₀).rows.subset hrow'
      obtain ⟨hthere, hm⟩ := hstay row' hfirst hname s hs
      rcases hgone with hgone | hgone
      · exact absurd hthere hgone
      · exact absurd hgone hm

/-- Two images of one name, and one of another name. -/
def firstRow : ACIInfo := ⟨keyToString (byteDigest 0), "example.com/app".toList, 1, false⟩

def secondRow : ACIInfo := ⟨keyToString (byteDigest 1), "example.com/app".toList, 2, false⟩

def otherRow : ACIInfo := ⟨keyToString (byteDigest 2), "example.com/other".toList, 3, false⟩

/-- The sums of the images are told apart by one character. -/
def sumByContents (image : Image) : Digest :=
  match image.contents with
  | ['1'] => byteDigest 1
  | ['2'] => byteDigest 2
  | _ => byteDigest 0

def threeImages : DbState Core Database :=
  initial { Core.empty with
    imageManifest := fun key =>
      if key = otherRow.blobKey then some ⟨"example.com/other".toList, []⟩
      else if key = firstRow.blobKey ∨ key = secondRow.blobKey then
        some ⟨"example.com/app".toList, []⟩
      else none }
    ⟨some [], [], [firstRow, secondRow, otherRow]⟩

/-- Process 0 looks an image up while process 1 removes one. -/
def lookingUp (key : Key) : Config (dbSig coreSig stmtSig) (DbState Core Database) where
  shared := threeImages
  procs
    | 0 => do
      let _ ← getACI "example.com/app".toList []
      return ()
    | 1 => do
      let _ ← removeACI key
      return ()
    | _ => return ()

theorem lookingUp_calls (key : Key) (q : Pid) (hq : q ≠ 0) :
    MakesCalls removeACI ((lookingUp key).procs q) := by
  rcases q with _ | _ | q
  · exact absurd rfl hq
  · exact .call key _ fun _ => .done
  · exact .done

theorem threeImages_keyed :
    Keyed (fun image => keyToString (sumByContents image)) threeImages.db where
  nodup := by decide +kernel
  hashes key hkey := by
    have hrows : key ∈ [firstRow.blobKey, secondRow.blobKey, otherRow.blobKey] := hkey
    simp only [List.mem_cons, List.not_mem_nil, or_false] at hrows
    rcases hrows with rfl | rfl | rfl
    · exact ⟨⟨⟨[], []⟩, ['0']⟩, rfl⟩
    · exact ⟨⟨⟨[], []⟩, ['1']⟩, rfl⟩
    · exact ⟨⟨⟨[], []⟩, ['2']⟩, rfl⟩

/-- The removal takes place after the images were listed. -/
def afterListing : List Pid := List.replicate 13 0 ++ List.replicate 40 1 ++ List.replicate 60 0

def Present (row : ACIInfo) (s : DbState Core Database) : Prop :=
  row ∈ s.db.aciinfo ∧
    s.core.imageManifest row.blobKey = some ⟨"example.com/app".toList, []⟩

instance (row : ACIInfo) (s : DbState Core Database) : Decidable (Present row s) :=
  inferInstanceAs (Decidable (_ ∧ _))

theorem Present.matches {row : ACIInfo} {s : DbState Core Database} (h : Present row s)
    (hname : row.appName = "example.com/app".toList) : Matches s "example.com/app".toList [] row :=
  ⟨h.1, hname, _, h.2, fun _ hl => absurd hl List.not_mem_nil⟩

/-- Process 1 removes the image of the other name. -/
theorem getACI_beside_other :
    ∃ seen key c', Call (sureMachine 0) 0 (fun _ => return ()) (lookingUp otherRow.blobKey)
        (getACI "example.com/app".toList []) seen (.ok key) c' ∧
      ∃ s ∈ seen, otherRow ∉ s.db.aciinfo := by
  let outside : Outside := {}
  obtain ⟨seen, r, c', hcall, hf⟩ := playCall_seen (M := sureMachine 0) (p := 0)
    (moves storeMachine outside.answer afterListing (lookingUp otherRow.blobKey))
    (getACI "example.com/app".toList []) (c := lookingUp otherRow.blobKey)
    (fun seen _ => (∀ s ∈ seen, Present firstRow s ∧ Present secondRow s) ∧
      ∃ s ∈ seen, otherRow ∉ s.db.aciinfo) rfl (by decide +kernel)
  obtain ⟨hpresent, hgone⟩ := of_decide_eq_true hf
  have hstay : ∀ row ∈ (lookingUp otherRow.blobKey).shared.db.aciinfo,
      row.appName = "example.com/app".toList → ∀ s ∈ seen,
      row ∈ s.db.aciinfo ∧ s.core.imageManifest row.blobKey ≠ none := by
    intro row hrow hname s hs
    have hthere : Present row s := by
      have hrows : row ∈ [firstRow, secondRow, otherRow] := hrow
      simp only [List.mem_cons, List.not_mem_nil, or_false] at hrows
      rcases hrows with rfl | rfl | rfl
      · exact (hpresent s hs).1
      · exact (hpresent s hs).2
      · exact absurd hname (by decide)
    refine ⟨hthere.1, ?_⟩
    rw [hthere.2]
    exact Option.some_ne_none _
  have hbeside := getACI_beside_removeACI sumByContents 0 _ _ c' _ _ _ seen r threeImages_keyed
    (fun _ => rfl) (lookingUp_calls otherRow.blobKey) .refl hcall
  obtain ⟨key, rfl⟩ :=
    hbeside.2 ⟨firstRow, fun s hs => (hpresent s hs).1.matches rfl⟩ hstay
  exact ⟨seen, key, c', hcall, hgone⟩

/-- **`GetACI` fails because of an image that it would not have returned**: process 1 removes the
second image after it was listed, and the first one is there all the time. -/
theorem getACI_fails_beside :
    Keyed (fun image => keyToString (sumByContents image))
      (lookingUp secondRow.blobKey).shared.db ∧
    (∀ q, q ≠ 0 → MakesCalls removeACI ((lookingUp secondRow.blobKey).procs q)) ∧
    ∃ seen c', Call (sureMachine 0) 0 (fun _ => return ()) (lookingUp secondRow.blobKey)
        (getACI "example.com/app".toList []) seen
        (.error (.gettingManifest (.resolving .notFound))) c' ∧
      ∀ s ∈ seen, Matches s "example.com/app".toList [] firstRow := by
  refine ⟨threeImages_keyed, lookingUp_calls _, ?_⟩
  let outside : Outside := {}
  obtain ⟨seen, r, c', hcall, hf⟩ := playCall_seen (M := sureMachine 0) (p := 0)
    (moves storeMachine outside.answer afterListing (lookingUp secondRow.blobKey))
    (getACI "example.com/app".toList []) (c := lookingUp secondRow.blobKey)
    (fun seen r => r = .error (.gettingManifest (.resolving .notFound)) ∧
      ∀ s ∈ seen, Present firstRow s) rfl (by decide +kernel)
  obtain ⟨rfl, hpresent⟩ := of_decide_eq_true hf
  exact ⟨seen, c', hcall, fun s hs => (hpresent s hs).matches rfl⟩

end Rkt.Store
