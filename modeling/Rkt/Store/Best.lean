import Mathlib.Data.List.MinMax
import Mathlib.Data.Prod.Lex
import Rkt.Store.Resolve

set_option autoImplicit false

namespace Rkt.Store

open Conc

/-- A row with the name, whose manifest has all the labels. -/
structure Matches (s : DbState Core Database) (name : Str) (labels : List (Str × Str))
    (row : ACIInfo) : Prop where
  stored : row ∈ s.db.aciinfo
  named : row.appName = name
  labelled : ∃ m, s.core.imageManifest row.blobKey = some m ∧ ∀ l ∈ labels, l ∈ m.labels

variable {m : Manifest} {row : ACIInfo}

theorem hasLabels_iff {labels : List (Str × Str)} :
    hasLabels labels m = true ↔ ∀ l ∈ labels, l ∈ m.labels := by
  unfold hasLabels
  simp only [List.all_eq_true, List.any_eq_true, decide_eq_true_eq]
  constructor
  · intro h l hl
    obtain ⟨rl, hrl, hname, hvalue⟩ := h l hl
    rwa [Prod.ext hname hvalue]
  · intro h l hl
    exact ⟨l, h l hl, rfl, rfl⟩

theorem resolve_row {d : Database} {K : Key} (hrow : row ∈ d.aciinfo)
    (h : resolve d row.blobKey = .ok K) : K = row.blobKey := by
  unfold resolve at h
  split_ifs at h
  obtain ⟨row', hrows, rfl⟩ := onlyKey_ok_iff.mp h
  have hmem : row ∈ d.aciinfo.filter ((cut row.blobKey).isPrefixOf ·.blobKey) := by
    rw [mem_filter_start, cut_eq]
    exact ⟨hrow, List.take_prefix _ _⟩
  rw [hrows, List.mem_singleton] at hmem
  rw [hmem]

theorem manifestAt_row {d : Database} {c : Core}
    (hrow : row ∈ d.aciinfo) (h : manifestAt d c row.blobKey = .ok m) :
    c.imageManifest row.blobKey = some m := by
  obtain ⟨K, hres, hm⟩ := manifestAt_ok_iff.mp h
  rwa [resolve_row hrow hres] at hm

/-- The order of the elements does not matter if no two of them have the same value. -/
theorem argmax_congr {α β : Type} [LinearOrder β] {f : α → β} {l l' : List α}
    (hmem : ∀ a, a ∈ l ↔ a ∈ l') (hinj : ∀ a ∈ l, ∀ b ∈ l, f a = f b → a = b) :
    l.argmax f = l'.argmax f := by
  cases h : l.argmax f with
  | none =>
    have hnil : l' = [] := by
      rw [List.argmax_eq_none] at h
      rw [List.eq_nil_iff_forall_not_mem]
      intro a ha
      rw [← hmem, h] at ha
      cases ha
    rw [hnil, List.argmax_nil]
  | some a =>
    have ha : a ∈ l := List.argmax_mem h
    cases h' : l'.argmax f with
    | none =>
      rw [hmem, List.argmax_eq_none.mp h'] at ha
      cases ha
    | some b =>
      have hb : b ∈ l := (hmem b).mpr (List.argmax_mem h')
      have hab : f a ≤ f b := List.le_of_mem_argmax ((hmem a).mp ha) h'
      have hba : f b ≤ f a := List.le_of_mem_argmax hb h
      rw [hinj a ha b hb (le_antisymm hab hba)]

/-- What is compared: first the mark, unless a version is requested, and then the time. -/
def rank (labels : List (Str × Str)) (row : ACIInfo) : Bool ×ₗ Time :=
  toLex (!versionRequested labels && row.latest, row.importTime)

theorem argAux_rank (labels : List (Str × Str)) (cur : Option ACIInfo) (row : ACIInfo) :
    List.argAux (fun b c => rank labels c < rank labels b) cur row =
      some (prefer (versionRequested labels) cur row) := by
  cases cur with
  | none => rfl
  | some cur =>
    show (if rank labels cur < rank labels row then some row else some cur) = some (prefer _ _ _)
    simp only [rank, prefer, Prod.Lex.toLex_lt_toLex]
    -- what is left is about the three flags and the two times
    cases versionRequested labels <;> cases cur.latest <;> cases row.latest <;> simp <;>
      split_ifs <;> rfl

/-- Does the row have the labels, according to its manifest? -/
def suits (s : DbState Core Database) (labels : List (Str × Str)) (row : ACIInfo) : Bool :=
  match manifestAt s.db s.core row.blobKey with
  | .ok m => hasLabels labels m
  | .error _ => false

theorem suits_eq {s : DbState Core Database} {labels : List (Str × Str)}
    (h : manifestAt s.db s.core row.blobKey = .ok m) : suits s labels row = hasLabels labels m := by
  rw [suits, h]

theorem scan_readable {s : DbState Core Database} {name : Str} {labels : List (Str × Str)}
    {cur : Option ACIInfo} {rows : List ACIInfo} {r : Except LookupErr Key}
    (h : Scan (Like s) name labels cur rows r)
    (hread : ∀ row ∈ rows, ∃ m, manifestAt s.db s.core row.blobKey = .ok m) :
    r = found name labels ((rows.filter (suits s labels)).foldl
      (List.argAux fun b c => rank labels c < rank labels b) cur) := by
  have hlike : ∀ {s1 s2 : DbState Core Database} {key : Str}, Like s s1 → Like s s2 →
      manifestAt s1.db s2.core key = manifestAt s.db s.core key := by
    intro s1 s2 key h1 h2
    unfold manifestAt manifestIn
    rw [h1.1, h2.2]
  induction h with
  | done => rfl
  | fails h1 h2 he =>
    obtain ⟨m, hm⟩ := hread _ List.mem_cons_self
    rw [hlike h1 h2, hm] at he
    cases he
  | takes h1 h2 hm hl _ ih =>
    rw [hlike h1 h2] at hm
    rw [List.filter_cons_of_pos ((suits_eq hm).trans hl), List.foldl_cons, argAux_rank]
    exact ih fun row hrow => hread row (List.mem_cons_of_mem _ hrow)
  | skips h1 h2 hm hl _ ih =>
    rw [hlike h1 h2] at hm
    rw [List.filter_cons_of_neg (Bool.eq_false_iff.mp ((suits_eq hm).trans hl))]
    exact ih fun row hrow => hread row (List.mem_cons_of_mem _ hrow)

theorem found_ok_iff {name : Str} {labels : List (Str × Str)} {cur : Option ACIInfo} {key : Key} :
    found name labels cur = .ok key ↔ ∃ row, cur = some row ∧ row.blobKey = key := by
  cases cur with
  | none => simp [found]
  | some row => simp [found]

section

variable {p : Pid} {s s' : DbState Core Database} {name : Str} {labels : List (Str × Str)}
  {r : Except LookupErr Key}

/-- Every row with the name has a manifest that can be read. -/
def Readable (s : DbState Core Database) (name : Str) : Prop :=
  ∀ row ∈ s.db.aciinfo, row.appName = name → ∃ m, manifestAt s.db s.core row.blobKey = .ok m

theorem suits_iff (hread : Readable s name) {row : ACIInfo} (hrow : row ∈ s.db.aciinfo)
    (hname : row.appName = name) : suits s labels row = true ↔ Matches s name labels row := by
  obtain ⟨m, hm⟩ := hread row hrow hname
  have hrow' := manifestAt_row hrow hm
  rw [suits_eq hm, hasLabels_iff]
  constructor
  · intro h
    exact ⟨hrow, hname, m, hrow', h⟩
  · rintro ⟨-, -, m', hm', h⟩
    cases hrow'.symm.trans hm'
    exact h

/-- What is returned is a maximum of the matching rows, in some order. -/
theorem getACI_argmax (hs : Rests p s) (hread : Readable s name)
    (hrun : (getACI name labels).Runs ((sureMachine p).next p) s r s') :
    ∃ rows : List ACIInfo, (∀ row, row ∈ rows ↔ Matches s name labels row) ∧
      r = found name labels (rows.argmax (rank labels)) := by
  obtain ⟨s1, rows, h1, hperm, hscan⟩ := getACI_alone hs hrun
  rw [h1.1] at hperm
  have hmem : ∀ row, row ∈ rows ↔ row ∈ s.db.aciinfo ∧ row.appName = name := by
    intro row
    rw [hperm.mem_iff, List.mem_filter, decide_eq_true_eq]
  refine ⟨rows.filter (suits s labels), fun row => ?_, scan_readable hscan fun row hrow => ?_⟩
  · rw [List.mem_filter, hmem]
    constructor
    · rintro ⟨⟨hrow, hname⟩, hsuits⟩
      exact (suits_iff hread hrow hname).mp hsuits
    · intro h
      exact ⟨⟨h.stored, h.named⟩, (suits_iff hread h.stored h.named).mpr h⟩
  · obtain ⟨hrow, hname⟩ := (hmem row).mp hrow
    exact hread row hrow hname

end

/-- **`GetACI` returns an image that matches best.** Alone, with all manifests of the name
readable, it returns a key if and only if there is a matching row, and then the key of a matching
row than which no other one ranks higher. If no two rows have the same import time then the result
does not depend on the order in which the rows are listed. -/
theorem getACI_best (p : Pid) (s : DbState Core Database) (name : Str) (labels : List (Str × Str))
    (hs : Rests p s) (hlocks : ∀ key, s.core.imageLock key = none) (hread : Readable s name) :
    (∃ r s', (getACI name labels).Runs ((sureMachine p).next p) s r s') ∧
    (∀ r s', (getACI name labels).Runs ((sureMachine p).next p) s r s' →
      ((∃ key, r = .ok key) ↔ ∃ row, Matches s name labels row) ∧
      ∀ key, r = .ok key → ∃ row, Matches s name labels row ∧ row.blobKey = key ∧
        ∀ row', Matches s name labels row' → rank labels row' ≤ rank labels row) ∧
    ((∀ row ∈ s.db.aciinfo, ∀ row' ∈ s.db.aciinfo,
        row.importTime = row'.importTime → row = row') →
      ∀ r₁ s₁ r₂ s₂, (getACI name labels).Runs ((sureMachine p).next p) s r₁ s₁ →
        (getACI name labels).Runs ((sureMachine p).next p) s r₂ s₂ → r₁ = r₂) := by
  refine ⟨?_, fun r s' hrun => ?_, fun hdistinct r₁ s₁ r₂ s₂ hrun₁ hrun₂ => ?_⟩
  · obtain ⟨r, s', hrun, -⟩ := getACI_can name labels s ⟨hs, hlocks⟩
    exact ⟨r, s', hrun⟩
  · obtain ⟨rows, hmem, rfl⟩ := getACI_argmax hs hread hrun
    refine ⟨⟨?_, ?_⟩, ?_⟩
    · rintro ⟨key, hkey⟩
      obtain ⟨row, hmax, -⟩ := found_ok_iff.mp hkey
      exact ⟨row, (hmem row).mp (List.argmax_mem hmax)⟩
    · rintro ⟨row, hrow⟩
      cases hmax : rows.argmax (rank labels) with
      | none =>
        rw [← hmem, List.argmax_eq_none.mp hmax] at hrow
        cases hrow
      | some best => exact ⟨best.blobKey, rfl⟩
    · intro key hkey
      obtain ⟨row, hmax, hrow⟩ := found_ok_iff.mp hkey
      refine ⟨row, (hmem row).mp (List.argmax_mem hmax), hrow, fun row' hrow' => ?_⟩
      exact List.le_of_mem_argmax ((hmem row').mpr hrow') hmax
  · obtain ⟨rows₁, hmem₁, rfl⟩ := getACI_argmax hs hread hrun₁
    obtain ⟨rows₂, hmem₂, rfl⟩ := getACI_argmax hs hread hrun₂
    refine congrArg (found name labels) (argmax_congr (fun row => ?_) fun row h row' h' heq => ?_)
    · rw [hmem₁, hmem₂]
    · have htime : row.importTime = row'.importTime := congrArg (fun a => (ofLex a).2) heq
      exact hdistinct row ((hmem₁ row).mp h).stored row' ((hmem₁ row').mp h').stored htime

/-- Two images of one name. The older one is marked as latest. -/
def oldRow : ACIInfo := ⟨"sha512-aa".toList, "example.com/app".toList, 1, true⟩

def newRow : ACIInfo := ⟨"sha512-bb".toList, "example.com/app".toList, 2, false⟩

def twoImages : DbState Core Database :=
  initial { Core.empty with
    imageManifest := fun key =>
      if key = oldRow.blobKey ∨ key = newRow.blobKey then some ⟨"example.com/app".toList, []⟩
      else none }
    ⟨some [], [], [oldRow, newRow]⟩

theorem getACI_best_latest :
    Rests 0 twoImages ∧ Readable twoImages "example.com/app".toList ∧
    ∃ s', (getACI "example.com/app".toList []).Runs ((sureMachine 0).next 0) twoImages
      (.ok oldRow.blobKey) s' := by
  have hs : Rests 0 twoImages := ⟨⟨rfl, rfl⟩, fun _ => rfl⟩
  have hread : Readable twoImages "example.com/app".toList := by
    intro row hrow _
    refine ⟨⟨"example.com/app".toList, []⟩, ?_⟩
    rcases List.mem_pair.mp hrow with rfl | rfl
    · rfl
    · rfl
  have hold : Matches twoImages "example.com/app".toList [] oldRow :=
    ⟨List.mem_cons_self, rfl, ⟨"example.com/app".toList, []⟩, rfl, nofun⟩
  obtain ⟨⟨r, s', hrun⟩, hbest, -⟩ :=
    getACI_best 0 twoImages "example.com/app".toList [] hs (fun _ => rfl) hread
  obtain ⟨hiff, hmax⟩ := hbest r s' hrun
  obtain ⟨key, rfl⟩ := hiff.mpr ⟨oldRow, hold⟩
  obtain ⟨row, hrow, rfl, hrank⟩ := hmax key rfl
  refine ⟨hs, hread, s', ?_⟩
  rcases List.mem_pair.mp hrow.stored with rfl | rfl
  · exact hrun
  · exact absurd (hrank oldRow hold) (by decide)

end Rkt.Store
