import Mathlib

set_option autoImplicit false

namespace Rkt.Config

abbrev Str := List Char

/-- The order in which Go goes through a map. -/
structure Ranging where
  order : Finset Str → List Str
  mem : ∀ s x, x ∈ order s ↔ x ∈ s
  nodup : ∀ s, (order s).Nodup

def toSet (a : List Str) : Finset Str := a.foldl (fun s v => insert v s) ∅

def toArray (o : Ranging) (s : Finset Str) : List Str :=
  (o.order s).foldl (fun a k => a ++ [k]) (List.replicate s.card [])

structure Call where
  dir : Str
  kinds : List Str
  ranging : Ranging

/-- `configSubDirs` after a call, unless it panics. -/
def registerSubDir (subDirs : Str → List Str) (c : Call) : Option (Str → List Str) :=
  if c.dir = [] then none
  else if c.kinds = [] then none
  else
    let allKinds := toArray c.ranging (toSet (subDirs c.dir ++ c.kinds))
    some (Function.update subDirs c.dir (allKinds.mergeSort (· ≤ ·)))

def run (cs : List Call) : Option (Str → List Str) := cs.foldlM registerSubDir fun _ => []

/-- The list has the elements that are given, each of them once. -/
def Enumerates (l : List Str) (given : Str → Prop) : Prop := l.Nodup ∧ ∀ k, k ∈ l ↔ given k

theorem mem_toSet {a : List Str} {k : Str} : k ∈ toSet a ↔ k ∈ a := by
  have hfold : ∀ s : Finset Str, k ∈ a.foldl (fun s v => insert v s) s ↔ k ∈ s ∨ k ∈ a := by
    induction a with
    | nil => simp
    | cons v a ih =>
      intro s
      rw [List.foldl_cons, ih, Finset.mem_insert, List.mem_cons, or_right_comm,
        or_comm (a := k ∈ s), or_assoc]
  have h := hfold ∅
  rwa [or_iff_right (Finset.notMem_empty k)] at h

theorem toArray_eq (o : Ranging) (s : Finset Str) :
    toArray o s = List.replicate s.card [] ++ o.order s := by
  have hfold : ∀ l a : List Str, l.foldl (fun a k => a ++ [k]) a = a ++ l := by
    intro l
    induction l with
    | nil => simp
    | cons k l ih => simp [ih]
  exact hfold _ _

theorem mem_toArray_of_mem {o : Ranging} {s : Finset Str} {k : Str} (h : k ∈ s) :
    k ∈ toArray o s := by
  rw [toArray_eq]
  exact List.mem_append_right _ ((o.mem s k).mpr h)

/-- The empty string is there once too often, whether it was given or not. -/
theorem not_enumerates_toArray (o : Ranging) {s : Finset Str} (hs : s.Nonempty) {l : List Str}
    (hl : l.Perm (toArray o s)) {given : Str → Prop} (hgiven : ∀ k, given k → k ∈ s) :
    ¬ Enumerates l given := by
  rintro ⟨hnodup, hmem⟩
  have hempty : [] ∈ List.replicate s.card ([] : Str) :=
    List.mem_replicate.mpr ⟨(Finset.card_pos.mpr hs).ne', rfl⟩
  rw [hl.nodup_iff, toArray_eq, List.nodup_append] at hnodup
  have hl0 : [] ∈ l := hl.mem_iff.mpr (by
    rw [toArray_eq]
    exact List.mem_append_left _ hempty)
  have hs0 : [] ∈ o.order s := (o.mem s []).mpr (hgiven [] ((hmem []).mp hl0))
  exact hnodup.2.2 [] hempty [] hs0 rfl

/-- The kind was given for the directory. -/
def Given (cs : List Call) (dir kind : Str) : Prop := ∃ c ∈ cs, c.dir = dir ∧ kind ∈ c.kinds

theorem run_concat {cs : List Call} {c : Call} {s : Str → List Str} (h : run (cs ++ [c]) = some s) :
    ∃ s0, run cs = some s0 ∧ registerSubDir s0 c = some s := by
  rw [run, List.foldlM_append] at h
  obtain ⟨s0, h0, h⟩ := Option.bind_eq_some_iff.mp h
  refine ⟨s0, h0, ?_⟩
  simpa using h

theorem registerSubDir_some {s s' : Str → List Str} {c : Call} (h : registerSubDir s c = some s') :
    c.kinds ≠ [] ∧ s' = Function.update s c.dir
      ((toArray c.ranging (toSet (s c.dir ++ c.kinds))).mergeSort (· ≤ ·)) := by
  unfold registerSubDir at h
  split_ifs at h with hdir hkinds
  exact ⟨hkinds, (Option.some.inj h).symm⟩

theorem given_concat {cs : List Call} {c : Call} {dir kind : Str} :
    Given (cs ++ [c]) dir kind ↔ Given cs dir kind ∨ c.dir = dir ∧ kind ∈ c.kinds := by
  simp [Given, or_and_right, exists_or]

theorem mem_of_given {cs : List Call} {dir kind : Str} (hgiven : Given cs dir kind) :
    ∀ {s}, run cs = some s → kind ∈ s dir := by
  induction cs using List.reverseRecOn with
  | nil =>
    obtain ⟨c, hc, -⟩ := hgiven
    cases hc
  | append_singleton cs c ih =>
    intro s hs
    obtain ⟨s0, h0, hstep⟩ := run_concat hs
    obtain ⟨-, rfl⟩ := registerSubDir_some hstep
    rw [given_concat] at hgiven
    by_cases hdir : dir = c.dir
    · subst hdir
      rw [Function.update_self, List.mem_mergeSort]
      refine mem_toArray_of_mem (mem_toSet.mpr (List.mem_append.mpr ?_))
      exact hgiven.imp (fun h => ih h h0) And.right
    · rw [Function.update_of_ne hdir]
      exact ih (hgiven.resolve_right fun h => hdir h.1.symm) h0

/-- A call panics if its directory is empty or there are no kinds. -/
theorem registerSubDir_none_iff {s : Str → List Str} {c : Call} :
    registerSubDir s c = none ↔ c.dir = [] ∨ c.kinds = [] := by
  unfold registerSubDir
  split_ifs with hdir hkinds
  · simp [hdir]
  · simp [hkinds]
  · simp [hdir, hkinds]

theorem run_none_iff (cs : List Call) :
    run cs = none ↔ ∃ c ∈ cs, c.dir = [] ∨ c.kinds = [] := by
  have hfold : ∀ s, cs.foldlM registerSubDir s = none ↔ ∃ c ∈ cs, c.dir = [] ∨ c.kinds = [] := by
    induction cs with
    | nil => simp
    | cons c cs ih =>
      intro s
      rw [List.foldlM_cons, List.exists_mem_cons_iff]
      cases hstep : registerSubDir s c with
      | none => exact iff_of_true rfl (.inl (registerSubDir_none_iff.mp hstep))
      | some s' =>
        have hgoes : ¬ (c.dir = [] ∨ c.kinds = []) := fun h => by
          rw [registerSubDir_none_iff.mpr h] at hstep
          cases hstep
        exact (ih s').trans (or_iff_right hgoes).symm
  exact hfold _

/-- The kinds of every directory are the ones that were given, unless a call panics. -/
def Registers (cs : List Call) : Prop :=
  ∀ s, run cs = some s → ∀ dir, Enumerates (s dir) (Given cs dir)

/-- **The kinds that are registered are the ones that were given** only as long as nothing is
registered, or if a call panics, without a directory or without kinds; and going to a set and back
is right for the empty list only. -/
theorem registerSubDir_iff (cs : List Call) (o : Ranging) (a : List Str) :
    (Registers cs ↔ cs = [] ∨ ∃ c ∈ cs, c.dir = [] ∨ c.kinds = []) ∧
      (Enumerates (toArray o (toSet a)) (· ∈ a) ↔ a = []) := by
  rw [← run_none_iff]
  constructor
  · constructor
    · intro h
      by_contra hne
      obtain ⟨hcs, hrun⟩ := not_or.mp hne
      obtain ⟨s, hs⟩ := Option.ne_none_iff_exists'.mp hrun
      obtain ⟨cs₀, c, rfl⟩ := (List.eq_nil_or_concat cs).resolve_left hcs
      have hdir := h s hs c.dir
      rw [List.concat_eq_append] at hs hdir
      obtain ⟨s₀, h₀, hstep⟩ := run_concat hs
      obtain ⟨hkinds, rfl⟩ := registerSubDir_some hstep
      obtain ⟨k, hk⟩ := List.exists_mem_of_ne_nil c.kinds hkinds
      rw [Function.update_self] at hdir
      refine not_enumerates_toArray c.ranging ⟨k, mem_toSet.mpr (List.mem_append_right _ hk)⟩
        (List.mergeSort_perm _ _) (fun kind hgiven => ?_) hdir
      rw [mem_toSet, List.mem_append]
      exact (given_concat.mp hgiven).imp (fun h => mem_of_given h h₀) And.right
    · rintro (rfl | hnone) s hs dir
      · cases hs
        simp [Enumerates, Given]
      · rw [hnone] at hs
        cases hs
  · constructor
    · intro h
      by_contra hne
      obtain ⟨k, hk⟩ := List.exists_mem_of_ne_nil a hne
      exact not_enumerates_toArray o ⟨k, mem_toSet.mpr hk⟩ (List.Perm.refl _)
        (fun _ => mem_toSet.mpr) h
    · rintro rfl
      have horder : o.order ∅ = [] :=
        List.eq_nil_iff_forall_not_mem.mpr fun x hx => by simpa using (o.mem ∅ x).mp hx
      rw [toArray_eq, show toSet [] = ∅ from rfl, horder]
      exact ⟨List.nodup_nil, fun _ => Iff.rfl⟩

/-- Some order. -/
noncomputable def anyOrder : Ranging :=
  ⟨Finset.toList, fun _ _ => Finset.mem_toList, Finset.nodup_toList⟩

/-- The directory of the credentials is registered with an empty kind. -/
theorem registers_empty_kind : ∃ s, run [⟨"auth.d".toList, ["auth".toList], anyOrder⟩] = some s ∧
    s "auth.d".toList = [[], "auth".toList] := by
  have harray : toArray anyOrder (toSet ["auth".toList]) = [[], "auth".toList] := by
    rw [toArray_eq]
    simp [toSet, anyOrder]
  refine ⟨_, rfl, ?_⟩
  rw [Function.update_self, List.nil_append, harray]
  exact List.mergeSort_of_pairwise (by decide)

end Rkt.Config
