import Mathlib.Data.List.Induction
import Rkt.Code.Assoc
import Rkt.Code.Fields

set_option autoImplicit false

namespace Rkt.Stage0

open Assoc Code

abbrev Str := List Char

abbrev Environment := List (Str × Str)

/-- `^[A-Za-z_][A-Za-z_0-9]*$`. -/
def validName : Str → Bool
  | [] => false
  | c :: cs => (c.isAlpha || c = '_') && cs.all fun c => c.isAlphanum || c = '_'

/-- The names have the right form, and none occurs twice. -/
def Environment.AssertValid (e : Environment) : Prop :=
  (∀ p ∈ e, validName p.1 = true) ∧ Distinct e

/-- `appEnv.Set(pair[0], pair[1])`; `none` is a panic, since there may be no second part. -/
def setPair (e : Environment) (pair : List Str) : Option Environment :=
  pair[1]?.map (set e (pair.headD []))

def setStep (e : Environment) (ev : Str) : Option Environment := setPair e (splitN '=' 2 ev)

def inheritStep (e : Environment) (ev : Str) : Option Environment :=
  let pair := splitN '=' 2 ev
  if (e.lookup (pair.headD [])).isSome then some e else setPair e pair

/-- `os.Environ` leaves empty strings out. -/
def osEnviron (host : List Str) : List Str := host.filter (· ≠ [])

def mergeEnvs (appEnv : Environment) (inheritEnv : Bool) (setEnv host : List Str) :
    Option Environment := do
  let e ← setEnv.foldlM setStep appEnv
  if inheritEnv then (osEnviron host).foldlM inheritStep e else some e

def setting (p : Str × Str) : Str := p.1 ++ '=' :: p.2

structure Input where
  image : Environment
  image_valid : image.AssertValid
  explicit : List (Str × Str)
  explicit_valid : ∀ p ∈ explicit, validName p.1 = true
  inherit : Bool
  host : List Str

/-- The variables of the host. -/
def hostVars (host : List Str) : List (Str × Str) :=
  host.filterMap fun s => (splitN '=' 2 s)[1]?.map fun v => ((splitN '=' 2 s).headD [], v)

/-- There is no panic, the result is valid, and it has the explicit values, then those of the image
and then those of the host. Of several explicit values the last one counts. -/
def Input.Merged (i : Input) : Prop :=
  ∃ e : Environment, mergeEnvs i.image i.inherit (i.explicit.map setting) i.host = some e ∧
    e.AssertValid ∧ ∀ k, e.lookup k = (i.explicit.reverse.lookup k).or
      ((i.image.lookup k).or (if i.inherit then (hostVars i.host).lookup k else none))

/-- The names that are set before anything is inherited. -/
def Input.names (i : Input) (k : Str) : Prop :=
  k ∈ i.explicit.map Prod.fst ∨ k ∈ i.image.map Prod.fst

/-- The strings of the host do no harm to an environment with the given names: each of them is
empty, or a variable with a name of the right form, or only a name, which is set already. -/
def Harmless (names : Str → Prop) : List Str → Prop
  | [] => True
  | s :: host =>
    (s = [] ∨ (∃ k v, s = k ++ '=' :: v ∧ validName k = true) ∨ '=' ∉ s ∧ names s) ∧
      Harmless (fun k => names k ∨ ∃ v, s = k ++ '=' :: v) host

variable {e : Environment} {k v : Str}

theorem Environment.AssertValid.set (he : e.AssertValid) (hk : validName k = true) (v : Str) :
    AssertValid (Assoc.set e k v) := by
  refine ⟨fun p hp => ?_, he.2.set k v⟩
  obtain rfl | hp := mem_set hp
  · exact hk
  · exact he.1 p hp

theorem notMem_of_validName (hk : validName k = true) : '=' ∉ k := by
  intro hmem
  cases k with
  | nil => cases hmem
  | cons c cs =>
    simp only [validName, Bool.and_eq_true, List.all_eq_true] at hk
    rcases List.mem_cons.mp hmem with rfl | hmem
    · exact absurd hk.1 (by decide)
    · exact absurd (hk.2 _ hmem) (by decide)

theorem splitN_setting (hk : '=' ∉ k) : splitN '=' 2 (k ++ '=' :: v) = [k, v] :=
  splitN_append hk 0 v

theorem setting_inj {k' v' : Str} (hk : '=' ∉ k) (hk' : '=' ∉ k')
    (h : k ++ '=' :: v = k' ++ '=' :: v') : k = k' ∧ v = v' := by
  have hsplit := congrArg (splitN '=' 2) h
  rw [splitN_setting hk, splitN_setting hk'] at hsplit
  simpa using hsplit

/-- The explicit variables, from the last one on. -/
theorem foldlM_setStep (he : e.AssertValid) {ps : List (Str × Str)}
    (h : ∀ p ∈ ps, validName p.1 = true) :
    ∃ e' : Environment, (ps.map setting).foldlM setStep e = some e' ∧ e'.AssertValid ∧
      ∀ k, e'.lookup k = (ps.reverse.lookup k).or (e.lookup k) := by
  induction ps using List.reverseRecOn with
  | nil => exact ⟨e, rfl, he, fun _ => rfl⟩
  | append_singleton ps p ih =>
    obtain ⟨e', hfold, hvalid, hlookup⟩ := ih fun q hq => h q (List.mem_append_left _ hq)
    have hp := h p (List.mem_append_right _ List.mem_cons_self)
    refine ⟨Assoc.set e' p.1 p.2, ?_, hvalid.set hp p.2, fun k => ?_⟩
    · rw [List.map_append, List.foldlM_append, hfold]
      show (setStep e' (p.1 ++ '=' :: p.2) >>= pure) = _
      rw [setStep, splitN_setting (notMem_of_validName hp)]
      rfl
    · rw [lookup_set, hlookup, List.reverse_append, List.reverse_singleton, List.singleton_append,
        lookup_cons]
      split_ifs <;> rfl

/-- One more variable, unless it is there already. -/
theorem inheritStep_setting (hk : '=' ∉ k) (e : Environment) (v : Str) :
    inheritStep e (k ++ '=' :: v) =
      some (if (e.lookup k).isSome then e else Assoc.set e k v) := by
  rw [inheritStep, splitN_setting hk, List.headD_cons]
  split_ifs <;> rfl

theorem inheritStep_name {s : Str} (hs : '=' ∉ s) (e : Environment) :
    inheritStep e s = if (e.lookup s).isSome then some e else none := by
  rw [inheritStep, splitN_of_notMem hs, List.headD_cons]
  rfl

theorem lookup_inherit (e : Environment) (k v j : Str) :
    (if (e.lookup k).isSome then e else Assoc.set e k v).lookup j =
      (e.lookup j).or (if j = k then some v else none) := by
  cases hlookup : e.lookup k with
  | some w =>
    rw [if_pos (by simp)]
    split_ifs with hj
    · rw [hj, hlookup]
      rfl
    · rw [Option.or_none]
  | none =>
    rw [if_neg (by simp), lookup_set]
    split_ifs with hj
    · rw [hj, hlookup]
      rfl
    · rw [Option.or_none]

/-- The variables of the host, from the first one on. -/
theorem foldlM_inheritStep_lookup {host : List Str} {e' : Environment}
    (h : (osEnviron host).foldlM inheritStep e = some e') (k : Str) :
    e'.lookup k = (e.lookup k).or ((hostVars host).lookup k) := by
  induction host generalizing e with
  | nil =>
    cases h
    simp [hostVars]
  | cons s host ih =>
    by_cases hempty : s = []
    · subst hempty
      exact ih h
    rw [osEnviron, List.filter_cons_of_pos (by simpa using hempty), List.foldlM_cons] at h
    obtain ⟨e1, hstep, hrest⟩ := Option.bind_eq_some_iff.mp h
    rw [ih hrest]
    by_cases hs : '=' ∈ s
    · obtain ⟨n, v, rfl, hn⟩ := List.eq_append_cons_of_mem hs
      rw [inheritStep_setting hn] at hstep
      cases hstep
      have hvars : hostVars ((n ++ '=' :: v) :: host) = (n, v) :: hostVars host := by
        simp [hostVars, splitN_setting hn]
      rw [lookup_inherit, hvars, lookup_cons, Option.or_assoc]
      split_ifs <;> simp
    · rw [inheritStep_name hs] at hstep
      split_ifs at hstep
      cases hstep
      have hvars : hostVars (s :: host) = hostVars host := by
        simp [hostVars, splitN_of_notMem hs]
      rw [hvars]

theorem Environment.AssertValid.lookup (he : e.AssertValid) (h : (e.lookup k).isSome) :
    validName k = true := by
  obtain ⟨v, hv⟩ := Option.isSome_iff_exists.mp h
  exact he.1 (k, v) (mem_of_lookup hv)

theorem Environment.AssertValid.inherit (he : e.AssertValid) (hk : validName k = true)
    (v : Str) : AssertValid (if (e.lookup k).isSome then e else Assoc.set e k v) := by
  split_ifs
  · exact he
  · exact he.set hk v

/-- The names that are set after one more variable. -/
theorem names_inherit {names : Str → Prop} (hk : '=' ∉ k)
    (hnames : ∀ j, '=' ∉ j → (names j ↔ (e.lookup j).isSome)) (j : Str) (hj : '=' ∉ j) :
    (names j ∨ ∃ w, k ++ '=' :: v = j ++ '=' :: w) ↔
      ((if (e.lookup k).isSome then e else Assoc.set e k v).lookup j).isSome := by
  rw [lookup_inherit, Option.isSome_or, Bool.or_eq_true, ← hnames j hj]
  refine or_congr_right ⟨?_, fun h => ?_⟩
  · rintro ⟨w, hw⟩
    simp [(setting_inj hk hj hw).1]
  · split_ifs at h with hjk
    · exact ⟨v, by rw [hjk]⟩
    · cases h

/-- The loop succeeds and keeps the environment valid exactly if no string does harm. A name that
is set stays set, so a name of the wrong form is still there at the end. -/
theorem foldlM_inheritStep_iff {host : List Str} {names : Str → Prop} (he : e.AssertValid)
    (hnames : ∀ k, '=' ∉ k → (names k ↔ (e.lookup k).isSome)) :
    (∃ e' : Environment, (osEnviron host).foldlM inheritStep e = some e' ∧ e'.AssertValid) ↔
      Harmless names host := by
  induction host generalizing e names with
  | nil => exact iff_of_true ⟨e, rfl, he⟩ trivial
  | cons s host ih =>
    rw [Harmless]
    by_cases hs : '=' ∈ s
    · obtain ⟨n, v, rfl, hn⟩ := List.eq_append_cons_of_mem hs
      have hloop : (osEnviron ((n ++ '=' :: v) :: host)).foldlM inheritStep e =
          (osEnviron host).foldlM inheritStep
            (if (e.lookup n).isSome then e else Assoc.set e n v) := by
        rw [osEnviron, List.filter_cons_of_pos (by simp), List.foldlM_cons,
          inheritStep_setting hn]
        rfl
      rw [hloop]
      constructor
      · rintro ⟨e', hrun, he'⟩
        have hvalid : validName n = true := by
          refine Environment.AssertValid.lookup he' ?_
          simp [foldlM_inheritStep_lookup hrun, lookup_inherit]
        exact ⟨.inr (.inl ⟨n, v, rfl, hvalid⟩),
          (ih (he.inherit hvalid v) (names_inherit hn hnames)).mp ⟨e', hrun, he'⟩⟩
      · rintro ⟨hempty | ⟨k, w, hkw, hvalid⟩ | ⟨hnot, -⟩, hrest⟩
        · simp at hempty
        · obtain ⟨rfl, rfl⟩ := setting_inj hn (notMem_of_validName hvalid) hkw
          exact (ih (he.inherit hvalid v) (names_inherit hn hnames)).mpr hrest
        · exact absurd hs hnot
    · -- the string adds no name
      have hno : ∀ k w, s ≠ k ++ '=' :: w := by
        rintro k w rfl
        exact hs (List.mem_append_right _ List.mem_cons_self)
      simp only [hno, false_and, exists_false, false_or, or_false, hs, not_false_iff, true_and]
      by_cases hempty : s = []
      · subst hempty
        exact (ih he hnames).trans (by simp)
      · have hloop : (osEnviron (s :: host)).foldlM inheritStep e =
            if (e.lookup s).isSome then (osEnviron host).foldlM inheritStep e else none := by
          rw [osEnviron, List.filter_cons_of_pos (by simpa using hempty), List.foldlM_cons,
            inheritStep_name hs]
          split_ifs <;> rfl
        rw [hloop, hnames s hs]
        split_ifs with hset
        · exact (ih he hnames).trans (by simp [hset])
        · simp [hset, hempty]

/-- **The environments are merged as they should be** exactly if the host's environment is not
inherited, or none of its strings does harm. -/
theorem mergeEnvs_merged_iff (i : Input) :
    i.Merged ↔ (i.inherit = true → Harmless i.names i.host) := by
  obtain ⟨e, hset, hvalid, hlookup⟩ := foldlM_setStep i.image_valid i.explicit_valid
  rw [Input.Merged, mergeEnvs, hset, Option.bind_eq_bind, Option.bind_some]
  cases hinherit : i.inherit with
  | false => exact iff_of_true ⟨e, rfl, hvalid, fun k => by simp [hlookup]⟩ (by simp)
  | true =>
    have hnames : ∀ k, '=' ∉ k → (i.names k ↔ (e.lookup k).isSome) := by
      intro k _
      rw [hlookup, Option.isSome_or, Bool.or_eq_true, Option.isSome_iff_exists,
        Option.isSome_iff_exists, ← mem_keys_iff, ← mem_keys_iff, Input.names]
      simp
    rw [← foldlM_inheritStep_iff hvalid hnames]
    simp only [if_true, true_implies]
    refine exists_congr fun e' => and_congr_right fun hrun => and_iff_left fun k => ?_
    rw [foldlM_inheritStep_lookup hrun, hlookup, Option.or_assoc]

/-- A string without `=` in the host's environment. -/
theorem no_value_panics : mergeEnvs [] true [] ["A".toList] = none := by decide

end Rkt.Stage0
