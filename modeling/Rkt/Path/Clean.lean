import Rkt.Path.Components

set_option autoImplicit false

namespace Path

/-- One more component of a path that is being cleaned. -/
def tidyStep (rooted : Bool) (done : List Str) (c : Str) : List Str :=
  if c = [] ∨ c = ['.'] then done
  else if c = ['.', '.'] then
    -- there is nothing that could be removed at the beginning, or after another `..`
    if done.getLast?.all (· = ['.', '.']) then
      if rooted then done else done ++ [c]
    else done.dropLast
  else done ++ [c]

def tidy (rooted : Bool) (cs : List Str) : List Str := cs.foldl (tidyStep rooted) []

def isAbs (s : Str) : Bool := s.head? = some '/'

/-- `filepath.Clean`. -/
def filepathClean (s : Str) : Str :=
  let cs := tidy (isAbs s) (split s)
  if isAbs s then '/' :: join cs
  else if cs = [] then ['.'] else join cs

/-- `filepath.Join(a, b)`. -/
def filepathJoin (a b : Str) : Str :=
  if a ≠ [] then filepathClean (a ++ '/' :: b)
  else if b ≠ [] then filepathClean b
  else []

variable {cs : List Str} {c : Str}

theorem tidy_of_plain {rooted : Bool} (h : ∀ c ∈ cs, Plain c) : tidy rooted cs = cs :=
  foldl_of_plain (fun _ _ hc => by simp [tidyStep, hc.ne_nil, hc.ne_dot, hc.ne_dotdot]) h []

theorem foldl_tidyStep_rooted : ∀ {done : List Str}, ['.', '.'] ∉ done →
    cs.foldl (tidyStep true) done = cs.foldl cleanStep done := by
  induction cs with
  | nil =>
    intro done _
    rfl
  | cons c cs ih =>
    intro done hdone
    have hstep : tidyStep true done c = cleanStep done c := by
      unfold tidyStep cleanStep
      simp only [↓reduceIte]
      split_ifs with _ _ hlast
      · rfl
      · -- what cannot be removed is not there
        cases hl : done.getLast? with
        | none =>
          rw [List.getLast?_eq_none_iff] at hl
          rw [hl]
          rfl
        | some c' =>
          rw [hl] at hlast
          have hc' : c' = ['.', '.'] := by simpa using hlast
          exact absurd (hc' ▸ List.mem_of_getLast? hl) hdone
      · rfl
      · rfl
    rw [List.foldl_cons, List.foldl_cons, hstep]
    refine ih ?_
    unfold cleanStep
    split_ifs with _ hdotdot
    · exact hdone
    · exact fun h => hdone (List.mem_of_mem_dropLast h)
    · simp [hdone, Ne.symm hdotdot]

/-- `filepath.Join("/", s)`. -/
theorem filepathJoin_slash (s : Str) : filepathJoin ['/'] s = '/' :: join (clean (split s)) := by
  have hsplit : split ('/' :: '/' :: s) = [] :: [] :: split s := by simp [split]
  have htidy : tidy true ([] :: [] :: split s) = clean (split s) :=
    foldl_tidyStep_rooted List.not_mem_nil
  show filepathClean ('/' :: '/' :: s) = _
  simp [filepathClean, isAbs, hsplit, htidy]

theorem isAbs_join (h : ∀ c ∈ cs, Plain c) : isAbs (join cs) = false := by
  cases cs with
  | nil => rfl
  | cons c cs =>
    have hc := h c List.mem_cons_self
    obtain ⟨a, t, rfl⟩ := List.exists_cons_of_ne_nil hc.ne_nil
    have ha : a ≠ '/' := fun heq => hc.slash (by simp [heq])
    simp [isAbs, join, render, ha]

theorem filepathClean_join (hne : cs ≠ []) (h : ∀ c ∈ cs, Plain c) :
    filepathClean (join cs) = join cs := by
  have hsplit : split (join cs) = cs := split_join hne fun c hc => (h c hc).slash
  unfold filepathClean
  rw [isAbs_join h, hsplit, tidy_of_plain h]
  simp [hne]

theorem filepathJoin_plain (h : ∀ c ∈ cs, Plain c) (hc : Plain c) :
    filepathJoin (join cs) c = join (cs ++ [c]) := by
  have hall : ∀ c' ∈ cs ++ [c], Plain c' :=
    List.forall_mem_append.mpr ⟨h, List.forall_mem_singleton.mpr hc⟩
  have hclean : filepathClean (join (cs ++ [c])) = join (cs ++ [c]) :=
    filepathClean_join (by simp) hall
  unfold filepathJoin
  by_cases hne : cs = []
  · subst hne
    have hempty : join ([] : List Str) = [] := rfl
    rw [List.nil_append, join_singleton] at hclean ⊢
    simp [hempty, hc.ne_nil, hclean]
  · have hjoin : join cs ≠ [] := by
      obtain ⟨x, xs, rfl⟩ := List.exists_cons_of_ne_nil hne
      have hx := (h x List.mem_cons_self).ne_nil
      simp [join, render, hx]
    rw [if_pos hjoin, ← join_concat hne, hclean]

end Path
