import Rkt.Code.Fields
import Mathlib.Data.List.Infix
import Mathlib.Tactic

set_option autoImplicit false

namespace Path

abbrev Str := List Char

/-- `strings.Split(s, "/")`. -/
def split : Str → List Str
  | [] => [[]]
  | c :: s =>
    if c = '/' then [] :: split s
    else
      match split s with
      | [] => [[c]]
      | w :: ws => (c :: w) :: ws

def render : List Str → Str
  | [] => []
  | c :: cs => '/' :: (c ++ render cs)

/-- One more component of an absolute path that is being cleaned. -/
def cleanStep (done : List Str) (c : Str) : List Str :=
  if c = [] ∨ c = ['.'] then done
  else if c = ['.', '.'] then done.dropLast
  else done ++ [c]

/-- Resolve the empty, `.` and `..` components of an absolute path. -/
def clean (cs : List Str) : List Str := cs.foldl cleanStep []

/-- A component that names something and does not contain the separator. -/
structure Plain (c : Str) : Prop where
  ne_nil : c ≠ []
  ne_dot : c ≠ ['.']
  ne_dotdot : c ≠ ['.', '.']
  slash : '/' ∉ c

instance (c : Str) : Decidable (Plain c) :=
  decidable_of_iff (c ≠ [] ∧ c ≠ ['.'] ∧ c ≠ ['.', '.'] ∧ '/' ∉ c)
    ⟨fun ⟨h₁, h₂, h₃, h₄⟩ => ⟨h₁, h₂, h₃, h₄⟩,
      fun h => ⟨h.ne_nil, h.ne_dot, h.ne_dotdot, h.slash⟩⟩

variable {q p cs : List Str} {c c' : Str}

theorem split_eq (s : Str) : split s = s.splitOn '/' := by
  induction s with
  | nil => rfl
  | cons c s ih =>
    rw [split, ih]
    split_ifs with hc
    · rw [hc, Code.splitOn_cons_self]
    · obtain ⟨w, ws, hs⟩ := List.exists_cons_of_ne_nil (List.splitOn_ne_nil '/' s)
      rw [Code.splitOn_cons_ne hc, hs]
      rfl

theorem split_ne_nil (s : Str) : split s ≠ [] := by
  rw [split_eq]
  exact List.splitOn_ne_nil _ _

theorem slash_notMem_of_mem_split {s : Str} (h : c ∈ split s) : '/' ∉ c :=
  Code.notMem_of_mem_splitOn (split_eq s ▸ h)

theorem foldl_of_plain {step : List Str → Str → List Str}
    (hstep : ∀ done c, Plain c → step done c = done ++ [c]) (h : ∀ c ∈ cs, Plain c) :
    ∀ done, cs.foldl step done = done ++ cs := by
  induction cs with
  | nil => simp
  | cons c cs ih =>
    intro done
    rw [List.foldl_cons, hstep done c (h c List.mem_cons_self),
      ih fun c' hc' => h c' (List.mem_cons_of_mem c hc')]
    simp

theorem clean_of_plain (h : ∀ c ∈ cs, Plain c) : clean cs = cs :=
  foldl_of_plain (fun _ _ hc => by simp [cleanStep, hc.ne_nil, hc.ne_dot, hc.ne_dotdot]) h []

theorem render_append (p q : List Str) : render (p ++ q) = render p ++ render q := by
  induction p with
  | nil => rfl
  | cons c p ih => simp [render, ih]

theorem render_cases (p : List Str) : render p = [] ∧ p = [] ∨ ∃ t, render p = '/' :: t := by
  cases p with
  | nil => exact .inl ⟨rfl, rfl⟩
  | cons c p => exact .inr ⟨_, rfl⟩

/-- The components of `q` but the last are those of `p`, and the last one is a prefix as a
string. -/
def StringPrefix : List Str → List Str → Prop
  | [], _ => True
  | _ :: _, [] => False
  | c :: q, c' :: p => (q = [] ∧ c <+: c') ∨ (c = c' ∧ StringPrefix q p)

theorem StringPrefix.of_prefix (h : q <+: p) : StringPrefix q p := by
  induction q generalizing p with
  | nil => trivial
  | cons c q ih =>
    cases p with
    | nil => exact absurd (List.prefix_nil.mp h) (by simp)
    | cons c' p =>
      obtain ⟨rfl, h'⟩ := List.cons_prefix_cons.mp h
      exact .inr ⟨rfl, ih h'⟩

/-- A separator-free text that is a prefix does not reach behind the first component. -/
theorem prefix_of_append {y : Str} (hc : '/' ∉ c) (h : c <+: c' ++ y)
    (hy : y = [] ∨ ∃ t, y = '/' :: t) : c <+: c' := by
  rcases List.prefix_or_prefix_of_prefix h (List.prefix_append c' y) with h' | ⟨z, rfl⟩
  · exact h'
  · rw [List.prefix_append_right_inj] at h
    cases z with
    | nil => rw [List.append_nil]
    | cons a z =>
      rcases hy with rfl | ⟨t, rfl⟩
      · exact absurd (List.prefix_nil.mp h) (by simp)
      · have ha : a = '/' := (List.cons_prefix_cons.mp h).1
        exact absurd (by simp [ha]) hc

/-- A separator-free text in front of a separator is found again component by component. -/
theorem prefix_of_append_slash {x y : Str} (hc : '/' ∉ c) (hc' : '/' ∉ c')
    (h : c ++ '/' :: x <+: c' ++ y) (hy : y = [] ∨ ∃ t, y = '/' :: t) :
    c = c' ∧ '/' :: x <+: y := by
  obtain ⟨w, rfl⟩ := prefix_of_append hc ((List.prefix_append c _).trans h) hy
  rw [List.append_assoc, List.prefix_append_right_inj] at h
  cases w with
  | nil => exact ⟨(List.append_nil c).symm, h⟩
  | cons a w =>
    obtain ⟨rfl, -⟩ := List.cons_prefix_cons.mp h
    exact absurd (by simp) hc'

/-- **String prefixes of rendered paths, component by component.** -/
theorem render_prefix_iff (hq : ∀ c ∈ q, '/' ∉ c) (hp : ∀ c ∈ p, '/' ∉ c) :
    render q <+: render p ↔ StringPrefix q p := by
  induction q generalizing p with
  | nil => exact ⟨fun _ => trivial, fun _ => List.nil_prefix⟩
  | cons c q ih =>
    cases p with
    | nil =>
      refine ⟨fun h => ?_, fun h => h.elim⟩
      exact absurd (List.prefix_nil.mp h) (by simp [render])
    | cons c' p =>
      have hc : '/' ∉ c := hq c List.mem_cons_self
      have hc' : '/' ∉ c' := hp c' List.mem_cons_self
      have ih' := ih (fun c hm => hq c (List.mem_cons_of_mem _ hm))
        (p := p) (fun c hm => hp c (List.mem_cons_of_mem _ hm))
      have hy : render p = [] ∨ ∃ t, render p = '/' :: t :=
        (render_cases p).imp And.left id
      show '/' :: (c ++ render q) <+: '/' :: (c' ++ render p) ↔
        (q = [] ∧ c <+: c') ∨ (c = c' ∧ StringPrefix q p)
      rw [List.cons_prefix_cons, ← ih']
      simp only [true_and]
      constructor
      · intro h
        rcases render_cases q with ⟨hr, rfl⟩ | ⟨x, hr⟩
        · left
          rw [hr, List.append_nil] at h
          exact ⟨rfl, prefix_of_append hc h hy⟩
        · right
          rw [hr] at h ⊢
          exact prefix_of_append_slash hc hc' h hy
      · rintro (⟨rfl, h⟩ | ⟨rfl, h⟩)
        · simpa [render] using h.trans (List.prefix_append c' (render p))
        · exact (List.prefix_append_right_inj c).mpr h

def join (cs : List Str) : Str := (render cs).tail

theorem render_split (s : Str) : render (split s) = '/' :: s := by
  induction s with
  | nil => rfl
  | cons a s ih =>
    by_cases ha : a = '/'
    · subst ha
      show '/' :: ([] ++ render (split s)) = _
      rw [ih]
      rfl
    · obtain ⟨w, ws, hw⟩ := List.exists_cons_of_ne_nil (split_ne_nil s)
      have hsplit : split (a :: s) = (a :: w) :: ws := by simp [split, ha, hw]
      rw [hw] at ih
      have hs : w ++ render ws = s := List.cons.inj ih |>.2
      rw [hsplit, ← hs]
      rfl

theorem join_split (s : Str) : join (split s) = s := by
  rw [join, render_split, List.tail_cons]

theorem split_injective {s s' : Str} (h : split s = split s') : s = s' := by
  rw [← join_split s, h, join_split]

theorem split_append_slash (hc : '/' ∉ c) (s : Str) : split (c ++ '/' :: s) = c :: split s := by
  induction c with
  | nil => simp [split]
  | cons a c ih =>
    have ha : a ≠ '/' := fun heq => hc (by simp [heq])
    have htail : split (c ++ '/' :: s) = c :: split s := ih fun h => hc (List.mem_cons_of_mem _ h)
    simp [split, ha, htail]

theorem split_of_notMem (hc : '/' ∉ c) : split c = [c] := by
  induction c with
  | nil => rfl
  | cons a c ih =>
    have ha : a ≠ '/' := fun heq => hc (by simp [heq])
    have htail : split c = [c] := ih fun h => hc (List.mem_cons_of_mem _ h)
    simp [split, ha, htail]

theorem split_join (hne : cs ≠ []) (h : ∀ c ∈ cs, '/' ∉ c) : split (join cs) = cs := by
  induction cs with
  | nil => exact absurd rfl hne
  | cons c cs ih =>
    have hc : '/' ∉ c := h c List.mem_cons_self
    cases cs with
    | nil =>
      show split (c ++ []) = [c]
      rw [List.append_nil]
      exact split_of_notMem hc
    | cons c' cs =>
      show split (c ++ '/' :: join (c' :: cs)) = _
      rw [split_append_slash hc, ih (List.cons_ne_nil _ _) fun x hx => h x (.tail _ hx)]

theorem join_singleton (c : Str) : join [c] = c := by
  simp [join, render]

theorem join_concat (hne : cs ≠ []) (c : Str) : join (cs ++ [c]) = join cs ++ '/' :: c := by
  rcases render_cases cs with ⟨-, hnil⟩ | ⟨t, ht⟩
  · exact absurd hnil hne
  · rw [join, join, render_append, ht]
    simp [render]

end Path
