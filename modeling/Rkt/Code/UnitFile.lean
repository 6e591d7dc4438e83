import Mathlib.Tactic

set_option autoImplicit false

namespace UnitFile

abbrev Str := List Char

/-- A logical line, after a backslash or not: an escaped newline goes on with the next line. -/
def line : Bool → Str → Str
  | false, [] => []
  | true, [] => ['\\']
  | false, c :: s =>
    if c = '\n' then []
    else if c = '\\' then line true s
    else c :: line false s
  -- the backslash is written only now: before a newline it becomes a blank
  | true, c :: s =>
    if c = '\n' then ' ' :: line false s
    else '\\' :: c :: line false s

/-- The name and the value of the option that a text begins with. -/
def readOption (text : Str) : Str × Str :=
  let l := line false text
  (l.takeWhile (· ≠ '='), (l.dropWhile (· ≠ '=')).tail)

/-- A character that does not end a line or escape anything. -/
def isPlain (c : Char) : Bool := c ≠ '\n' ∧ c ≠ '\\'

theorem line_append {l : Str} (hl : l.all isPlain = true) (x : Str) :
    line false (l ++ x) = l ++ line false x := by
  induction l with
  | nil => rfl
  | cons c l ih =>
    rw [List.all_cons, Bool.and_eq_true, isPlain, decide_eq_true_eq] at hl
    rw [List.cons_append, line, if_neg hl.1.1, if_neg hl.1.2, ih hl.2, List.cons_append]

theorem readOption_eq {text name value : Str} (h : line false text = name ++ '=' :: value)
    (hname : '=' ∉ name) : readOption text = (name, value) := by
  have hne : ∀ c ∈ name, decide (c ≠ '=') = true := fun c hc => by
    simp only [decide_eq_true_eq]
    rintro rfl
    exact hname hc
  rw [readOption, h, List.takeWhile_append_of_pos hne, List.dropWhile_append_of_pos hne]
  simp

def isBlank (c : Char) : Bool := c = ' ' ∨ c = '\t' ∨ c = '\n' ∨ c = '\r'

/-- Where in a value we are: outside of quotes, between them, or there after a backslash. -/
inductive Mode where
  | plain
  | quoted
  | escaped
  deriving DecidableEq, Repr

/-- The words of a value; `w` is what has been read of the current one, if it has begun. -/
def split : Mode → Option Str → Str → Option (List Str)
  | .plain, w, [] => some w.toList
  | _, _, [] => none
  | .plain, w, c :: s =>
    if isBlank c then (split .plain none s).map (w.toList ++ ·)
    else if c = '"' then split .quoted (some (w.getD [])) s
    else split .plain (some (w.getD [] ++ [c])) s
  | .quoted, w, c :: s =>
    if c = '"' then split .plain w s
    else if c = '\\' then split .escaped w s
    else split .quoted (some (w.getD [] ++ [c])) s
  | .escaped, w, c :: s =>
    if c = '\\' ∨ c = '"' ∨ c = '\'' then split .quoted (some (w.getD [] ++ [c])) s
    else none

/-- A character without a meaning outside of quotes. -/
def isWordChar (c : Char) : Bool := ¬ isBlank c ∧ c ≠ '"'

theorem split_plain {e : Str} (he : e.all isWordChar = true) (w x : Str) :
    split .plain (some w) (e ++ x) = split .plain (some (w ++ e)) x := by
  induction e generalizing w with
  | nil => simp
  | cons c e ih =>
    rw [List.all_cons, Bool.and_eq_true, isWordChar, decide_eq_true_eq] at he
    rw [List.cons_append, split, if_neg he.1.1, if_neg he.1.2, Option.getD_some, ih he.2]
    simp

/-- Replace the specifiers, after a percent sign or not. -/
def specifiers (spec : Char → Str) : Bool → Str → Str
  | false, [] => []
  | true, [] => ['%']
  | false, c :: s => if c = '%' then specifiers spec true s else c :: specifiers spec false s
  | true, c :: s =>
    if c = '%' then '%' :: specifiers spec false s else spec c ++ specifiers spec false s

/-- A text without percent signs, but for one at its end, stays as it is. -/
theorem specifiers_of_notMem (spec : Char → Str) {s : Str} (h : '%' ∉ s.dropLast) :
    specifiers spec false s = s := by
  induction s with
  | nil => rfl
  | cons c s ih =>
    cases s with
    | nil =>
      by_cases hc : c = '%'
      · simp [specifiers, hc]
      · simp [specifiers, hc]
    | cons d s =>
      rw [List.dropLast_cons_cons, List.mem_cons, not_or] at h
      rw [specifiers, if_neg (Ne.symm h.1), ih h.2]

/-- If the specifiers stand for nothing, no percent sign is added. -/
theorem count_specifiers_le (b : Bool) (s : Str) :
    (specifiers (fun _ => []) b s).count '%' ≤ s.count '%' + b.toNat := by
  fun_induction specifiers (fun _ => []) b s with
  | case1 | case2 => simp
  | case3 s ih => simpa using ih
  | case4 c s hc ih => simpa [List.count_cons] using ih
  | case5 s ih =>
    simp only [List.count_cons_self, Bool.toNat_false, Bool.toNat_true] at ih ⊢
    omega
  | case6 c s hc ih =>
    simp only [List.nil_append, List.count_cons_of_ne hc, Bool.toNat_false,
      Bool.toNat_true] at ih ⊢
    omega

/-- A percent sign that is not the last character gets lost then. -/
theorem count_specifiers_lt {s : Str} (h : '%' ∈ s.dropLast) :
    (specifiers (fun _ => []) false s).count '%' < s.count '%' := by
  induction s with
  | nil => simp at h
  | cons c s ih =>
    cases s with
    | nil => simp at h
    | cons d s =>
      rw [List.dropLast_cons_cons, List.mem_cons] at h
      by_cases hc : c = '%'
      · have hrest := count_specifiers_le false s
        rw [Bool.toNat_false, Nat.add_zero] at hrest
        by_cases hd : d = '%'
        · simp only [specifiers, hc, hd, ↓reduceIte, List.count_cons_self]
          omega
        · simp only [specifiers, hc, hd, ↓reduceIte, List.nil_append, List.count_cons_self,
            List.count_cons_of_ne hd]
          omega
      · have hlt := ih (h.resolve_left (Ne.symm hc))
        rw [specifiers, if_neg hc, List.count_cons_of_ne hc, List.count_cons_of_ne hc]
        exact hlt

/-- Where in a word we are: in text, after a dollar sign, or in a name in braces. -/
inductive VarMode where
  | text
  | dollar
  | name (x : Str)
  deriving DecidableEq, Repr

/-- Replace the variables in braces, and two dollar signs by one. -/
def expand (env : Str → Str) : VarMode → Str → Str
  | .text, [] => []
  | .dollar, [] => ['$']
  | .name x, [] => '$' :: '{' :: x
  | .text, c :: s => if c = '$' then expand env .dollar s else c :: expand env .text s
  | .dollar, c :: s =>
    if c = '$' then '$' :: expand env .text s
    else if c = '{' then expand env (.name []) s
    else '$' :: c :: expand env .text s
  | .name x, c :: s =>
    if c = '}' then env x ++ expand env .text s else expand env (.name (x ++ [c])) s

def words (s : Str) : List Str := (s.splitOnP isBlank).filter (· ≠ [])

/-- What becomes of a word: a variable alone may stand for any number of words. -/
def expandWord (env : Str → Str) (w : Str) : List Str :=
  match w with
  | '$' :: c :: x =>
    if c = '$' ∨ c = '{' then [expand env .text w] else words (env (c :: x))
  | _ => [expand env .text w]

/-- The text of a mode that has not been written yet. -/
def VarMode.pending : VarMode → Str
  | .text => []
  | .dollar => ['$']
  | .name x => '$' :: '{' :: x

theorem count_expand_le (m : VarMode) (s : Str) :
    (expand (fun _ => []) m s).count '%' ≤ s.count '%' + m.pending.count '%' := by
  fun_induction expand (fun _ => []) m s with
  | case1 | case2 | case3 => simp [VarMode.pending]
  | case4 s ih => simpa [VarMode.pending] using ih
  | case5 c s _ ih => simpa [VarMode.pending, List.count_cons] using ih
  | case6 s ih => simpa [VarMode.pending] using ih
  | case7 s _ ih => simpa [VarMode.pending] using ih
  | case8 c s _ _ ih => simpa [VarMode.pending, List.count_cons] using ih
  | case9 s x ih =>
    simp only [VarMode.pending, List.nil_append, List.count_nil, List.count_cons] at ih ⊢
    omega
  | case10 c s x _ ih =>
    simp only [VarMode.pending, List.count_append, List.count_nil, List.count_cons] at ih ⊢
    omega

theorem count_expandWord_le (w : Str) :
    (expandWord (fun _ => []) w).flatten.count '%' ≤ w.count '%' := by
  have htext := count_expand_le .text w
  rw [VarMode.pending, List.count_nil, Nat.add_zero] at htext
  unfold expandWord
  split
  · split_ifs
    · simpa using htext
    · simp [words, List.splitOnP_nil]
  · simpa using htext

def command (spec : Char → Str) (env : Str → Str) (value : Str) : Option (List Str) :=
  (split .plain none value).map fun ws => (ws.map (specifiers spec false)).flatMap (expandWord env)

end UnitFile
