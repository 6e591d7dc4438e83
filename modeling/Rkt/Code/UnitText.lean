import Rkt.Code.UnitFile

set_option autoImplicit false

namespace UnitFile

/-- `unit.UnitOption`. -/
structure UnitOption where
  sect : Str
  name : Str
  value : Str
  deriving DecidableEq, Repr

def sections (opts : List UnitOption) : List Str := (opts.map (·.sect)).dedup

def writeOption (opt : UnitOption) : Str := opt.name ++ '=' :: (opt.value ++ ['\n'])

/-- The header of a section, its options, and an empty line. -/
def writeSection (opts : List UnitOption) (sect : Str) : Str :=
  '[' :: (sect ++ [']', '\n'] ++ (opts.filter (·.sect = sect)).flatMap writeOption ++ ['\n'])

/-- `unit.Serialize`, with the sections in the given order. -/
def serialize (order : List Str) (opts : List UnitOption) : Str :=
  order.flatMap (writeSection opts)

def isAllowed (c : Char) : Bool := c.isAlphanum || c = ':' || c = '_' || c = '.'

/-- A character of a name; a dot at the start is escaped too. -/
def escapeChar (start : Bool) (c : Char) : Str :=
  if (start && c = '.') || !isAllowed c then
    (String.utf8EncodeChar c).flatMap fun b => '\\' :: 'x' :: Nat.toDigits 16 b.toNat
  else [c]

/-- The loop of `escape` over a path: after a slash or not, at the start or not. Slashes at the
start and at the end are dropped, and several of them count as one. -/
def escapePath : (inSlashes start : Bool) → Str → Str
  | _, _, [] => []
  | inSlashes, start, c :: s =>
    if c = '/' then escapePath true start s
    else (if inSlashes && !start then ['-'] else []) ++ escapeChar start c ++
      escapePath false false s

/-- `unit.UnitNamePathEscape`. -/
def unitNamePathEscape (path : Str) : Str :=
  let e := escapePath false true path
  if e = [] then ['-'] else e

example : unitNamePathEscape "/opt/stage2/my-app/rootfs/.d".toList =
    "opt-stage2-my\\x2dapp-rootfs-.d".toList := by decide

theorem escapePath_allowed {t : Str} (ht : t.all isAllowed = true) :
    escapePath false false t = t := by
  induction t with
  | nil => rfl
  | cons c t ih =>
    rw [List.all_cons, Bool.and_eq_true] at ht
    have hslash : c ≠ '/' := by
      rintro rfl
      exact absurd ht.1 (by decide)
    rw [escapePath, if_neg hslash, ih ht.2]
    simp [escapeChar, ht.1]

theorem escapePath_dot {t : Str} (ht : t.all isAllowed = true) (inSlashes start : Bool) (s : Str) :
    ∃ e, escapePath inSlashes start (s ++ '.' :: t) = e ++ t ∧ e ≠ [] := by
  induction s generalizing inSlashes start with
  | nil =>
    refine ⟨(if inSlashes && !start then ['-'] else []) ++ escapeChar start '.', ?_, ?_⟩
    · rw [List.nil_append, escapePath, if_neg (by decide), escapePath_allowed ht]
    · have hdot : escapeChar start '.' ≠ [] := by cases start <;> decide
      simp [hdot]
  | cons c s ih =>
    rw [List.cons_append, escapePath]
    by_cases hc : c = '/'
    · rw [if_pos hc]
      exact ih true start
    · obtain ⟨e, he, hne⟩ := ih false false
      rw [if_neg hc, he, ← List.append_assoc]
      exact ⟨_, rfl, by simp [hne]⟩

theorem unitNamePathEscape_dot {t : Str} (ht : t.all isAllowed = true) (path : Str) :
    ∃ e, unitNamePathEscape (path ++ '.' :: t) = e ++ t := by
  obtain ⟨e, he, hne⟩ := escapePath_dot ht false true path
  refine ⟨e, ?_⟩
  rw [unitNamePathEscape, he]
  exact if_neg (by simp [hne])

end UnitFile
