import Mathlib.Data.List.TakeWhile
import Mathlib.Data.Nat.Digits.Defs
import Mathlib.Tactic

set_option autoImplicit false

namespace Decimal

/-- An unsigned number: at least one digit, and nothing else. -/
def parseNat (s : List Char) : Option Nat :=
  if s ≠ [] ∧ s.all Char.isDigit then some (Nat.ofDigitChars 10 s 0) else none

/-- `strconv.Atoi`. -/
def atoi : List Char → Option Int
  | '-' :: s => (parseNat s).bind fun n => if n ≤ 2 ^ 63 then some (-n) else none
  | '+' :: s => unsigned s
  | s => unsigned s
where
  /-- A number without a sign, or after a `+`. -/
  unsigned (s : List Char) : Option Int :=
    (parseNat s).bind fun n => if n < 2 ^ 63 then some n else none

/-- `strconv.Itoa`. -/
def itoa : Int → List Char
  | .ofNat n => Nat.toDigits 10 n
  | .negSucc n => '-' :: Nat.toDigits 10 (n + 1)

theorem atoi.unsigned_range {s : List Char} {n : Int} (h : atoi.unsigned s = some n) :
    0 ≤ n ∧ n < 2 ^ 63 := by
  obtain ⟨m, -, hm⟩ := Option.bind_eq_some_iff.mp h
  split_ifs at hm with hlt
  cases hm
  omega

theorem atoi_range {s : List Char} {n : Int} (h : atoi s = some n) : -2 ^ 63 ≤ n ∧ n < 2 ^ 63 := by
  unfold atoi at h
  split at h
  · obtain ⟨m, -, hm⟩ := Option.bind_eq_some_iff.mp h
    split_ifs at hm with hle
    cases hm
    omega
  · have hr := atoi.unsigned_range h
    omega
  · have hr := atoi.unsigned_range h
    omega

def isSpace (c : Char) : Bool :=
  c = ' ' ∨ c = '\t' ∨ c = '\n' ∨ c = '\x0b' ∨ c = '\x0c' ∨ c = '\r'

/-- The number that the leading digits form; zero if there is none. -/
def leading (s : List Char) : Nat := Nat.ofDigitChars 10 (s.takeWhile Char.isDigit) 0

/-- `strtol` in base 10. -/
def strtol (s : List Char) : Int :=
  match s.dropWhile isSpace with
  | '-' :: t => max (-2 ^ 63) (-leading t)
  | '+' :: t => min (2 ^ 63 - 1) (leading t)
  | t => min (2 ^ 63 - 1) (leading t)

@[simp]
theorem leading_toDigits (n : Nat) : leading (Nat.toDigits 10 n) = n := by
  unfold leading
  rw [List.takeWhile_eq_self_iff.mpr
    fun c hc => Nat.isDigit_of_mem_toDigits (by omega) (by omega) hc]
  exact Nat.ofDigitChars_ten_toDigits

theorem toDigits_eq_cons (n : Nat) : ∃ c t, Nat.toDigits 10 n = c :: t ∧ c.isDigit = true := by
  obtain ⟨c, t, h⟩ := List.exists_cons_of_ne_nil (Nat.toDigits_ne_nil (n := n) (b := 10))
  refine ⟨c, t, h, Nat.isDigit_of_mem_toDigits (b := 10) (n := n) (by omega) (by omega) ?_⟩
  rw [h]
  exact List.mem_cons_self

theorem isSpace_of_isDigit {c : Char} (h : c.isDigit = true) : isSpace c = false := by
  by_contra hs
  simp only [isSpace, Bool.not_eq_false, decide_eq_true_eq] at hs
  rcases hs with rfl | rfl | rfl | rfl | rfl | rfl <;> revert h <;> decide

theorem strtol_toDigits (n : Nat) : strtol (Nat.toDigits 10 n) = min (2 ^ 63 - 1) (n : Int) := by
  obtain ⟨c, t, h, hc⟩ := toDigits_eq_cons n
  have hn : leading (c :: t) = n := by rw [← h, leading_toDigits]
  unfold strtol
  rw [h, List.dropWhile_cons_of_neg (by simp [isSpace_of_isDigit hc])]
  -- the first character is a digit, so it is no sign
  split
  · rename_i heq
    cases heq
    exact absurd hc (by decide)
  · rename_i heq
    cases heq
    exact absurd hc (by decide)
  · rw [hn]

/-- **What `Itoa` writes is what `strtol` reads**, for every 64-bit number. -/
theorem strtol_itoa {n : Int} (hlo : -2 ^ 63 ≤ n) (hhi : n < 2 ^ 63) : strtol (itoa n) = n := by
  cases n with
  | ofNat n =>
    show strtol (Nat.toDigits 10 n) = n
    rw [strtol_toDigits]
    have hn : (n : Int) < 2 ^ 63 := hhi
    omega
  | negSucc n =>
    have hblank : isSpace '-' = false := by decide
    unfold strtol itoa
    rw [List.dropWhile_cons_of_neg (by simp [hblank])]
    show max (-2 ^ 63) (-(leading (Nat.toDigits 10 (n + 1)) : Int)) = Int.negSucc n
    rw [leading_toDigits]
    omega

theorem mem_itoa {n : Int} {c : Char} (h : c ∈ itoa n) : c.isDigit = true ∨ c = '-' := by
  have hdigit {m : Nat} (hc : c ∈ Nat.toDigits 10 m) : c.isDigit = true :=
    Nat.isDigit_of_mem_toDigits (by omega) (by omega) hc
  cases n with
  | ofNat n => exact .inl (hdigit h)
  | negSucc n =>
    rcases List.mem_cons.mp h with rfl | h
    · exact .inr rfl
    · exact .inl (hdigit h)

theorem toDigits_injective : Function.Injective (Nat.toDigits 10) := by
  intro n n' h
  rw [← leading_toDigits n, h, leading_toDigits]

theorem itoa_injective : Function.Injective itoa := by
  -- a number without a sign begins with a digit
  have hsign {n m : Nat} : Nat.toDigits 10 n ≠ '-' :: Nat.toDigits 10 m := by
    obtain ⟨c, t, h, hc⟩ := toDigits_eq_cons n
    rw [h]
    intro heq
    rw [List.head_eq_of_cons_eq heq] at hc
    exact absurd hc (by decide)
  intro n n' h
  cases n with
  | ofNat n =>
    cases n' with
    | ofNat n' => rw [toDigits_injective h]
    | negSucc n' => exact absurd h hsign
  | negSucc n =>
    cases n' with
    | ofNat n' => exact absurd h.symm hsign
    | negSucc n' =>
      have hn := toDigits_injective (List.tail_eq_of_cons_eq h)
      rw [Nat.succ.inj hn]

theorem parseNat_toDigits (n : Nat) : parseNat (Nat.toDigits 10 n) = some n := by
  have hdigits : (Nat.toDigits 10 n).all Char.isDigit = true :=
    List.all_eq_true.mpr fun c hc => Nat.isDigit_of_mem_toDigits (by omega) (by omega) hc
  unfold parseNat
  rw [if_pos ⟨Nat.toDigits_ne_nil, hdigits⟩, Nat.ofDigitChars_ten_toDigits]

/-- `Atoi` reads what `Itoa` writes, as long as the number fits. -/
theorem atoi_itoa (n : Nat) : atoi (itoa n) = if n < 2 ^ 63 then some (n : Int) else none := by
  have hunsigned : atoi.unsigned (Nat.toDigits 10 n) =
      if n < 2 ^ 63 then some (n : Int) else none := by
    unfold atoi.unsigned
    rw [parseNat_toDigits]
    rfl
  obtain ⟨c, t, h, hc⟩ := toDigits_eq_cons n
  show atoi (Nat.toDigits 10 n) = _
  rw [h] at hunsigned ⊢
  unfold atoi
  -- the first character is a digit, so it is no sign
  split
  · rename_i heq
    cases heq
    exact absurd hc (by decide)
  · rename_i heq
    cases heq
    exact absurd hc (by decide)
  · exact hunsigned

theorem toNat_of_isDigit {c : Char} (h : c.isDigit = true) : 48 ≤ c.toNat ∧ c.toNat ≤ 57 := by
  simpa [Char.isDigit, UInt32.le_iff_toNat_le] using h

theorem head_toDigits {n : Nat} (hn : 0 < n) : (Nat.toDigits 10 n).head? ≠ some '0' := by
  induction n using Nat.strong_induction_on with
  | _ n ih =>
    by_cases hlt : n < 10
    · rw [Nat.toDigits_of_lt_base hlt]
      interval_cases n <;> decide
    · rw [Nat.toDigits_of_base_le (by omega) (by omega),
        List.head?_append_of_ne_nil _ Nat.toDigits_ne_nil]
      exact ih _ (by omega) (by omega)

end Decimal
