import Rkt.Code.Json
import Rkt.Num.Decimal

set_option autoImplicit false

namespace Scan

open Json Decimal

/-- The code point of an encoded character. -/
def decode : Bytes → Nat
  | [a] => a.toNat
  | [a, b] => a.toNat % 32 * 64 + b.toNat % 64
  | [a, b, c] => (a.toNat % 16 * 64 + b.toNat % 64) * 64 + c.toNat % 64
  | [a, b, c, d] => ((a.toNat % 8 * 64 + b.toNat % 64) * 64 + c.toNat % 64) * 64 + d.toNat % 64
  | _ => 0

def runes (s : Bytes) : List Char :=
  (pieces 0 s).map fun
    | .rune r => Char.ofNat (decode r)
    | .bad => Char.ofNat 0xFFFD

theorem runes_ascii {s : List Char} (h : ∀ c ∈ s, c.toNat < 128) : runes (ascii s) = s := by
  induction s with
  | nil => rfl
  | cons c s ih =>
    have hc : c.toNat < 128 := h c List.mem_cons_self
    have hbyte : (UInt8.ofNat c.toNat).toNat = c.toNat := by
      simp only [UInt8.toNat_ofNat']
      omega
    have hlen : runeLen (UInt8.ofNat c.toNat :: ascii s) = some 1 := by
      refine runeLen_cons.mpr ⟨[], ?_, rfl, rfl⟩
      rw [follow, if_pos (UInt8.lt_iff_toNat_lt.mpr (by rw [hbyte]; exact hc))]
    have hpieces : pieces 0 (ascii (c :: s)) =
        .rune [UInt8.ofNat c.toNat] :: pieces 0 (ascii s) := by
      show pieces 0 (UInt8.ofNat c.toNat :: ascii s) = _
      rw [pieces, hlen]
      rfl
    rw [runes, hpieces, List.map_cons]
    show Char.ofNat (UInt8.ofNat c.toNat).toNat :: runes (ascii s) = _
    rw [hbyte, Char.ofNat_toNat, ih fun c' hc' => h c' (List.mem_cons_of_mem c hc')]

/-- What `fmt` takes for a space. A newline is not skipped: there the scanner gives up. -/
def isBlank (c : Char) : Bool :=
  let n := c.toNat
  n = 9 ∨ 11 ≤ n ∧ n ≤ 13 ∨ n = 0x20 ∨ n = 0x85 ∨ n = 0xA0 ∨ n = 0x1680 ∨
    0x2000 ≤ n ∧ n ≤ 0x200A ∨ n = 0x2028 ∨ n = 0x2029 ∨ n = 0x202F ∨ n = 0x205F ∨ n = 0x3000

/-- An unsigned number, and what is behind it. -/
def scanUint (bits : Nat) (s : List Char) : Option (Nat × List Char) :=
  let t := s.dropWhile isBlank
  (parseNat (t.takeWhile Char.isDigit)).bind fun n =>
    if n < 2 ^ bits then some (n, t.dropWhile Char.isDigit) else none

/-- A number of 64 bits with or without a sign, and what is behind it. -/
def scanInt (s : List Char) : Option (Int × List Char) :=
  let t := s.dropWhile isBlank
  let k := if t.head? = some '-' ∨ t.head? = some '+' then 1 else 0
  (atoi (t.take k ++ (t.drop k).takeWhile Char.isDigit)).map fun n =>
    (n, (t.drop k).dropWhile Char.isDigit)

section

variable {ds rest : List Char} (hds : ∀ c ∈ ds, c.isDigit = true)
  (hrest : ∀ c ∈ rest.head?, c.isDigit = false)

include hds hrest

theorem takeWhile_digits : (ds ++ rest).takeWhile Char.isDigit = ds := by
  rw [List.takeWhile_append_of_pos hds]
  cases rest with
  | nil => simp
  | cons c rest => rw [List.takeWhile_cons_of_neg (by simp [hrest c rfl]), List.append_nil]

theorem dropWhile_digits : (ds ++ rest).dropWhile Char.isDigit = rest := by
  rw [List.dropWhile_append_of_pos hds]
  cases rest with
  | nil => rfl
  | cons c rest => rw [List.dropWhile_cons_of_neg (by simp [hrest c rfl])]

omit hrest in
theorem dropWhile_isBlank (hne : ds ≠ []) : (ds ++ rest).dropWhile isBlank = ds ++ rest := by
  obtain ⟨c, ds, rfl⟩ := List.exists_cons_of_ne_nil hne
  have hc : 48 ≤ c.toNat ∧ c.toNat ≤ 57 :=
    Char.isDigit_iff_toNat.mp (hds c List.mem_cons_self)
  have hblank : isBlank c = false := by
    simp only [isBlank, decide_eq_false_iff_not]
    omega
  rw [List.cons_append, List.dropWhile_cons_of_neg (by simp [hblank])]

theorem scanUint_digits (hne : ds ≠ []) (bits : Nat) : scanUint bits (ds ++ rest) =
    if Nat.ofDigitChars 10 ds 0 < 2 ^ bits then some (Nat.ofDigitChars 10 ds 0, rest)
    else none := by
  simp only [scanUint]
  rw [dropWhile_isBlank hds hne, takeWhile_digits hds hrest, dropWhile_digits hds hrest, parseNat,
    if_pos ⟨hne, List.all_eq_true.mpr hds⟩]
  rfl

end

theorem scanInt_toDigits {rest : List Char} (hrest : ∀ c ∈ rest.head?, c.isDigit = false)
    (n : Nat) : scanInt (Nat.toDigits 10 n ++ rest) =
      if n < 2 ^ 63 then some ((n : Int), rest) else none := by
  have hds : ∀ c ∈ Nat.toDigits 10 n, c.isDigit = true := fun c hc =>
    Nat.isDigit_of_mem_toDigits (by decide) (by decide) hc
  obtain ⟨c, t, hn, hc⟩ := toDigits_eq_cons n
  have hsign : ¬ ((Nat.toDigits 10 n ++ rest).head? = some '-' ∨
      (Nat.toDigits 10 n ++ rest).head? = some '+') := by
    rw [hn, List.cons_append, List.head?_cons, Option.some.injEq, Option.some.injEq]
    rintro (rfl | rfl) <;> exact absurd hc (by decide)
  simp only [scanInt]
  rw [dropWhile_isBlank hds Nat.toDigits_ne_nil, if_neg hsign, List.take_zero, List.drop_zero,
    List.nil_append, takeWhile_digits hds hrest, dropWhile_digits hds hrest]
  show (atoi (itoa n)).map _ = _
  rw [atoi_itoa]
  split_ifs <;> rfl

end Scan
