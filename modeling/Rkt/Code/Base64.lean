import Mathlib.Tactic

set_option autoImplicit false

namespace Base64

def digit (n : Nat) : Char :=
  Char.ofNat <|
    if n < 26 then n + 65 else if n < 52 then n + 71 else if n < 62 then n - 4
    else if n = 62 then 43 else 47

def value (c : Char) : Option Nat := (List.range 64).find? fun n => digit n = c

theorem value_digit {n : Nat} (h : n < 64) : value (digit n) = some n := by
  revert n
  decide

def encode : List UInt8 → List Char
  | [] => []
  | [a] => [digit (a.toNat / 4), digit (a.toNat % 4 * 16), '=', '=']
  | [a, b] => [digit (a.toNat / 4), digit (a.toNat % 4 * 16 + b.toNat / 16),
      digit (b.toNat % 16 * 4), '=']
  | a :: b :: c :: bytes =>
    digit (a.toNat / 4) :: digit (a.toNat % 4 * 16 + b.toNat / 16) ::
      digit (b.toNat % 16 * 4 + c.toNat / 64) :: digit (c.toNat % 64) :: encode bytes

/-- The bytes of a group, from the values of its characters; an `=` has none. -/
def group (w x : Nat) : Option Nat → Option Nat → List UInt8
  | none, _ => [.ofNat (w * 4 + x / 16)]
  | some y, none => [.ofNat (w * 4 + x / 16), .ofNat (x % 16 * 16 + y / 4)]
  | some y, some z =>
    [.ofNat (w * 4 + x / 16), .ofNat (x % 16 * 16 + y / 4), .ofNat (y % 4 * 64 + z)]

def decode : List Char → Option (List UInt8)
  | [] => some []
  | w :: x :: y :: z :: s => do
    let w ← value w
    let x ← value x
    if s = [] ∧ z = '=' then
      if y = '=' then return group w x none none
      else return group w x (← value y) none
    else
      let y ← value y
      let z ← value z
      return group w x y z ++ (← decode s)
  | _ => none

theorem digit_ne {n : Nat} (h : n < 64) : digit n ≠ '=' := by
  revert n
  decide

theorem ofNat_eq {n : Nat} {a : UInt8} (h : n = a.toNat) : UInt8.ofNat n = a := by
  rw [h, UInt8.ofNat_toNat]

/-- What is written is read back. -/
theorem decode_encode (bytes : List UInt8) : decode (encode bytes) = some bytes := by
  induction bytes using encode.induct with
  | case1 => rfl
  | case2 a =>
    have ha := a.toNat_lt
    simp only [encode, decode, value_digit (show a.toNat / 4 < 64 by omega),
      value_digit (show a.toNat % 4 * 16 < 64 by omega)]
    show some (group _ _ none none) = _
    rw [group, ofNat_eq (a := a) (by omega)]
  | case3 a b =>
    have ha := a.toNat_lt
    have hb := b.toNat_lt
    have hy : b.toNat % 16 * 4 < 64 := by omega
    simp only [encode, decode, value_digit (show a.toNat / 4 < 64 by omega),
      value_digit (show a.toNat % 4 * 16 + b.toNat / 16 < 64 by omega), value_digit hy]
    simp only [Option.bind_eq_bind, Option.bind_some, and_self, if_true, digit_ne hy, if_false]
    show some (group _ _ _ none) = _
    rw [group, ofNat_eq (a := a) (by omega), ofNat_eq (a := b) (by omega)]
  | case4 a b c bytes ih =>
    have ha := a.toNat_lt
    have hb := b.toNat_lt
    have hc := c.toNat_lt
    have hz : c.toNat % 64 < 64 := by omega
    simp only [encode, decode, value_digit (show a.toNat / 4 < 64 by omega),
      value_digit (show a.toNat % 4 * 16 + b.toNat / 16 < 64 by omega),
      value_digit (show b.toNat % 16 * 4 + c.toNat / 64 < 64 by omega), value_digit hz, ih]
    simp only [Option.bind_eq_bind, Option.bind_some, digit_ne hz, and_false, if_false]
    show some (group _ _ _ _ ++ bytes) = _
    rw [group, ofNat_eq (a := a) (by omega), ofNat_eq (a := b) (by omega),
      ofNat_eq (a := c) (by omega)]
    rfl

example : encode [0x72, 0x6B, 0x74, 0x21] = "cmt0IQ==".toList := by decide

end Base64
