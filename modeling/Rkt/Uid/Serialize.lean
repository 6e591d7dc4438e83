import Rkt.Code.Scan
import Rkt.Uid.Range

set_option autoImplicit false

namespace Rkt.Uid

open Decimal Json Scan

def UidRange.serialize (r : UidRange) : Bytes :=
  ascii (Nat.toDigits 10 r.shift.toNat ++ ':' :: Nat.toDigits 10 r.count.toNat)

inductive DeserializeErr where
  /-- `error deserializing uid range: %v`. -/
  | deserializing
  deriving DecidableEq, Repr

/-- The receiver after the call, and the error. -/
def UidRange.deserialize (r : UidRange) (uidRange : Bytes) : UidRange × Option DeserializeErr :=
  if uidRange = [] then (r, none)
  else
    match scanUint 32 (runes uidRange) with
    | none => (r, some .deserializing)
    | some (n, rest) =>
      let r := { r with shift := UInt32.ofNat n }
      if rest.head? ≠ some ':' then (r, some .deserializing)
      else
        match scanUint 32 rest.tail with
        | none => (r, some .deserializing)
        | some (m, _) => ({ r with count := UInt32.ofNat m }, none)

/-- The text is exactly two decimal numbers, those of the range, with a colon between them. -/
def UidRange.Text (r : UidRange) (b : Bytes) : Prop :=
  ∃ ds ds' : List Char, ds ≠ [] ∧ ds' ≠ [] ∧ (∀ c ∈ ds ++ ds', c.isDigit = true) ∧
    Nat.ofDigitChars 10 ds 0 = r.shift.toNat ∧ Nat.ofDigitChars 10 ds' 0 = r.count.toNat ∧
    b = ascii (ds ++ ':' :: ds')

theorem UidRange.text_serialize (r : UidRange) : r.Text r.serialize := by
  refine ⟨_, _, Nat.toDigits_ne_nil, Nat.toDigits_ne_nil, fun c hc => ?_,
    Nat.ofDigitChars_ten_toDigits, Nat.ofDigitChars_ten_toDigits, rfl⟩
  rcases List.mem_append.mp hc with hc | hc <;>
    exact Nat.isDigit_of_mem_toDigits (by decide) (by decide) hc

theorem UidRange.Text.ne_nil {r : UidRange} {b : Bytes} (h : r.Text b) : b ≠ [] := by
  obtain ⟨ds, ds', -, -, -, -, -, rfl⟩ := h
  simp [ascii]

/-- Such a text is read, whatever the receiver is. -/
theorem UidRange.Text.deserialize_eq {r : UidRange} {b : Bytes} (h : r.Text b) (r0 : UidRange) :
    r0.deserialize b = (r, none) := by
  have hb := h.ne_nil
  obtain ⟨ds, ds', hne, hne', hdigit, hshift, hcount, rfl⟩ := h
  have hascii : ∀ c ∈ ds ++ ':' :: ds', c.toNat < 128 := by
    intro c hc
    by_cases hcolon : c = ':'
    · rw [hcolon]
      decide
    · have hc' : c ∈ ds ++ ds' := by simpa [hcolon] using hc
      have hlt : c.toNat ≤ 57 := (Char.isDigit_iff_toNat.mp (hdigit c hc')).2
      omega
  have hfirst : scanUint 32 (ds ++ ':' :: ds') = _ :=
    scanUint_digits (fun c hc => hdigit c (List.mem_append_left _ hc)) (by simp) hne 32
  have hsecond : scanUint 32 (ds' ++ []) = _ :=
    scanUint_digits (fun c hc => hdigit c (List.mem_append_right _ hc)) (by simp) hne' 32
  rw [hshift, if_pos r.shift.toNat_lt] at hfirst
  rw [hcount, if_pos r.count.toNat_lt, List.append_nil] at hsecond
  rw [UidRange.deserialize, if_neg hb, runes_ascii hascii]
  simp only [hfirst, List.head?_cons, ne_eq, not_true_eq_false, if_false, List.tail_cons, hsecond,
    UInt32.ofNat_toNat]

/-- What `Deserialize` should do to a text that is not empty. -/
def Faithful (b : Bytes) : Prop := b ≠ [] → ∀ r : UidRange,
  ((r.deserialize b).2 = none → (r.deserialize b).1.Text b) ∧
    ((r.deserialize b).2 ≠ none → (r.deserialize b).1 = r)

/-- **`Deserialize` restores what `Serialize` has written**, for any receiver; and it is faithful on
those texts only that are two numbers, or do not begin with a number. -/
theorem deserialize_iff (r r₀ : UidRange) (b : Bytes) :
    r₀.deserialize r.serialize = (r, none) ∧
      (Faithful b ↔ b = [] ∨ scanUint 32 (runes b) = none ∨ ∃ r' : UidRange, r'.Text b) := by
  refine ⟨r.text_serialize.deserialize_eq r₀, fun h => ?_, ?_⟩
  · by_contra hcon
    obtain ⟨hb, hne⟩ := not_or.mp hcon
    obtain ⟨hscan, htext⟩ := not_or.mp hne
    obtain ⟨⟨n, rest⟩, hn⟩ := Option.ne_none_iff_exists'.mp hscan
    -- a receiver in which the first number makes a difference
    obtain ⟨k, hk⟩ : ∃ k, k ≠ UInt32.ofNat n := ⟨UInt32.ofNat n + 1, by simp⟩
    obtain ⟨hok, herr⟩ := h hb ⟨k, 0⟩
    have hshift : (UidRange.deserialize ⟨k, 0⟩ b).1.shift = UInt32.ofNat n := by
      rw [UidRange.deserialize, if_neg hb, hn]
      dsimp only
      split_ifs with hcolon
      · rfl
      · split <;> rfl
    by_cases hnone : (UidRange.deserialize ⟨k, 0⟩ b).2 = none
    · exact htext ⟨_, hok hnone⟩
    · rw [herr hnone] at hshift
      exact hk hshift
  · rintro (rfl | hnone | ⟨r', htext⟩) hb r
    · exact absurd rfl hb
    · rw [UidRange.deserialize, if_neg hb, hnone]
      exact ⟨nofun, fun _ => rfl⟩
    · rw [htext.deserialize_eq]
      exact ⟨fun _ => htext, fun h => absurd rfl h⟩

/-- What follows the second number is not refused. -/
theorem trailing_text_accepted :
    UidRange.deserialize ⟨0, 0⟩ (ascii "7:8x".toList) = (⟨7, 8⟩, none) := by decide

end Rkt.Uid
