import Mathlib.Tactic

set_option autoImplicit false

namespace Rkt.Store

def hashPrefix : List Char := "sha512-".toList

def lenHash : Nat := 64

def lenHashKey : Nat := lenHash / 2 * 2

def lenKey : Nat := hashPrefix.length + lenHashKey

def minlenKey : Nat := hashPrefix.length + 2

structure Digest where
  bytes : List UInt8
  length_eq : bytes.length = lenHash

/-- `%x` of a byte. -/
def hexByte (b : UInt8) : List Char := [Nat.digitChar (b.toNat / 16), Nat.digitChar (b.toNat % 16)]

def Digest.text (k : Digest) : List Char := hashPrefix ++ k.bytes.flatMap hexByte

/-- `keyToString`. It panics on anything that has not the length of a SHA-512 sum. -/
def keyToString (k : Digest) : List Char := k.text.take lenKey

variable (k : Digest)

theorem Digest.text_length : k.text.length = hashPrefix.length + 2 * lenHash := by
  have hhex : (k.bytes.flatMap hexByte).length = 2 * k.bytes.length := by
    simp [List.length_flatMap, hexByte, Nat.mul_comm]
  rw [Digest.text, List.length_append, hhex, k.length_eq]

theorem keyToString_length : (keyToString k).length = lenKey := by
  rw [keyToString, List.length_take, k.text_length]
  decide

theorem hashPrefix_prefix_text : hashPrefix <+: k.text := List.prefix_append _ _

theorem hashPrefix_prefix_key : hashPrefix <+: keyToString k := by
  rw [keyToString, List.prefix_take_iff]
  exact ⟨hashPrefix_prefix_text k, by decide⟩

end Rkt.Store
