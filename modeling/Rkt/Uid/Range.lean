import Mathlib.Tactic

set_option autoImplicit false

namespace Rkt.Uid

structure UidRange where
  shift : UInt32
  count : UInt32
  deriving DecidableEq, Repr

/-- `math.MaxUint32`. -/
def maxUint32 : UInt32 := 0xFFFFFFFF

inductive RangeErr where
  /-- `uid %d or gid %d are out of range %d`. -/
  | outOfRange (uid gid count : UInt32)
  /-- `uid or gid are out of range %d after shifting`. -/
  | afterShifting
  deriving DecidableEq, Repr

def UidRange.shiftRange (r : UidRange) (uid gid : UInt32) : Except RangeErr (UInt32 × UInt32) :=
  if r.count > 0 ∧ (uid ≥ r.count ∨ gid ≥ r.count) then .error (.outOfRange uid gid r.count)
  else if maxUint32 - r.shift < uid ∨ maxUint32 - r.shift < gid then .error .afterShifting
  else .ok (uid + r.shift, gid + r.shift)

theorem maxUint32_sub_lt_iff (a b : UInt32) : maxUint32 - b < a ↔ 2 ^ 32 ≤ a.toNat + b.toNat := by
  have ha : a.toNat < 2 ^ 32 := a.toNat_lt
  have hb : b.toNat < 2 ^ 32 := b.toNat_lt
  have hmax : maxUint32.toNat = 2 ^ 32 - 1 := rfl
  have hle : b ≤ maxUint32 := by
    rw [UInt32.le_iff_toNat_le]
    omega
  rw [UInt32.lt_iff_toNat_lt, UInt32.toNat_sub_of_le _ _ hle]
  omega

/-- **Which identifiers are accepted, and what becomes of them**, for a range that is not empty. -/
theorem UidRange.shiftRange_ok_iff {r : UidRange} (hcount : r.count > 0) {uid gid u g : UInt32} :
    r.shiftRange uid gid = .ok (u, g) ↔ (uid < r.count ∧ u.toNat = uid.toNat + r.shift.toNat) ∧
        gid < r.count ∧ g.toNat = gid.toNat + r.shift.toNat := by
  have hadd : ∀ {a b : UInt32}, ¬ maxUint32 - r.shift < a →
      (a + r.shift = b ↔ b.toNat = a.toNat + r.shift.toNat) := by
    intro a b h
    rw [maxUint32_sub_lt_iff, Nat.not_le] at h
    rw [← UInt32.toNat_inj, UInt32.toNat_add, Nat.mod_eq_of_lt h, eq_comm]
  have hfits : ∀ {a b : UInt32}, b.toNat = a.toNat + r.shift.toNat →
      ¬ maxUint32 - r.shift < a := by
    intro a b h
    have hb : b.toNat < 2 ^ 32 := b.toNat_lt
    rw [maxUint32_sub_lt_iff]
    omega
  unfold UidRange.shiftRange
  split_ifs with hrange hshift
  · refine iff_of_false (by simp) ?_
    rintro ⟨⟨hu, -⟩, hg, -⟩
    rcases hrange.2 with h | h
    · exact absurd h (UInt32.not_le.mpr hu)
    · exact absurd h (UInt32.not_le.mpr hg)
  · refine iff_of_false (by simp) ?_
    rintro ⟨⟨-, hu⟩, -, hg⟩
    exact hshift.elim (hfits hu) (hfits hg)
  · simp only [hcount, true_and, not_or, ge_iff_le, UInt32.not_le] at hrange
    rw [not_or] at hshift
    rw [Except.ok.injEq, Prod.mk.injEq, hadd hshift.1, hadd hshift.2]
    exact ⟨fun h => ⟨⟨hrange.1, h.1⟩, hrange.2, h.2⟩, fun h => ⟨h.1.2, h.2.2⟩⟩

end Rkt.Uid
