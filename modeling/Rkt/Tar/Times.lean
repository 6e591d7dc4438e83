import Mathlib.Tactic

set_option autoImplicit false

namespace Rkt.Fileutil

/-- A `time.Time`, in seconds since 1970 and nanoseconds. -/
structure Time where
  sec : Int
  nsec : Int
  sec_ge : -2 ^ 63 ≤ sec
  sec_lt : sec < 2 ^ 63
  nsec_nonneg : 0 ≤ nsec
  nsec_lt : nsec < 10 ^ 9
  deriving DecidableEq, Repr

structure Timespec where
  sec : Int
  nsec : Int
  deriving DecidableEq, Repr

/-- The first second of the year 1. -/
def Time.isZero (t : Time) : Bool := t.sec = -62135596800 ∧ t.nsec = 0

def Time.zero : Time := ⟨-62135596800, 0, by decide, by decide, by decide, by decide⟩

def Time.epoch : Time := ⟨0, 0, by decide, by decide, by decide, by decide⟩

def Time.total (t : Time) : Int := t.sec * 10 ^ 9 + t.nsec

/-- `UnixNano`, a signed number of 64 bits. -/
def Time.unixNano (t : Time) : Int := t.total.bmod (2 ^ 64)

def nsecToTimespec (nsec : Int) : Timespec := ⟨nsec.tdiv (10 ^ 9), nsec.tmod (10 ^ 9)⟩

def timeToTimespec (t : Time) : Timespec :=
  nsecToTimespec (if t.isZero then 0 else t.unixNano)

/-- The time is kept, and the nanoseconds are in their range. -/
def Kept (t : Time) : Prop :=
  timeToTimespec t = ⟨t.sec, t.nsec⟩ ∧ 0 ≤ (timeToTimespec t).nsec ∧
    (timeToTimespec t).nsec < 10 ^ 9

variable {v : Int} {t : Time}

theorem total_of_nsecToTimespec (h : nsecToTimespec v = ⟨t.sec, t.nsec⟩) : v = t.total := by
  have hsec : v.tdiv (10 ^ 9) = t.sec := congrArg Timespec.sec h
  have hnsec : v.tmod (10 ^ 9) = t.nsec := congrArg Timespec.nsec h
  calc v = 10 ^ 9 * v.tdiv (10 ^ 9) + v.tmod (10 ^ 9) := (Int.mul_tdiv_add_tmod v _).symm
    _ = t.total := by rw [hsec, hnsec, Time.total, Int.mul_comm]

theorem nsecToTimespec_total (t : Time) :
    nsecToTimespec t.total = ⟨t.sec, t.nsec⟩ ↔ 0 ≤ t.sec ∨ t.nsec = 0 := by
  have hnonneg := t.nsec_nonneg
  have hlt := t.nsec_lt
  constructor
  · intro h
    by_contra hcon
    have hneg : t.total ≤ 0 := by
      unfold Time.total
      omega
    have hnsec : t.total.tmod (10 ^ 9) = t.nsec := congrArg Timespec.nsec h
    have hrem := Int.tmod_nonneg (10 ^ 9) (Int.neg_nonneg.mpr hneg)
    rw [Int.neg_tmod, hnsec] at hrem
    omega
  · rintro (hsec | hnsec)
    · have hpos : 0 ≤ t.total := by
        unfold Time.total
        omega
      rw [nsecToTimespec, Int.tdiv_eq_ediv_of_nonneg hpos, Int.tmod_eq_emod_of_nonneg hpos,
        Timespec.mk.injEq, Time.total]
      omega
    · rw [nsecToTimespec, Time.total, hnsec, Int.add_zero, Int.mul_tdiv_cancel _ (by decide),
        Int.mul_tmod_left]

/-- **Which times are kept.** -/
theorem timeToTimespec_iff (t : Time) : (t.isZero = true ∨ Kept t) ↔
    t.isZero = true ∨ (-2 ^ 63 ≤ t.total ∧ t.total < 2 ^ 63) ∧ (0 ≤ t.sec ∨ t.nsec = 0) := by
  cases hzero : t.isZero with
  | true => simp
  | false =>
    have hfits : t.unixNano = t.total ↔ -2 ^ 63 ≤ t.total ∧ t.total < 2 ^ 63 := by
      unfold Time.unixNano
      generalize t.total = v
      have hmod : v.bmod (2 ^ 64) =
          if v % 2 ^ 64 < 2 ^ 63 then v % 2 ^ 64 else v % 2 ^ 64 - 2 ^ 64 := rfl
      rw [hmod]
      omega
    have hkept : Kept t ↔ nsecToTimespec t.unixNano = ⟨t.sec, t.nsec⟩ := by
      unfold Kept timeToTimespec
      rw [hzero, if_neg Bool.false_ne_true, and_iff_left_of_imp]
      intro h
      rw [h]
      exact ⟨t.nsec_nonneg, t.nsec_lt⟩
    simp only [Bool.false_eq_true, false_or]
    rw [hkept, ← hfits, ← nsecToTimespec_total t]
    constructor
    · intro h
      have htotal := total_of_nsecToTimespec h
      exact ⟨htotal, htotal ▸ h⟩
    · rintro ⟨htotal, h⟩
      rw [htotal, h]

/-- The time that `utimensat` gives to a file, if it takes the argument. -/
def Timespec.time? (ts : Timespec) : Option Time :=
  if h : (-2 ^ 63 ≤ ts.sec ∧ ts.sec < 2 ^ 63) ∧ 0 ≤ ts.nsec ∧ ts.nsec < 10 ^ 9 then
    some ⟨ts.sec, ts.nsec, h.1.1, h.1.2, h.2.1, h.2.2⟩
  else none

theorem time?_eq_some_iff : (timeToTimespec t).time? = some t ↔ Kept t := by
  unfold Timespec.time?
  constructor
  · intro h
    split_ifs at h with hrange
    have hsec : (timeToTimespec t).sec = t.sec := congrArg Time.sec (Option.some.inj h)
    have hnsec : (timeToTimespec t).nsec = t.nsec := congrArg Time.nsec (Option.some.inj h)
    exact ⟨by rw [← hsec, ← hnsec], hrange.2⟩
  · rintro ⟨heq, -⟩
    rw [heq, dif_pos ⟨⟨t.sec_ge, t.sec_lt⟩, t.nsec_nonneg, t.nsec_lt⟩]

/-- Half a second before 1970. -/
def beforeEpoch : Time := ⟨-1, 500000000, by decide, by decide, by decide, by decide⟩

theorem beforeEpoch_moved : beforeEpoch.isZero = false ∧
    timeToTimespec beforeEpoch = ⟨0, -500000000⟩ := by decide

end Rkt.Fileutil
