import Mathlib.Data.Set.Function
import Mathlib.Order.Monotone.Basic
import Rkt.Num.Decimal

set_option autoImplicit false

namespace Rkt.Selinux

open Decimal

abbrev Str := List Char

/-- `s0:c%d,c%d`. -/
def mcsLabel (a b : Int) : Str := "s0:c".toList ++ (itoa a ++ ',' :: 'c' :: itoa b)

/-- The loop, for `fuel` rounds at most. -/
def tierLoop : Nat → Int → Int → Option (Int × Int)
  | 0, _, _ => none
  | fuel + 1, ord, tier =>
    if ord > tier then tierLoop fuel (ord - tier) (tier - 1) else some (ord, tier)

def intToMcs (fuel : Nat) (id : Int) (catRange : Nat) : Option Str :=
  if id < 1 ∨ id > 523776 then some []
  else
    (tierLoop fuel id catRange).map fun x =>
      let tier := (catRange : Int) - x.2
      mcsLabel tier (x.1 + tier)

def tri : Nat → Nat
  | 0 => 0
  | n + 1 => tri n + (n + 1)

theorem tri_eq (n : Nat) : n * (n + 1) / 2 = tri n := by
  induction n with
  | zero => rfl
  | succ n ih =>
    rw [tri, ← ih]
    have hsum : (n + 1) * (n + 1 + 1) = n * (n + 1) + 2 * (n + 1) := by ring
    omega

theorem tri_mono : Monotone tri := monotone_nat_of_le_succ fun n => Nat.le_add_right _ (n + 1)

theorem tier_le {s t o p : Nat} (ho : 1 ≤ o) (hp : p ≤ t) (h : tri s + p = tri t + o) : t ≤ s := by
  by_contra hlt
  obtain ⟨t, rfl⟩ : ∃ k, t = k + 1 := ⟨t - 1, by omega⟩
  have hle : tri s ≤ tri t := tri_mono (by omega)
  rw [tri] at h
  omega

theorem place_unique {s t o p : Nat} (ho : 1 ≤ o ∧ o ≤ s) (hp : 1 ≤ p ∧ p ≤ t)
    (h : tri s + p = tri t + o) : s = t ∧ o = p := by
  have hst : s = t := Nat.le_antisymm (tier_le hp.1 ho.2 h.symm) (tier_le ho.1 hp.2 h)
  subst hst
  exact ⟨rfl, by omega⟩

/-- The loop keeps the distance from the last number, until the place is in the tier. -/
theorem tierLoop_ends {t : Nat} : ∀ {ord : Nat}, 1 ≤ ord → ord ≤ tri t → ∀ {fuel}, t < fuel →
    ∃ o s : Nat, tierLoop fuel ord t = some ((o : Int), (s : Int)) ∧ (1 ≤ o ∧ o ≤ s) ∧ s ≤ t ∧
      tri t + o = tri s + ord := by
  induction t with
  | zero =>
    intro ord hpos hle
    rw [tri] at hle
    omega
  | succ t ih =>
    intro ord hpos hle fuel hfuel
    obtain ⟨fuel, rfl⟩ : ∃ k, fuel = k + 1 := ⟨fuel - 1, by omega⟩
    rw [tierLoop]
    by_cases hord : ord > t + 1
    · rw [tri] at hle
      have hrest : 1 ≤ ord - (t + 1) := by omega
      obtain ⟨o, s, hloop, ho, hs, hsum⟩ := ih hrest (by omega) (Nat.lt_of_succ_lt_succ hfuel)
      refine ⟨o, s, ?_, ho, by omega, ?_⟩
      · rw [if_pos (by omega), ← hloop]
        congr 1
        · omega
        · omega
      · rw [tri]
        omega
    · exact ⟨ord, t + 1, if_neg (by omega), ⟨hpos, by omega⟩, le_rfl, rfl⟩

theorem mcsLabel_inj {a b a' b' : Nat} (h : mcsLabel a b = mcsLabel a' b') : a = a' ∧ b = b' := by
  have hcomma : ∀ n : Nat, ',' ∉ itoa n := fun n hmem =>
    (mem_itoa hmem).elim (absurd · (by decide)) (absurd · (by decide))
  have hrest : ',' ∉ 'c' :: itoa b :=
    List.not_mem_cons_of_ne_of_not_mem (by decide) (hcomma b)
  obtain ⟨ha, -, hb⟩ :=
    (List.append_cons_inj_of_notMem (hcomma a) hrest).mp (List.append_cancel_left h)
  exact ⟨by simpa using itoa_injective ha, by simpa using itoa_injective (List.cons.inj hb).2⟩

/-- The numbers for categories up to `m`. -/
def ids (m : Nat) : Set Nat := {id | 1 ≤ id ∧ id ≤ min 523776 (m * (m + 1) / 2)}

def labels (m : Nat) : Set Str := {l | ∃ a b : Nat, a < b ∧ b ≤ m ∧ l = mcsLabel a b}

/-- What `IntToMcs` returns, if it does. -/
def mcsOf (m id : Nat) : Str := (intToMcs (m + 1) id m).getD []

/-- The place of a number in its tier, however many rounds are allowed. -/
theorem mcsOf_eq {m id : Nat} (hid : id ∈ ids m) : ∃ o s : Nat, (1 ≤ o ∧ o ≤ s) ∧ s ≤ m ∧
    tri m + o = tri s + id ∧ mcsOf m id = mcsLabel (m - s : Nat) (m - s + o : Nat) ∧
      ∀ fuel > m, intToMcs fuel id m = some (mcsOf m id) := by
  obtain ⟨hpos, hle⟩ := hid
  rw [tri_eq, le_min_iff] at hle
  obtain ⟨o, s, -, ho, hs, hsum⟩ := tierLoop_ends hpos hle.2 (Nat.lt_succ_self m)
  have hret : ∀ fuel > m, intToMcs fuel id m = some (mcsLabel (m - s : Nat) (m - s + o : Nat)) := by
    intro fuel hfuel
    obtain ⟨o', s', hloop, ho', hs', hsum'⟩ := tierLoop_ends hpos hle.2 hfuel
    obtain ⟨rfl, rfl⟩ := place_unique ho' ho (by omega)
    rw [intToMcs, if_neg (by omega), hloop]
    simp only [Option.map_some, Option.some.injEq]
    congr 1
    · omega
    · omega
  have hof : mcsOf m id = mcsLabel (m - s : Nat) (m - s + o : Nat) := by
    rw [mcsOf, hret (m + 1) (Nat.lt_succ_self m), Option.getD_some]
  exact ⟨o, s, ho, hs, hsum, hof, fun fuel hfuel => by rw [hof, hret fuel hfuel]⟩

theorem mcsOf_mapsTo (m : Nat) : Set.MapsTo (mcsOf m) (ids m) (labels m) := by
  intro id hid
  obtain ⟨o, s, ho, hs, -, heq, -⟩ := mcsOf_eq hid
  exact ⟨m - s, m - s + o, by omega, by omega, heq⟩

theorem mcsOf_injOn (m : Nat) : Set.InjOn (mcsOf m) (ids m) := by
  intro id hid id' hid' h
  obtain ⟨o, s, ho, hs, hsum, heq, -⟩ := mcsOf_eq hid
  obtain ⟨o', s', ho', hs', hsum', heq', -⟩ := mcsOf_eq hid'
  rw [heq, heq'] at h
  obtain ⟨ha, hb⟩ := mcsLabel_inj h
  obtain rfl : s = s' := by omega
  omega

theorem mcsOf_surjOn {m : Nat} (h : m * (m + 1) / 2 ≤ 523776) :
    Set.SurjOn (mcsOf m) (ids m) (labels m) := by
  rintro l ⟨a, b, hab, hb, rfl⟩
  -- the number of the pair, from its tier and its place in it
  have hle : tri (m - a) ≤ tri m := tri_mono (Nat.sub_le m a)
  have hplace : 1 ≤ b - a ∧ b - a ≤ m - a := by omega
  have htier : m - a ≤ tri (m - a) := by
    obtain ⟨k, hk⟩ : ∃ k, m - a = k + 1 := ⟨m - a - 1, by omega⟩
    rw [hk, tri]
    omega
  have hid : tri m - tri (m - a) + (b - a) ∈ ids m := by
    rw [tri_eq] at h
    refine ⟨by omega, ?_⟩
    rw [tri_eq]
    omega
  obtain ⟨o, s, ho, hs, hsum, heq, -⟩ := mcsOf_eq hid
  obtain ⟨rfl, rfl⟩ := place_unique ho hplace (by omega)
  refine ⟨_, hid, heq.trans ?_⟩
  congr 1
  · omega
  · omega

/-- **The numbers enumerate the labels**: all of them, if the last number is allowed. -/
theorem intToMcs_enumerates (m : Nat) :
    (∀ id ∈ ids m, ∀ fuel > m, intToMcs fuel id m = some (mcsOf m id)) ∧
      Set.MapsTo (mcsOf m) (ids m) (labels m) ∧ Set.InjOn (mcsOf m) (ids m) ∧
      (m * (m + 1) / 2 ≤ 523776 → Set.BijOn (mcsOf m) (ids m) (labels m)) := by
  refine ⟨fun id hid => ?_, mcsOf_mapsTo m, mcsOf_injOn m, fun h =>
    ⟨mcsOf_mapsTo m, mcsOf_injOn m, mcsOf_surjOn h⟩⟩
  obtain ⟨o, s, -, -, -, -, hret⟩ := mcsOf_eq hid
  exact hret

end Rkt.Selinux
