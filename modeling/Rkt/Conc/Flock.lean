import Mathlib.Data.Finset.Basic
import Mathlib.Tactic

set_option autoImplicit false

namespace Conc

/-- The advisory lock of one inode; `F` is the type of open file descriptions. -/
inductive Flock (F : Type) where
  | excl (f : F)
  | shared (fs : Finset F)

namespace Flock

variable {F : Type}

def free : Flock F := .shared ∅

/-- The descriptions for which `gone` holds are closed. -/
def release (gone : F → Bool) : Flock F → Flock F
  | .excl g => if gone g then free else .excl g
  | .shared gs => .shared (gs.filter (fun g => gone g = false))

theorem release_excl {gone : F → Bool} {g : F} (h : gone g = false) :
    (excl g).release gone = excl g := by simp [release, h]

variable [DecidableEq F]

/-- An exclusive lock can be granted to `f`: nobody else holds any lock. -/
def canEx (f : F) : Flock F → Bool
  | .excl g => g = f
  | .shared gs => gs ⊆ {f}

/-- A shared lock can be granted to `f`: nobody else holds an exclusive lock. -/
def canSh (f : F) : Flock F → Bool
  | .excl g => g = f
  | .shared _ => true

def share (f : F) : Flock F → Flock F
  | .excl _ => .shared {f}
  | .shared gs => .shared (insert f gs)

/-- `f` gives up what it holds. -/
def unlock (f : F) : Flock F → Flock F
  | .excl g => if g = f then free else .excl g
  | .shared gs => .shared (gs.erase f)

@[simp] theorem canEx_excl (f g : F) : (excl g).canEx f = true ↔ g = f := by simp [canEx]

@[simp] theorem canSh_excl (f g : F) : (excl g).canSh f = true ↔ g = f := by simp [canSh]

/-- Giving up one's own lock does not touch somebody else's exclusive lock. -/
theorem unlock_excl {f g : F} (h : g ≠ f) : (excl g).unlock f = excl g := by simp [unlock, h]

inductive Mode where
  | exclusive
  | shared
  deriving DecidableEq, Repr

/-- `f` holds the lock in the mode. -/
def holds (f : F) : Mode → Flock F → Bool
  | .exclusive, .excl g => g = f
  | .shared, .shared gs => f ∈ gs
  | _, _ => false

/-- The lock can be granted to `f` in the mode. -/
def can (f : F) : Mode → Flock F → Bool
  | .exclusive => canEx f
  | .shared => canSh f

def grant (f : F) : Mode → Flock F → Flock F
  | .exclusive => fun _ => .excl f
  | .shared => share f

theorem holds_exclusive {f : F} {l : Flock F} (h : l.holds f .exclusive = true) : l = excl f := by
  cases l with
  | excl g => simpa [holds] using h
  | shared gs => cases h

theorem holds_unique {f g : F} {m : Mode} {l : Flock F} (hf : l.holds f .exclusive = true)
    (hg : l.holds g m = true) : g = f := by
  rw [holds_exclusive hf] at hg
  cases m with
  | exclusive => simpa [holds, eq_comm] using hg
  | shared => cases hg

theorem grant_holds (f : F) (m : Mode) (l : Flock F) : (l.grant f m).holds f m = true := by
  cases m <;> cases l <;> simp [grant, holds, share]

theorem holds_unlock {f g : F} {m : Mode} {l : Flock F} (hne : g ≠ f)
    (hg : l.holds g m = true) : (l.unlock f).holds g m = true := by
  cases l with
  | excl g' =>
    cases m with
    | exclusive =>
      have hg' : g' = g := by simpa [holds] using hg
      subst hg'
      simp [unlock, hne, holds]
    | shared => cases hg
  | shared gs =>
    cases m with
    | exclusive => cases hg
    | shared => simpa [unlock, holds, hne] using hg

/-- A lock is granted only if the other holders can keep theirs. -/
theorem holds_grant {f g : F} {m m' : Mode} {l : Flock F} (hne : g ≠ f)
    (hcan : l.can f m' = true) (hg : l.holds g m = true) : (l.grant f m').holds g m = true := by
  cases l with
  | excl g' =>
    have hf : g' = f := by cases m' <;> simpa [can, canEx, canSh] using hcan
    cases m with
    | exclusive =>
      have hg' : g' = g := by simpa [holds] using hg
      exact absurd (hg'.symm.trans hf) hne
    | shared => cases hg
  | shared gs =>
    cases m with
    | exclusive => cases hg
    | shared =>
      have hmem : g ∈ gs := by simpa [holds] using hg
      cases m' with
      | exclusive =>
        have hsub : gs ⊆ {f} := by simpa [can, canEx] using hcan
        exact absurd (Finset.mem_singleton.mp (hsub hmem)) hne
      | shared => simp [grant, share, holds, hmem]

theorem holds_release {g : F} {m : Mode} {l : Flock F} {gone : F → Bool} (hg : gone g = false)
    (h : l.holds g m = true) : (l.release gone).holds g m = true := by
  cases l with
  | excl g' =>
    cases m with
    | exclusive =>
      have hg' : g' = g := by simpa [holds] using h
      subst hg'
      rw [release_excl hg]
      exact h
    | shared => cases h
  | shared gs =>
    cases m with
    | exclusive => cases h
    | shared =>
      have hmem : g ∈ gs := by simpa [holds] using h
      simp [release, holds, hmem, hg]

end Flock

end Conc
