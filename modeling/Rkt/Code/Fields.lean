import Mathlib.Data.List.Basic
import Mathlib.Data.List.TakeWhile
import Mathlib.Tactic

set_option autoImplicit false

namespace Code

variable {α : Type} [DecidableEq α] {x : α}

theorem splitOn_cons_self (xs : List α) : (x :: xs).splitOn x = [] :: xs.splitOn x := by
  simp [List.splitOn, List.splitOnP_cons_eq_if_modifyHead]

theorem splitOn_cons_ne {a : α} (ha : a ≠ x) (xs : List α) :
    (a :: xs).splitOn x = (xs.splitOn x).modifyHead (a :: ·) := by
  simp [List.splitOn, List.splitOnP_cons_eq_if_modifyHead, ha]

theorem notMem_of_mem_splitOn {xs l : List α} (h : l ∈ xs.splitOn x) : x ∉ l := by
  induction xs generalizing l with
  | nil =>
    have hl : l = [] := by simpa [List.splitOn] using h
    simp [hl]
  | cons a xs ih =>
    by_cases ha : a = x
    · subst ha
      rw [splitOn_cons_self, List.mem_cons] at h
      rcases h with rfl | h
      · simp
      · exact ih h
    · rw [splitOn_cons_ne ha] at h
      cases hs : xs.splitOn x with
      | nil =>
        rw [hs] at h
        cases h
      | cons w ws =>
        rw [hs, List.modifyHead_cons, List.mem_cons] at h
        rcases h with rfl | h
        · rw [List.mem_cons, not_or]
          exact ⟨Ne.symm ha, ih (by rw [hs]; exact List.mem_cons_self)⟩
        · exact ih (by rw [hs]; exact List.mem_cons_of_mem _ h)

/-- At most `n` fields; the last one is all that is left. -/
def splitN (x : α) : Nat → List α → List (List α)
  | 0, _ => []
  | 1, xs => [xs]
  | n + 2, xs =>
    match xs.dropWhile (· ≠ x) with
    | [] => [xs]
    | _ :: rest => xs.takeWhile (· ≠ x) :: splitN x (n + 1) rest

theorem splitN_append {w : List α} (h : x ∉ w) (n : Nat) (rest : List α) :
    splitN x (n + 2) (w ++ x :: rest) = w :: splitN x (n + 1) rest := by
  have hw : ∀ a ∈ w, decide (a ≠ x) = true := fun a ha => decide_eq_true fun hax => h (hax ▸ ha)
  rw [splitN, List.dropWhile_append_of_pos hw, List.takeWhile_append_of_pos hw]
  simp

theorem splitN_of_notMem {w : List α} (h : x ∉ w) (n : Nat) : splitN x (n + 2) w = [w] := by
  have hw : w.dropWhile (· ≠ x) = [] :=
    List.dropWhile_eq_nil_iff.mpr fun a ha => decide_eq_true fun hax => h (hax ▸ ha)
  rw [splitN, hw]

end Code
