import Mathlib.Data.List.Infix
import Mathlib.Logic.Function.Basic
import Mathlib.Tactic

set_option autoImplicit false

namespace Fs

variable {ν κ : Type} {isDir : κ → Bool}

structure Tree (ν : Type) {κ : Type} (isDir : κ → Bool) where
  node : List ν → Option κ
  closed : ∀ n p, node (n :: p) ≠ none → (node p).any isDir = true

namespace Tree

@[ext] theorem ext {t t' : Tree ν isDir} (h : ∀ p, t.node p = t'.node p) : t = t' := by
  have hnode : t.node = t'.node := funext h
  cases t
  cases t'
  cases hnode
  rfl

def empty : Tree ν isDir := ⟨fun _ => none, fun _ _ h => absurd rfl h⟩

instance : Inhabited (Tree ν isDir) := ⟨empty⟩

@[simp] theorem empty_node (p : List ν) : (empty : Tree ν isDir).node p = none := rfl

def present (t : Tree ν isDir) : Bool := (t.node []).isSome

variable {t : Tree ν isDir}

theorem eq_empty_of_root (h : t.node [] = none) : t = empty := by
  ext1 p
  induction p with
  | nil => exact h
  | cons n p ih =>
    -- nothing is below what is not there
    by_contra hne
    have hdir := t.closed n p hne
    rw [ih] at hdir
    cases hdir

theorem present_eq_false : t.present = false ↔ t = empty := by
  constructor
  · intro h
    exact eq_empty_of_root (by simpa [present] using h)
  · rintro rfl
    rfl

theorem ne_empty_iff : t ≠ empty ↔ t.present = true := by
  rw [ne_eq, ← present_eq_false, Bool.not_eq_false]

def parentOk (t : Tree ν isDir) : List ν → Bool
  | [] => true
  | _ :: p => (t.node p).any isDir

theorem node_cons_of_none {n : ν} {p : List ν} (h : t.node p = none) : t.node (n :: p) = none := by
  by_contra hne
  have hdir := t.closed n p hne
  rw [h] at hdir
  cases hdir

theorem node_of_notDir {p q : List ν} (h : (t.node q).any isDir = false)
    (hsuffix : q <:+ p) (hne : p ≠ q) : t.node p = none := by
  obtain ⟨l, rfl⟩ := hsuffix
  induction l with
  | nil => exact absurd rfl hne
  | cons n l ih =>
    by_contra hnode
    have hdir := t.closed n (l ++ q) hnode
    cases l with
    | nil =>
      rw [List.nil_append, h] at hdir
      cases hdir
    | cons m l =>
      have hlonger : m :: l ++ q ≠ q := fun heq => by
        have hlength := congrArg List.length heq
        simp only [List.cons_append, List.length_cons, List.length_append] at hlength
        omega
      rw [ih hlonger] at hdir
      cases hdir

section edit

variable [DecidableEq ν]

def make (t : Tree ν isDir) (p : List ν) (i : κ) (h : t.node p = none ∧ t.parentOk p = true) :
    Tree ν isDir where
  node := Function.update t.node p (some i)
  closed n q hne := by
    by_cases hq : q = p
    · -- there was nothing below the new node
      subst hq
      rw [Function.update_of_ne (List.cons_ne_self n q), node_cons_of_none h.1] at hne
      exact absurd rfl hne
    · rw [Function.update_of_ne hq]
      by_cases hp : n :: q = p
      · subst hp
        exact h.2
      · rw [Function.update_of_ne hp] at hne
        exact t.closed n q hne

def modify (t : Tree ν isDir) (p : List ν) (f : κ → κ) (hf : ∀ i, isDir (f i) = isDir i) :
    Tree ν isDir where
  node := Function.update t.node p ((t.node p).map f)
  closed n q hne := by
    have hold : t.node (n :: q) ≠ none := by
      by_cases hp : n :: q = p
      · subst hp
        rw [Function.update_self] at hne
        intro hnone
        rw [hnone] at hne
        exact hne rfl
      · rwa [Function.update_of_ne hp] at hne
    have hdir := t.closed n q hold
    by_cases hq : q = p
    · subst hq
      rw [Function.update_self]
      cases hnode : t.node q with
      | none =>
        rw [hnode] at hdir
        cases hdir
      | some i =>
        rw [hnode] at hdir
        exact (hf i).trans hdir
    · rwa [Function.update_of_ne hq]

/-- Take away some nodes, with all that is below them. -/
def prune (t : Tree ν isDir) (gone : List (List ν)) : Tree ν isDir where
  node p := if gone.any (·.isSuffixOf p) then none else t.node p
  closed n p hne := by
    obtain ⟨hkept, hnode⟩ : gone.any (·.isSuffixOf (n :: p)) ≠ true ∧ t.node (n :: p) ≠ none := by
      split at hne
      · exact absurd rfl hne
      · exact ⟨‹_›, hne⟩
    have hkept' : gone.any (·.isSuffixOf p) ≠ true := by
      simp only [ne_eq, List.any_eq_true, List.isSuffixOf_iff_suffix] at hkept ⊢
      rintro ⟨q, hq, hsuffix⟩
      exact hkept ⟨q, hq, hsuffix.trans (List.suffix_cons n p)⟩
    rw [if_neg hkept']
    exact t.closed n p hnode

theorem make_node (t : Tree ν isDir) (p q : List ν) (i : κ)
    (h : t.node p = none ∧ t.parentOk p = true) :
    (t.make p i h).node q = if q = p then some i else t.node q := by
  simp [make, Function.update_apply]

theorem modify_node (t : Tree ν isDir) (p q : List ν) (f : κ → κ)
    (hf : ∀ i, isDir (f i) = isDir i) :
    (t.modify p f hf).node q = if q = p then (t.node q).map f else t.node q := by
  by_cases hq : q = p
  · subst hq
    simp [modify]
  · simp [modify, hq]

/-- The same change for all nodes. -/
def map (t : Tree ν isDir) (f : κ → κ) (hf : ∀ i, isDir (f i) = isDir i) : Tree ν isDir where
  node p := (t.node p).map f
  closed n p hne := by
    have hdir := t.closed n p fun hnone => hne (by rw [hnone]; rfl)
    obtain ⟨i, hi, hisDir⟩ := (Option.any_eq_true _ _).mp hdir
    rw [hi]
    exact (hf i).trans hisDir

theorem prune_node (t : Tree ν isDir) (q p : List ν) :
    (t.prune [q]).node p = if q <:+ p then none else t.node p := by
  simp [prune, List.isSuffixOf_iff_suffix]

@[simp] theorem prune_empty (gone : List (List ν)) : (empty : Tree ν isDir).prune gone = empty := by
  ext1 p
  simp [prune]

end edit

end Tree

end Fs
