import Rkt.Pods.Deletion
import Rkt.Pods.Sweep

set_option autoImplicit false

namespace Rkt.Pods

open Conc Prog

noncomputable def PodView.afterRm (l : Flock Fd) (v : PodView) : PodView :=
  open Classical in
  if l ≠ .free then v
  else if .prepare ∈ v.dirs ∨ .prepared ∈ v.dirs then .gone
  else if .run ∈ v.dirs then afterDelete v.files
  else v

section onePod

variable {t : Nat} {p : Pid} {fd : Fd} {d : Dir} {fs : Finset PodFile} {α : Type}
  {L : UUID → Flock Fd} {V : UUID → PodView} {A : World → Prop}

/-- `p` has not panicked. -/
def World.CalmFor (s : World) (p : Pid) : Prop := p ∉ s.panicked

theorem Alone.calm {x : Prog podSig α} {Q : α → World → Prop} (hx : Calm x)
    (h : Alone t p A x Q) : Alone t p (fun s => A s ∧ s.CalmFor p) x
      (fun a s => Q a s ∧ s.CalmFor p) :=
  h.frame (fun _ _ he => he.elim)
    (fun _ _ _ _ ho hn hp => next_panicked (Machine.restrict_next hn).2 (fun _ => ho) hp) hx

theorem afterDelete_cases (fs : Finset PodFile) :
    afterDelete fs = .gone ∨ afterDelete fs = .only .exitedGarbage fs := by
  unfold afterDelete
  split_ifs <;> simp

theorem afterRm_cases (l : Flock Fd) (v : PodView) :
    v.afterRm l = v ∨ v.afterRm l = .gone ∨ v.afterRm l = .only .exitedGarbage v.files := by
  unfold PodView.afterRm
  split_ifs
  · exact .inl rfl
  · exact .inr (.inl rfl)
  · exact .inr (afterDelete_cases v.files)
  · exact .inl rfl

end onePod

section loop

variable {t : Nat} {p : Pid} {u : UUID} {L : UUID → Flock Fd} {V : UUID → PodView}

/-- Pod `u` is gone or where an argument is looked for, and its lock says what it should say. -/
structure Named (p : Pid) (l : Flock Fd) (v : PodView) : Prop where
  place : v = .gone ∨ ∃ d fs, v = .only d fs ∧ matchedDirs d = true
  lock : Foreign p l
  prepared : .prepared ∈ v.dirs → l = .free

theorem Named.afterRm {l : Flock Fd} {v : PodView} (h : Named p l v) :
    Named p l (v.afterRm l) := by
  rcases afterRm_cases l v with hv | hv | hv
  · rw [hv]
    exact h
  · rw [hv]
    exact ⟨.inl rfl, h.lock, fun hin => hin.elim⟩
  · rw [hv]
    exact ⟨.inr ⟨.exitedGarbage, _, rfl, rfl⟩, h.lock, fun hin => by cases hin⟩

end loop

def World.Matches (s : World) (arg : List Char) (u : UUID) : Prop :=
  (∃ d, matchedDirs d = true ∧ u ∈ s.dirs d) ∧
    (arg.map Char.toLower).isPrefixOf (UUID.text u) = true

def World.Names (s : World) (arg : List Char) (u : UUID) : Prop :=
  s.Matches arg u ∧ ∀ v, s.Matches arg v → v = u

inductive Resolution (s : World) : List (List Char) → List UUID → Prop where
  | nil : Resolution s [] []
  | drop {arg : List Char} {args : List (List Char)} {us : List UUID}
      (harg : ∀ u, ¬ s.Names arg u) (h : Resolution s args us) : Resolution s (arg :: args) us
  | keep {arg : List Char} {args : List (List Char)} {us : List UUID} {u : UUID}
      (harg : s.Names arg u) (h : Resolution s args us) : Resolution s (arg :: args) (u :: us)

section arguments

variable {t : Nat} {p : Pid} {L : UUID → Flock Fd} {s : World} {args : List (List Char)}
  {us : List UUID}

theorem Resolution.mem_iff (h : Resolution s args us) (u : UUID) :
    u ∈ us ↔ ∃ arg ∈ args, s.Names arg u := by
  induction h with
  | nil => simp
  | drop harg _ ih => simp [ih, harg]
  | @keep arg args us v harg _ ih =>
    have hhead : s.Names arg u ↔ u = v :=
      ⟨fun hu => harg.2 u hu.1, fun hu => hu ▸ harg⟩
    simp [ih, hhead]

end arguments

/-- No other process runs rkt: every pod is in one place, and a lock is free or held by the
process behind a pod, which does not happen in `prepared`. -/
structure Undisturbed (p : Pid) (s : World) : Prop where
  alive : p ∉ s.dead
  calm : p ∉ s.panicked
  single : ∀ u, (s.view u).Single
  lock : ∀ u, Foreign p (s.lock u)
  prepared : ∀ u ∈ s.dirs .prepared, s.lock u = .free

section rm

variable {t : Nat} {p : Pid} {s : World} {args : List (List Char)}

theorem Undisturbed.named (h : Undisturbed p s) {u : UUID} {arg : List Char}
    (hu : s.Names arg u) : Named p (s.lock u) (s.view u) := by
  obtain ⟨⟨⟨d, hd, hin⟩, -⟩, -⟩ := hu
  exact ⟨.inr ⟨d, _, h.single u d hin, hd⟩, h.lock u, h.prepared u⟩

end rm

end Rkt.Pods
