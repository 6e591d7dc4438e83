import Rkt.Conc.Interference
import Rkt.Pods.Protocol

set_option autoImplicit false

namespace Rkt.Pods

open Conc

inductive Forward : Dir → Dir → Prop where
  | preparing : Forward .embryo .prepare
  | prepared : Forward .prepare .prepared
  | run : Forward .prepared .run
  | exited : Forward .run .exitedGarbage
  | runDirectly : Forward .prepare .run
  | aborted : Forward .prepare .garbage
  | expired : Forward .prepared .garbage

/-- The directories are probed in an order in which every transition goes forward. -/
theorem Forward.rank_lt {d d' : Dir} (h : Forward d d') : d.rank < d'.rank := by
  cases h <;> decide

def World.At (s : World) (u : UUID) (d : Dir) : Prop :=
  u ∈ s.dirs d ∧ ∀ d', u ∈ s.dirs d' → d' = d

/-- A step of the other processes, as far as pod `u` and the reader `p` are concerned. -/
structure Moves (p : Pid) (u : UUID) (s s' : World) : Prop where
  alive : p ∉ s.dead → p ∉ s'.dead
  place : ∀ d, s.At u d → s'.At u d ∨ ∃ d', Forward d d' ∧ s'.At u d'

/-- The answer to an operation of a reader is not an I/O error. The six directories exist, so
that reading one of them fails only with an I/O error; a probe may find no pod, and the lock
test may find the pod locked. -/
def Op.calm : (o : Op) → o.Res → Bool
  | .initPods, r | .unlock _, r => match r with | .ok _ => true | .error _ => false
  | .readDir _, r => match r with | .ok _ => true | .error _ => false
  | .newLock _ _, r => match r with | .ok _ | .error .noent => true | .error _ => false
  | .openFile _ _, r => match r with | .ok _ | .error .noent => true | .error _ => false
  | .trySharedLock _, r => match r with | .ok _ | .error .wouldblock => true | .error _ => false
  | _, _ => true

/-- The reader `p` is alive and pod `u` is in one place, which is the `i`-th in the order of
probing or a later one. -/
def Ahead (p : Pid) (u : UUID) (i : Nat) (s : World) : Prop :=
  p ∉ s.dead ∧ ∃ d, s.At u d ∧ i ≤ d.rank

variable {p : Pid} {u : UUID} {i : Nat} {s s' : World} {o : Op}

theorem Ahead.moves (h : Ahead p u i s) (hm : Moves p u s s') : Ahead p u i s' := by
  obtain ⟨hp, d, hd, hi⟩ := h
  refine ⟨hm.alive hp, ?_⟩
  rcases hm.place d hd with hd' | ⟨d', hf, hd'⟩
  · exact ⟨d, hd', hi⟩
  · have hlt := hf.rank_lt
    exact ⟨d', hd', by omega⟩

theorem Ahead.mono {j : Nat} (h : Ahead p u i s) (hj : j ≤ i) : Ahead p u j s := by
  obtain ⟨hp, d, hd, hi⟩ := h
  exact ⟨hp, d, hd, by omega⟩

theorem Ahead.of_eq (h : Ahead p u i s) (hdirs : s'.dirs = s.dirs) (hdead : s'.dead = s.dead) :
    Ahead p u i s' := by
  simpa only [Ahead, World.At, hdirs, hdead] using h

theorem Ahead.next {d : Dir} (h : Ahead p u d.rank s) (hd : u ∉ s.dirs d) :
    Ahead p u (d.rank + 1) s := by
  obtain ⟨hp, d', hd', hi⟩ := h
  refine ⟨hp, d', hd', Nat.lt_of_le_of_ne hi fun he => hd ?_⟩
  have : d = d' := by
    cases d <;> cases d' <;> first | rfl | (simp [Dir.rank] at he)
  rw [this]
  exact hd'.1

/-- The operations of `getPod`, `listPods` and `walkPods`. -/
def Op.looks : Op → Bool
  | .initPods | .newLock _ _ | .trySharedLock _ | .unlock _ | .close _ | .readDir _
  | .openFile _ _ => true
  | _ => false

def calls (u : UUID) (log : List Pod) : Nat := log.countP (fun x => x.uuid = u)

section walk

variable {visit : Pod → Prog podSig Unit}

end walk

end Rkt.Pods
