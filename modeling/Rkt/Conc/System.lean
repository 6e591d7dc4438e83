import Rkt.Conc.Prog
import Mathlib.Logic.Relation

set_option autoImplicit false

namespace Conc

open Relation

abbrev Pid := Nat

/-- How the world answers the operations of `S`, and what the death of a process does. -/
structure Machine (S : Sig) (σ : Type) where
  next : Pid → (o : S.Op) → S.Res o → σ → Option σ
  die : Pid → σ → σ

/-- The shared state, and what each process has still to run. -/
structure Config (S : Sig) (σ : Type) where
  shared : σ
  procs : Pid → Prog S Unit

variable {S : Sig} {σ : Type}

/-- Process `p` has `x` left to run, over the state `s`. -/
def Config.set (c : Config S σ) (p : Pid) (s : σ) (x : Prog S Unit) : Config S σ :=
  ⟨s, Function.update c.procs p x⟩

@[simp] theorem Config.set_shared (c : Config S σ) (p : Pid) (s : σ) (x : Prog S Unit) :
    (c.set p s x).shared = s := rfl

@[simp] theorem Config.set_procs_self (c : Config S σ) (p : Pid) (s : σ) (x : Prog S Unit) :
    (c.set p s x).procs p = x := by simp [Config.set]

theorem Config.set_procs_ne (c : Config S σ) {p q : Pid} (s : σ) (x : Prog S Unit)
    (h : q ≠ p) : (c.set p s x).procs q = c.procs q := by simp [Config.set, h]

/-- One step of a system: an operation of a process, or the death of one. -/
inductive Step (M : Machine S σ) (c : Config S σ) : Config S σ → Prop where
  | run (p : Pid) (o : S.Op) (k : S.Res o → Prog S Unit) (r : S.Res o) (s' : σ)
      (hp : c.procs p = .op o k) (hn : M.next p o r c.shared = some s') :
      Step M c (c.set p s' (k r))
  | die (p : Pid) : Step M c (c.set p (M.die p c.shared) (.ret ()))

inductive StepOf (M : Machine S σ) (p : Pid) (c : Config S σ) : Config S σ → Prop where
  | run (o : S.Op) (k : S.Res o → Prog S Unit) (r : S.Res o) (s' : σ)
      (hp : c.procs p = .op o k) (hn : M.next p o r c.shared = some s') :
      StepOf M p c (c.set p s' (k r))
  | die : StepOf M p c (c.set p (M.die p c.shared) (.ret ()))

variable {c c' : Config S σ}

theorem StepOf.step {M : Machine S σ} {p : Pid} (h : StepOf M p c c') : Step M c c' := by
  cases h with
  | run o k r s' hp hn => exact .run p o k r s' hp hn
  | die => exact .die p

theorem StepOf.procs_ne {M : Machine S σ} {p q : Pid} (h : StepOf M q c c')
    (hq : p ≠ q) : c'.procs p = c.procs p := by
  cases h with
  | run o k r s' hp hn => exact c.set_procs_ne _ _ hq
  | die => exact c.set_procs_ne _ _ hq

/-- `c'` is reached from `c` by some interleaving of the processes, any of which may have
died on the way. -/
abbrev Reach (M : Machine S σ) : Config S σ → Config S σ → Prop := ReflTransGen (Step M)

theorem Reach.invariant {M : Machine S σ} {I : Config S σ → Prop}
    (hstep : ∀ c c', I c → Step M c c' → I c') (h : Reach M c c') (hc : I c) : I c' := by
  induction h with
  | refl => exact hc
  | tail _ hs ih => exact hstep _ _ ih hs

/-- The machine whose operations all meet `ok`. -/
def Machine.restrict (M : Machine S σ) (ok : Pid → (o : S.Op) → S.Res o → σ → Prop)
    [∀ p o r s, Decidable (ok p o r s)] : Machine S σ where
  next p o r s := if ok p o r s then M.next p o r s else none
  die := M.die

structure Machine.Sub (M M' : Machine S σ) : Prop where
  next : ∀ {p o r s s'}, M.next p o r s = some s' → M'.next p o r s = some s'
  die : M.die = M'.die

theorem Machine.Sub.refl (M : Machine S σ) : M.Sub M := ⟨id, rfl⟩

section restrict

variable {M : Machine S σ} {ok : Pid → (o : S.Op) → S.Res o → σ → Prop}
  [∀ p o r s, Decidable (ok p o r s)]

theorem Machine.restrict_next {p : Pid} {o : S.Op} {r : S.Res o} {s s' : σ}
    (h : (M.restrict ok).next p o r s = some s') : ok p o r s ∧ M.next p o r s = some s' := by
  simp only [Machine.restrict] at h
  split at h
  · exact ⟨‹_›, h⟩
  · cases h

theorem Machine.restrict_sub : (M.restrict ok).Sub M :=
  ⟨fun h => (Machine.restrict_next h).2, rfl⟩

end restrict

/-- A move of a schedule: which process acts, what it does, what it is answered. -/
inductive Move (S : Sig) where
  | run (p : Pid) (o : S.Op) (r : S.Res o)
  | die (p : Pid)

def Move.pid : Move S → Pid
  | .run p _ _ | .die p => p

def move [DecidableEq S.Op] (M : Machine S σ) (c : Config S σ) :
    Move S → Option (Config S σ)
  | .die p => some (c.set p (M.die p c.shared) (.ret ()))
  | .run p o r =>
    match c.procs p with
    | .ret _ => none
    | .op o' k =>
      if h : o = o' then
        (M.next p o r c.shared).map (fun s' => c.set p s' (k (h ▸ r)))
      else none

def play [DecidableEq S.Op] (M : Machine S σ) (c : Config S σ) :
    List (Move S) → Option (Config S σ)
  | [] => some c
  | m :: ms => (move M c m).bind (fun c' => play M c' ms)

theorem move_stepOf [DecidableEq S.Op] {M : Machine S σ} {m : Move S}
    (h : move M c m = some c') : StepOf M m.pid c c' := by
  cases m with
  | die p =>
    cases h
    exact .die
  | run p o r =>
    simp only [move] at h
    cases hp : c.procs p with
    | ret a => rw [hp] at h; cases h
    | op o' k =>
      rw [hp] at h
      simp only at h
      split at h
      · rename_i ho
        subst ho
        obtain ⟨s', hn, rfl⟩ := Option.map_eq_some_iff.mp h
        exact .run o k r s' hp hn
      · cases h

theorem move_step [DecidableEq S.Op] {M : Machine S σ} {m : Move S}
    (h : move M c m = some c') : Step M c c' := (move_stepOf h).step

theorem play_reach [DecidableEq S.Op] {M : Machine S σ} :
    ∀ {ms : List (Move S)} {c c' : Config S σ}, play M c ms = some c' → Reach M c c'
  | [], c, c', h => by cases h; exact .refl
  | m :: ms, c, c', h => by
    obtain ⟨c₁, h1, h2⟩ := Option.bind_eq_some_iff.mp h
    exact .head (move_step h1) (play_reach h2)

/-- Replay a schedule, make one more move, and observe the step. -/
def observe [DecidableEq S.Op] (M : Machine S σ) (c : Config S σ) (ms : List (Move S))
    (m : Move S) (f : Config S σ → Config S σ → Bool) : Bool :=
  ((play M c ms).bind fun c₁ => (move M c₁ m).map (f c₁)) = some true

theorem observe_step [DecidableEq S.Op] {M : Machine S σ} {c : Config S σ}
    (ms : List (Move S)) (m : Move S) (f : Config S σ → Config S σ → Bool)
    (h : observe M c ms m f = true) : ∃ c₁ c2, Reach M c c₁ ∧ Step M c₁ c2 ∧ f c₁ c2 = true := by
  obtain ⟨c₁, h1, h2⟩ := Option.bind_eq_some_iff.mp (of_decide_eq_true h)
  obtain ⟨c2, h3, h4⟩ := Option.map_eq_some_iff.mp h2
  exact ⟨c₁, c2, play_reach h1, move_step h3, h4⟩

/-- An item of a schedule: some operations of a process, or its death. -/
inductive Item where
  | run (p : Pid) (n : Nat)
  | die (p : Pid)

/-- One operation of `p`, answered by the oracle; nothing if `p` has come to an end. -/
def turn (M : Machine S σ) (oracle : Pid → (o : S.Op) → σ → Option (S.Res o)) (p : Pid)
    (c : Config S σ) : Option (Config S σ) :=
  match c.procs p with
  | .ret _ => some c
  | .op o k =>
    (oracle p o c.shared).bind fun r =>
      (M.next p o r c.shared).map fun s' => c.set p s' (k r)

def turns (M : Machine S σ) (oracle : Pid → (o : S.Op) → σ → Option (S.Res o)) (p : Pid) :
    Nat → Config S σ → Option (Config S σ)
  | 0, c => some c
  | n + 1, c => (turn M oracle p c).bind (turns M oracle p n)

def follow (M : Machine S σ) (oracle : Pid → (o : S.Op) → σ → Option (S.Res o)) :
    List Item → Config S σ → Option (Config S σ)
  | [], c => some c
  | .run p n :: is, c => (turns M oracle p n c).bind (follow M oracle is)
  | .die p :: is, c => follow M oracle is (c.set p (M.die p c.shared) (.ret ()))

/-- The moves that a schedule stands for, if it is answered by the oracle; one operation for each
item. They come to an end with the first one that is not possible. -/
def moves (M : Machine S σ) (oracle : Pid → (o : S.Op) → σ → Option (S.Res o)) :
    List Pid → Config S σ → List (Move S)
  | [], _ => []
  | p :: ps, c =>
    match c.procs p with
    | .ret _ => moves M oracle ps c
    | .op o k =>
      match oracle p o c.shared with
      | none => []
      | some r =>
        match M.next p o r c.shared with
        | none => []
        | some s' => .run p o r :: moves M oracle ps (c.set p s' (k r))

section oracle

variable {M : Machine S σ} {oracle : Pid → (o : S.Op) → σ → Option (S.Res o)} {p : Pid}

variable {c c' : Config S σ}

theorem turn_reach (h : turn M oracle p c = some c') : Reach M c c' := by
  unfold turn at h
  split at h
  · cases h
    exact .refl
  · rename_i o k hp
    obtain ⟨r, -, h⟩ := Option.bind_eq_some_iff.mp h
    obtain ⟨s', hn, rfl⟩ := Option.map_eq_some_iff.mp h
    exact .single (.run p o k r s' hp hn)

theorem turns_reach {n : Nat} (h : turns M oracle p n c = some c') : Reach M c c' := by
  induction n generalizing c with
  | zero =>
    cases h
    exact .refl
  | succ n ih =>
    obtain ⟨c₁, h1, h2⟩ := Option.bind_eq_some_iff.mp h
    exact (turn_reach h1).trans (ih h2)

theorem follow_reach {is : List Item} (h : follow M oracle is c = some c') : Reach M c c' := by
  induction is generalizing c with
  | nil =>
    cases h
    exact .refl
  | cons i is ih =>
    cases i with
    | run p n =>
      obtain ⟨c₁, h1, h2⟩ := Option.bind_eq_some_iff.mp h
      exact (turns_reach h1).trans (ih h2)
    | die p => exact .head (.die p) (ih h)

/-- Something that can be seen at the end of a schedule can be reached. -/
theorem follow_exists (oracle : Pid → (o : S.Op) → σ → Option (S.Res o)) (is : List Item)
    {c : Config S σ} (f : Config S σ → Bool) (h : (follow M oracle is c).any f = true) :
    ∃ c', Reach M c c' ∧ f c' = true := by
  obtain ⟨hsome, hf⟩ := (Option.any_eq_true_iff_get f _).mp h
  exact ⟨_, follow_reach (Option.some_get hsome).symm, hf⟩

end oracle

end Conc
