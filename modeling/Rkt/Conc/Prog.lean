import Mathlib.Tactic

set_option autoImplicit false

namespace Conc

/-- A signature of atomic operations, with the type of the answers to each of them. -/
structure Sig where
  Op : Type
  Res : Op → Type

/-- A program over the signature `S` with result type `α`. -/
inductive Prog (S : Sig) (α : Type) : Type where
  | ret (a : α)
  | op (o : S.Op) (k : S.Res o → Prog S α)

namespace Prog

variable {S : Sig} {α β : Type}

/-- Run `x`, then continue with its result. -/
def bind : Prog S α → (α → Prog S β) → Prog S β
  | ret a, f => f a
  | op o k, f => op o (fun r => (k r).bind f)

instance : Monad (Prog S) where
  pure := ret
  bind := bind

/-- One operation; its answer is the result. -/
def call (o : S.Op) : Prog S (S.Res o) := op o ret

section fallible

variable {ε ε' : Type}

/-- Go's `if err != nil { return err }` after a call: the rest of the program is not run. -/
def andThen (x : Prog S (Except ε α)) (f : α → Prog S (Except ε β)) : Prog S (Except ε β) := do
  match ← x with
  | .error e => return .error e
  | .ok a => f a

/-- Go on after a success, stop with `e` after a failure. -/
def check (x : Prog S Bool) (e : ε) (k : Prog S (Except ε α)) : Prog S (Except ε α) := do
  if ← x then k else return .error e

def must (x : Prog S Bool) (e : ε) : Prog S (Except ε Unit) := check x e (return .ok ())

def wrapError (wrap : ε → ε') (x : Prog S (Except ε α)) : Prog S (Except ε' α) := do
  return (← x).mapError wrap

end fallible

/-- The result of a program that is done. -/
def result : Prog S α → Option α
  | ret a => some a
  | op _ _ => none

theorem result_eq {x : Prog S α} {a : α} (h : x.result = some a) : x = ret a := by
  cases x with
  | ret a' =>
    cases h
    rfl
  | op o k => cases h

/-- Every operation that the program can perform, whatever the answers, is in `ok`. -/
def All (ok : S.Op → Prop) : Prog S α → Prop
  | ret _ => True
  | op o k => ok o ∧ ∀ r, (k r).All ok

section All

variable {ok : S.Op → Prop}

theorem all_call {o : S.Op} (ho : ok o) : (call o).All ok := ⟨ho, fun _ => trivial⟩

theorem All.bind {x : Prog S α} {f : α → Prog S β} (hx : x.All ok) (hf : ∀ a, (f a).All ok) :
    (x >>= f).All ok := by
  induction x with
  | ret a => exact hf a
  | op o k ih => exact ⟨hx.1, fun r => ih r (hx.2 r)⟩

theorem All.ite {c : Prop} [Decidable c] {x y : Prog S α} (hx : c → x.All ok)
    (hy : ¬ c → y.All ok) : (if c then x else y).All ok := by
  split
  · exact hx ‹_›
  · exact hy ‹_›

/-- A fallible program, and what is done with its result and with its error. -/
theorem All.attempt {ε : Type} {x : Prog S (Except ε α)} {f : Except ε α → Prog S β}
    (hx : x.All ok) (hok : ∀ a, (f (.ok a)).All ok) (herr : ∀ e, (f (.error e)).All ok) :
    (x >>= f).All ok := by
  refine hx.bind fun r => ?_
  cases r with
  | ok a => exact hok a
  | error e => exact herr e

theorem All.mono {ok' : S.Op → Prop} {x : Prog S α} (hx : x.All ok) (h : ∀ o, ok o → ok' o) :
    x.All ok' := by
  induction x with
  | ret a => trivial
  | op o k ih => exact ⟨h o hx.1, fun r => ih r (hx.2 r)⟩

theorem all_of_forall (h : ∀ o, ok o) (x : Prog S α) : x.All ok := by
  induction x with
  | ret a => trivial
  | op o k ih => exact ⟨h o, ih⟩

end All

variable {σ : Type}

/-- Alone, and with operations that act as `step` says, the program can take `s` to `s'` with
result `a`. -/
def Runs (step : (o : S.Op) → S.Res o → σ → Option σ) : Prog S α → σ → α → σ → Prop
  | ret a, s, a', s' => a' = a ∧ s' = s
  | op o k, s, a', s' => ∃ r s₁, step o r s = some s₁ ∧ Runs step (k r) s₁ a' s'

variable {step : (o : S.Op) → S.Res o → σ → Option σ}

theorem runs_bind {x : Prog S α} {f : α → Prog S β} {s s' : σ} {b : β} :
    Runs step (x >>= f) s b s' ↔ ∃ a s₁, Runs step x s a s₁ ∧ Runs step (f a) s₁ b s' := by
  induction x generalizing s with
  | ret a =>
    constructor
    · exact fun h => ⟨a, s, ⟨rfl, rfl⟩, h⟩
    · rintro ⟨a', s₁, ⟨rfl, rfl⟩, h⟩
      exact h
  | op o k ih =>
    constructor
    · rintro ⟨r, s₁, hs, h⟩
      obtain ⟨a, s2, h1, h2⟩ := (ih r).mp h
      exact ⟨a, s2, ⟨r, s₁, hs, h1⟩, h2⟩
    · rintro ⟨a, s2, ⟨r, s₁, hs, h1⟩, h2⟩
      exact ⟨r, s₁, hs, (ih r).mpr ⟨a, s2, h1, h2⟩⟩

theorem runs_call {o : S.Op} {s s' : σ} {r : S.Res o} :
    Runs step (call o) s r s' ↔ step o r s = some s' := by
  constructor
  · rintro ⟨r', s₁, hs, rfl, rfl⟩
    exact hs
  · exact fun h => ⟨r, s', h, rfl, rfl⟩

/-- What a program does alone it also does where more is possible. -/
theorem Runs.mono {step' : (o : S.Op) → S.Res o → σ → Option σ}
    (hstep : ∀ o r s s', step o r s = some s' → step' o r s = some s') {x : Prog S α} {s s' : σ}
    {a : α} (h : Runs step x s a s') : Runs step' x s a s' := by
  induction x generalizing s with
  | ret a => exact h
  | op o k ih =>
    obtain ⟨r, s₁, hs, h⟩ := h
    exact ⟨r, s₁, hstep o r s s₁ hs, ih r h⟩

end Prog

end Conc
