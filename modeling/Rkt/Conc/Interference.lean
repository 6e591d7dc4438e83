import Rkt.Conc.System

set_option autoImplicit false

namespace Conc

open Relation

variable {S : Sig} {σ : Type} {α β : Type}

/-- One step of the environment, or one operation of process `p`. -/
inductive Turn (M : Machine S σ) (E : σ → σ → Prop) (p : Pid) :
    σ × Prog S α → σ × Prog S α → Prop where
  | env {s s' : σ} {x : Prog S α} (h : E s s') : Turn M E p (s, x) (s', x)
  | op {s s' : σ} {o : S.Op} {k : S.Res o → Prog S α} {r : S.Res o}
      (h : M.next p o r s = some s') : Turn M E p (s, .op o k) (s', k r)

theorem Turn.sub {M M' : Machine S σ} {E : σ → σ → Prop} {p : Pid} {c c' : σ × Prog S α}
    (hM : M.Sub M') (h : Turn M E p c c') : Turn M' E p c c' := by
  cases h with
  | env h => exact .env h
  | op h => exact .op (hM.next h)

/-- Process `p` can perform the next operation of the program. -/
def Runnable (M : Machine S σ) (p : Pid) (s : σ) : Prog S α → Prop
  | .ret _ => False
  | .op o _ => ∃ r s', M.next p o r s = some s'

/-- From `s` the program is never stuck, and its result satisfies `Q`. -/
def Ensures (M : Machine S σ) (E : σ → σ → Prop) (p : Pid) :
    Prog S α → (α → σ → Prop) → σ → Prop
  | .ret a, Q, s => Q a s
  | .op o k, Q, s => ∀ s₁, ReflTransGen E s s₁ → (∃ r s', M.next p o r s₁ = some s') ∧
      ∀ r s', M.next p o r s₁ = some s' → Ensures M E p (k r) Q s'

/-- From every state with `A` the program is never stuck, and its result satisfies `Q`. -/
def Total (M : Machine S σ) (E : σ → σ → Prop) (p : Pid) (A : σ → Prop) (x : Prog S α)
    (Q : α → σ → Prop) : Prop :=
  ∀ s, A s → Ensures M E p x Q s

variable {M : Machine S σ} {E : σ → σ → Prop} {p : Pid} {A A' : σ → Prop}
  {x : Prog S α} {Q Q' : α → σ → Prop}

namespace Total

theorem ret {a : α} (h : ∀ s, A s → Q a s) : Total M E p A (pure a) Q := h

/-- The rule for one operation: the environment keeps `A`, and from `A` there is an answer. -/
theorem call {o : S.Op} {Q : S.Res o → σ → Prop} (hst : ∀ s s', E s s' → A s → A s')
    (hgo : ∀ s, A s → ∃ r s', M.next p o r s = some s')
    (h : ∀ s r s', A s → M.next p o r s = some s' → Q r s') : Total M E p A (Prog.call o) Q := by
  intro s hs s₁ he
  have hs1 : A s₁ := by
    induction he with
    | refl => exact hs
    | tail _ he ih => exact hst _ _ he ih
  exact ⟨hgo s₁ hs1, fun r s' hn => h s₁ r s' hs1 hn⟩

theorem bind {f : α → Prog S β} {R : β → σ → Prop} (hx : Total M E p A x Q)
    (hf : ∀ a, Total M E p (Q a) (f a) R) : Total M E p A (x >>= f) R := by
  have seq : ∀ {y : Prog S α} {s : σ}, Ensures M E p y Q s → Ensures M E p (y >>= f) R s := by
    intro y
    induction y with
    | ret a => exact fun h => hf a _ h
    | op o k ih =>
      intro s h s₁ he
      obtain ⟨hgo, hk⟩ := h s₁ he
      exact ⟨hgo, fun r s' hn => ih r (hk r s' hn)⟩
  exact fun s hs => seq (hx s hs)

theorem conseq (hA : ∀ s, A' s → A s) (hQ : ∀ a s, Q a s → Q' a s) (h : Total M E p A x Q) :
    Total M E p A' x Q' := by
  have mono : ∀ {y : Prog S α} {s : σ}, Ensures M E p y Q s → Ensures M E p y Q' s := by
    intro y
    induction y with
    | ret a => exact fun h => hQ _ _ h
    | op o k ih =>
      intro s h s₁ he
      obtain ⟨hgo, hk⟩ := h s₁ he
      exact ⟨hgo, fun r s' hn => ih r (hk r s' hn)⟩
  exact fun s hs => mono (h s (hA s hs))

/-- What neither the environment nor any operation of the program can spoil. -/
theorem frame {F : σ → Prop} {ok : S.Op → Prop} (hE : ∀ s s', E s s' → F s → F s')
    (hok : ∀ o r s s', ok o → M.next p o r s = some s' → F s → F s') (hx : x.All ok)
    (h : Total M E p A x Q) : Total M E p (fun s => A s ∧ F s) x (fun a s => Q a s ∧ F s) := by
  have keep : ∀ {y : Prog S α} {s : σ}, y.All ok → Ensures M E p y Q s → F s →
      Ensures M E p y (fun a s => Q a s ∧ F s) s := by
    intro y
    induction y with
    | ret a => exact fun _ h hF => ⟨h, hF⟩
    | op o k ih =>
      intro s hy h hF s₁ he
      have hF1 : F s₁ := by
        clear h
        induction he with
        | refl => exact hF
        | tail _ he ih => exact hE _ _ he ih
      obtain ⟨hgo, hk⟩ := h s₁ he
      exact ⟨hgo, fun r s' hn => ih r (hy.2 r) (hk r s' hn) (hok o r s₁ s' hy.1 hn hF1)⟩
  exact fun s hs => keep hx (h s hs.1) hs.2

/-- A machine that answers the operations of the program in the same way. -/
theorem swap {M' : Machine S σ} {ok : S.Op → Prop}
    (hM : ∀ o r s, ok o → M'.next p o r s = M.next p o r s) (hx : x.All ok)
    (h : Total M E p A x Q) : Total M' E p A x Q := by
  have same : ∀ {y : Prog S α} {s : σ}, y.All ok → Ensures M E p y Q s →
      Ensures M' E p y Q s := by
    intro y
    induction y with
    | ret a => exact fun _ h => h
    | op o k ih =>
      intro s hy h s₁ he
      obtain ⟨⟨r, s', hn⟩, hk⟩ := h s₁ he
      refine ⟨⟨r, s', (hM o r s₁ hy.1).trans hn⟩, fun r s' hn => ?_⟩
      exact ih r (hy.2 r) (hk r s' ((hM o r s₁ hy.1).symm.trans hn))
  exact fun s hs => same hx (h s hs)

theorem ite {c : Prop} [Decidable c] {y : Prog S α} (hx : c → Total M E p A x Q)
    (hy : ¬ c → Total M E p A y Q) : Total M E p A (if c then x else y) Q := by
  split
  · exact hx ‹_›
  · exact hy ‹_›

end Total

def nobody (_ _ : σ) : Prop := False

theorem Ensures.run_alone {s s' : σ} {y : Prog S α} (h : Ensures M nobody p x Q s)
    (hr : ReflTransGen (Turn M nobody p) (s, x) (s', y)) : Ensures M nobody p y Q s' := by
  have step : ∀ c c' : σ × Prog S α, Ensures M nobody p c.2 Q c.1 → Turn M nobody p c c' →
      Ensures M nobody p c'.2 Q c'.1 := by
    intro c c' hc ht
    cases ht with
    | env he => exact he.elim
    | op hn => exact (hc _ .refl).2 _ _ hn
  have all : ∀ c, ReflTransGen (Turn M nobody p) (s, x) c → Ensures M nobody p c.2 Q c.1 := by
    intro c hc
    induction hc with
    | refl => exact h
    | tail _ ht ih => exact step _ _ ih ht
  exact all _ hr

/-- Wherever a process that runs alone has come to, it can go on, or it is done. -/
theorem Ensures.sound_alone {s s' : σ} {y : Prog S α} (h : Ensures M nobody p x Q s)
    (hr : ReflTransGen (Turn M nobody p) (s, x) (s', y)) :
    Runnable M p s' y ∨ ∃ a, y = .ret a ∧ Q a s' := by
  have hy := h.run_alone hr
  cases y with
  | ret a => exact .inr ⟨a, rfl, hy⟩
  | op o k => exact .inl (hy s' .refl).1

theorem Ensures.finishes {s : σ} (h : Ensures M nobody p x Q s) :
    ∃ a s', ReflTransGen (Turn M nobody p) (s, x) (s', .ret a) ∧ Q a s' := by
  induction x generalizing s with
  | ret a => exact ⟨a, s, .refl, h⟩
  | op o k ih =>
    obtain ⟨⟨r, s₁, hn⟩, hk⟩ := h s .refl
    obtain ⟨a, s', hr, hq⟩ := ih r (hk r s₁ hn)
    exact ⟨a, s', .head (.op hn) hr, hq⟩

/-- Up to `n` operations of the program, answered by the oracle. -/
def advance (M : Machine S σ) (oracle : Pid → (o : S.Op) → σ → Option (S.Res o)) (p : Pid) :
    Nat → σ × Prog S α → Option (σ × Prog S α)
  | 0, c => some c
  | _ + 1, (s, .ret a) => some (s, .ret a)
  | n + 1, (s, .op o k) =>
    (oracle p o s).bind fun r => (M.next p o r s).bind fun s' => advance M oracle p n (s', k r)

theorem advance_turns {oracle : Pid → (o : S.Op) → σ → Option (S.Res o)} {n : Nat}
    {c c' : σ × Prog S α} (h : advance M oracle p n c = some c') :
    ReflTransGen (Turn M E p) c c' := by
  induction n generalizing c with
  | zero =>
    cases h
    exact .refl
  | succ n ih =>
    obtain ⟨s, x⟩ := c
    cases x with
    | ret a =>
      cases h
      exact .refl
    | op o k =>
      obtain ⟨r, -, h⟩ := Option.bind_eq_some_iff.mp h
      obtain ⟨s₁, hn, h⟩ := Option.bind_eq_some_iff.mp h
      exact .head (.op hn) (ih h)

theorem advance_exists (oracle : Pid → (o : S.Op) → σ → Option (S.Res o)) (n : Nat) {s : σ}
    (f : σ → Prog S α → Bool) (h : (advance M oracle p n (s, x)).any (fun c => f c.1 c.2) = true) :
    ∃ s' y, ReflTransGen (Turn M E p) (s, x) (s', y) ∧ f s' y = true := by
  obtain ⟨⟨s', y⟩, hrun, hf⟩ := (Option.any_eq_true _ _).mp h
  exact ⟨s', y, advance_turns hrun, hf⟩

end Conc
