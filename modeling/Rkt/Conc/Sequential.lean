import Rkt.Conc.Prog

set_option autoImplicit false

namespace Conc.Prog

variable {S : Sig} {σ α β : Type} {step : (o : S.Op) → S.Res o → σ → Option σ}

/-- Every run of the program from a state with `A` ends in a state with `Q`. -/
def Meets (step : (o : S.Op) → S.Res o → σ → Option σ) (A : σ → Prop) (x : Prog S α)
    (Q : α → σ → Prop) : Prop :=
  ∀ s a s', A s → x.Runs step s a s' → Q a s'

namespace Meets

variable {A B : σ → Prop} {x : Prog S α} {Q : α → σ → Prop}

theorem ret {a : α} (h : ∀ s, A s → Q a s) : Meets step A (pure a) Q := by
  rintro s a' s' hA ⟨rfl, rfl⟩
  exact h _ hA

theorem call {o : S.Op} {Q : S.Res o → σ → Prop}
    (h : ∀ s r s', A s → step o r s = some s' → Q r s') : Meets step A (Prog.call o) Q :=
  fun s r s' hA hr => h s r s' hA (runs_call.mp hr)

theorem bind {f : α → Prog S β} {R : β → σ → Prop} (hx : Meets step A x Q)
    (hf : ∀ a, Meets step (Q a) (f a) R) : Meets step A (x >>= f) R := by
  intro s b s' hA hr
  obtain ⟨a, s₁, h1, h2⟩ := runs_bind.mp hr
  exact hf a s₁ b s' (hx s a s₁ hA h1) h2

theorem pre (h : Meets step B x Q) (hA : ∀ s, A s → B s) : Meets step A x Q :=
  fun s a s' hs => h s a s' (hA s hs)

theorem post {R : α → σ → Prop} (h : Meets step A x Q) (hQ : ∀ a s, Q a s → R a s) :
    Meets step A x R :=
  fun s a s' hs hr => hQ a s' (h s a s' hs hr)

theorem given {p : Prop} (h : p → Meets step (fun _ => True) x Q) : Meets step (fun _ => p) x Q :=
  fun s a s' hp => h hp s a s' trivial

theorem ite {c : Prop} [Decidable c] {y : Prog S α} (hx : c → Meets step A x Q)
    (hy : ¬ c → Meets step A y Q) : Meets step A (if c then x else y) Q := by
  split
  · exact hx ‹_›
  · exact hy ‹_›

end Meets

/-- If every operation has an answer, the program can run to its end. -/
theorem runs_total (hstep : ∀ o s, ∃ r s', step o r s = some s') (x : Prog S α) (s : σ) :
    ∃ a s', x.Runs step s a s' := by
  induction x generalizing s with
  | ret a => exact ⟨a, s, rfl, rfl⟩
  | op o k ih =>
    obtain ⟨r, s₁, hr⟩ := hstep o s
    obtain ⟨a, s', hrest⟩ := ih r s₁
    exact ⟨a, s', r, s₁, hr, hrest⟩

/-- The program can be stopped in `s'`: at its end, or between two operations. -/
def Stops (step : (o : S.Op) → S.Res o → σ → Option σ) : Prog S α → σ → σ → Prop
  | ret _, s, s' => s' = s
  | op o k, s, s' => s' = s ∨ ∃ r s₁, step o r s = some s₁ ∧ (k r).Stops step s₁ s'

theorem Stops.now (x : Prog S α) (s : σ) : x.Stops step s s := by
  cases x with
  | ret a => rfl
  | op o k => exact .inl rfl

variable {o : S.Op} {answer : (o : S.Op) → σ → S.Res o} {a : α} {s s' : σ}

/-- Run the program with the given answers. -/
def eval (step : (o : S.Op) → S.Res o → σ → Option σ) (answer : (o : S.Op) → σ → S.Res o) :
    Prog S α → σ → Option (α × σ)
  | ret a, s => some (a, s)
  | op o k, s => (step o (answer o s) s).bind fun s' => (k (answer o s)).eval step answer s'

@[simp] theorem eval_pure {s : σ} : (pure a : Prog S α).eval step answer s = some (a, s) := rfl

@[simp] theorem eval_call {s : σ} : (Prog.call o).eval step answer s =
      (step o (answer o s) s).map fun s' => (answer o s, s') := by
  show (step o (answer o s) s).bind _ = _
  cases step o (answer o s) s <;> rfl

theorem eval_bind {x : Prog S α} {f : α → Prog S β} {s : σ} : (x >>= f).eval step answer s =
      (x.eval step answer s).bind fun a => (f a.1).eval step answer a.2 := by
  induction x generalizing s with
  | ret a => rfl
  | op o k ih =>
    show (step o (answer o s) s).bind _ = ((step o (answer o s) s).bind _).bind _
    rw [Option.bind_assoc]
    congr 1
    funext s'
    exact ih _

theorem eval_call_bind {f : S.Res o → Prog S β}
    {r : S.Res o} (hr : answer o s = r) (hs : step o r s = some s') :
    (Prog.call o >>= f).eval step answer s = (f r).eval step answer s' := by
  show (step o (answer o s) s).bind (fun s' => (f (answer o s)).eval step answer s') = _
  rw [hr, hs]
  rfl

/-- An evaluation is a run, also under a stronger rule `step'` that the answers keep to. -/
theorem runs_of_eval_of {step' : (o : S.Op) → S.Res o → σ → Option σ}
    (hstep : ∀ o s s', step o (answer o s) s = some s' → step' o (answer o s) s = some s')
    {x : Prog S α} (h : x.eval step answer s = some (a, s')) : x.Runs step' s a s' := by
  induction x generalizing s with
  | ret a' =>
    cases h
    exact ⟨rfl, rfl⟩
  | op o k ih =>
    obtain ⟨s₁, h1, h2⟩ := Option.bind_eq_some_iff.mp h
    exact ⟨answer o s, s₁, hstep o s s₁ h1, ih _ h2⟩

theorem runs_of_eval (answer : (o : S.Op) → σ → S.Res o) {x : Prog S α}
    (h : x.eval step answer s = some (a, s')) : x.Runs step s a s' :=
  runs_of_eval_of (fun _ _ _ h => h) h

/-- If no operation has another answer then there is no other run. -/
theorem eval_of_runs (hstep : ∀ o r s s', step o r s = some s' → r = answer o s) {x : Prog S α}
    (h : x.Runs step s a s') : x.eval step answer s = some (a, s') := by
  induction x generalizing s with
  | ret a' =>
    obtain ⟨rfl, rfl⟩ := h
    rfl
  | op o k ih =>
    obtain ⟨r, s₁, hr, h⟩ := h
    obtain rfl := hstep o r s s₁ hr
    show (step o (answer o s) s).bind _ = _
    rw [hr]
    exact ih _ h

/-- Something that can be seen at the end of an evaluation is seen at the end of a run. -/
theorem eval_exists (answer : (o : S.Op) → σ → S.Res o) {x : Prog S α} {s : σ}
    (f : α → σ → Bool) (h : (x.eval step answer s).any (fun y => f y.1 y.2) = true) :
    ∃ a s', x.Runs step s a s' ∧ f a s' = true := by
  obtain ⟨⟨a, s'⟩, heval, hf⟩ := (Option.any_eq_true _ _).mp h
  exact ⟨a, s', runs_of_eval answer heval, hf⟩

end Conc.Prog
