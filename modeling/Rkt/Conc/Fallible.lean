import Rkt.Conc.Sequential

set_option autoImplicit false

namespace Conc.Prog

variable {S : Sig} {σ α β ε ε' : Type}

/-- `E` is true after an error, and `Q` without one. -/
def Outcome (E : ε → σ → Prop) (Q : α → σ → Prop) : Except ε α → σ → Prop
  | .error e => E e
  | .ok a => Q a

variable {step : (o : S.Op) → S.Res o → σ → Option σ}

theorem runs_andThen_ok {x : Prog S (Except ε α)} {f : α → Prog S (Except ε β)} {s s' : σ} {b : β} :
    (andThen x f).Runs step s (.ok b) s' ↔
      ∃ a s1, x.Runs step s (.ok a) s1 ∧ (f a).Runs step s1 (.ok b) s' := by
  rw [andThen, runs_bind]
  constructor
  · rintro ⟨r, s1, hx, hf⟩
    cases r with
    | error e =>
      obtain ⟨hne, -⟩ := hf
      cases hne
    | ok a => exact ⟨a, s1, hx, hf⟩
  · rintro ⟨a, s1, hx, hf⟩
    exact ⟨.ok a, s1, hx, hf⟩

theorem runs_must_ok {x : Prog S Bool} {e : ε} {s s' : σ} {u : Unit} :
    (must x e).Runs step s (.ok u) s' ↔ x.Runs step s true s' := by
  rw [must, check, runs_bind]
  constructor
  · rintro ⟨r, s1, hx, hr⟩
    cases r with
    | false =>
      obtain ⟨hne, -⟩ := hr
      cases hne
    | true =>
      obtain ⟨-, rfl⟩ := hr
      exact hx
  · intro hx
    exact ⟨true, s', hx, rfl, rfl⟩

theorem runs_wrapError_ok {wrap : ε → ε'} {x : Prog S (Except ε α)} {s s' : σ} {a : α} :
    (wrapError wrap x).Runs step s (.ok a) s' ↔ x.Runs step s (.ok a) s' := by
  rw [wrapError, runs_bind]
  constructor
  · rintro ⟨r, s1, hx, hr⟩
    cases r with
    | error e =>
      obtain ⟨hne, -⟩ := hr
      cases hne
    | ok a' =>
      obtain ⟨heq, rfl⟩ := hr
      cases heq
      exact hx
  · intro hx
    exact ⟨.ok a, s', hx, rfl, rfl⟩

namespace Meets

variable {A B : σ → Prop} {E : ε → σ → Prop} {E' : ε' → σ → Prop} {Q : α → σ → Prop}
  {R : β → σ → Prop}

theorem check {x : Prog S Bool} {e : ε} {k : Prog S (Except ε α)} {R : Except ε α → σ → Prop}
    (hx : Meets step A x fun ok s => if ok then B s else A s) (hk : Meets step B k R)
    (he : ∀ s, A s → R (.error e) s) : Meets step A (x.check e k) R := by
  refine Meets.bind hx fun ok => ?_
  cases ok with
  | false => exact Meets.ret he
  | true => exact hk

theorem andThen {x : Prog S (Except ε α)} {f : α → Prog S (Except ε β)}
    (hx : Meets step A x (Outcome E Q)) (hf : ∀ a, Meets step (Q a) (f a) (Outcome E R)) :
    Meets step A (andThen x f) (Outcome E R) := by
  refine Meets.bind hx fun r => ?_
  cases r with
  | error e => exact Meets.ret fun _ h => h
  | ok a => exact hf a

theorem andThen_sure {x : Prog S (Except ε α)} {f : α → Prog S (Except ε β)}
    {R : Except ε β → σ → Prop} (hx : Meets step A x (Outcome (fun _ _ => False) Q))
    (hf : ∀ a, Meets step (Q a) (f a) R) : Meets step A (Prog.andThen x f) R := by
  refine Meets.bind hx fun r => ?_
  cases r with
  | error e => exact Meets.ret fun _ h => h.elim
  | ok a => exact hf a

theorem andThen_fails {x : Prog S (Except ε α)} {f : α → Prog S (Except ε β)}
    (hx : Meets step A x (Outcome E fun _ _ => False)) :
    Meets step A (Prog.andThen x f) (Outcome E R) :=
  andThen hx fun _ _ _ _ h => h.elim

theorem must {x : Prog S Bool} {e : ε} (hx : Meets step A x fun _ => B) (hE : ∀ s, B s → E e s) :
    Meets step A (must x e) (Outcome E fun _ => B) := by
  refine Meets.bind hx fun r => ?_
  cases r with
  | false => exact Meets.ret hE
  | true => exact Meets.ret fun _ h => h

theorem wrapError {wrap : ε → ε'} {x : Prog S (Except ε α)} (hx : Meets step A x (Outcome E Q))
    (hE : ∀ e s, E e s → E' (wrap e) s) : Meets step A (wrapError wrap x) (Outcome E' Q) := by
  refine Meets.bind hx fun r => Meets.ret fun s hs => ?_
  cases r with
  | error e => exact hE e s hs
  | ok a => exact hs

end Meets

namespace All

variable {ok : S.Op → Prop}

theorem andThen {x : Prog S (Except ε α)} {f : α → Prog S (Except ε β)} (hx : x.All ok)
    (hf : ∀ a, (f a).All ok) : (andThen x f).All ok := hx.attempt hf fun _ => trivial

theorem must {x : Prog S Bool} {e : ε} (hx : x.All ok) : (must x e).All ok :=
  hx.bind fun _ => All.ite (fun _ => trivial) fun _ => trivial

end All

/-- No run of the program changes what `f` sees of the state. -/
def Keeps {τ : Type} (step : (o : S.Op) → S.Res o → σ → Option σ) (f : σ → τ) (x : Prog S α) :
    Prop :=
  ∀ s a s', x.Runs step s a s' → f s' = f s

namespace Keeps

variable {τ : Type} {f : σ → τ} {x : Prog S α}

theorem ret {a : α} : Keeps step f (pure a : Prog S α) := by
  rintro s a' s' ⟨-, rfl⟩
  rfl

theorem call {o : S.Op} (h : ∀ s r s', step o r s = some s' → f s' = f s) :
    Keeps step f (Prog.call o) :=
  fun s r s' hr => h s r s' (runs_call.mp hr)

theorem bind {g : α → Prog S β} (hx : Keeps step f x) (hg : ∀ a, Keeps step f (g a)) :
    Keeps step f (x >>= g) := by
  intro s b s' hr
  obtain ⟨a, s1, h1, h2⟩ := runs_bind.mp hr
  exact (hg a s1 b s' h2).trans (hx s a s1 h1)

theorem ite {c : Prop} [Decidable c] {y : Prog S α} (hx : Keeps step f x) (hy : Keeps step f y) :
    Keeps step f (if c then x else y) := by
  split
  · exact hx
  · exact hy

theorem andThen {x : Prog S (Except ε α)} {g : α → Prog S (Except ε β)} (hx : Keeps step f x)
    (hg : ∀ a, Keeps step f (g a)) : Keeps step f (andThen x g) := by
  refine bind hx fun r => ?_
  cases r with
  | error e => exact ret
  | ok a => exact hg a

theorem must {x : Prog S Bool} {e : ε} (hx : Keeps step f x) : Keeps step f (must x e) :=
  bind hx fun _ => ite ret ret

theorem wrapError {wrap : ε → ε'} {x : Prog S (Except ε α)} (hx : Keeps step f x) :
    Keeps step f (wrapError wrap x) :=
  bind hx fun _ => ret

theorem comp {υ : Type} (hx : Keeps step f x) (g : τ → υ) : Keeps step (fun s => g (f s)) x :=
  fun s a s' hr => congrArg g (hx s a s' hr)

theorem of_all {ok : S.Op → Prop} (h : ∀ o, ok o → Keeps step f (Prog.call o)) (hx : x.All ok) :
    Keeps step f x := by
  induction x with
  | ret a => exact ret
  | op o k ih =>
    rintro s a s' ⟨r, s1, hs, hrest⟩
    exact (ih r (hx.2 r) s1 a s' hrest).trans (h o hx.1 s r s1 (runs_call.mpr hs))

theorem meets (hx : Keeps step f x) (P : τ → Prop) :
    Meets step (fun s => P (f s)) x fun _ s => P (f s) := by
  intro s a s' hP hr
  show P (f s')
  rw [hx s a s' hr]
  exact hP

end Keeps

end Conc.Prog
