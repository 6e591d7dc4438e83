import Rkt.Conc.System

set_option autoImplicit false

namespace Conc

open Relation

variable {S : Sig} {σ : Type} {M : Machine S σ} {α β : Type}

/-- An invariant and a guarantee for each process, both respected by deaths. -/
structure Proto (M : Machine S σ) where
  inv : σ → Prop
  guar : Pid → σ → σ → Prop
  inv_die : ∀ p s, inv s → inv (M.die p s)
  guar_die : ∀ p s, inv s → guar p s (M.die p s)

namespace Proto

variable (P : Proto M)

def Env (p : Pid) (s s' : σ) : Prop := P.inv s ∧ P.inv s' ∧ ∃ q, q ≠ p ∧ P.guar q s s'

/-- The environment of `p` cannot spoil `A`. -/
def Stable (p : Pid) (A : σ → Prop) : Prop :=
  ∀ q s s', q ≠ p → P.inv s → P.inv s' → P.guar q s s' → A s → A s'

/-- Every operation of the program keeps the invariant and the guarantee of `p`, whatever the
environment does in between, and the result satisfies `Q`. -/
def Safe (p : Pid) : Prog S α → (α → σ → Prop) → σ → Prop
  | .ret a, Q, s => Q a s
  | .op o k, Q, s => ∀ s₁, ReflTransGen (P.Env p) s s₁ → P.inv s₁ →
      ∀ r s', M.next p o r s₁ = some s' → P.inv s' ∧ P.guar p s₁ s' ∧ Safe p (k r) Q s'

variable {P} {p : Pid}

theorem Stable.star {A : σ → Prop} (h : P.Stable p A) {s s' : σ}
    (hs : ReflTransGen (P.Env p) s s') (hA : A s) : A s' := by
  induction hs with
  | refl => exact hA
  | tail _ he ih =>
    obtain ⟨h1, h2, q, hq, hg⟩ := he
    exact h q _ _ hq h1 h2 hg ih

theorem Stable.and {A B : σ → Prop} (hA : P.Stable p A) (hB : P.Stable p B) :
    P.Stable p (fun s => A s ∧ B s) :=
  fun q s s' hq h1 h2 hg h => ⟨hA q s s' hq h1 h2 hg h.1, hB q s s' hq h1 h2 hg h.2⟩

variable (P) in
/-- No step of any process can spoil `A`. -/
def Lasting (A : σ → Prop) : Prop :=
  ∀ q s s', P.inv s → P.inv s' → P.guar q s s' → A s → A s'

theorem Lasting.stable {A : σ → Prop} (h : P.Lasting A) : P.Stable p A :=
  fun q s s' _ h1 h2 hg hA => h q s s' h1 h2 hg hA

theorem Lasting.and {A B : σ → Prop} (hA : P.Lasting A) (hB : P.Lasting B) :
    P.Lasting (fun s => A s ∧ B s) :=
  fun q s s' h1 h2 hg h => ⟨hA q s s' h1 h2 hg h.1, hB q s s' h1 h2 hg h.2⟩

theorem Lasting.imp {a : Prop} {A : σ → Prop} (hA : P.Lasting A) : P.Lasting (fun s => a → A s) :=
  fun q s s' h1 h2 hg h ha => hA q s s' h1 h2 hg (h ha)

variable (P) in
/-- Started in a state with `A`, the program is safe and its result satisfies `Q`. -/
def Triple (p : Pid) (A : σ → Prop) (x : Prog S α) (Q : α → σ → Prop) : Prop :=
  ∀ s, A s → P.Safe p x Q s

namespace Triple

variable {A A' F : σ → Prop} {x : Prog S α} {Q Q' : α → σ → Prop}

theorem ret {a : α} (h : ∀ s, A s → Q a s) : P.Triple p A (pure a) Q := h

/-- The rule for one operation: in front of it stands an assertion that the environment
cannot spoil. -/
theorem call {o : S.Op} {Q : S.Res o → σ → Prop} (hst : P.Stable p A)
    (h : ∀ s r s', P.inv s → A s → M.next p o r s = some s' →
      P.inv s' ∧ P.guar p s s' ∧ Q r s') : P.Triple p A (Prog.call o) Q :=
  fun _ hA s₁ he hi r s' hn => h s₁ r s' hi (hst.star he hA) hn

theorem conseq (hA : ∀ s, A' s → A s) (hQ : ∀ a s, Q a s → Q' a s) (h : P.Triple p A x Q) :
    P.Triple p A' x Q' := by
  have mono : ∀ {y : Prog S α} {s : σ}, P.Safe p y Q s → P.Safe p y Q' s := by
    intro y
    induction y with
    | ret a => exact fun h => hQ _ _ h
    | op o k ih =>
      intro s h s₁ he hi r s' hn
      obtain ⟨h1, h2, h3⟩ := h s₁ he hi r s' hn
      exact ⟨h1, h2, ih r h3⟩
  exact fun s hs => mono (h s (hA s hs))

theorem pre (hA : ∀ s, A' s → A s) (h : P.Triple p A x Q) : P.Triple p A' x Q :=
  h.conseq hA (fun _ _ hq => hq)

theorem post (hQ : ∀ a s, Q a s → Q' a s) (h : P.Triple p A x Q) : P.Triple p A x Q' :=
  h.conseq (fun _ hA => hA) hQ

theorem bind {f : α → Prog S β} {R : β → σ → Prop} (hx : P.Triple p A x Q)
    (hf : ∀ a, P.Triple p (Q a) (f a) R) : P.Triple p A (x >>= f) R := by
  have seq : ∀ {y : Prog S α} {s : σ}, P.Safe p y Q s → P.Safe p (y >>= f) R s := by
    intro y
    induction y with
    | ret a => exact fun h => hf a _ h
    | op o k ih =>
      intro s h s₁ he hi r s' hn
      obtain ⟨h1, h2, h3⟩ := h s₁ he hi r s' hn
      exact ⟨h1, h2, ih r h3⟩
  exact fun s hs => seq (hx s hs)

theorem frame (hF : P.Lasting F) (h : P.Triple p A x Q) :
    P.Triple p (fun s => A s ∧ F s) x (fun a s => Q a s ∧ F s) := by
  have keep : ∀ {y : Prog S α} {s : σ}, P.Safe p y Q s → F s →
      P.Safe p y (fun a s => Q a s ∧ F s) s := by
    intro y
    induction y with
    | ret a => exact fun h hs => ⟨h, hs⟩
    | op o k ih =>
      intro s h hs s₁ he hi r s' hn
      obtain ⟨h1, h2, h3⟩ := h s₁ he hi r s' hn
      exact ⟨h1, h2, ih r h3 (hF p _ _ hi h1 h2 (hF.stable.star he hs))⟩
  exact fun s hs => keep (h s hs.1) hs.2

/-- What is done with a result without another operation leaves everything as it was. -/
theorem thenRet {B : σ → Prop} {f : α → Prog S β} (hx : P.Triple p A x fun _ => B)
    (hf : ∀ a, ∃ b, f a = pure b) : P.Triple p A (x >>= f) fun _ => B := by
  refine hx.bind fun a => ?_
  obtain ⟨b, hb⟩ := hf a
  rw [hb]
  exact ret fun _ h => h

theorem ite {c : Prop} [Decidable c] {y : Prog S α} (hx : c → P.Triple p A x Q)
    (hy : ¬ c → P.Triple p A y Q) : P.Triple p A (if c then x else y) Q := by
  split
  · exact hx ‹_›
  · exact hy ‹_›

/-- What the machine itself says about the answer to an operation. -/
theorem answered {o : S.Op} {Q : S.Res o → σ → Prop} {a : S.Res o → Prop}
    (h : P.Triple p A (Prog.call o) Q) (ha : ∀ r s s', M.next p o r s = some s' → a r) :
    P.Triple p A (Prog.call o) fun r s => Q r s ∧ a r := by
  intro s hs s₁ he hi r s' hn
  obtain ⟨hi', hg, hQ⟩ := h s hs s₁ he hi r s' hn
  exact ⟨hi', hg, hQ, ha r s₁ s' hn⟩

/-- A fact that does not speak of the state can be taken out of the precondition. -/
theorem given {a : Prop} (h : a → P.Triple p A x Q) : P.Triple p (fun s => A s ∧ a) x Q :=
  fun s hs => h hs.2 s hs.1

end Triple

/-- A protocol for a machine is one for every machine with fewer steps. -/
def sub {M' : Machine S σ} (P : Proto M) (hM : M'.Sub M) : Proto M' where
  inv := P.inv
  guar := P.guar
  inv_die p s h := by
    rw [hM.die]
    exact P.inv_die p s h
  guar_die p s h := by
    rw [hM.die]
    exact P.guar_die p s h

theorem Triple.sub {M' : Machine S σ} (hM : M'.Sub M) {A : σ → Prop} {x : Prog S α}
    {Q : α → σ → Prop} (h : P.Triple p A x Q) : (P.sub hM).Triple p A x Q := by
  have less : ∀ {y : Prog S α} {s : σ}, P.Safe p y Q s → (P.sub hM).Safe p y Q s := by
    intro y
    induction y with
    | ret a => exact fun h => h
    | op o k ih =>
      intro s h s₁ he hi r s' hn
      obtain ⟨h1, h2, h3⟩ := h s₁ he hi r s' (hM.next hn)
      exact ⟨h1, h2, ih r h3⟩
  exact fun s hs => less (h s hs)

/-- The protocol with the further invariant `J`, which deaths keep. -/
def also (P : Proto M) (J : σ → Prop) (hdie : ∀ p s, J s → J (M.die p s)) : Proto M where
  inv s := P.inv s ∧ J s
  guar := P.guar
  inv_die p s h := ⟨P.inv_die p s h.1, hdie p s h.2⟩
  guar_die p s h := P.guar_die p s h.1

section also

variable {J : σ → Prop} {hdie : ∀ p s, J s → J (M.die p s)}

theorem Lasting.also {A : σ → Prop} (h : P.Lasting A) : (P.also J hdie).Lasting A :=
  fun q s s' h1 h2 hg hA => h q s s' h1.1 h2.1 hg hA

/-- A program whose operations all keep the further invariant needs no other proof for it. -/
theorem Triple.also {ok : S.Op → Prop} {A : σ → Prop} {x : Prog S α} {Q : α → σ → Prop}
    (hok : ∀ o r s s', ok o → M.next p o r s = some s' → J s → J s') (hx : x.All ok)
    (h : P.Triple p A x Q) : (P.also J hdie).Triple p A x Q := by
  have env : ∀ s s', (P.also J hdie).Env p s s' → P.Env p s s' :=
    fun _ _ h => ⟨h.1.1, h.2.1.1, h.2.2⟩
  have keep : ∀ {y : Prog S α} {s : σ}, y.All ok → P.Safe p y Q s →
      (P.also J hdie).Safe p y Q s := by
    intro y
    induction y with
    | ret a => exact fun _ h => h
    | op o k ih =>
      intro s hy h s₁ he hi r s' hn
      obtain ⟨h1, h2, h3⟩ := h s₁ (ReflTransGen.mono env _ _ he) hi.1 r s' hn
      exact ⟨⟨h1, hok o r s₁ s' hy.1 hn hi.2⟩, h2, ih r (hy.2 r) h3⟩
  exact fun s hs => keep hx (h s hs)

end also

/-- The postcondition of a fallible program: `A` in any case, and `Q a` if it returned `a`. -/
def Ends {ε : Type} (A : σ → Prop) (Q : α → σ → Prop) : Except ε α → σ → Prop
  | .ok a, s => A s ∧ Q a s
  | .error _, s => A s

variable {ε : Type} {c c' : Config S σ}

theorem Triple.ok {A B : σ → Prop} {Q : α → σ → Prop} {a : α} (h : ∀ s, B s → A s ∧ Q a s) :
    P.Triple p B (pure (.ok a : Except ε α)) (Ends A Q) := h

theorem Triple.error {A B : σ → Prop} {Q : α → σ → Prop} {e : ε}
    (h : ∀ s, B s → A s) : P.Triple p B (pure (.error e : Except ε α)) (Ends A Q) := h

/-- A fallible program, and what is done with its result and with its error. -/
theorem Triple.attempt {A B : σ → Prop} {Q : α → σ → Prop}
    {x : Prog S (Except ε α)} {f : Except ε α → Prog S β} {R : β → σ → Prop}
    (hx : P.Triple p A x (Ends B Q)) (hok : ∀ a, P.Triple p (fun s => B s ∧ Q a s) (f (.ok a)) R)
    (herr : ∀ e, P.Triple p B (f (.error e)) R) : P.Triple p A (x >>= f) R := by
  refine hx.bind fun r => ?_
  cases r with
  | ok a => exact hok a
  | error e => exact herr e

/-- The postcondition of a fallible program that may leave different things behind: `Q a` if it
returned `a`, and `E` if it failed. -/
def Result {ε : Type} (E : σ → Prop) (Q : α → σ → Prop) : Except ε α → σ → Prop
  | .ok a => Q a
  | .error _ => E

theorem Triple.onResult {A E : σ → Prop} {Q : α → σ → Prop}
    {x : Prog S (Except ε α)} {f : Except ε α → Prog S β} {R : β → σ → Prop}
    (hx : P.Triple p A x (Result E Q)) (hok : ∀ a, P.Triple p (Q a) (f (.ok a)) R)
    (herr : ∀ e, P.Triple p E (f (.error e)) R) : P.Triple p A (x >>= f) R := by
  refine hx.bind fun r => ?_
  cases r with
  | ok a => exact hok a
  | error e => exact herr e

theorem Triple.check {A B E : σ → Prop} {x : Prog S Bool} {e : ε} {k : Prog S (Except ε α)}
    {Q : Except ε α → σ → Prop} (hx : P.Triple p A x fun ok => if ok = true then B else E)
    (he : ∀ s, E s → Q (.error e) s) (hk : P.Triple p B k Q) :
    P.Triple p A (x.check e k) Q := by
  refine hx.bind fun ok => ?_
  cases ok with
  | false => exact Triple.ret he
  | true => exact hk

/-- An operation that leaves the same behind in any case. -/
theorem Triple.check_same {A : σ → Prop} {x : Prog S Bool} {e : ε} {k : Prog S (Except ε α)}
    {Q : Except ε α → σ → Prop} (hx : P.Triple p A x fun _ => A) (he : ∀ s, A s → Q (.error e) s)
    (hk : P.Triple p A k Q) : P.Triple p A (x.check e k) Q :=
  .check (hx.post fun _ s h => by rwa [ite_self]) he hk

/-- What holds after a success and after a failure holds in any case. -/
theorem Triple.either {A B E : σ → Prop} {Q : α → σ → Prop} {x : Prog S (Except ε α)}
    (hx : P.Triple p A x (Result E Q)) (hok : ∀ a s, Q a s → B s) (herr : ∀ s, E s → B s) :
    P.Triple p A x fun _ => B := by
  refine hx.post fun r s hs => ?_
  cases r with
  | ok a => exact hok a s hs
  | error e => exact herr s hs

/-- A safe program without a postcondition stays safe while the environment acts. -/
theorem Safe.env {x : Prog S α} {s s' : σ} (h : P.Safe p x (fun _ _ => True) s)
    (he : P.Env p s s') : P.Safe p x (fun _ _ => True) s' := by
  cases x with
  | ret a => trivial
  | op o k => exact fun s₁ hs => h s₁ (.head he hs)

variable (P) in
/-- The invariant holds, and what each process has still to run is safe. -/
def Ok (c : Config S σ) : Prop :=
  P.inv c.shared ∧ ∀ p, P.Safe p (c.procs p) (fun _ _ => True) c.shared

/-- One step of a good configuration: it is within the guarantee of a process, and the next
configuration is good. -/
theorem Ok.step (h : P.Ok c) (hs : Step M c c') : (∃ p, P.guar p c.shared c'.shared) ∧ P.Ok c' := by
  obtain ⟨hi, hsafe⟩ := h
  cases hs with
  | run p o k r s' hp hn =>
    have hp' := hsafe p
    rw [hp] at hp'
    obtain ⟨hi', hg, hk⟩ := hp' _ .refl hi r s' hn
    refine ⟨⟨p, hg⟩, hi', fun q => ?_⟩
    by_cases hq : q = p
    · subst hq
      rw [Config.set_procs_self]
      exact hk
    · rw [Config.set_procs_ne _ _ _ hq]
      exact (hsafe q).env ⟨hi, hi', p, Ne.symm hq, hg⟩
  | die p =>
    have hi' := P.inv_die p _ hi
    refine ⟨⟨p, P.guar_die p _ hi⟩, hi', fun q => ?_⟩
    by_cases hq : q = p
    · subst hq
      rw [Config.set_procs_self]
      trivial
    · rw [Config.set_procs_ne _ _ _ hq]
      exact (hsafe q).env ⟨hi, hi', p, Ne.symm hq, P.guar_die p _ hi⟩

/-- **Composition.** If every process is safe on its own, then so is every interleaving. -/
theorem Ok.reach (h : P.Ok c) (hr : Reach M c c') : P.Ok c' :=
  Reach.invariant (fun _ _ hc hs => (hc.step hs).2) hr h

/-- What no step can spoil is still true at the end of a run. -/
theorem Ok.lasting {A : σ → Prop} (h : P.Ok c) (hr : Reach M c c')
    (hA : P.Lasting A) (hc : A c.shared) : A c'.shared := by
  refine (Reach.invariant (I := fun c => P.Ok c ∧ A c.shared) ?_ hr ⟨h, hc⟩).2
  rintro c1 c2 ⟨h1, hA1⟩ hs
  obtain ⟨⟨p, hg⟩, h2⟩ := h1.step hs
  exact ⟨h2, hA p _ _ h1.1 h2.1 hg hA1⟩

end Proto

end Conc
