import Rkt.Conc.Calls
import Rkt.Conc.Sequential

set_option autoImplicit false

namespace Conc

open Relation

variable {S : Sig} {σ α β : Type}

open Classical in
/-- The machine, in the states with `H` only. -/
noncomputable def Machine.within (M : Machine S σ) (H : σ → Prop) : Machine S σ :=
  M.restrict fun _ _ _ s => H s

section within

variable {M : Machine S σ} {H : σ → Prop} {p : Pid}

theorem Machine.within_sub : (M.within H).Sub M := by
  classical
  exact Machine.restrict_sub

theorem Machine.within_next {o : S.Op} {r : S.Res o} {s s' : σ}
    (h : (M.within H).next p o r s = some s') : H s ∧ M.next p o r s = some s' := by
  classical
  exact Machine.restrict_next h

theorem Machine.next_within {o : S.Op} {r : S.Res o} {s s' : σ} (hs : H s)
    (h : M.next p o r s = some s') : (M.within H).next p o r s = some s' :=
  (if_pos hs).trans h

theorem StepOf.within {c c' : Config S σ} (h : StepOf M p c c') (hc : H c.shared) :
    StepOf (M.within H) p c c' := by
  cases h with
  | run o k r s' hp hn => exact .run o k r s' hp (Machine.next_within hc hn)
  | die => exact .die

theorem Call.within {k : α → Prog S Unit} {c c' : Config S σ} {x : Prog S α} {seen : List σ}
    {a : α} (h : Call M p k c x seen a c') (hH : ∀ s ∈ seen, H s) :
    Call (M.within H) p k c x seen a c' := by
  induction h with
  | ret hp => exact .ret hp
  | own hp hn h ih =>
    have hfirst := hH _ List.mem_cons_self
    exact .own hp (Machine.next_within hfirst hn)
      (ih fun s hs => hH s (List.mem_cons_of_mem _ hs))
  | other hq hs h ih =>
    have hfirst := hH _ List.mem_cons_self
    exact .other hq (hs.within hfirst) (ih fun s hs => hH s (List.mem_cons_of_mem _ hs))

end within

namespace Proto

variable {M : Machine S σ} {P : Proto M} {p : Pid} {Q : α → σ → Prop} {x : Prog S α}

/-- The next state after `s` in a call comes from it by a step within the guarantee. -/
theorem Safe.chain {k : α → Prog S Unit} {c c' : Config S σ} {seen : List σ} {a : α}
    (hx : P.Safe p x Q c.shared) (hok : P.OkBut p c) (h : Call M p k c x seen a c') :
    ∃ rest, seen = c.shared :: rest ∧ seen.IsChain fun s s' => ∃ q, P.guar q s s' := by
  induction h with
  | ret hp => exact ⟨[], rfl, .singleton _⟩
  | own hp hn h ih =>
    obtain ⟨hi', hg, hrest⟩ := hx _ .refl hok.1 _ _ hn
    obtain ⟨rest, rfl, hchain⟩ := ih hrest (hok.own hi' hg)
    exact ⟨_, rfl, .cons_cons ⟨p, hg⟩ hchain⟩
  | other hq hs h ih =>
    obtain ⟨henv, hok'⟩ := hok.other hq hs
    obtain ⟨rest, rfl, hchain⟩ := ih (fun s1 hs1 => hx s1 (.head henv hs1)) hok'
    obtain ⟨-, -, q, -, hg⟩ := henv
    exact ⟨_, rfl, .cons_cons ⟨q, hg⟩ hchain⟩

theorem OkBut.others {c c' : Config S σ} (hok : P.OkBut p c)
    (h : ReflTransGen (fun c c' => ∃ q, p ≠ q ∧ StepOf M q c c') c c') :
    P.OkBut p c' ∧ ReflTransGen (P.Env p) c.shared c'.shared := by
  induction h with
  | refl => exact ⟨hok, .refl⟩
  | tail _ hs ih =>
    obtain ⟨q, hq, hs⟩ := hs
    obtain ⟨henv, hok'⟩ := ih.1.other hq hs
    exact ⟨hok', ih.2.tail henv⟩

theorem Safe.sub {M' : Machine S σ} (hM : M'.Sub M) {s : σ} (h : P.Safe p x Q s) :
    (P.sub hM).Safe p x Q s := by
  have htriple : P.Triple p (· = s) x Q := by
    rintro _ rfl
    exact h
  exact htriple.sub hM s rfl

theorem OkBut.sub {M' : Machine S σ} (hM : M'.Sub M) {c : Config S σ} (h : P.OkBut p c) :
    (P.sub hM).OkBut p c := ⟨h.1, fun q hq => (h.2 q hq).sub hM⟩

theorem Safe.runs {s s' : σ} {a : α} (hx : P.Safe p x Q s) (hi : P.inv s)
    (h : x.Runs (M.next p) s a s') : Q a s' := by
  induction x generalizing s with
  | ret b =>
    obtain ⟨rfl, rfl⟩ := h
    exact hx
  | op o k ih =>
    obtain ⟨r, s1, hn, h⟩ := h
    obtain ⟨hi', -, hrest⟩ := hx s .refl hi r s1 hn
    exact ih r hrest hi' h

theorem Safe.runs_within {H : σ → Prop} (hH : ∀ s s', P.guar p s s' → H s → H s') {s s' : σ}
    {a : α} (hx : P.Safe p x Q s) (hi : P.inv s) (hs : H s) (h : x.Runs (M.next p) s a s') :
    x.Runs ((M.within H).next p) s a s' := by
  induction x generalizing s with
  | ret b => exact h
  | op o k ih =>
    obtain ⟨r, s1, hn, h⟩ := h
    obtain ⟨hi', hg, hrest⟩ := hx s .refl hi r s1 hn
    exact ⟨r, s1, Machine.next_within hs hn, ih r hrest hi' (hH s s1 hg hs) h⟩

end Proto

/-- If no answer is excluded by `ok`, the result satisfies `Q`. -/
def Prog.Yields (ok : (o : S.Op) → S.Res o → Prop) : Prog S α → (α → Prop) → Prop
  | .ret a, Q => Q a
  | .op o k, Q => ∀ r, ok o r → (k r).Yields ok Q

namespace Prog.Yields

variable {ok : (o : S.Op) → S.Res o → Prop} {x : Prog S α} {Q : α → Prop}

theorem ret {a : α} (h : Q a) : (pure a : Prog S α).Yields ok Q := h

theorem call {o : S.Op} {Q : S.Res o → Prop} (h : ∀ r, ok o r → Q r) :
    (Prog.call o).Yields ok Q := h

theorem bind {f : α → Prog S β} {R : β → Prop} (hx : x.Yields ok Q)
    (hf : ∀ a, Q a → (f a).Yields ok R) : (x >>= f).Yields ok R := by
  induction x with
  | ret a => exact hf a hx
  | op o k ih => exact fun r hr => ih r (hx r hr)

theorem always (x : Prog S α) : x.Yields ok fun _ => True := by
  induction x with
  | ret a => trivial
  | op o k ih => exact fun r _ => ih r

theorem ite {c : Prop} [Decidable c] {y : Prog S α} (hx : c → x.Yields ok Q)
    (hy : ¬ c → y.Yields ok Q) : (if c then x else y).Yields ok Q := by
  split
  · exact hx ‹_›
  · exact hy ‹_›

theorem triple {M : Machine S σ} {P : Proto M} {p : Pid} {A : σ → Prop} {R : α → σ → Prop}
    (hok : ∀ o r s s', M.next p o r s = some s' → ok o r) (hx : x.Yields ok Q)
    (h : P.Triple p A x R) : P.Triple p A x fun a s => R a s ∧ Q a := by
  have both : ∀ {y : Prog S α} {s : σ}, y.Yields ok Q → P.Safe p y R s →
      P.Safe p y (fun a s => R a s ∧ Q a) s := by
    intro y
    induction y with
    | ret a => exact fun hy h => ⟨h, hy⟩
    | op o k ih =>
      intro s hy h s1 he hi r s' hn
      obtain ⟨hi', hg, hrest⟩ := h s1 he hi r s' hn
      exact ⟨hi', hg, ih r (hy r (hok o r s1 s' hn)) hrest⟩
  exact fun s hs => both hx (h s hs)

end Prog.Yields

/-- Alone, the program can run from any state with `A` to its end, and `A` is true there again. -/
def Prog.Can (step : (o : S.Op) → S.Res o → σ → Option σ) (A : σ → Prop) (x : Prog S α) : Prop :=
  ∀ s, A s → ∃ a s', x.Runs step s a s' ∧ A s'

namespace Prog.Can

variable {step : (o : S.Op) → S.Res o → σ → Option σ} {A : σ → Prop}

theorem ret (a : α) : Can step A (pure a : Prog S α) := fun s hs => ⟨a, s, ⟨rfl, rfl⟩, hs⟩

theorem bind {x : Prog S α} {f : α → Prog S β} (hx : Can step A x) (hf : ∀ a, Can step A (f a)) :
    Can step A (x >>= f) := by
  intro s hs
  obtain ⟨a, s1, hrun, hs1⟩ := hx s hs
  obtain ⟨b, s', hrun', hs'⟩ := hf a s1 hs1
  exact ⟨b, s', runs_bind.mpr ⟨a, s1, hrun, hrun'⟩, hs'⟩

end Prog.Can

end Conc
