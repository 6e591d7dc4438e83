import Rkt.Conc.Call
import Rkt.Conc.Interference
import Rkt.Conc.Proto

set_option autoImplicit false

namespace Conc

open Relation

variable {S : Sig} {σ α ι : Type} {R : ι → Type}

/-- The program makes calls of `F`, and does nothing else. -/
inductive MakesCalls (F : (i : ι) → Prog S (R i)) : Prog S Unit → Prop where
  | done : MakesCalls F (pure ())
  | call (i : ι) (k : R i → Prog S Unit) (h : ∀ a, MakesCalls F (k a)) : MakesCalls F (F i >>= k)

/-- From `c` to `c'` the process `p` makes some calls, the last of which returns in `c'`. -/
inductive Returned (M : Machine S σ) (p : Pid) (F : (i : ι) → Prog S (R i)) (c : Config S σ) :
    Config S σ → Prop where
  | none : Returned M p F c c
  | call {c₁ c₂ : Config S σ} (i : ι) {k : R i → Prog S Unit} {seen : List σ} {a : R i}
      (h : Returned M p F c c₁) (hcall : Call M p k c₁ (F i) seen a c₂) : Returned M p F c c₂

theorem Returned.reach {M : Machine S σ} {p : Pid} {F : (i : ι) → Prog S (R i)}
    {c c' : Config S σ} (h : Returned M p F c c') : Reach M c c' := by
  induction h with
  | none => exact .refl
  | call i _ hcall ih => exact ih.trans hcall.reach

namespace Proto

variable {M : Machine S σ} {P : Proto M} {p : Pid} {A : σ → Prop}

variable (P) in
/-- The invariant holds, and what the processes other than `p` have still to run is safe. -/
def OkBut (p : Pid) (c : Config S σ) : Prop :=
  P.inv c.shared ∧ ∀ q, q ≠ p → P.Safe q (c.procs q) (fun _ _ => True) c.shared

theorem Ok.but {c : Config S σ} (h : P.Ok c) (p : Pid) : P.OkBut p c := ⟨h.1, fun q _ => h.2 q⟩

theorem OkBut.other {c c' : Config S σ} {q : Pid} (h : P.OkBut p c) (hq : p ≠ q)
    (hs : StepOf M q c c') : P.Env p c.shared c'.shared ∧ P.OkBut p c' := by
  obtain ⟨hi, hsafe⟩ := h
  -- the step keeps to the protocol, and `q` itself stays safe
  have hstep : P.inv c'.shared ∧ P.guar q c.shared c'.shared ∧
      P.Safe q (c'.procs q) (fun _ _ => True) c'.shared := by
    cases hs with
    | run o k r s' hp hn =>
      have hself := hsafe q (Ne.symm hq)
      rw [hp] at hself
      rw [Config.set_procs_self]
      exact hself _ .refl hi r s' hn
    | die =>
      rw [Config.set_procs_self]
      exact ⟨P.inv_die q _ hi, P.guar_die q _ hi, trivial⟩
  obtain ⟨hi', hg, hself⟩ := hstep
  refine ⟨⟨hi, hi', q, Ne.symm hq, hg⟩, hi', fun q' hq' => ?_⟩
  by_cases heq : q' = q
  · subst heq
    exact hself
  · rw [hs.procs_ne heq]
    exact (hsafe q' hq').env ⟨hi, hi', q, Ne.symm heq, hg⟩

theorem OkBut.own {c : Config S σ} {s' : σ} {x : Prog S Unit} (h : P.OkBut p c)
    (hi' : P.inv s') (hg : P.guar p c.shared s') : P.OkBut p (c.set p s' x) := by
  refine ⟨hi', fun q hq => ?_⟩
  rw [Config.set_procs_ne _ _ _ hq]
  exact (h.2 q hq).env ⟨h.1, hi', p, Ne.symm hq, hg⟩

/-- **What a safe call returns.** -/
theorem Safe.call {k : α → Prog S Unit} {c c' : Config S σ} {x : Prog S α} {seen : List σ} {a : α}
    {Q : α → σ → Prop} (hx : P.Safe p x Q c.shared) (hok : P.OkBut p c)
    (h : Call M p k c x seen a c') : Q a c'.shared ∧ P.OkBut p c' := by
  induction h with
  | ret hp => exact ⟨hx, hok⟩
  | own hp hn h ih =>
    obtain ⟨hi', hg, hrest⟩ := hx _ .refl hok.1 _ _ hn
    exact ih hrest (hok.own hi' hg)
  | other hq hs h ih =>
    obtain ⟨henv, hok'⟩ := hok.other hq hs
    exact ih (fun s1 hs1 => hx s1 (.head henv hs1)) hok'

/-- A safe program that runs alone: wherever it has come to, the invariant holds, the rest is
safe, and all its steps have kept to the guarantee. -/
theorem Safe.alone {x y : Prog S α} {s s' : σ} {Q : α → σ → Prop} (hx : P.Safe p x Q s)
    (hi : P.inv s) (h : ReflTransGen (Turn M nobody p) (s, x) (s', y)) :
    P.inv s' ∧ P.Safe p y Q s' ∧ ReflTransGen (P.guar p) s s' := by
  let good : σ × Prog S α → Prop := fun c =>
    P.inv c.1 ∧ P.Safe p c.2 Q c.1 ∧ ReflTransGen (P.guar p) s c.1
  have step : ∀ c c', good c → Turn M nobody p c c' → good c' := by
    rintro _ _ ⟨hi, hsafe, hguar⟩ ht
    cases ht with
    | env he => exact he.elim
    | op hn =>
      obtain ⟨hi', hg, hrest⟩ := hsafe _ .refl hi _ _ hn
      exact ⟨hi', hrest, hguar.tail hg⟩
  have all : ∀ c, ReflTransGen (Turn M nobody p) (s, x) c → good c := by
    intro c hc
    induction hc with
    | refl => exact ⟨hi, hx, .refl⟩
    | tail _ ht ih => exact step _ _ ih ht
  exact all _ h

end Proto

variable {M : Machine S σ} {P : Proto M} {p : Pid} {A : σ → Prop} {F : (i : ι) → Prog S (R i)}

/-- **What every call carries on** is true whenever one has returned. -/
theorem Returned.holds {c c' : Config S σ} (h : Returned M p F c c')
    (hF : ∀ i, P.Triple p A (F i) fun _ => A) (hok : P.OkBut p c) (hA : A c.shared) :
    A c'.shared ∧ P.OkBut p c' := by
  induction h with
  | none => exact ⟨hA, hok⟩
  | call i _ hcall ih => exact (hF i _ ih.1).call ih.2 hcall

theorem MakesCalls.triple {x : Prog S Unit} (h : MakesCalls F x)
    (hF : ∀ i, P.Triple p A (F i) fun _ => A) : P.Triple p A x fun _ => A := by
  induction h with
  | done => exact Proto.Triple.ret fun _ hs => hs
  | call i k _ ih => exact (hF i).bind ih

theorem playCall_returned [DecidableEq S.Op] (ms ms' : List (Move S)) (i : ι) {c : Config S σ}
    {k : R i → Prog S Unit} (f : Config S σ → Config S σ → Bool) (hc : c.procs p = F i >>= k)
    (h : ((playCall M p ms c (F i)).bind fun y => (play M y.2.2 ms').map (f y.2.2)) = some true) :
    ∃ c₁ c₂, Returned M p F c c₁ ∧ Reach M c₁ c₂ ∧ f c₁ c₂ = true := by
  obtain ⟨⟨seen, a, c₁⟩, hcall, h⟩ := Option.bind_eq_some_iff.mp h
  obtain ⟨c₂, hplay, hf⟩ := Option.map_eq_some_iff.mp h
  exact ⟨c₁, c₂, .call i .none (playCall_call hc hcall), play_reach hplay, hf⟩

end Conc
