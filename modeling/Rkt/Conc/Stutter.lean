import Rkt.Conc.System

set_option autoImplicit false

namespace Conc

variable {S : Sig} {σ α β : Type} {M : Machine S σ} {o : S.Op} {R : σ → σ → Prop}

/-- `R` relates states that differ by the marks of `o` at most, and nothing depends on them. -/
structure Unmarked (M : Machine S σ) (o : S.Op) (R : σ → σ → Prop) : Prop where
  next : ∀ {p o' r s s' t}, R s t → M.next p o' r s = some s' →
    ∃ t', M.next p o' r t = some t' ∧ R s' t'
  die : ∀ {p s t}, R s t → R (M.die p s) (M.die p t)
  mark : ∀ {p r s s' t}, R s t → M.next p o r s = some s' → R s' t

/-- The second program is the first one without some of its operations `o`. -/
inductive Without (o : S.Op) : Prog S α → Prog S α → Prop where
  | ret (a : α) : Without o (.ret a) (.ret a)
  | op (o' : S.Op) {k k' : S.Res o' → Prog S α} (h : ∀ r, Without o (k r) (k' r)) :
      Without o (.op o' k) (.op o' k')
  | skip {k : S.Res o → Prog S α} {y : Prog S α} (h : ∀ r, Without o (k r) y) :
      Without o (.op o k) y

theorem Without.refl (x : Prog S α) : Without o x x := by
  induction x with
  | ret a => exact .ret a
  | op o' k ih => exact .op o' ih

theorem Without.bind (x : Prog S α) {f g : α → Prog S β} (h : ∀ a, Without o (f a) (g a)) :
    Without o (x >>= f) (x >>= g) := by
  induction x with
  | ret a => exact h a
  | op o' k ih => exact .op o' ih

/-- The two configurations differ by operations `o` and their marks. -/
structure Matches (o : S.Op) (R : σ → σ → Prop) (c d : Config S σ) : Prop where
  shared : R c.shared d.shared
  procs : ∀ p, Without o (c.procs p) (d.procs p)

theorem Matches.set {c d : Config S σ} (h : Matches o R c d) (p : Pid) {s t : σ}
    {x y : Prog S Unit} (hs : R s t) (hx : Without o x y) :
    Matches o R (c.set p s x) (d.set p t y) := by
  refine ⟨hs, fun q => ?_⟩
  by_cases hq : q = p
  · subst hq
    rw [Config.set_procs_self, Config.set_procs_self]
    exact hx
  · rw [Config.set_procs_ne _ _ _ hq, Config.set_procs_ne _ _ _ hq]
    exact h.procs q

/-- The first process has made a mark, and the second one has not moved. -/
theorem Matches.left {c d : Config S σ} (h : Matches o R c d) (p : Pid) {s : σ}
    {x : Prog S Unit} (hs : R s d.shared) (hx : Without o x (d.procs p)) :
    Matches o R (c.set p s x) d := by
  have hstill : d.set p d.shared (d.procs p) = d := by simp [Config.set]
  rw [← hstill]
  exact h.set p hs hx

theorem Matches.step (hM : Unmarked M o R) {c c' d : Config S σ} (h : Matches o R c d)
    (hs : Step M c c') : ∃ d', Reach M d d' ∧ Matches o R c' d' := by
  cases hs with
  | die p =>
    exact ⟨_, .single (.die p), h.set p (hM.die h.shared) (.ret ())⟩
  | run p o' k r s' hp hn =>
    have hprog := h.procs p
    rw [hp] at hprog
    generalize hy : d.procs p = y at hprog
    cases hprog with
    | op _ hk =>
      obtain ⟨t', hn', hR⟩ := hM.next h.shared hn
      exact ⟨_, .single (.run p o' _ r t' hy hn'), h.set p hR (hk r)⟩
    | skip hk =>
      refine ⟨d, .refl, h.left p (hM.mark h.shared hn) ?_⟩
      rw [hy]
      exact hk r

/-- **Every run is matched by one without the operation.** -/
theorem Reach.without (hM : Unmarked M o R) {c c' d : Config S σ} (hr : Reach M c c')
    (h : Matches o R c d) : ∃ d', Reach M d d' ∧ Matches o R c' d' := by
  induction hr with
  | refl => exact ⟨d, .refl, h⟩
  | tail _ hs ih =>
    obtain ⟨d1, hr1, h1⟩ := ih
    obtain ⟨d2, hr2, h2⟩ := h1.step hM hs
    exact ⟨d2, hr1.trans hr2, h2⟩

end Conc
