import Rkt.Conc.System

set_option autoImplicit false

namespace Conc

variable {S : Sig} {σ α β : Type}

/-- A call of `x` by `p`, from `c` to `c'`. -/
inductive Call (M : Machine S σ) (p : Pid) (k : α → Prog S Unit) :
    Config S σ → Prog S α → List σ → α → Config S σ → Prop where
  /-- It returns. -/
  | ret {c : Config S σ} {a : α} (hp : c.procs p = k a) : Call M p k c (.ret a) [c.shared] a c
  /-- It performs an operation. -/
  | own {c c' : Config S σ} {o : S.Op} {f : S.Res o → Prog S α} {r : S.Res o} {s' : σ}
      {seen : List σ} {a : α} (hp : c.procs p = .op o fun r => f r >>= k)
      (hn : M.next p o r c.shared = some s')
      (h : Call M p k (c.set p s' (f r >>= k)) (f r) seen a c') :
      Call M p k c (.op o f) (c.shared :: seen) a c'
  /-- Another process takes a step. -/
  | other {c c₁ c' : Config S σ} {o : S.Op} {f : S.Res o → Prog S α} {q : Pid} {seen : List σ}
      {a : α} (hq : p ≠ q) (hs : StepOf M q c c₁) (h : Call M p k c₁ (.op o f) seen a c') :
      Call M p k c (.op o f) (c.shared :: seen) a c'

namespace Call

variable {M : Machine S σ} {p : Pid} {k : α → Prog S Unit} {c c' : Config S σ} {x : Prog S α}
  {seen : List σ} {a : α}

theorem procs (h : Call M p k c x seen a c') : c.procs p = x >>= k := by
  induction h with
  | ret hp => exact hp
  | own hp hn h ih => exact hp
  | other hq hs h ih => rw [← hs.procs_ne hq, ih]

theorem first_mem (h : Call M p k c x seen a c') : c.shared ∈ seen := by
  cases h <;> exact List.mem_cons_self

theorem reach (h : Call M p k c x seen a c') : Reach M c c' := by
  induction h with
  | ret hp => exact .refl
  | own hp hn h ih => exact .head (.run p _ _ _ _ hp hn) ih
  | other hq hs h ih => exact .head hs.step ih

/-- The states of a call are those of configurations on the way. -/
theorem mem_reach (h : Call M p k c x seen a c') {s : σ} (hs : s ∈ seen) :
    ∃ c₁, Reach M c c₁ ∧ Reach M c₁ c' ∧ c₁.shared = s := by
  induction h with
  | ret hp =>
    cases List.mem_singleton.mp hs
    exact ⟨_, .refl, .refl, rfl⟩
  | own hp hn h ih =>
    rcases List.mem_cons.mp hs with rfl | hs
    · exact ⟨_, .refl, .head (.run p _ _ _ _ hp hn) h.reach, rfl⟩
    · obtain ⟨c₁, hr, hr', hs⟩ := ih hs
      exact ⟨c₁, .head (.run p _ _ _ _ hp hn) hr, hr', hs⟩
  | other hq hstep h ih =>
    rcases List.mem_cons.mp hs with rfl | hs
    · exact ⟨_, .refl, .head hstep.step h.reach, rfl⟩
    · obtain ⟨c₁, hr, hr', hs⟩ := ih hs
      exact ⟨c₁, .head hstep.step hr, hr', hs⟩

/-- The step that makes `A` true, into one of the states `seen`. -/
def Becomes (M : Machine S σ) (A : σ → Prop) (c : Config S σ) (seen : List σ) : Prop :=
  ∃ c₁ c₂, Reach M c c₁ ∧ Step M c₁ c₂ ∧ ¬ A c₁.shared ∧ A c₂.shared ∧ c₂.shared ∈ seen

theorem Becomes.cons {A : σ → Prop} {c₁ : Config S σ} (hs : Step M c c₁) (hc : ¬ A c.shared)
    (hmem : c₁.shared ∈ seen) (h : ¬ A c₁.shared → Becomes M A c₁ seen) :
    Becomes M A c (c.shared :: seen) := by
  by_cases h1 : A c₁.shared
  · exact ⟨c, c₁, .refl, hs, hc, h1, List.mem_cons_of_mem _ hmem⟩
  · obtain ⟨c₂, c3, hr, hs', h2, h3, hmem'⟩ := h h1
    exact ⟨c₂, c3, .head hs hr, hs', h2, h3, List.mem_cons_of_mem _ hmem'⟩

/-- What becomes true during a call becomes true by a step of some process. -/
theorem becomes (h : Call M p k c x seen a c') {A : σ → Prop} (hc : ¬ A c.shared)
    (hc' : A c'.shared) : Becomes M A c seen := by
  induction h with
  | ret hp => exact absurd hc' hc
  | own hp hn h ih => exact .cons (.run p _ _ _ _ hp hn) hc h.first_mem fun h1 => ih h1 hc'
  | other hq hs h ih => exact .cons hs.step hc h.first_mem fun h1 => ih h1 hc'

theorem bind_assoc {γ : Type} (x : Prog S α) (f : α → Prog S β) (g : β → Prog S γ) :
    (x >>= f) >>= g = x >>= fun a => f a >>= g := by
  induction x with
  | ret a => rfl
  | op o k ih =>
    show Prog.op o (fun r => (k r >>= f) >>= g) = Prog.op o fun r => k r >>= fun a => f a >>= g
    exact congrArg _ (funext ih)

/-- A call of `x >>= f` is a call of `x`, and then one of `f`. -/
def Splits (M : Machine S σ) (p : Pid) (k : β → Prog S Unit) (c : Config S σ) (x : Prog S α)
    (f : α → Prog S β) (seen : List σ) (b : β) (c' : Config S σ) : Prop :=
  ∃ a c₁ seen₁ seen₂, Call M p (fun a => f a >>= k) c x seen₁ a c₁ ∧
    Call M p k c₁ (f a) seen₂ b c' ∧ seen₁ ⊆ seen ∧ seen₂ ⊆ seen

theorem splits_ret {k : β → Prog S Unit} {f : α → Prog S β} {b : β}
    (h : Call M p k c (f a) seen b c') : Splits M p k c (.ret a) f seen b c' := by
  refine ⟨a, c, [c.shared], seen, .ret h.procs, h, ?_, List.Subset.refl _⟩
  intro s hs
  rw [List.mem_singleton.mp hs]
  exact h.first_mem

theorem splits {k : β → Prog S Unit} {f : α → Prog S β} {b : β}
    (h : Call M p k c (x >>= f) seen b c') : Splits M p k c x f seen b c' := by
  induction x generalizing c seen with
  | ret a => exact splits_ret h
  | op o g ih =>
    -- the steps of the others, up to the first operation of `x`
    generalize hy : Prog.op o g >>= f = y at h
    induction h with
    | ret hp => cases hy
    | @own c c' o f r s' seen a hp hn h _ =>
      cases hy
      obtain ⟨a, c₁, seen₁, seen₂, h1, h2, hs1, hs2⟩ := ih r h
      have hset : (g r).bind f >>= k = g r >>= fun a => f a >>= k := bind_assoc _ _ _
      rw [hset] at h1
      refine ⟨a, c₁, _, seen₂, .own ?_ hn h1, h2, List.cons_subset_cons _ hs1,
        List.subset_cons_of_subset _ hs2⟩
      rw [hp]
      exact congrArg _ (funext fun r => bind_assoc _ _ _)
    | other hq hs h ihh =>
      obtain ⟨a, c₁, seen₁, seen₂, h1, h2, hs1, hs2⟩ := ihh ih hy
      exact ⟨a, c₁, _, seen₂, .other hq hs h1, h2, List.cons_subset_cons _ hs1,
        List.subset_cons_of_subset _ hs2⟩

end Call

/-- Whatever a call of `x` by `p` returns, `R` was true of it in one of the states of the call. -/
def Witnessed (M : Machine S σ) (p : Pid) (x : Prog S α) (R : α → σ → Prop) : Prop :=
  ∀ (k : α → Prog S Unit) (c c' : Config S σ) (seen : List σ) (a : α),
    Call M p k c x seen a c' → ∃ s ∈ seen, R a s

namespace Witnessed

variable {M : Machine S σ} {p : Pid} {x : Prog S α} {R : α → σ → Prop}

theorem ret {a : α} (h : ∀ s, R a s) : Witnessed M p (pure a) R :=
  fun _ _ _ _ _ hcall => ⟨_, hcall.first_mem, by cases hcall; exact h _⟩

theorem call {o : S.Op} {R : S.Res o → σ → Prop}
    (h : ∀ r s s', M.next p o r s = some s' → R r s) : Witnessed M p (Prog.call o) R := by
  intro k c c' seen a hcall
  generalize hy : Prog.call o = y at hcall
  induction hcall with
  | ret hp => cases hy
  | own hp hn hrest _ =>
    cases hy
    cases hrest
    exact ⟨_, List.mem_cons_self, h _ _ _ hn⟩
  | other hq hs hrest ih =>
    obtain ⟨s, hmem, hs⟩ := ih hy
    exact ⟨s, List.mem_cons_of_mem _ hmem, hs⟩

/-- The answer `b` of `f a` was right during `f`, or it was right when `a` was. -/
theorem bind {f : α → Prog S β} {R' : β → σ → Prop} (hx : Witnessed M p x R)
    (hf : ∀ a, Witnessed M p (f a) fun b s => R' b s ∨ ∀ s1, R a s1 → R' b s1) :
    Witnessed M p (x >>= f) R' := by
  intro k c c' seen b hcall
  obtain ⟨a, c₁, seen₁, seen₂, h1, h2, hs1, hs2⟩ := hcall.splits
  obtain ⟨s1, hmem1, ha⟩ := hx _ _ _ _ _ h1
  obtain ⟨s2, hmem2, hb | hb⟩ := hf a _ _ _ _ _ h2
  · exact ⟨s2, hs2 hmem2, hb⟩
  · exact ⟨s1, hs1 hmem1, hb s1 ha⟩

theorem later {f : α → Prog S β} {R' : β → σ → Prop} (hf : ∀ a, Witnessed M p (f a) R') :
    Witnessed M p (x >>= f) R' := by
  intro k c c' seen b hcall
  obtain ⟨a, c₁, seen₁, seen₂, -, h2, -, hs2⟩ := hcall.splits
  obtain ⟨s, hmem, hb⟩ := hf a _ _ _ _ _ h2
  exact ⟨s, hs2 hmem, hb⟩

theorem mono {R' : α → σ → Prop} (hx : Witnessed M p x R) (h : ∀ a s, R a s → R' a s) :
    Witnessed M p x R' := by
  intro k c c' seen a hcall
  obtain ⟨s, hmem, hs⟩ := hx k c c' seen a hcall
  exact ⟨s, hmem, h a s hs⟩

theorem ite {b : Prop} [Decidable b] {y : Prog S α} (hx : b → Witnessed M p x R)
    (hy : ¬ b → Witnessed M p y R) : Witnessed M p (if b then x else y) R := by
  by_cases hb : b
  · rw [if_pos hb]
    exact hx hb
  · rw [if_neg hb]
    exact hy hb

end Witnessed

section replay

variable [DecidableEq S.Op] {M : Machine S σ} {p : Pid} {k : α → Prog S Unit}

/-- What is left of a call after a move of its own process. -/
def Prog.after : Prog S α → Move S → Option (Prog S α)
  | .op o f, .run _ o' r => if h : o' = o then some (f (h ▸ r)) else none
  | _, _ => none

/-- Replay a schedule from the beginning of a call of `p` to its return. -/
def playCall (M : Machine S σ) (p : Pid) :
    List (Move S) → Config S σ → Prog S α → Option (List σ × α × Config S σ)
  | [], c, .ret a => some ([c.shared], a, c)
  | m :: ms, c, .op o f =>
    (move M c m).bind fun c₁ =>
      (if m.pid = p then Prog.after (.op o f) m else some (.op o f)).bind fun x =>
        (playCall M p ms c₁ x).map fun y => (c.shared :: y.1, y.2)
  | _, _, _ => none

theorem playCall_cons {m : Move S} {ms : List (Move S)} {c c' : Config S σ} {o : S.Op}
    {f : S.Res o → Prog S α} {seen : List σ} {a : α}
    (h : playCall M p (m :: ms) c (.op o f) = some (seen, a, c')) :
    ∃ c₁ x seen₁, move M c m = some c₁ ∧
      (if m.pid = p then Prog.after (.op o f) m else some (.op o f)) = some x ∧
      playCall M p ms c₁ x = some (seen₁, a, c') ∧ seen = c.shared :: seen₁ := by
  obtain ⟨c₁, hmove, h⟩ := Option.bind_eq_some_iff.mp h
  obtain ⟨x, hx, h⟩ := Option.bind_eq_some_iff.mp h
  obtain ⟨⟨seen₁, a1, c₂⟩, hrest, hy⟩ := Option.map_eq_some_iff.mp h
  cases hy
  exact ⟨c₁, x, seen₁, hmove, hx, hrest, rfl⟩

theorem playCall_call {ms : List (Move S)} {c c' : Config S σ} {x : Prog S α} {seen : List σ}
    {a : α} (hc : c.procs p = x >>= k) (h : playCall M p ms c x = some (seen, a, c')) :
    Call M p k c x seen a c' := by
  induction ms generalizing c x seen with
  | nil =>
    cases x with
    | ret a =>
      cases h
      exact .ret hc
    | op o f => cases h
  | cons m ms ih =>
    cases x with
    | ret a => cases h
    | op o f =>
      obtain ⟨c₁, x, seen₁, hmove, hx, hrest, rfl⟩ := playCall_cons h
      have hstep := move_stepOf hmove
      by_cases hp : m.pid = p
      · rw [if_pos hp] at hx
        cases m with
        | die q => cases hx
        | run q o' r =>
          obtain rfl : q = p := hp
          simp only [Prog.after] at hx
          split at hx
          · rename_i ho
            subst ho
            cases hx
            have hc' : c.procs q = .op o' fun r => f r >>= k := hc
            simp only [move, hc', dite_true] at hmove
            obtain ⟨s', hn, rfl⟩ := Option.map_eq_some_iff.mp hmove
            exact .own hc' hn (ih (c.set_procs_self _ _ _) hrest)
          · cases hx
      · rw [if_neg hp] at hx
        cases hx
        refine .other (Ne.symm hp) hstep (ih ?_ hrest)
        rw [hstep.procs_ne (Ne.symm hp)]
        exact hc

theorem playCall_seen (ms : List (Move S)) (x : Prog S α) {c : Config S σ}
    (f : List σ → α → Bool) (hc : c.procs p = x >>= k)
    (h : (playCall M p ms c x).any (fun y => f y.1 y.2.1) = true) :
    ∃ seen a c', Call M p k c x seen a c' ∧ f seen a = true := by
  obtain ⟨hsome, hf⟩ := (Option.any_eq_true_iff_get _ _).mp h
  exact ⟨_, _, _, playCall_call hc (Option.some_get hsome).symm, hf⟩

theorem play_procs {ms : List (Move S)} {c c' : Config S σ}
    (hms : ms.all (fun m => !decide (m.pid = p)) = true) (h : play M c ms = some c') :
    c'.procs p = c.procs p := by
  induction ms generalizing c with
  | nil =>
    cases h
    rfl
  | cons m ms ih =>
    obtain ⟨c₁, hmove, hrest⟩ := Option.bind_eq_some_iff.mp h
    rw [List.all_cons, Bool.and_eq_true] at hms
    have hne : p ≠ m.pid := by
      intro heq
      simp [heq] at hms
    rw [ih hms.2 hrest, (move_stepOf hmove).procs_ne hne]

/-- Replay a schedule without `p` up to a call of `p`, and then the call. -/
theorem playCall_exists (ms ms' : List (Move S)) (x : Prog S α) {c : Config S σ}
    (f : Config S σ → List σ → α → Config S σ → Bool) (hc : c.procs p = x >>= k)
    (hms : ms.all (fun m => !decide (m.pid = p)) = true) (h : ((play M c ms).bind fun c0 =>
      (playCall M p ms' c0 x).map fun y => f c0 y.1 y.2.1 y.2.2) = some true) :
    ∃ c0 c' seen a, Reach M c c0 ∧ Call M p k c0 x seen a c' ∧ f c0 seen a c' = true := by
  obtain ⟨c0, hplay, h⟩ := Option.bind_eq_some_iff.mp h
  obtain ⟨⟨seen, a, c'⟩, hcall, hf⟩ := Option.map_eq_some_iff.mp h
  have hc0 : c0.procs p = x >>= k := (play_procs hms hplay).trans hc
  exact ⟨c0, c', seen, a, play_reach hplay, playCall_call hc0 hcall, hf⟩

end replay

end Conc
