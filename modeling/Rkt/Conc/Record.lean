import Rkt.Conc.Calls

set_option autoImplicit false

namespace Conc

open Proto

variable {S : Sig} {σ α : Type}

/-- `M`, with the moves on record. -/
def Machine.recorded (M : Machine S σ) : Machine S (σ × List (Move S)) where
  next p o r s := (M.next p o r s.1).map fun s' => (s', s.2 ++ [.run p o r])
  die p s := (M.die p s.1, s.2 ++ [.die p])

/-- The configuration, with the moves `ms` on record. -/
def Config.recorded (c : Config S σ) (ms : List (Move S)) : Config S (σ × List (Move S)) :=
  ⟨(c.shared, ms), c.procs⟩

def Machine.Moves (M : Machine S σ) : Move S → σ → σ → Prop
  | .run p o r, s, s' => M.next p o r s = some s'
  | .die p, s, s' => s' = M.die p s

variable {M : Machine S σ} {p q : Pid} {o : S.Op} {r : S.Res o}

theorem recorded_next {s s' : σ × List (Move S)} (h : M.recorded.next p o r s = some s') :
    M.next p o r s.1 = some s'.1 ∧ s'.2 = s.2 ++ [.run p o r] := by
  obtain ⟨s1, hn, rfl⟩ := Option.map_eq_some_iff.mp h
  exact ⟨hn, rfl⟩

section replay

variable [DecidableEq S.Op]

theorem move_recorded (c : Config S σ) (ms : List (Move S)) (m : Move S) :
    move M.recorded (c.recorded ms) m = (move M c m).map fun c' => c'.recorded (ms ++ [m]) := by
  cases m with
  | die q => rfl
  | run q o r =>
    simp only [move, Config.recorded]
    cases hp : c.procs q with
    | ret a => rfl
    | op o' k =>
      by_cases ho : o = o'
      · subst ho
        simp only [dite_true, Machine.recorded, Option.map_map]
        rfl
      · simp only [ho, dite_false, Option.map_none]

theorem playCall_recorded {ms : List (Move S)} {c c' : Config S σ} {x : Prog S α} {seen : List σ}
    {a : α} (h : playCall M p ms c x = some (seen, a, c')) (old : List (Move S)) :
    ∃ seen', playCall M.recorded p ms (c.recorded old) x =
      some (seen', a, c'.recorded (old ++ ms)) := by
  induction ms generalizing c x seen old with
  | nil =>
    cases x with
    | ret a =>
      cases h
      rw [List.append_nil]
      exact ⟨_, rfl⟩
    | op o f => cases h
  | cons m ms ih =>
    cases x with
    | ret a => cases h
    | op o f =>
      obtain ⟨c1, x, seen1, hmove, hx, hrest, rfl⟩ := playCall_cons h
      obtain ⟨seen', hrest'⟩ := ih hrest (old ++ [m])
      refine ⟨(c.recorded old).shared :: seen', ?_⟩
      rw [List.append_assoc] at hrest'
      simp only [playCall, move_recorded, hmove, Option.map_some, Option.bind_some, hx, hrest']
      rfl

theorem playCall_returns {ms : List (Move S)} {c : Config S σ} {x : Prog S α} {a : α}
    (h : (playCall M p ms c x).map (fun y => y.2.1) = some a) :
    ∃ seen c', playCall M p ms c x = some (seen, a, c') := by
  obtain ⟨⟨seen, a', c'⟩, hplay, rfl⟩ := Option.map_eq_some_iff.mp h
  exact ⟨seen, c', hplay⟩

end replay

variable (M) in
/-- The processes make moves of the machine, and their moves are on record. -/
def free : Proto M.recorded where
  inv _ := True
  guar q s s' := ∃ m : Move S, m.pid = q ∧ s'.2 = s.2 ++ [m] ∧ M.Moves m s.1 s'.1
  inv_die _ _ _ := trivial
  guar_die p _ _ := ⟨.die p, rfl, rfl, rfl⟩

theorem free_safe (x : Prog S α) (s : σ × List (Move S)) :
    (free M).Safe p x (fun _ _ => True) s := by
  induction x generalizing s with
  | ret a => trivial
  | op o k ih =>
    intro s1 _ _ r s' hn
    obtain ⟨hn, hrec⟩ := recorded_next hn
    exact ⟨trivial, ⟨.run p o r, rfl, hrec, hn⟩, ih r s'⟩

theorem free_keeps {F : σ × List (Move S) → Prop} (hF : (free M).Lasting F) (x : Prog S α) :
    (free M).Triple p F x fun _ => F := by
  have hall : (free M).Triple p (fun _ => True) x fun _ _ => True := fun s _ => free_safe x s
  exact (hall.frame hF).conseq (fun _ h => ⟨trivial, h⟩) fun _ _ h => h.2

theorem free_call {A : σ × List (Move S) → Prop} {Q : S.Res o → σ × List (Move S) → Prop}
    (hst : (free M).Stable p A)
    (h : ∀ s ms r s', A (s, ms) → M.next p o r s = some s' → Q r (s', ms ++ [.run p o r])) :
    (free M).Triple p A (Prog.call o) Q := by
  refine Triple.call hst fun s r s' _ hs hn => ?_
  obtain ⟨hn, hrec⟩ := recorded_next hn
  refine ⟨trivial, ⟨.run p o r, rfl, hrec, hn⟩, ?_⟩
  have hQ := h s.1 s.2 r s'.1 hs hn
  rwa [← hrec] at hQ

/-- **A triple holds in any company**: of every call that can be replayed, with its schedule on
record. -/
theorem playCall_holds [DecidableEq S.Op] {x : Prog S α} {k : α → Prog S Unit}
    {A : σ × List (Move S) → Prop} {Q : α → σ × List (Move S) → Prop}
    (hx : (free M).Triple p A x Q) {ms : List (Move S)} {c c' : Config S σ} {seen : List σ} {a : α}
    (hc : c.procs p = x >>= k) (hA : A (c.shared, []))
    (h : playCall M p ms c x = some (seen, a, c')) : Q a (c'.shared, ms) := by
  obtain ⟨seen', h'⟩ := playCall_recorded h []
  have hcall : Call M.recorded p k (c.recorded []) x seen' a (c'.recorded ms) :=
    playCall_call hc h'
  have hok : (free M).OkBut p (c.recorded []) := ⟨trivial, fun q _ => free_safe _ _⟩
  exact ((hx (c.recorded []).shared hA).call hok hcall).1

def Move.meets (p : Pid) (bad : (o : S.Op) → S.Res o → Bool) : Move S → Bool
  | .run q o r => decide (q = p) && bad o r
  | .die _ => false

/-- A move of `p` with `bad` is on record. -/
def Made (p : Pid) (bad : (o : S.Op) → S.Res o → Bool) (ms : List (Move S)) : Prop :=
  ∃ m ∈ ms, m.meets p bad = true

variable {bad : (o : S.Op) → S.Res o → Bool}

instance {ms : List (Move S)} : Decidable (Made p bad ms) :=
  inferInstanceAs (Decidable (∃ m ∈ ms, m.meets p bad = true))

theorem not_made_nil : ¬ Made p bad [] := by simp [Made]

theorem made_append {ms ms' : List (Move S)} :
    Made p bad (ms ++ ms') ↔ Made p bad ms ∨ Made p bad ms' := by
  simp only [Made, List.mem_append, or_and_right, exists_or]

theorem made_single {m : Move S} : Made p bad [m] ↔ m.meets p bad = true := by simp [Made]

theorem made_last {ms : List (Move S)} : Made p bad (ms ++ [.run p o r]) ↔
    Made p bad ms ∨ bad o r = true := by
  rw [made_append, made_single]
  simp [Move.meets]

theorem meets_other {m : Move S} (h : m.pid ≠ p) : m.meets p bad = false := by
  cases m with
  | run q o r =>
    have hq : q ≠ p := h
    simp [Move.meets, hq]
  | die q => rfl

theorem made_lasting : (free M).Lasting fun s => Made p bad s.2 := by
  rintro q s s' - - ⟨m, -, hrec, -⟩ h
  show Made p bad s'.2
  rw [hrec]
  exact made_append.mpr (.inl h)

theorem not_made_stable : (free M).Stable p fun s => ¬ Made p bad s.2 := by
  rintro q s s' hq - - ⟨m, hm, hrec, -⟩ h
  show ¬ Made p bad s'.2
  rw [hrec, made_append, made_single, meets_other (by rw [hm]; exact hq)]
  simpa using h

end Conc
