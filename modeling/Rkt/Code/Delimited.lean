import Mathlib.Data.List.Forall2
import Mathlib.Data.Set.Basic

set_option autoImplicit false

namespace Code

variable {α β γ : Type*}

/-- What comes after the code of an element of `S` is determined, and the element up to `R`. -/
def Delimits (S : Set α) (R : α → α → Prop) (f : α → List β) : Prop :=
  ∀ a ∈ S, ∀ a' ∈ S, ∀ x x', f a ++ x = f a' ++ x' → R a a' ∧ x = x'

variable {S : Set α} {R R' : α → α → Prop} {f g : α → List β}

theorem Delimits.of_read (read : List β → Option (α × List β))
    (h : ∀ a ∈ S, ∀ x, read (f a ++ x) = some (a, x)) : Delimits S Eq f := by
  intro a ha a' ha' x x' heq
  have hread : some (a, x) = some (a', x') := by rw [← h a ha, ← h a' ha', heq]
  simpa using hread

theorem Delimits.const (l : List β) : Delimits S (fun _ _ => True) fun _ => l := by
  intro a _ a' _ x x' h
  exact ⟨trivial, List.append_cancel_left h⟩

theorem Delimits.comap {T : Set γ} {Q : γ → γ → Prop} {k : γ → List β} (hk : Delimits T Q k)
    (p : α → γ) (hp : ∀ a ∈ S, p a ∈ T) : Delimits S (fun a a' => Q (p a) (p a')) fun a =>
      k (p a) := by
  intro a ha a' ha' x x' h
  exact hk (p a) (hp a ha) (p a') (hp a' ha') x x' h

theorem Delimits.mono (hf : Delimits S R f) (h : ∀ a ∈ S, ∀ a' ∈ S, R a a' → R' a a') :
    Delimits S R' f := by
  intro a ha a' ha' x x' heq
  obtain ⟨hR, hx⟩ := hf a ha a' ha' x x' heq
  exact ⟨h a ha a' ha' hR, hx⟩

/-- What the first code says may be needed to see where the second ends. -/
theorem Delimits.append_of (hf : Delimits S R f)
    (hg : ∀ a ∈ S, ∀ a' ∈ S, R a a' → ∀ x x', g a ++ x = g a' ++ x' → R' a a' ∧ x = x') :
    Delimits S (fun a a' => R a a' ∧ R' a a') fun a => f a ++ g a := by
  intro a ha a' ha' x x' h
  rw [List.append_assoc, List.append_assoc] at h
  obtain ⟨hR, hrest⟩ := hf a ha a' ha' _ _ h
  obtain ⟨hR', hx⟩ := hg a ha a' ha' hR x x' hrest
  exact ⟨⟨hR, hR'⟩, hx⟩

theorem Delimits.append (hf : Delimits S R f) (hg : Delimits S R' g) :
    Delimits S (fun a a' => R a a' ∧ R' a a') fun a => f a ++ g a :=
  hf.append_of fun a ha a' ha' _ => hg a ha a' ha'

/-- The codes of a list, with a terminator that none of them begins with; by induction on one of
the lists. -/
theorem Delimits.list {c : β} (hf : Delimits S R f) (hc : ∀ a ∈ S, ∃ b l, f a = b :: l ∧ b ≠ c) :
    Delimits {l : List α | ∀ a ∈ l, a ∈ S} (List.Forall₂ R) fun l => l.flatMap f ++ [c] := by
  intro l hl
  induction l with
  | nil =>
    intro l' hl' x x' h
    cases l' with
    | nil => exact ⟨.nil, by simpa using h⟩
    | cons a' l' =>
      obtain ⟨b, t, hb, hne⟩ := hc a' (hl' a' List.mem_cons_self)
      simp [hb, Ne.symm hne] at h
  | cons a l ih =>
    intro l' hl' x x' h
    have ha := hl a List.mem_cons_self
    have hl := fun a ha => hl a (List.mem_cons_of_mem _ ha)
    cases l' with
    | nil =>
      obtain ⟨b, t, hb, hne⟩ := hc a ha
      simp [hb, hne] at h
    | cons a' l' =>
      have ha' := hl' a' List.mem_cons_self
      have hl' := fun a ha => hl' a (List.mem_cons_of_mem _ ha)
      simp only [List.flatMap_cons, List.append_assoc] at h
      obtain ⟨hR, hrest⟩ := hf a ha a' ha' _ _ h
      obtain ⟨hRs, hx⟩ := ih hl l' hl' x x' (by simpa using hrest)
      exact ⟨.cons hR hRs, hx⟩

theorem intercalate_cons (c : β) (l : List β) (ls : List (List β)) :
    List.intercalate [c] (l :: ls) = l ++ ls.flatMap (c :: ·) := by
  induction ls generalizing l with
  | nil => simp
  | cons l' ls ih => simp [List.intercalate_cons_cons, ih]

/-- The codes of a list with `c` between them and the terminator `e`. -/
theorem Delimits.separated {c e : β} (hce : c ≠ e) (hf : Delimits S R f)
    (he : ∀ a ∈ S, ∃ b l, f a = b :: l ∧ b ≠ e) :
    Delimits {l : List α | ∀ a ∈ l, a ∈ S} (List.Forall₂ R) fun l =>
      List.intercalate [c] (l.map f) ++ [e] := by
  intro l hl l' hl' x x' h
  -- after the first element each one begins with the separator
  have htail : Delimits {l : List α | ∀ a ∈ l, a ∈ S} (List.Forall₂ R) fun l =>
      l.flatMap (fun a => c :: f a) ++ [e] := by
    refine Delimits.list ?_ fun a _ => ⟨c, f a, rfl, hce⟩
    intro a ha a' ha' x x' h
    exact hf a ha a' ha' x x' (by simpa using h)
  cases l with
  | nil =>
    cases l' with
    | nil => exact ⟨.nil, by simpa using h⟩
    | cons a' l' =>
      obtain ⟨b, t, hb, hne⟩ := he a' (hl' a' List.mem_cons_self)
      simp [intercalate_cons, hb, Ne.symm hne] at h
  | cons a l =>
    cases l' with
    | nil =>
      obtain ⟨b, t, hb, hne⟩ := he a (hl a List.mem_cons_self)
      simp [intercalate_cons, hb, hne] at h
    | cons a' l' =>
      simp only [List.map_cons, intercalate_cons, List.flatMap_map, List.append_assoc] at h
      obtain ⟨hR, hrest⟩ :=
        hf a (hl a List.mem_cons_self) a' (hl' a' List.mem_cons_self) _ _ h
      obtain ⟨hRs, hx⟩ := htail l (fun a ha => hl a (List.mem_cons_of_mem _ ha)) l'
        (fun a ha => hl' a (List.mem_cons_of_mem _ ha)) x x' (by simpa using hrest)
      exact ⟨.cons hR hRs, hx⟩

/-- **A sequence of delimited codes that are not empty determines what is coded.** -/
theorem Delimits.sequence (hf : Delimits S R f) (hne : ∀ a ∈ S, f a ≠ []) :
    ∀ {l l' : List α}, (∀ a ∈ l, a ∈ S) → (∀ a ∈ l', a ∈ S) → l.flatMap f = l'.flatMap f →
      List.Forall₂ R l l' := by
  intro l
  induction l with
  | nil =>
    intro l' _ hl' h
    cases l' with
    | nil => exact .nil
    | cons a' l' =>
      have hnil := (List.append_eq_nil_iff.mp h.symm).1
      exact absurd hnil (hne a' (hl' a' List.mem_cons_self))
  | cons a l ih =>
    intro l' hl hl' h
    cases l' with
    | nil =>
      have hnil := (List.append_eq_nil_iff.mp h).1
      exact absurd hnil (hne a (hl a List.mem_cons_self))
    | cons a' l' =>
      obtain ⟨hR, hrest⟩ := hf a (hl a List.mem_cons_self) a' (hl' a' List.mem_cons_self) _ _ h
      exact .cons hR (ih (fun a ha => hl a (List.mem_cons_of_mem _ ha))
        (fun a ha => hl' a (List.mem_cons_of_mem _ ha)) hrest)

end Code
