import Rkt.Conc.Fallible

set_option autoImplicit false

namespace Conc.Prog

variable {S : Sig} {σ α β : Type}

/-- An operation that was performed, with its answer. -/
abbrev Done (S : Sig) : Type := (o : S.Op) × S.Res o

/-- `step`, with the operations on a list. -/
def traced (step : (o : S.Op) → S.Res o → σ → Option σ) (o : S.Op) (r : S.Res o)
    (s : σ × List (Done S)) : Option (σ × List (Done S)) :=
  (step o r s.1).map fun s' => (s', s.2 ++ [⟨o, r⟩])

def sight (f : (o : S.Op) → S.Res o → Option β) (t : List (Done S)) : List β :=
  t.filterMap fun d => f d.1 d.2

variable {step : (o : S.Op) → S.Res o → σ → Option σ} {f : (o : S.Op) → S.Res o → Option β}

theorem sight_append (t : List (Done S)) (o : S.Op) (r : S.Res o) :
    sight f (t ++ [⟨o, r⟩]) = sight f t ++ (f o r).toList := by
  rw [sight, List.filterMap_append]
  rfl

theorem Meets.traced_call (o : S.Op) (l : List β) :
    Meets (traced step) (fun s => sight f s.2 = l) (Prog.call o) fun r s =>
      sight f s.2 = l ++ (f o r).toList := by
  refine Meets.call fun s r s' hl hs => ?_
  obtain ⟨s1, -, rfl⟩ := Option.map_eq_some_iff.mp hs
  rw [sight_append, hl]

theorem Keeps.unseen {x : Prog S α} (hx : x.All fun o => ∀ r, f o r = none) :
    Keeps (traced step) (fun s => sight f s.2) x := by
  refine Keeps.of_all (fun o ho => Keeps.call fun s r s' hs => ?_) hx
  obtain ⟨s1, -, rfl⟩ := Option.map_eq_some_iff.mp hs
  rw [sight_append, ho r]
  exact List.append_nil _

end Conc.Prog
