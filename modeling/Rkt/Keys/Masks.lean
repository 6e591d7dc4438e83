import Rkt.Keys.Trust

set_option autoImplicit false

namespace Rkt.Keys

open Path Result

namespace Keystore

variable (ks : Keystore)

/-- The files of the name `fp` that are met for an image with components `comps`: in the place with
the number `i`, at the path `P`. -/
def Meets (comps : List Str) (fp : Str) : Nat × List Str → Bool → Prop
  | (0, P), b => MetAt (render ks.config.systemRootPath) ks.config.systemRootPath
      ks.systemRoot fp P b
  | (1, P), b => MetAt (render ks.config.localRootPath) ks.config.localRootPath
      ks.localRoot fp P b
  | (2, P), b => MetAt (render (clean (ks.config.systemPrefixPath ++ comps)))
      (ks.config.systemPrefixPath ++ [comps.head?.getD []])
      (ks.systemPrefix.bind (Node.lookup (comps.head?.getD []))) fp P b
  | (3, P), b => MetAt (render (clean (ks.config.localPrefixPath ++ comps)))
      (ks.config.localPrefixPath ++ [comps.head?.getD []])
      (ks.localPrefix.bind (Node.lookup (comps.head?.getD []))) fp P b
  | _, _ => False

/-- The order of the walks: by the places, and in each place by the paths. -/
def Before (p q : Nat × List Str) : Prop := p.1 < q.1 ∨ p.1 = q.1 ∧ p.2 < q.2

end Keystore

open Keystore

section

variable {keys keys' k : Finset Str} {met : Str → List Str → Bool → Prop}
  {met₁ met₂ : Str → Nat × List Str → Bool → Prop}

/-- The walk over one of the places. -/
theorem Walked.place (i : Nat) (h : Walked (· < ·) keys keys' met) :
    Walked Before keys keys' fun fp p b => p.1 = i ∧ met fp p.2 b := by
  intro fp
  obtain ⟨l, hl, hmem, hkeys⟩ := h fp
  refine ⟨l.map fun e => ((i, e.1), e.2), ?_, ?_, ?_⟩
  · rw [List.pairwise_map]
    exact hl.imp fun hlt => .inr ⟨rfl, hlt⟩
  · rintro ⟨j, P⟩ b
    rw [List.mem_map]
    constructor
    · rintro ⟨⟨P', b'⟩, he, heq⟩
      cases heq
      exact ⟨rfl, (hmem P' b').mp he⟩
    · rintro ⟨rfl, hP⟩
      exact ⟨(P, b), (hmem P b).mpr hP, rfl⟩
  · rw [List.map_map]
    exact hkeys

theorem Walked.trans (h₁ : Walked Before keys k met₁) (h₂ : Walked Before k keys' met₂)
    (hplaces : ∀ fp p q b b', met₁ fp p b → met₂ fp q b' → p.1 < q.1) :
    Walked Before keys keys' fun fp p b => met₁ fp p b ∨ met₂ fp p b := by
  intro fp
  obtain ⟨l₁, hl₁, hmem₁, hkeys₁⟩ := h₁ fp
  obtain ⟨l₂, hl₂, hmem₂, hkeys₂⟩ := h₂ fp
  refine ⟨l₁ ++ l₂, List.pairwise_append.mpr ⟨hl₁, hl₂, fun x hx y hy => ?_⟩, fun p b => ?_, ?_⟩
  · exact .inl (hplaces fp _ _ _ _ ((hmem₁ _ _).mp hx) ((hmem₂ _ _).mp hy))
  · rw [List.mem_append, hmem₁, hmem₂]
  · rw [List.map_append, after_append, hkeys₂]
    exact after_congr hkeys₁ _

end

section

variable {c c' : Content} {q : Str} {ns : List Str}

end

end Rkt.Keys
