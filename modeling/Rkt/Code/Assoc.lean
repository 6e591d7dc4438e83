import Mathlib.Data.List.Nodup
import Mathlib.Logic.Function.Basic

set_option autoImplicit false

namespace Assoc

variable {α β : Type*}

def Distinct (l : List (α × β)) : Prop := (l.map Prod.fst).Nodup

variable {l : List (α × β)} {k : α} {v : β}

variable {l' : List (α × β)}

theorem Distinct.of_append_left (h : Distinct (l ++ l')) : Distinct l := by
  unfold Distinct at h
  rw [List.map_append] at h
  exact h.of_append_left

theorem Distinct.of_append_right (h : Distinct (l ++ l')) : Distinct l' := by
  unfold Distinct at h
  rw [List.map_append] at h
  exact h.of_append_right

theorem Distinct.perm (h : Distinct l) (hl : l.Perm l') : Distinct l' :=
  (hl.map Prod.fst).nodup_iff.mp h

section

variable [BEq α] [LawfulBEq α]

theorem mem_of_lookup (h : l.lookup k = some v) : (k, v) ∈ l := by
  obtain ⟨l1, l2, rfl, -⟩ := List.lookup_eq_some_iff.mp h
  simp

theorem mem_keys_iff : k ∈ l.map Prod.fst ↔ ∃ v, l.lookup k = some v := by
  rw [← Option.isSome_iff_exists, List.lookup_isSome_iff, List.mem_map]
  simp only [beq_iff_eq, eq_comm (a := k)]

theorem lookup_eq_none_iff : l.lookup k = none ↔ k ∉ l.map Prod.fst := by
  rw [mem_keys_iff, ← Option.isSome_iff_exists, Option.not_isSome_iff_eq_none]

theorem lookup_eq_some_iff (h : Distinct l) : l.lookup k = some v ↔ (k, v) ∈ l := by
  refine ⟨mem_of_lookup, fun hmem => ?_⟩
  obtain ⟨v', hv'⟩ := mem_keys_iff.mp (List.mem_map_of_mem (f := Prod.fst) hmem)
  have heq := List.inj_on_of_nodup_map h hmem (mem_of_lookup hv') rfl
  rw [hv', (Prod.mk.inj heq).2]

theorem lookup_perm {l' : List (α × β)} (h : Distinct l) (hl : l.Perm l') (k : α) :
    l.lookup k = l'.lookup k := by
  have h' := h.perm hl
  ext v
  rw [lookup_eq_some_iff h, lookup_eq_some_iff h', hl.mem_iff]

theorem lookup_cons [DecidableEq α] (p : α × β) (l : List (α × β)) (k : α) :
    (p :: l).lookup k = if k = p.1 then some p.2 else l.lookup k := by
  rw [List.lookup_cons]
  by_cases hk : k = p.1
  · rw [if_pos hk, beq_iff_eq.mpr hk]
  · rw [if_neg hk, beq_eq_false_iff_ne.mpr hk]

end

variable [DecidableEq α]

/-- Overwrite the value of a key, or append the pair. -/
def set : List (α × β) → α → β → List (α × β)
  | [], k, v => [(k, v)]
  | p :: l, k, v => if p.1 = k then (k, v) :: l else p :: set l k v

theorem lookup_set [BEq α] [LawfulBEq α] (l : List (α × β)) (k : α) (v : β) (j : α) :
    (set l k v).lookup j = if j = k then some v else l.lookup j := by
  induction l with
  | nil => rw [set, lookup_cons]
  | cons p l ih =>
    by_cases hp : p.1 = k
    · rw [set, if_pos hp, lookup_cons, lookup_cons, hp]
      split_ifs <;> rfl
    · rw [set, if_neg hp, lookup_cons, lookup_cons, ih]
      by_cases hj : j = p.1
      · rw [if_pos hj, if_neg (hj ▸ hp), if_pos hj]
      · rw [if_neg hj, if_neg hj]

theorem mem_set {p : α × β} (h : p ∈ set l k v) : p = (k, v) ∨ p ∈ l := by
  induction l with
  | nil => exact .inl (List.mem_singleton.mp h)
  | cons q l ih =>
    rw [set] at h
    split_ifs at h with hq
    · rcases List.mem_cons.mp h with h | h
      · exact .inl h
      · exact .inr (List.mem_cons_of_mem _ h)
    · rcases List.mem_cons.mp h with rfl | h
      · exact .inr List.mem_cons_self
      · exact (ih h).imp_right (List.mem_cons_of_mem _)

theorem Distinct.set (h : Distinct l) (k : α) (v : β) : Distinct (set l k v) := by
  induction l with
  | nil => exact List.nodup_singleton k
  | cons p l ih =>
    obtain ⟨hp, hl⟩ := List.nodup_cons.mp h
    rw [Assoc.set]
    split_ifs with hk
    · subst hk
      exact h
    · refine List.nodup_cons.mpr ⟨fun hmem => hp ?_, ih hl⟩
      obtain ⟨q, hq, hqp⟩ := List.mem_map.mp hmem
      rcases mem_set hq with rfl | hq
      · exact absurd hqp.symm hk
      · exact hqp ▸ List.mem_map_of_mem hq

/-- Overwrite the values of several keys, one after the other. -/
def setAll (l ps : List (α × β)) : List (α × β) := ps.foldl (fun l p => set l p.1 p.2) l

/-- The values that were written, and the old ones for the other keys. -/
theorem lookup_setAll [BEq α] [LawfulBEq α] {ps : List (α × β)} (h : Distinct ps)
    (l : List (α × β)) (k : α) : (setAll l ps).lookup k = (ps.lookup k).or (l.lookup k) := by
  induction ps generalizing l with
  | nil => rfl
  | cons p ps ih =>
    obtain ⟨hp, hps⟩ := List.nodup_cons.mp h
    show (setAll (set l p.1 p.2) ps).lookup k = _
    rw [ih hps, lookup_cons, lookup_set]
    by_cases hk : k = p.1
    · -- no later pair has the key
      rw [if_pos hk, if_pos hk, hk, lookup_eq_none_iff.mpr hp]
      rfl
    · rw [if_neg hk, if_neg hk]

theorem set_of_notMem (h : k ∉ l.map Prod.fst) (v : β) : set l k v = l ++ [(k, v)] := by
  induction l with
  | nil => rfl
  | cons p l ih =>
    rw [List.map_cons, List.mem_cons, not_or] at h
    rw [set, if_neg (Ne.symm h.1), ih h.2, List.cons_append]

/-- Give a value to several keys. A key that has a value already is an error. -/
def insertAll (v : β) : List α → List (α × β) → Except α (List (α × β))
  | [], l => .ok l
  | k :: ks, l => if (l.lookup k).isSome then .error k else insertAll v ks (set l k v)

theorem insertAll_ok_iff {ks : List α} (h : Distinct l) : insertAll v ks l = .ok l' ↔
      Distinct (l ++ ks.map fun k => (k, v)) ∧ l' = l ++ ks.map fun k => (k, v) := by
  induction ks generalizing l with
  | nil =>
    rw [insertAll, List.map_nil, List.append_nil, Except.ok.injEq]
    exact ⟨fun heq => ⟨h, heq.symm⟩, fun hl => hl.2.symm⟩
  | cons k ks ih =>
    unfold insertAll
    have hmem : (l.lookup k).isSome = true ↔ k ∈ l.map Prod.fst := by
      rw [Option.isSome_iff_exists, mem_keys_iff]
    by_cases hk : k ∈ l.map Prod.fst
    · rw [if_pos (hmem.mpr hk)]
      refine iff_of_false (by simp) fun hl => ?_
      have hnodup := hl.1
      unfold Distinct at hnodup
      rw [List.map_append, List.map_cons, List.map_cons] at hnodup
      exact List.disjoint_of_nodup_append hnodup hk List.mem_cons_self
    · have hset : set l k v = l ++ [(k, v)] := set_of_notMem hk v
      rw [if_neg (mt hmem.mp hk), ih (hset ▸ h.set k v), hset, List.append_assoc]
      rfl

def put (m : α → Option β) (p : α × β) : α → Option β := Function.update m p.1 (some p.2)

theorem foldl_put_eq_lookup [BEq α] [LawfulBEq α] (h : Distinct l) :
    l.foldl put (fun _ => none) = fun k => l.lookup k := by
  have hput : ∀ m k, l.foldl put m k = (l.lookup k).or (m k) := by
    induction l with
    | nil => intro m k; rfl
    | cons p l ih =>
      obtain ⟨hp, hl⟩ := List.nodup_cons.mp h
      intro m k
      rw [List.foldl_cons, ih hl, lookup_cons]
      by_cases hk : k = p.1
      · -- no later pair has the key
        rw [if_pos hk, hk, lookup_eq_none_iff.mpr hp, put, Function.update_self]
        rfl
      · rw [if_neg hk, put, Function.update_of_ne hk]
  funext k
  rw [hput, Option.or_none]

end Assoc
