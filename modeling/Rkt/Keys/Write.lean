import Rkt.Keys.Masks

set_option autoImplicit false

namespace Rkt.Keys

open Path

/-- Put a node under a name, in the place that the name has in the order. -/
def Entries.set (name : Str) (n : Node) : Entries → Entries
  | .nil => .cons name n .nil
  | .cons name' n' rest =>
    if name < name' then .cons name n (.cons name' n' rest)
    else if name' = name then .cons name n rest
    else .cons name' n' (rest.set name n)

/-- Write a file. The directories on the way must be there, unless they are made. -/
def Node.put (mkdir : Bool) (c : Content) : List Str → Node → Option Node
  | [name], .dir es =>
    match es.lookup name with
    | some (.dir _) => none
    | _ => some (.dir (es.set name (.file c)))
  | name :: path, .dir es =>
    match es.lookup name with
    | some n => (n.put mkdir c path).map fun n' => .dir (es.set name n')
    | none =>
      if mkdir then ((Node.dir .nil).put mkdir c path).map fun n' => .dir (es.set name n')
      else none
  | _, _ => none

theorem Entries.lookup_set (name x : Str) (n : Node) (es : Entries) :
    (es.set name n).lookup x = if name = x then some n else es.lookup x := by
  induction es using Entries.ind with
  | nil => rfl
  | cons name' n' rest ih =>
    unfold Entries.set
    by_cases hlt : name < name'
    · rw [if_pos hlt]
      rfl
    · rw [if_neg hlt]
      by_cases heq : name' = name
      · rw [if_pos heq]
        by_cases hx : name = x
        · simp [Entries.lookup, hx]
        · simp [Entries.lookup, hx, heq]
      · rw [if_neg heq, Entries.lookup, ih]
        by_cases hx : name' = x
        · have hne : name ≠ x := fun h => heq (hx.trans h.symm)
          simp [Entries.lookup, hx, hne]
        · simp [Entries.lookup, hx]

variable {es : Entries} {n : Node} {name : Str} {c : Content}

theorem Entries.names_set {name x : Str}
    (hx : x ∈ (es.set name n).names) : x = name ∨ x ∈ es.names := by
  induction es using Entries.ind with
  | nil => exact Or.inl (List.mem_singleton.mp hx)
  | cons name' n' rest ih =>
    unfold Entries.set at hx
    split_ifs at hx with hlt heq
    · exact List.mem_cons.mp hx
    · rcases List.mem_cons.mp hx with rfl | hx
      · exact Or.inl rfl
      · exact Or.inr (List.mem_cons_of_mem _ hx)
    · rcases List.mem_cons.mp hx with rfl | hx
      · exact Or.inr List.mem_cons_self
      · exact (ih hx).imp_right (List.mem_cons_of_mem _)

theorem Entries.wf_set (hname : Plain name)
    (hn : n.wf = true) (hwf : es.wf = true) : (es.set name n).wf = true := by
  induction es using Entries.ind with
  | nil => exact Entries.wf_cons.mpr ⟨hname, fun x hx => absurd hx List.not_mem_nil, hn, rfl⟩
  | cons name' n' rest ih =>
    obtain ⟨hplain, hlts, hn', hrest⟩ := Entries.wf_cons.mp hwf
    unfold Entries.set
    split_ifs with hlt heq
    · refine Entries.wf_cons.mpr ⟨hname, fun x hx => ?_, hn, hwf⟩
      rcases List.mem_cons.mp hx with rfl | hx
      · exact hlt
      · exact List.lt_trans hlt (hlts x hx)
    · subst heq
      exact Entries.wf_cons.mpr ⟨hname, hlts, hn, hrest⟩
    · refine Entries.wf_cons.mpr ⟨hplain, fun x hx => ?_, hn', ih hrest⟩
      rcases Entries.names_set hx with rfl | hx
      · -- the order of names is total
        by_contra hnot
        exact heq (List.le_antisymm (List.not_lt.mp hlt) (List.not_lt.mp hnot))
      · exact hlts x hx

/-- What is at a path below the entries after a node has been put there. -/
theorem Entries.has_set {name x : Str} (hname : Plain name)
    (hn : n.wf = true) (hwf : es.wf = true) (c : Content) (ns : List Str) :
    (es.set name n).Has c x ns ↔ if name = x then n.Has c ns else es.Has c x ns := by
  rw [Entries.has_iff_lookup (Entries.wf_set hname hn hwf), Entries.lookup_set]
  split_ifs with hx
  · simp
  · rw [Entries.has_iff_lookup hwf]

/-- The file `c` is at the path, and all other files are those of the node. -/
def Node.Puts (c : Content) (path : List Str) (n n' : Node) : Prop :=
  n'.wf = true ∧ ∀ c' path', n'.Has c' path' ↔ if path' = path then c' = c else n.Has c' path'

theorem Node.puts_file (hname : Plain name)
    (hwf : es.wf = true) (hfile : ∀ es', es.lookup name ≠ some (.dir es')) :
    Node.Puts c [name] (.dir es) (.dir (es.set name (.file c))) := by
  refine ⟨Entries.wf_set hname rfl hwf, fun c' path' => ?_⟩
  cases path' with
  | nil => simp [Node.Has]
  | cons x ns =>
    rw [Node.Has, Entries.has_set hname rfl hwf, Node.Has]
    by_cases hx : name = x
    · subst hx
      rw [if_pos rfl]
      cases ns with
      | nil => simp [Node.Has, eq_comm]
      | cons y ns =>
        -- there was a file before, or nothing
        have hnone : ¬ es.Has c' name (y :: ns) := by
          rw [Entries.has_iff_lookup hwf]
          rintro ⟨n, hn, hhas⟩
          cases n with
          | file c'' => exact hhas
          | dir es' => exact hfile es' hn
        simp [Node.Has, hnone]
    · have hne : x ≠ name := fun h => hx h.symm
      simp [hx, hne]

theorem Node.puts_below {path : List Str} {n n' : Node} (hname : Plain name) (hwf : es.wf = true)
    (hold : ∀ c' ns, es.Has c' name ns ↔ n.Has c' ns) (h : Node.Puts c path n n') :
    Node.Puts c (name :: path) (.dir es) (.dir (es.set name n')) := by
  refine ⟨Entries.wf_set hname h.1 hwf, fun c' path' => ?_⟩
  cases path' with
  | nil => simp [Node.Has]
  | cons x ns =>
    rw [Node.Has, Entries.has_set hname h.1 hwf, Node.Has]
    by_cases hx : name = x
    · subst hx
      simp only [if_true, h.2, hold, List.cons.injEq, true_and]
    · have hne : x ≠ name := fun h => hx h.symm
      simp [hx, hne]

/-- **Writing a file changes that file only.** -/
theorem Node.puts_of_put {mkdir : Bool} {path : List Str} {n n' : Node}
    (h : n.put mkdir c path = some n') (hplain : ∀ name ∈ path, Plain name) (hwf : n.wf = true) :
    Node.Puts c path n n' := by
  induction path generalizing n n' with
  | nil => cases h
  | cons name path ih =>
    obtain ⟨hname, hpath⟩ := List.forall_mem_cons.mp hplain
    cases n with
    | file c' => cases path <;> cases h
    | dir es =>
      have hes : es.wf = true := hwf
      cases path with
      | nil =>
        unfold Node.put at h
        split at h
        · cases h
        · cases h
          exact Node.puts_file hname hes ‹_›
      | cons q qs =>
        simp only [Node.put] at h
        cases hlook : es.lookup name with
        | some child =>
          simp only [hlook] at h
          obtain ⟨child', hput, rfl⟩ := Option.map_eq_some_iff.mp h
          refine Node.puts_below hname hes (fun c' ns => ?_)
            (ih hput hpath (Entries.wf_lookup hes hlook))
          rw [Entries.has_iff_lookup hes, hlook]
          simp
        | none =>
          simp only [hlook] at h
          cases mkdir with
          | false => cases h
          | true =>
            obtain ⟨child', hput, rfl⟩ := Option.map_eq_some_iff.mp h
            refine Node.puts_below hname hes (fun c' ns => ?_) (ih hput hpath rfl)
            rw [Entries.has_iff_lookup hes, hlook]
            cases ns <;> simp [Node.Has, Entries.Has]

end Rkt.Keys
