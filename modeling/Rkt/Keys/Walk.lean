import Rkt.Code.Result
import Rkt.Keys.Keystore

set_option autoImplicit false

namespace Rkt.Keys

open Path Result

section

variable {α : Type} {lt : α → α → Prop} {before : Prop}

/-- Whether a key is in after the events: the last one decides. -/
def after (before : Prop) (l : List Bool) : Prop :=
  match l.getLast? with
  | none => before
  | some b => b = true

theorem after_append (before : Prop) (l l' : List Bool) :
    after before (l ++ l') ↔ after (after before l) l' := by
  unfold after
  rw [List.getLast?_append]
  cases l'.getLast? <;> rfl

theorem after_congr {before before' : Prop} (h : before ↔ before') (l : List Bool) :
    after before l ↔ after before' l := by
  unfold after
  cases l.getLast? with
  | none => exact h
  | some b => rfl

theorem after_of_no_false {l : List Bool} (h : false ∉ l) :
    after before l ↔ before ∨ true ∈ l := by
  unfold after
  cases hl : l.getLast? with
  | none => simp [List.getLast?_eq_none_iff.mp hl]
  | some b =>
    have hmem : b ∈ l := List.mem_of_getLast? hl
    cases b with
    | false => exact absurd hmem h
    | true => simp [hmem]

/-- Whether a key is in after what has been met at some places: the last place, in the given order,
has a key and not a mask; or nothing has been met, and the key was in before. -/
def Verdict (lt : α → α → Prop) (before : Prop) (met : α → Bool → Prop) : Prop :=
  (∃ p, met p true ∧ ∀ q b, met q b → ¬ lt p q) ∨ (∀ p b, ¬ met p b) ∧ before

theorem Verdict.congr {before' : Prop} {met met' : α → Bool → Prop} (hb : before ↔ before')
    (hmet : ∀ p b, met p b ↔ met' p b) : Verdict lt before met ↔ Verdict lt before' met' := by
  simp only [Verdict, hb, hmet]

theorem Verdict.map {β : Type} (g : β → α) {met : β → Bool → Prop} :
    Verdict lt before (fun p b => ∃ q, p = g q ∧ met q b) ↔
      Verdict (fun p q => lt (g p) (g q)) before met := by
  refine or_congr ⟨?_, ?_⟩ (and_congr_left fun _ => ⟨?_, ?_⟩)
  · rintro ⟨_, ⟨q, rfl, hq⟩, hlast⟩
    exact ⟨q, hq, fun q' b hq' => hlast _ b ⟨q', rfl, hq'⟩⟩
  · rintro ⟨q, hq, hlast⟩
    exact ⟨g q, ⟨q, rfl, hq⟩, fun _ b ⟨q', hp, hq'⟩ => hp ▸ hlast q' b hq'⟩
  · exact fun h q b hq => h _ b ⟨q, rfl, hq⟩
  · exact fun h _ b ⟨q, _, hq⟩ => h q b hq

/-- What a walk does to the keys: for each of them it meets the given files, in order. -/
def Walked (lt : α → α → Prop) (keys keys' : Finset Str) (met : Str → α → Bool → Prop) : Prop :=
  ∀ fp, ∃ l : List (α × Bool), l.Pairwise (fun x y => lt x.1 y.1) ∧
    (∀ p b, (p, b) ∈ l ↔ met fp p b) ∧ (fp ∈ keys' ↔ after (fp ∈ keys) (l.map Prod.snd))

variable {keys keys' : Finset Str} {met : Str → α → Bool → Prop}

theorem Walked.congr {met' : Str → α → Bool → Prop} (h : Walked lt keys keys' met)
    (heq : ∀ fp p b, met fp p b ↔ met' fp p b) : Walked lt keys keys' met' := by
  intro fp
  obtain ⟨l, hl, hmem, hkeys⟩ := h fp
  exact ⟨l, hl, fun p b => (hmem p b).trans (heq fp p b), hkeys⟩

theorem Walked.of_no_false {fp : Str} (h : Walked lt keys keys' met)
    (hno : ∀ p, ¬ met fp p false) : fp ∈ keys' ↔ fp ∈ keys ∨ ∃ p, met fp p true := by
  obtain ⟨l, -, hmem, hkeys⟩ := h fp
  have hfalse : false ∉ l.map Prod.snd := by
    intro h
    obtain ⟨⟨p, b⟩, hp, rfl⟩ := List.mem_map.mp h
    exact hno p ((hmem p false).mp hp)
  rw [hkeys, after_of_no_false hfalse]
  simp [hmem]

end

mutual

/-- There is a file with contents `c` at the given path below the node. -/
def Node.Has (c : Content) : Node → List Str → Prop
  | .file c', [] => c' = c
  | .file _, _ :: _ => False
  | .dir _, [] => False
  | .dir es, name :: ns => es.Has c name ns

def Entries.Has (c : Content) : Entries → Str → List Str → Prop
  | .nil, _, _ => False
  | .cons name' n rest, name, ns => (name' = name ∧ n.Has c ns) ∨ rest.Has c name ns

end

def HasAt (n : Option Node) (c : Content) (path : List Str) : Prop :=
  ∃ n', n = some n' ∧ n'.Has c path

variable {es rest : Entries} {n : Node} {c : Content} {fullPath fp name : Str}

theorem Entries.wf_cons : (Entries.cons name n rest).wf = true ↔
    Plain name ∧ (∀ x ∈ rest.names, name < x) ∧ n.wf = true ∧ rest.wf = true := by
  simp only [Entries.wf, Bool.and_eq_true, List.all_eq_true, decide_eq_true_eq, and_assoc]

theorem Entries.Has.mem_names {ns : List Str} (h : es.Has c name ns) : name ∈ es.names := by
  induction es using Entries.ind with
  | nil => exact h.elim
  | cons name' n rest ih =>
    rcases h with ⟨rfl, -⟩ | h
    · exact List.mem_cons_self
    · exact List.mem_cons_of_mem _ (ih h)

/-- In a directory with distinct names the walk finds what is stored. -/
theorem Entries.has_iff_lookup {ns : List Str} (hwf : es.wf = true) :
    es.Has c name ns ↔ ∃ n, es.lookup name = some n ∧ n.Has c ns := by
  induction es using Entries.ind with
  | nil => exact ⟨fun h => h.elim, fun ⟨_, h, _⟩ => by cases h⟩
  | cons name' n rest ih =>
    obtain ⟨-, hlt, -, hrest⟩ := Entries.wf_cons.mp hwf
    by_cases hname : name' = name
    · subst hname
      have hnot : ¬ rest.Has c name' ns := fun h =>
        absurd (hlt name' h.mem_names) (List.lt_irrefl name')
      simp [Entries.Has, Entries.lookup, hnot]
    · simp [Entries.Has, Entries.lookup, hname, ih hrest]

theorem Entries.wf_lookup (hwf : es.wf = true) (h : es.lookup name = some n) : n.wf = true := by
  induction es using Entries.ind with
  | nil => cases h
  | cons name' n' rest ih =>
    obtain ⟨-, -, hn, hrest⟩ := Entries.wf_cons.mp hwf
    unfold Entries.lookup at h
    split_ifs at h
    · cases h
      exact hn
    · exact ih hrest h

mutual

theorem Node.Has.plain {n : Node} (hwf : n.wf = true) {ns : List Str}
    (h : n.Has c ns) : ∀ name ∈ ns, Plain name := by
  cases n with
  | file c' =>
    cases ns with
    | nil => simp
    | cons _ _ => exact h.elim
  | dir es =>
    cases ns with
    | nil => exact h.elim
    | cons name ns => exact Entries.Has.plain hwf h

theorem Entries.Has.plain {es : Entries} (hwf : es.wf = true) {name : Str}
    {ns : List Str} (h : es.Has c name ns) : ∀ name' ∈ name :: ns, Plain name' := by
  cases es with
  | nil => exact h.elim
  | cons name' n rest =>
    obtain ⟨hname, -, hn, hrest⟩ := Entries.wf_cons.mp hwf
    rcases h with ⟨rfl, h⟩ | h
    · exact List.forall_mem_cons.mpr ⟨hname, Node.Has.plain hn h⟩
    · exact Entries.Has.plain hrest h

end

variable {n : Option Node}

theorem lookup_wf (hwf : n.all Node.wf = true) (r : Str) :
    (n.bind (Node.lookup r)).all Node.wf = true := by
  cases n with
  | none => rfl
  | some n =>
    cases n with
    | file _ => rfl
    | dir es =>
      show (es.lookup r).all Node.wf = true
      cases hlook : es.lookup r with
      | none => rfl
      | some n' => exact Entries.wf_lookup hwf hlook

theorem hasAt_lookup (hwf : n.all Node.wf = true) (r : Str) (c : Content)
    (ns : List Str) : HasAt (n.bind (Node.lookup r)) c ns ↔ HasAt n c (r :: ns) := by
  cases n with
  | none => simp [HasAt]
  | some n =>
    cases n with
    | file c' => simp [HasAt, Node.lookup, Node.Has]
    | dir es =>
      have hes : es.wf = true := hwf
      simp only [HasAt, Option.bind_some, Option.some.injEq, exists_eq_left']
      rw [Node.Has, Entries.has_iff_lookup hes]
      rfl

/-- A file that puts the key `fp` in, or takes it out. -/
def token (fp : Str) : Bool → Content
  | true => .key fp
  | false => .empty

theorem token_inj {b b' : Bool} (h : token fp b = token fp b') : b = b' := by
  cases b <;> cases b' <;> first | rfl | cases h

/-- What a file of the given name does to the key `fp`. -/
def fileEvents (fp name : Str) (c : Content) : List Bool :=
  if name ≠ fp then [] else if c = .empty then [false] else if c = .key fp then [true] else []

theorem mem_fileEvents {b : Bool} : b ∈ fileEvents fp name c ↔ name = fp ∧ c = token fp b := by
  unfold fileEvents
  by_cases hname : name = fp
  · subst hname
    cases c with
    | empty => cases b <;> simp [token]
    | unreadable => cases b <;> simp [token]
    | key fp' => by_cases hfp : fp' = name <;> cases b <;> simp [token, hfp]
  · simp [hname]

theorem fileEvents_length (fp name : Str) (c : Content) : (fileEvents fp name c).length ≤ 1 := by
  unfold fileEvents
  split_ifs <;> simp

mutual

/-- What the walk below a node does to the key `fp`, in order: the paths of the files, and whether
they put the key in or take it out. -/
def Node.events (fullPath fp : Str) (path : List Str) (name : Str) :
    Node → List (List Str × Bool)
  | .file c => (fileEvents fp name c).map ([], ·)
  | .dir es => if (render path).isPrefixOf fullPath then es.events fullPath fp path else []

def Entries.events (fullPath fp : Str) (path : List Str) : Entries → List (List Str × Bool)
  | .nil => []
  | .cons name n rest =>
    (n.events fullPath fp (path ++ [name]) name).map (fun e => (name :: e.1, e.2)) ++
      rest.events fullPath fp path

end

variable {path : List Str} {keys keys' : Finset Str}

theorem visitFile_mem (h : visitFile name c keys = .ok keys') (fp : Str) :
    fp ∈ keys' ↔ after (fp ∈ keys) (fileEvents fp name c) := by
  unfold visitFile at h
  unfold fileEvents
  by_cases hc : c = .empty
  · rw [if_pos hc] at h
    cases h
    by_cases hname : name = fp
    · simp [hname, hc, after]
    · simp [hname, after, Ne.symm hname]
  · rw [if_neg hc] at h
    cases c with
    | empty => exact absurd rfl hc
    | unreadable => cases h
    | key fp' =>
      have hfp : fp' = name := by
        by_contra hne
        simp only [entityFromFile, if_neg hne] at h
        cases h
      subst hfp
      have hk : insert fp' keys = keys' := by
        simpa [entityFromFile] using h
      rw [← hk]
      by_cases hname : fp' = fp
      · simp [hname, after]
      · simp [hname, after, Ne.symm hname]

mutual

/-- **The last event decides.** -/
theorem walk_mem (path : List Str) (name : Str) (n : Node) {keys keys' : Finset Str}
    (h : walk fullPath path name n keys = .ok keys') (fp : Str) :
    fp ∈ keys' ↔ after (fp ∈ keys) ((n.events fullPath fp path name).map Prod.snd) := by
  cases n with
  | file c =>
    rw [visitFile_mem h fp, Node.events, List.map_map]
    simp [Function.comp_def]
  | dir es =>
    unfold walk at h
    unfold Node.events
    split_ifs at h with hp
    · rw [if_pos hp]
      exact walkEntries_mem path es h fp
    · cases h
      rw [if_neg hp]
      rfl

theorem walkEntries_mem (path : List Str) (es : Entries) {keys keys' : Finset Str}
    (h : walkEntries fullPath path es keys = .ok keys') (fp : Str) :
    fp ∈ keys' ↔ after (fp ∈ keys) ((es.events fullPath fp path).map Prod.snd) := by
  cases es with
  | nil =>
    cases h
    rfl
  | cons name n rest =>
    obtain ⟨keys1, h1, h⟩ := bind_eq_ok.mp h
    rw [walkEntries_mem path rest h fp, Entries.events, List.map_append, List.map_map, after_append]
    exact after_congr (walk_mem _ name n h1 fp) _

end

theorem prefix_of_render_append {path ds : List Str} (h : render (path ++ ds) <+: fullPath) :
    render path <+: fullPath := by
  rw [render_append] at h
  exact (List.prefix_append _ _).trans h

mutual

/-- The walk below a node comes to the files of the name `fp` in the directories it enters. -/
theorem Node.mem_events (path : List Str) (name : Str) (n : Node) (P : List Str) (b : Bool) :
    (P, b) ∈ n.events fullPath fp path name ↔ n.Has (token fp b) P ∧
      (P = [] ∧ name = fp ∨ ∃ Q, P = Q ++ [fp] ∧ render (path ++ Q) <+: fullPath) := by
  cases n with
  | file c =>
    rw [Node.events, List.mem_map]
    constructor
    · rintro ⟨b', hb, heq⟩
      cases heq
      obtain ⟨hname, hc⟩ := mem_fileEvents.mp hb
      exact ⟨hc, .inl ⟨rfl, hname⟩⟩
    · rintro ⟨hc, ⟨rfl, hname⟩ | ⟨Q, rfl, -⟩⟩
      · exact ⟨b, mem_fileEvents.mpr ⟨hname, hc⟩, rfl⟩
      · cases Q <;> exact hc.elim
  | dir es =>
    unfold Node.events
    by_cases hp : (render path).isPrefixOf fullPath
    · rw [if_pos hp, Entries.mem_events path es P b]
      constructor
      · rintro ⟨q, ns, rfl, hhas, ⟨rfl, rfl⟩ | ⟨Q, rfl, hQ⟩⟩
        · refine ⟨hhas, .inr ⟨[], rfl, ?_⟩⟩
          rw [List.append_nil]
          exact List.isPrefixOf_iff_prefix.mp hp
        · exact ⟨hhas, .inr ⟨q :: Q, rfl, hQ⟩⟩
      · rintro ⟨hhas, ⟨rfl, -⟩ | ⟨Q, rfl, hQ⟩⟩
        · exact hhas.elim
        · cases Q with
          | nil => exact ⟨fp, [], rfl, hhas, .inl ⟨rfl, rfl⟩⟩
          | cons q Q => exact ⟨q, Q ++ [fp], rfl, hhas, .inr ⟨Q, rfl, hQ⟩⟩
    · rw [if_neg hp]
      refine ⟨fun h => absurd h List.not_mem_nil, ?_⟩
      rintro ⟨hhas, ⟨rfl, -⟩ | ⟨Q, -, hQ⟩⟩
      · exact hhas.elim
      · exact absurd (List.isPrefixOf_iff_prefix.mpr (prefix_of_render_append hQ)) hp

theorem Entries.mem_events (path : List Str) (es : Entries) (P : List Str) (b : Bool) :
    (P, b) ∈ es.events fullPath fp path ↔ ∃ q ns, P = q :: ns ∧ es.Has (token fp b) q ns ∧
      (ns = [] ∧ q = fp ∨ ∃ Q, ns = Q ++ [fp] ∧ render (path ++ q :: Q) <+: fullPath) := by
  cases es with
  | nil => simp [Entries.events, Entries.Has]
  | cons name n rest =>
    rw [Entries.events, List.mem_append, List.mem_map, Entries.mem_events path rest P b]
    constructor
    · rintro (⟨⟨ns, b'⟩, hns, heq⟩ | ⟨q, ns, rfl, hhas, hns⟩)
      · cases heq
        obtain ⟨hhas, hns⟩ := (Node.mem_events (path ++ [name]) name n ns b').mp hns
        simp only [List.append_assoc, List.singleton_append] at hns
        exact ⟨name, ns, rfl, .inl ⟨rfl, hhas⟩, hns⟩
      · exact ⟨q, ns, rfl, .inr hhas, hns⟩
    · rintro ⟨q, ns, rfl, ⟨rfl, hhas⟩ | hhas, hns⟩
      · refine .inl ⟨(ns, b), (Node.mem_events (path ++ [name]) name n ns b).mpr ⟨hhas, ?_⟩, rfl⟩
        simp only [List.append_assoc, List.singleton_append]
        exact hns
      · exact .inr ⟨q, ns, rfl, hhas, hns⟩

end

mutual

/-- **The walk goes by the paths.** -/
theorem Node.events_sorted (path : List Str) (name : Str) (n : Node) (hwf : n.wf = true) :
    (n.events fullPath fp path name).Pairwise fun x y => x.1 < y.1 := by
  cases n with
  | file c =>
    have hlen := fileEvents_length fp name c
    rw [Node.events]
    generalize fileEvents fp name c = l at hlen
    match l with
    | [] => exact .nil
    | [b] => exact List.pairwise_singleton _ _
  | dir es =>
    unfold Node.events
    split_ifs
    · exact Entries.events_sorted path es hwf
    · exact .nil

theorem Entries.events_sorted (path : List Str) (es : Entries) (hwf : es.wf = true) :
    (es.events fullPath fp path).Pairwise fun x y => x.1 < y.1 := by
  cases es with
  | nil => exact .nil
  | cons name n rest =>
    obtain ⟨-, hlt, hn, hrest⟩ := Entries.wf_cons.mp hwf
    rw [Entries.events, List.pairwise_append, List.pairwise_map]
    refine ⟨?_, Entries.events_sorted path rest hrest, ?_⟩
    · refine (Node.events_sorted (path ++ [name]) name n hn).imp fun h => ?_
      exact List.cons_lt_cons_iff.mpr (.inr ⟨rfl, h⟩)
    · intro x hx y hy
      obtain ⟨e, -, rfl⟩ := List.mem_map.mp hx
      obtain ⟨q, ns, hq, hhas, -⟩ := (Entries.mem_events path rest y.1 y.2).mp hy
      rw [hq]
      exact List.cons_lt_cons_iff.mpr (.inl (hlt q hhas.mem_names))

end

/-- The walk over a place meets a file for the key `fp`, at the path `P`: the file is in a
directory that is entered, or the place is that file. -/
def MetAt (fullPath : Str) (root : List Str) (n : Option Node) (fp : Str) (P : List Str)
    (b : Bool) : Prop :=
  HasAt n (token fp b) P ∧ (P = [] ∧ root.getLast?.getD [] = fp ∨
    ∃ Q, P = Q ++ [fp] ∧ render (root ++ Q) <+: fullPath)

theorem walkRoot_walked {root : List Str} (hwf : n.all Node.wf = true)
    (h : walkRoot fullPath root n keys = .ok keys') :
    Walked (· < ·) keys keys' (MetAt fullPath root n) := by
  intro fp
  cases n with
  | none =>
    cases h
    refine ⟨[], .nil, fun P b => ⟨fun h => absurd h List.not_mem_nil, ?_⟩, Iff.rfl⟩
    rintro ⟨⟨_, hn, -⟩, -⟩
    cases hn
  | some n =>
    refine ⟨_, n.events_sorted root _ hwf, fun P b => ?_, walk_mem root _ n h fp⟩
    rw [Node.mem_events, MetAt, HasAt]
    simp

/-- Every file is a key under its own fingerprint, or a mask; and, in a `prefix.d`, it is below a
prefix. -/
def TokensAt (root : Bool) (n : Option Node) : Prop :=
  ∀ c path, HasAt n c path →
    ∃ Q fp b, (root = false → Q ≠ []) ∧ path = Q ++ [fp] ∧ c = token fp b

mutual

theorem walk_tokens (fullPath : Str) (path : List Str) (name : Str) (n : Node)
    (keys : Finset Str)
    (hn : ∀ c ns, n.Has c ns → ∃ b, c = token ((name :: ns).getLast (List.cons_ne_nil _ _)) b) :
    ∃ keys', walk fullPath path name n keys = .ok keys' := by
  cases n with
  | file c =>
    obtain ⟨b, hb⟩ := hn c [] rfl
    have hc : c = token name b := hb
    subst hc
    cases b with
    | true => exact ⟨insert name keys, by simp [walk, visitFile, token, entityFromFile]⟩
    | false => exact ⟨keys.erase name, by simp [walk, visitFile, token]⟩
  | dir es =>
    unfold walk
    split_ifs
    · refine walkEntries_tokens fullPath path es keys fun c x ns hhas => ?_
      have hlast := hn c (x :: ns) hhas
      rwa [List.getLast_cons (List.cons_ne_nil x ns)] at hlast
    · exact ⟨keys, rfl⟩

theorem walkEntries_tokens (fullPath : Str) (path : List Str) (es : Entries) (keys : Finset Str)
    (hes : ∀ c x ns, es.Has c x ns →
      ∃ b, c = token ((x :: ns).getLast (List.cons_ne_nil _ _)) b) :
    ∃ keys', walkEntries fullPath path es keys = .ok keys' := by
  cases es with
  | nil => exact ⟨keys, rfl⟩
  | cons name n rest =>
    obtain ⟨keys1, h1⟩ := walk_tokens fullPath (path ++ [name]) name n keys
      fun c ns hhas => hes c name ns (.inl ⟨rfl, hhas⟩)
    obtain ⟨keys2, h2⟩ := walkEntries_tokens fullPath path rest keys1
      fun c x ns hhas => hes c x ns (.inr hhas)
    exact ⟨keys2, bind_eq_ok.mpr ⟨keys1, h1, h2⟩⟩

end

theorem walkRoot_tokens (fullPath : Str) (root : List Str) (keys : Finset Str)
    (hn : ∀ c path, HasAt n c path → ∃ Q fp b, path = Q ++ [fp] ∧ c = token fp b) :
    ∃ keys', walkRoot fullPath root n keys = .ok keys' := by
  cases n with
  | none => exact ⟨keys, rfl⟩
  | some n =>
    refine walk_tokens fullPath root _ n keys fun c ns hhas => ?_
    obtain ⟨Q, fp, b, rfl, rfl⟩ := hn c ns ⟨n, rfl, hhas⟩
    refine ⟨b, ?_⟩
    rw [List.getLast_cons (by simp), List.getLast_append_singleton]

theorem render_append_prefix_self {root Q : List Str} (h : render (root ++ Q) <+: render root) :
    Q = [] := by
  have hlen := h.length_le
  rw [render_append, List.length_append] at hlen
  cases Q with
  | nil => rfl
  | cons q Q =>
    simp only [render, List.length_cons] at hlen
    omega

/-- A file for the key `fp` directly in a `root.d`. -/
def RootFile (n : Option Node) (fp : Str) (P : List Str) (b : Bool) : Prop :=
  P = [fp] ∧ HasAt n (token fp b) P

/-- The walk over a `root.d` meets the files that are directly in it. -/
theorem walkRoot_root (hwf : n.all Node.wf = true) (hn : TokensAt true n) (root : List Str)
    (keys : Finset Str) : ∃ keys', walkRoot (render root) root n keys = .ok keys' ∧
      Walked (· < ·) keys keys' (RootFile n) := by
  obtain ⟨keys', h⟩ := walkRoot_tokens (render root) root keys fun c path hhas => by
    obtain ⟨Q, fp, b, -, hpath, hc⟩ := hn c path hhas
    exact ⟨Q, fp, b, hpath, hc⟩
  refine ⟨keys', h, (walkRoot_walked hwf h).congr fun fp P b => ?_⟩
  constructor
  · rintro ⟨hhas, ⟨rfl, -⟩ | ⟨Q, rfl, hQ⟩⟩
    · obtain ⟨Q, x, b', -, hnil, -⟩ := hn _ _ hhas
      exact absurd hnil (by simp)
    · rw [render_append_prefix_self hQ] at hhas ⊢
      exact ⟨rfl, hhas⟩
  · rintro ⟨rfl, hhas⟩
    exact ⟨hhas, .inr ⟨[], rfl, by rw [List.append_nil]⟩⟩

/-- A directory is entered if its components below the common base are a string prefix of the
image name's. -/
theorem render_base_prefix_iff (base : List Str) {Q comps : List Str} (hQ : ∀ c ∈ Q, '/' ∉ c)
    (hcomps : ∀ c ∈ comps, '/' ∉ c) :
    render (base ++ Q) <+: render (base ++ comps) ↔ StringPrefix Q comps := by
  rw [render_append, render_append, List.prefix_append_right_inj]
  exact render_prefix_iff hQ hcomps

/-- The prefix is walked over for an image name: it has the first component of the name, and is a
prefix of it as a string. -/
def Reached (P comps : List Str) : Prop := P.head? = comps.head? ∧ StringPrefix P comps

/-- A file for the key `fp` in the directory of a prefix that is reached. -/
def PrefixFile (comps : List Str) (n : Option Node) (fp : Str) (P : List Str) (b : Bool) : Prop :=
  ∃ Q, Reached Q comps ∧ P = Q ++ [fp] ∧ HasAt n (token fp b) P

/-- The walk over a `prefix.d` meets the files below the prefixes that are reached. -/
theorem walkRoot_prefix (hwf : n.all Node.wf = true) (hn : TokensAt false n) (base : List Str)
    (r : Str) (comps : List Str) (hcomps : ∀ c ∈ r :: comps, '/' ∉ c) (keys : Finset Str) :
    ∃ keys', walkRoot (render (base ++ r :: comps)) (base ++ [r]) (n.bind (Node.lookup r)) keys =
        .ok keys' ∧ Walked (· < ·) keys keys' (PrefixFile (r :: comps) n) := by
  have hbelow : ∀ c path, HasAt (n.bind (Node.lookup r)) c path →
      ∃ Q fp b, path = Q ++ [fp] ∧ c = token fp b := by
    intro c path hhas
    obtain ⟨Q, fp, b, hQ, hpath, hc⟩ := hn c _ ((hasAt_lookup hwf r c path).mp hhas)
    cases Q with
    | nil => exact absurd rfl (hQ rfl)
    | cons q Q => exact ⟨Q, fp, b, (List.cons.inj hpath).2, hc⟩
  obtain ⟨keys', h⟩ := walkRoot_tokens (render (base ++ r :: comps)) (base ++ [r]) keys hbelow
  refine ⟨keys', h, fun fp => ?_⟩
  obtain ⟨l, hl, hmem, hkeys⟩ := walkRoot_walked (lookup_wf hwf r) h fp
  -- the paths are those below `r`
  refine ⟨l.map fun e => (r :: e.1, e.2), ?_, fun P b => ?_, ?_⟩
  · rw [List.pairwise_map]
    exact hl.imp fun h => List.cons_lt_cons_iff.mpr (.inr ⟨rfl, h⟩)
  · have henter : ∀ Q, HasAt n (token fp b) (r :: (Q ++ [fp])) →
        (render (base ++ [r] ++ Q) <+: render (base ++ r :: comps) ↔
          StringPrefix (r :: Q) (r :: comps)) := by
      rintro Q ⟨n', rfl, hhas⟩
      have hplain := Node.Has.plain hwf hhas
      rw [List.append_assoc]
      refine render_base_prefix_iff base (fun c hc => (hplain c ?_).slash) hcomps
      exact (List.mem_append_left [fp] hc : c ∈ (r :: Q) ++ [fp])
    rw [List.mem_map]
    constructor
    · rintro ⟨⟨P, b'⟩, he, heq⟩
      cases heq
      obtain ⟨hhas, hP⟩ := (hmem P b').mp he
      obtain ⟨Q, rfl, hQ⟩ := hP.resolve_left fun ⟨hnil, _⟩ => by
        obtain ⟨Q, x, b, hpath, -⟩ := hbelow _ _ hhas
        exact absurd (hnil.symm.trans hpath) (by simp)
      rw [hasAt_lookup hwf] at hhas
      exact ⟨r :: Q, ⟨rfl, (henter Q hhas).mp hQ⟩, rfl, hhas⟩
    · rintro ⟨Q, ⟨hhead, hpre⟩, rfl, hhas⟩
      cases Q with
      | nil => cases hhead
      | cons q Q =>
        cases hhead
        refine ⟨(Q ++ [fp], b), (hmem _ _).mpr ⟨(hasAt_lookup hwf r _ _).mpr hhas, ?_⟩, rfl⟩
        exact .inr ⟨Q, rfl, (henter Q hhas).mpr hpre⟩
  · rw [List.map_map]
    exact hkeys

end Rkt.Keys
