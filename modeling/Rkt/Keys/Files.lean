import Rkt.Keys.AddKeys
import Rkt.Keys.Levels

set_option autoImplicit false

namespace Rkt.Keys

open Conc Prog Path

def Node.find : List Str → Node → Option Node
  | [], n => some n
  | name :: path, n => (n.lookup name).bind (Node.find path)

/-- `os.Stat`. -/
def Node.stat : List Str → Node → Stat
  | [], _ => .found
  | _ :: _, .file _ => .failed
  | name :: path, .dir es =>
    match es.lookup name with
    | none => .notExist
    | some n => n.stat path

/-- `os.MkdirAll`. -/
def Node.mkdirAll : List Str → Node → Option Node
  | _, .file _ => none
  | [], .dir es => some (.dir es)
  | name :: path, .dir es =>
    (((es.lookup name).getD (.dir .nil)).mkdirAll path).map fun n => .dir (es.set name n)

/-- There is no file at the path, nor on the way to it. -/
def Node.Open (path : List Str) (n : Node) : Prop := ∀ Q, Q <+: path → ∀ c, ¬ n.Has c Q

section

variable {path : List Str} {c : Content} {es : Entries} {name : Str} {n : Node} {x : Str}

theorem Node.not_open_file : ¬ (Node.file c).Open path :=
  fun h => h [] List.nil_prefix c rfl

theorem Node.open_nil : (Node.dir es).Open [] := by
  intro Q hQ c h
  rw [List.prefix_nil.mp hQ] at h
  exact h

theorem Node.open_cons (hwf : es.wf = true) :
    (Node.dir es).Open (name :: path) ↔ ∀ n, es.lookup name = some n → n.Open path := by
  constructor
  · intro h n hn Q hQ c hhas
    refine h (name :: Q) (List.cons_prefix_cons.mpr ⟨rfl, hQ⟩) c ?_
    exact (Entries.has_iff_lookup hwf).mpr ⟨n, hn, hhas⟩
  · intro h Q hQ c hhas
    cases Q with
    | nil => exact hhas
    | cons x Q =>
      obtain ⟨rfl, hrest⟩ := List.cons_prefix_cons.mp hQ
      obtain ⟨n, hn, hbelow⟩ := (Entries.has_iff_lookup hwf).mp hhas
      exact h n hn Q hrest c hbelow

/-- `os.Stat` fails if there is a file on the way. -/
theorem Node.stat_failed_iff (hwf : n.wf = true) :
    n.stat (path ++ [x]) = .failed ↔ ¬ n.Open path := by
  induction path generalizing n with
  | nil =>
    cases n with
    | file c => exact iff_of_true rfl Node.not_open_file
    | dir es =>
      refine iff_of_false ?_ (not_not.mpr Node.open_nil)
      show (Node.dir es).stat [x] ≠ .failed
      unfold Node.stat
      cases es.lookup x with
      | none => simp
      | some n => simp [Node.stat]
  | cons name path ih =>
    cases n with
    | file c => exact iff_of_true rfl Node.not_open_file
    | dir es =>
      have hes : es.wf = true := hwf
      rw [Node.open_cons hes]
      show (Node.dir es).stat (name :: (path ++ [x])) = .failed ↔ _
      unfold Node.stat
      cases hlook : es.lookup name with
      | none => simp
      | some n => simp [ih (Entries.wf_lookup hes hlook)]

theorem Node.stat_found_iff : n.stat path = .found ↔ ∃ n', n.find path = some n' := by
  induction path generalizing n with
  | nil => exact iff_of_true rfl ⟨n, rfl⟩
  | cons name path ih =>
    cases n with
    | file c => simp [Node.stat, Node.find, Node.lookup]
    | dir es =>
      simp only [Node.stat, Node.find, Node.lookup]
      cases es.lookup name with
      | none => simp
      | some n => simpa using ih

theorem Node.has_iff_find (hwf : n.wf = true) : n.Has c path ↔ n.find path = some (.file c) := by
  induction path generalizing n with
  | nil => cases n <;> simp [Node.Has, Node.find]
  | cons name path ih =>
    cases n with
    | file c => simp [Node.Has, Node.find, Node.lookup]
    | dir es =>
      have hes : es.wf = true := hwf
      rw [Node.Has, Entries.has_iff_lookup hes, Node.find, Option.bind_eq_some_iff]
      refine exists_congr fun n => and_congr_right fun hn => ?_
      exact ih (Entries.wf_lookup hes hn)

/-- The path is a directory, and all files are those of the node. -/
structure Node.Made (path : List Str) (n n' : Node) : Prop where
  wf : n'.wf = true
  has : ∀ c ns, n'.Has c ns ↔ n.Has c ns
  dir : ∃ es, n'.find path = some (.dir es)
  find : ∀ x, n'.find (path ++ [x]) = n.find (path ++ [x])

theorem Entries.has_getD (hwf : es.wf = true) (name : Str) (c : Content) (ns : List Str) :
    es.Has c name ns ↔ ((es.lookup name).getD (.dir .nil)).Has c ns := by
  rw [Entries.has_iff_lookup hwf]
  cases es.lookup name with
  | some n => simp
  | none => cases ns <;> simp [Node.Has, Entries.Has]

theorem Entries.wf_getD (hwf : es.wf = true) (name : Str) :
    ((es.lookup name).getD (.dir .nil)).wf = true := by
  cases hlook : es.lookup name with
  | none => rfl
  | some n => exact Entries.wf_lookup hwf hlook

theorem Node.find_empty (path : List Str) (x : Str) :
    (Node.dir .nil).find (path ++ [x]) = none := by
  cases path <;> rfl

theorem Node.find_dir :
    (Node.dir es).find (name :: path) = (es.lookup name).bind (Node.find path) := rfl

theorem Node.find_set : (Node.dir (es.set name n)).find (name :: path) = n.find path := by
  rw [Node.find_dir, Entries.lookup_set, if_pos rfl, Option.bind_some]

/-- `os.MkdirAll` succeeds if there is no file on the way. -/
theorem Node.mkdirAll_of_open (hplain : ∀ name ∈ path, Plain name)
    (hwf : n.wf = true) (hopen : n.Open path) :
    ∃ n', n.mkdirAll path = some n' ∧ Node.Made path n n' := by
  induction path generalizing n with
  | nil =>
    cases n with
    | file c => exact absurd hopen Node.not_open_file
    | dir es => exact ⟨.dir es, rfl, hwf, fun _ _ => Iff.rfl, ⟨es, rfl⟩, fun _ => rfl⟩
  | cons name path ih =>
    cases n with
    | file c => exact absurd hopen Node.not_open_file
    | dir es =>
      have hes : es.wf = true := hwf
      obtain ⟨hname, hpath⟩ := List.forall_mem_cons.mp hplain
      have hbelow : ((es.lookup name).getD (.dir .nil)).Open path := by
        intro Q hQ c hhas
        refine hopen (name :: Q) (List.cons_prefix_cons.mpr ⟨rfl, hQ⟩) c ?_
        exact (Entries.has_getD hes name c Q).mpr hhas
      obtain ⟨n', hn', hmade⟩ := ih hpath (Entries.wf_getD hes name) hbelow
      refine ⟨.dir (es.set name n'), ?_, Entries.wf_set hname hmade.wf hes, fun c ns => ?_, ?_,
        fun x => ?_⟩
      · show (Node.mkdirAll path _).map _ = _
        rw [hn']
        rfl
      · cases ns with
        | nil => rfl
        | cons x ns =>
          show (es.set name n').Has c x ns ↔ es.Has c x ns
          rw [Entries.has_set hname hmade.wf hes]
          split_ifs with hx
          · subst hx
            rw [hmade.has, Entries.has_getD hes]
          · rfl
      · rw [Node.find_set]
        exact hmade.dir
      · rw [List.cons_append, Node.find_set, hmade.find, Node.find_dir]
        cases es.lookup name with
        | none => exact Node.find_empty path x
        | some n => rfl

theorem Node.open_of_mkdirAll {n n' : Node} (hwf : n.wf = true)
    (h : n.mkdirAll path = some n') : n.Open path := by
  induction path generalizing n n' with
  | nil =>
    cases n with
    | file c => cases h
    | dir es => exact Node.open_nil
  | cons name path ih =>
    cases n with
    | file c => cases h
    | dir es =>
      have hes : es.wf = true := hwf
      obtain ⟨child, hchild, -⟩ := Option.map_eq_some_iff.mp h
      rw [Node.open_cons hes]
      intro n hn
      rw [hn] at hchild
      exact ih (Entries.wf_lookup hes hn) hchild

theorem Node.put_entry {mkdir : Bool} {name x : Str}
    (hn : es.lookup name = some n) (path : List Str) :
    (Node.dir es).put mkdir c (name :: (path ++ [x])) =
      (n.put mkdir c (path ++ [x])).map fun n' => .dir (es.set name n') := by
  obtain ⟨y, ys, hys⟩ : ∃ y ys, path ++ [x] = y :: ys :=
    List.exists_cons_of_ne_nil (by simp)
  rw [hys]
  simp only [Node.put, hn]

theorem Node.put_of_find (hdir : n.find path = some (.dir es))
    (hfile : ∀ es', n.find (path ++ [x]) ≠ some (.dir es')) :
    ∃ n', n.put false c (path ++ [x]) = some n' := by
  induction path generalizing n with
  | nil =>
    cases hdir
    show ∃ n', (Node.dir es).put false c [x] = some n'
    have hlook : ∀ es', es.lookup x ≠ some (.dir es') := by
      intro es' h
      refine hfile es' ?_
      show (es.lookup x).bind _ = _
      rw [h]
      rfl
    unfold Node.put
    split
    · exact absurd ‹_› (hlook _)
    · exact ⟨_, rfl⟩
  | cons name path ih =>
    cases n with
    | file c => cases hdir
    | dir es0 =>
      obtain ⟨n, hn, hdir⟩ := Option.bind_eq_some_iff.mp hdir
      have hn : es0.lookup name = some n := hn
      obtain ⟨n', hn'⟩ := ih hdir fun es' h => hfile es' (by
        rw [List.cons_append, Node.find_dir, hn]
        exact h)
      refine ⟨.dir (es0.set name n'), ?_⟩
      rw [List.cons_append, Node.put_entry hn, hn']
      rfl

/-- What is next to a file that has been written, and what was there before. -/
theorem Node.find_put {n n' : Node} (h : n.put false c (path ++ [x]) = some n') :
    (∀ es, n.find (path ++ [x]) ≠ some (.dir es)) ∧
      ∀ y, n'.find (path ++ [y]) = if y = x then some (.file c) else n.find (path ++ [y]) := by
  induction path generalizing n n' with
  | nil =>
    cases n with
    | file c => cases h
    | dir es =>
      have h : (Node.dir es).put false c [x] = some n' := h
      unfold Node.put at h
      split at h
      · cases h
      · rename_i hnone
        cases h
        constructor
        · intro es' hfind
          obtain ⟨n, hn, hdir⟩ := Option.bind_eq_some_iff.mp hfind
          cases hdir
          exact hnone es' hn
        · intro y
          show (Node.dir _).find [y] = if y = x then some (.file c) else (Node.dir es).find [y]
          rw [Node.find_dir, Entries.lookup_set]
          by_cases hy : x = y
          · subst hy
            simp [Node.find]
          · rw [if_neg hy, if_neg (Ne.symm hy)]
            rfl
  | cons name path ih =>
    cases n with
    | file c => cases path <;> cases h
    | dir es =>
      cases hlook : es.lookup name with
      | none =>
        obtain ⟨y, ys, hys⟩ : ∃ y ys, path ++ [x] = y :: ys :=
          List.exists_cons_of_ne_nil (by simp)
        rw [List.cons_append, hys] at h
        simp [Node.put, hlook] at h
      | some n =>
        rw [List.cons_append, Node.put_entry hlook] at h
        obtain ⟨n1, hn1, rfl⟩ := Option.map_eq_some_iff.mp h
        obtain ⟨hbefore, hafter⟩ := ih hn1
        constructor
        · intro es' hfind
          rw [List.cons_append, Node.find_dir, hlook] at hfind
          exact hbefore es' hfind
        · intro y
          rw [List.cons_append, Node.find_set, hafter, Node.find_dir, hlook]
          rfl

end

inductive Place where
  | localPrefix
  | systemPrefix
  | localRoot
  | systemRoot
  deriving DecidableEq, Repr

def Config.path (c : Config) : Place → List Str
  | .localPrefix => c.localPrefixPath
  | .systemPrefix => c.systemPrefixPath
  | .localRoot => c.localRootPath
  | .systemRoot => c.systemRootPath

def Keystore.node (ks : Keystore) : Place → Option Node
  | .localPrefix => ks.localPrefix
  | .systemPrefix => ks.systemPrefix
  | .localRoot => ks.localRoot
  | .systemRoot => ks.systemRoot

/-- The paths are clean, and no place is inside another one. -/
structure Config.Tidy (c : Config) : Prop where
  plain : ∀ p, ∀ name ∈ c.path p, Plain name
  apart : ∀ p q, c.path p <+: c.path q → p = q

/-- Is the path in the place? The rest of the path. -/
def Config.below (c : Config) (path : List Str) (p : Place) : Option (Place × List Str) :=
  if (c.path p).isPrefixOf path then some (p, path.drop (c.path p).length) else none

def Config.locate (c : Config) (path : List Str) : Option (Place × List Str) :=
  [Place.localPrefix, .systemPrefix, .localRoot, .systemRoot].findSome? (c.below path)

theorem Config.Tidy.locate {c : Config} (h : c.Tidy) (p : Place) (rel : List Str) :
    c.locate (c.path p ++ rel) = some (p, rel) := by
  have hown : c.below (c.path p ++ rel) p = some (p, rel) := by
    have hpre : (c.path p).isPrefixOf (c.path p ++ rel) = true :=
      List.isPrefixOf_iff_prefix.mpr (List.prefix_append _ _)
    rw [Config.below, if_pos hpre, List.drop_left]
  have hother : ∀ q, q ≠ p → c.below (c.path p ++ rel) q = none := by
    intro q hq
    refine if_neg ?_
    rw [List.isPrefixOf_iff_prefix]
    intro hpre
    rcases List.prefix_or_prefix_of_prefix hpre (List.prefix_append _ _) with hqp | hpq
    · exact hq (h.apart q p hqp)
    · exact hq (h.apart p q hpq).symm
  unfold Config.locate
  cases p <;> simp [List.findSome?, hown, hother]

namespace Keystore

variable (ks : Keystore)

/-- `os.Stat`. -/
def stat (path : List Str) : Stat :=
  match ks.config.locate path with
  | none => .notExist
  | some (p, rel) =>
    match ks.node p with
    | none => .notExist
    | some n => n.stat rel

/-- `os.MkdirAll`. Nothing is made outside of the local places. -/
def mkdirAll (dir : List Str) : Option Keystore :=
  match ks.config.locate dir with
  | some (.localPrefix, rel) =>
    ((ks.localPrefix.getD (.dir .nil)).mkdirAll rel).bind ks.setLocalPrefix
  | some (.localRoot, rel) => ((ks.localRoot.getD (.dir .nil)).mkdirAll rel).bind ks.setLocalRoot
  | _ => none

/-- `ioutil.WriteFile`. -/
def writeFile (path : List Str) (c : Content) : Option Keystore :=
  match ks.config.locate path with
  | some (.localPrefix, rel) =>
    ks.localPrefix.bind fun n => (n.put false c rel).bind ks.setLocalPrefix
  | some (.localRoot, rel) => ks.localRoot.bind fun n => (n.put false c rel).bind ks.setLocalRoot
  | _ => none

end Keystore

/-- What is at the locations of keys, and what is entered in a review. -/
structure Sources where
  contents : Str → Option Content
  input : List Str

/-- The answer to an operation if nothing fails without a reason. -/
def answer (w : Sources) : (o : Op) → Keystore → o.Res
  | .openFile location, _ | .download location, _ => w.contents location
  | .stat path, ks => ks.stat path
  | .input, _ => w.input
  | .mkdirAll dir, ks => (ks.mkdirAll dir).isSome
  | .writeFile path c, ks => (ks.writeFile path c).isSome

/-- What an operation does; one that fails does nothing. -/
def change : Op → Keystore → Keystore
  | .mkdirAll dir, ks => (ks.mkdirAll dir).getD ks
  | .writeFile path c, ks => (ks.writeFile path c).getD ks
  | _, ks => ks

instance : (o : Op) → DecidableEq o.Res
  | .openFile _ | .download _ => inferInstanceAs (DecidableEq (Option Content))
  | .stat _ => inferInstanceAs (DecidableEq Stat)
  | .input => inferInstanceAs (DecidableEq (List Str))
  | .mkdirAll _ | .writeFile _ _ => inferInstanceAs (DecidableEq Bool)

def fileStep (w : Sources) (o : Op) (r : o.Res) (ks : Keystore) : Option Keystore :=
  if r = answer w o ks then some (change o ks) else none

theorem eval_sys {α : Type} (w : Sources) (o : Op) (f : o.Res → KeyProg α) (ks : Keystore) :
    (sys o >>= f).eval (fileStep w) (answer w) ks =
      (f (answer w o ks)).eval (fileStep w) (answer w) (change o ks) :=
  eval_call_bind rfl (if_pos rfl)

theorem runs_fileStep_iff {α : Type} {w : Sources} {x : KeyProg α} {ks ks' : Keystore} {a : α} :
    x.Runs (fileStep w) ks a ks' ↔ x.eval (fileStep w) (answer w) ks = some (a, ks') := by
  refine ⟨eval_of_runs fun o r s s' h => ?_, runs_of_eval _⟩
  unfold fileStep at h
  split at h
  · assumption
  · cases h

end Rkt.Keys
