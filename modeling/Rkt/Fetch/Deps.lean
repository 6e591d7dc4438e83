import Rkt.Keys.Keystore
import Rkt.Order.Worklist

set_option autoImplicit false

namespace Rkt.Deps

open Relation

abbrev Str := List Char

/-- `types.Dependency`; the names of its labels are distinct. -/
structure Dependency where
  imageName : Str
  labels : List (Str × Str)
  nodup : (labels.map Prod.fst).Nodup

/-- `App.String`, with the labels in the given order. -/
def appString (name : Str) (labels : List (Str × Str)) : Str :=
  name ++ labels.flatMap fun l => ',' :: (l.1 ++ '=' :: l.2)

def Dependency.Spells (d : Dependency) (s : Str) : Prop :=
  ∃ l, l.Perm d.labels ∧ appString d.imageName l = s

/-- What the loop depends on, at each point of time: the order in which Go iterates over a map,
whether the manifest of an image can be read and what dependencies it has, and whether an image
can be fetched and under which hash. -/
structure Env where
  order : Nat → List (Str × Str) → List (Str × Str)
  order_perm : ∀ n l, (order n l).Perm l
  getImageDeps : Nat → Str → Option (List Dependency)
  fetchSingleImage : Nat → Str → Option Str

/-- `app.String()`. -/
def Env.string (E : Env) (n : Nat) (d : Dependency) : Str :=
  appString d.imageName (E.order n d.labels)

/-- The names that are still to come on the list, the map `seen`, and the hashes of the images
that have been fetched. -/
structure State where
  imgsl : List Str
  seen : Finset Str
  fetched : List Str
  time : Nat

def State.start : State := ⟨[], ∅, [], 0⟩

inductive Err where
  /-- An error of `ResolveKey` or `GetImageManifest`. -/
  | manifest
  /-- An error of `discovery.NewApp`. -/
  | name
  /-- `dependency %s specified multiple times in the dependency tree for imageID: %s`. -/
  | multiple (app hash : Str)
  /-- An error of `fetchSingleImage`. -/
  | fetch
  deriving DecidableEq, Repr

def addDeps (E : Env) (hash : Str) : List Dependency → State → Except Err Unit × State
  | [], st => (.ok (), st)
  | d :: ds, st =>
    if Keys.assertValid d.imageName then
      let st' := { st with imgsl := st.imgsl ++ [E.string st.time d], time := st.time + 3 }
      if E.string (st.time + 1) d ∈ st.seen then
        (.error (.multiple (E.string (st.time + 2) d) hash), st')
      else addDeps E hash ds { st' with seen := insert (E.string (st.time + 2) d) st.seen }
    else (.error .name, st)

def addImageDeps (E : Env) (hash : Str) (st : State) : Except Err Unit × State :=
  match E.getImageDeps st.time hash with
  | none => (.error .manifest, { st with time := st.time + 1 })
  | some ds => addDeps E hash ds { st with time := st.time + 1 }

/-- A name has been taken off the list and fetched. -/
def State.visit (st : State) (rest : List Str) (hash : Str) : State :=
  { st with imgsl := rest, fetched := hash :: st.fetched, time := st.time + 1 }

/-- The loop of `fetchImageDeps`, for at most so many rounds. The result of `addImageDeps` is
dropped. -/
def fetchLoop (E : Env) : Nat → State → Option (Except Err State)
  | 0, _ => none
  | n + 1, st =>
    match st.imgsl with
    | [] => some (.ok st)
    | img :: rest =>
      match E.fetchSingleImage st.time img with
      | none => some (.error .fetch)
      | some hash => fetchLoop E n (addImageDeps E hash (st.visit rest hash)).2

def fetchImageDeps (E : Env) (fuel : Nat) (hash : Str) : Option (Except Err State) :=
  fetchLoop E fuel (addImageDeps E hash .start).2

/-- The image that a name resolves to, and the dependencies of an image. -/
structure Graph where
  image : Str → Str
  deps : Str → List Dependency

/-- Names resolve to their images, and the manifests that are read are those of the images. -/
structure Env.Over (E : Env) (G : Graph) : Prop where
  image : ∀ n s hash, E.fetchSingleImage n s = some hash → hash = G.image s
  deps : ∀ n hash ds, E.getImageDeps n hash = some ds → ds = G.deps hash

/-- The image that one of the given dependencies is. -/
def Graph.Names (G : Graph) (ds : List Dependency) (b : Str) : Prop :=
  ∃ d ∈ ds, ∃ s, d.Spells s ∧ G.image s = b

/-- `b` is a dependency of `a`. -/
def Graph.Dep (G : Graph) (a b : Str) : Prop := G.Names (G.deps a) b

/-- `b` can be reached from `root`. -/
def Graph.Reachable (G : Graph) (root b : Str) : Prop := ReflTransGen G.Dep root b

/-- The dependencies that may be put on the list even if all names have been seen: the first one,
and one after another as long as they have more than one name. -/
def again : List Dependency → List Dependency
  | [] => []
  | d :: ds =>
    if Keys.assertValid d.imageName then
      d :: if d.labels.length ≤ 1 then [] else again ds
    else []

/-- The first dependency: it is put on the list each time that the image is looked at. -/
def first : List Dependency → List Dependency
  | [] => []
  | d :: _ => if Keys.assertValid d.imageName then [d] else []

theorem Env.spells (E : Env) (n : Nat) (d : Dependency) : d.Spells (E.string n d) :=
  ⟨_, E.order_perm n d.labels, rfl⟩

theorem Dependency.Spells.unique {d : Dependency} (h : d.labels.length ≤ 1) {s s' : Str}
    (hs : d.Spells s) (hs' : d.Spells s') : s = s' := by
  obtain ⟨l, hl, rfl⟩ := hs
  obtain ⟨l', hl', rfl⟩ := hs'
  have hone : ∀ l : List (Str × Str), l.Perm d.labels → l = d.labels := by
    intro l hl
    cases hlabels : d.labels with
    | nil => exact List.perm_nil.mp (hlabels ▸ hl)
    | cons x xs =>
      have hxs : xs = [] := by
        rw [hlabels] at h
        simpa using h
      rw [hlabels, hxs] at hl
      rw [hxs]
      exact List.perm_singleton.mp hl
  rw [hone l hl, hone l' hl']

/-- What one call of `addImageDeps` does, for dependencies `ds`: it puts names of theirs on the
list and into `seen`; and if nothing was new, only such that may come again. -/
structure Added (ds : List Dependency) (st st' : State) (pushed : List Str) : Prop where
  imgsl : st'.imgsl = st.imgsl ++ pushed
  fetched : st'.fetched = st.fetched
  spelled : ∀ s ∈ pushed, ∃ d ∈ ds, d.Spells s
  subset : st.seen ⊆ st'.seen
  seen : ∀ s ∈ st'.seen, s ∈ st.seen ∨ ∃ d ∈ ds, d.Spells s
  comesAgain : st'.seen = st.seen → ∀ s ∈ pushed, ∃ d ∈ again ds, d.Spells s

theorem Added.nothing (ds : List Dependency) {st st' : State} (himgsl : st'.imgsl = st.imgsl)
    (hfetched : st'.fetched = st.fetched) (hseen : st'.seen = st.seen) : Added ds st st' [] where
  imgsl := by simp [himgsl]
  fetched := hfetched
  spelled := nofun
  subset := hseen ▸ Finset.Subset.refl _
  seen s hs := .inl (hseen ▸ hs)
  comesAgain _ := nofun

theorem Added.cons {E : Env} {d : Dependency} {ds : List Dependency} {st st' : State}
    {pushed : List Str} (hvalid : Keys.assertValid d.imageName = true)
    (hnew : E.string (st.time + 1) d ∉ st.seen)
    (h : Added ds { st with
      imgsl := st.imgsl ++ [E.string st.time d], time := st.time + 3
      seen := insert (E.string (st.time + 2) d) st.seen } st' pushed) :
    Added (d :: ds) st st' (E.string st.time d :: pushed) where
  imgsl := by
    rw [h.imgsl]
    simp
  fetched := h.fetched
  spelled s hs := by
    rcases List.mem_cons.mp hs with rfl | hs
    · exact ⟨d, List.mem_cons_self, E.spells _ d⟩
    · obtain ⟨d', hd', hs'⟩ := h.spelled s hs
      exact ⟨d', List.mem_cons_of_mem _ hd', hs'⟩
  subset := (Finset.subset_insert _ _).trans h.subset
  seen s hs := by
    rcases h.seen s hs with hs | ⟨d', hd', hs'⟩
    · rcases Finset.mem_insert.mp hs with rfl | hs
      · exact .inr ⟨d, List.mem_cons_self, E.spells _ d⟩
      · exact .inl hs
    · exact .inr ⟨d', List.mem_cons_of_mem _ hd', hs'⟩
  comesAgain hsame s hs := by
    -- nothing is new, so the dependency was looked up and entered under different names
    have hin : E.string (st.time + 2) d ∈ st.seen := by
      rw [← hsame]
      exact h.subset (Finset.mem_insert_self _ _)
    have hmany : ¬ d.labels.length ≤ 1 := fun hone =>
      hnew ((E.spells _ d).unique hone (E.spells _ d) ▸ hin)
    have hagain : again (d :: ds) = d :: again ds := by
      rw [again, if_pos hvalid, if_neg hmany]
    rw [hagain]
    rcases List.mem_cons.mp hs with rfl | hs
    · exact ⟨d, List.mem_cons_self, E.spells _ d⟩
    · have hsame' := hsame.trans (Finset.insert_eq_of_mem hin).symm
      obtain ⟨d', hd', hs'⟩ := h.comesAgain hsame' s hs
      exact ⟨d', List.mem_cons_of_mem _ hd', hs'⟩

theorem addDeps_added (E : Env) (hash : Str) (ds : List Dependency) : ∀ st : State,
    ∃ pushed, Added ds st (addDeps E hash ds st).2 pushed := by
  induction ds with
  | nil => exact fun st => ⟨[], .nothing [] rfl rfl rfl⟩
  | cons d ds ih =>
    intro st
    unfold addDeps
    split_ifs with hvalid hseen
    · -- the name was seen before
      refine ⟨[E.string st.time d], rfl, rfl, fun s hs => ?_, Finset.Subset.refl _,
        fun s hs => .inl hs, fun _ s hs => ?_⟩
      · rw [List.mem_singleton.mp hs]
        exact ⟨d, List.mem_cons_self, E.spells _ d⟩
      · rw [List.mem_singleton.mp hs]
        refine ⟨d, ?_, E.spells _ d⟩
        rw [again, if_pos hvalid]
        exact List.mem_cons_self
    · obtain ⟨pushed, h⟩ := ih { st with
        imgsl := st.imgsl ++ [E.string st.time d], time := st.time + 3
        seen := insert (E.string (st.time + 2) d) st.seen }
      exact ⟨_, h.cons hvalid hseen⟩
    · exact ⟨[], .nothing _ rfl rfl rfl⟩

section

variable {E : Env} {G : Graph} {root : Str}

theorem addImageDeps_added (hE : E.Over G) (hash : Str) (st : State) :
    ∃ pushed, Added (G.deps hash) st (addImageDeps E hash st).2 pushed := by
  unfold addImageDeps
  cases hds : E.getImageDeps st.time hash with
  | none => exact ⟨[], .nothing _ rfl rfl rfl⟩
  | some ds =>
    rw [← hE.deps _ _ _ hds]
    obtain ⟨pushed, h⟩ := addDeps_added E hash ds { st with time := st.time + 1 }
    exact ⟨pushed, h.imgsl, h.fetched, h.spelled, h.subset, h.seen, h.comesAgain⟩

/-- `st'` is the state after a round from `st`. -/
def Round (E : Env) (st' st : State) : Prop :=
  ∃ img rest hash, st.imgsl = img :: rest ∧ E.fetchSingleImage st.time img = some hash ∧
    st' = (addImageDeps E hash (st.visit rest hash)).2

/-- The loop comes to the state. -/
def Comes (E : Env) (root : Str) (st : State) : Prop :=
  ReflTransGen (fun a b => Round E b a) (addImageDeps E root .start).2 st

/-- The name is on the list at some time. -/
def Listed (E : Env) (root s : Str) : Prop := ∃ st, Comes E root st ∧ s ∈ st.imgsl

variable {st : State}

theorem fetchLoop_rounds {n : Nat} {st' : State} (h : fetchLoop E n st = some (.ok st')) :
    ReflTransGen (fun a b => Round E b a) st st' ∧ st'.imgsl = [] := by
  induction n generalizing st with
  | zero => cases h
  | succ n ih =>
    rw [fetchLoop] at h
    split at h
    · next hq =>
      cases h
      exact ⟨.refl, hq⟩
    · next img rest hq =>
      split at h
      · cases h
      · next hash hfetch =>
        exact ⟨.head ⟨img, rest, hash, hq, hfetch, rfl⟩ (ih h).1, (ih h).2⟩

/-- Only dependencies come on the list and are fetched. -/
theorem Comes.dependencies (hE : E.Over G) (h : Comes E root st) :
    (∀ s ∈ st.imgsl, TransGen G.Dep root (G.image s)) ∧
      ∀ hash ∈ st.fetched, TransGen G.Dep root hash := by
  induction h with
  | refl =>
    obtain ⟨pushed, h⟩ := addImageDeps_added hE root .start
    rw [h.imgsl, h.fetched]
    refine ⟨fun s hs => ?_, nofun⟩
    obtain ⟨d, hd, hs'⟩ := h.spelled s hs
    exact .single ⟨d, hd, s, hs', rfl⟩
  | @tail st _ _ hround ih =>
    obtain ⟨img, rest, hash, hq, hfetch, rfl⟩ := hround
    obtain rfl := hE.image _ _ _ hfetch
    obtain ⟨pushed, h⟩ := addImageDeps_added hE (G.image img) (st.visit rest (G.image img))
    have himg := ih.1 img (by rw [hq]; exact List.mem_cons_self)
    rw [h.imgsl, h.fetched]
    refine ⟨fun s hs => ?_, fun hash hh => ?_⟩
    · rcases List.mem_append.mp hs with hs | hs
      · exact ih.1 s (by rw [hq]; exact List.mem_cons_of_mem _ hs)
      · obtain ⟨d, hd, hs'⟩ := h.spelled s hs
        exact himg.tail ⟨d, hd, s, hs', rfl⟩
    · rcases List.mem_cons.mp hh with rfl | hh
      · exact himg
      · exact ih.2 hash hh

/-- **Nothing but dependencies is fetched**, in as many rounds as there may be: for every graph,
cyclic ones included, and also if the loop does not end or stops with an error. -/
theorem fetches_only_dependencies (G : Graph) (E : Env) (hE : E.Over G) (root : Str) :
    (∀ st, ReflTransGen (fun a b => Round E b a) (addImageDeps E root .start).2 st →
      (∀ s ∈ st.imgsl, TransGen G.Dep root (G.image s)) ∧
      ∀ hash ∈ st.fetched, TransGen G.Dep root hash) ∧
    ∀ n st, fetchImageDeps E n root = some (.ok st) →
      ∀ hash ∈ st.fetched, TransGen G.Dep root hash :=
  ⟨fun _ h => Comes.dependencies hE h, fun _ _ h =>
    (Comes.dependencies hE (fetchLoop_rounds h).1).2⟩

/-- A dependency has at most one label, and therefore one name. -/
def Graph.Single (G : Graph) (root : Str) : Prop :=
  ∀ h, G.Reachable root h → ∀ d ∈ G.deps h, d.labels.length ≤ 1

/-- `addImageDeps` is called for the image, in the given state. -/
inductive Call (E : Env) (root : Str) : Str → State → Prop
  | start : Call E root root .start
  | round {st : State} {img : Str} {rest : List Str} {hash : Str} : Comes E root st →
    st.imgsl = img :: rest → E.fetchSingleImage st.time img = some hash →
    Call E root hash (st.visit rest hash)

theorem Call.comes {hash : Str} (h : Call E root hash st) :
    Comes E root (addImageDeps E hash st).2 := by
  cases h with
  | start => exact .refl
  | round hst hq hfetch => exact hst.tail ⟨_, _, _, hq, hfetch, rfl⟩

/-- What has been fetched was on the list, and has been looked at. -/
theorem Comes.fetched (hE : E.Over G) (h : Comes E root st) : ∀ hash ∈ st.fetched,
    (∃ s, Listed E root s ∧ G.image s = hash) ∧ ∃ st₀, Call E root hash st₀ := by
  induction h with
  | refl =>
    obtain ⟨pushed, h⟩ := addImageDeps_added hE root .start
    rw [h.fetched]
    exact nofun
  | @tail st _ hst hround ih =>
    obtain ⟨img, rest, hash, hq, hfetch, rfl⟩ := hround
    obtain ⟨pushed, h⟩ := addImageDeps_added hE hash (st.visit rest hash)
    rw [h.fetched]
    intro hash' hh
    rcases List.mem_cons.mp hh with rfl | hh
    · refine ⟨⟨img, ⟨st, hst, ?_⟩, (hE.image _ _ _ hfetch).symm⟩, _, .round hst hq hfetch⟩
      rw [hq]
      exact List.mem_cons_self
    · exact ih hash' hh

end

/-- An image whose manifest cannot be read has no dependencies. -/
theorem unreadable_manifest_ignored (E : Env) (root : Str) (h : E.getImageDeps 0 root = none) :
    ∃ st, fetchImageDeps E 1 root = some (.ok st) ∧ st.fetched = [] := by
  refine ⟨{ State.start with time := 1 }, ?_, rfl⟩
  simp [fetchImageDeps, addImageDeps, State.start, h, fetchLoop]

def plain (name : Str) : Dependency := ⟨name, [], List.nodup_nil⟩

/-- Images that are called as their hashes, and what they depend on. -/
def plainGraph (deps : Str → List Str) : Graph := ⟨id, fun h => (deps h).map plain⟩

def plainEnv (deps : Str → List Str) : Env where
  order _ l := l
  order_perm _ l := List.Perm.refl l
  getImageDeps _ h := some ((deps h).map plain)
  fetchSingleImage _ s := some s

section

variable {deps : Str → List Str}

theorem plainEnv_over (deps : Str → List Str) : (plainEnv deps).Over (plainGraph deps) :=
  ⟨fun _ _ _ h => (Option.some.inj h).symm, fun _ _ _ h => (Option.some.inj h).symm⟩

variable {a b : Str}

theorem rank_lt {r : Str → Str → Prop} {rank : Str → Nat} (h : ∀ a b, r a b → rank b < rank a)
    (hab : TransGen r a b) : rank b < rank a := by
  induction hab with
  | single hr => exact h _ _ hr
  | tail _ hr ih => exact (h _ _ hr).trans ih

end

/-- Two images that share a dependency, which is the last one of both. -/
def diamond : Str → List Str
  | ['r'] => [['a'], ['b']]
  | ['a'] => [['c']]
  | ['b'] => [['c']]
  | _ => []

/-- In both graphs, a dependency has a smaller rank. -/
def rank : Str → Nat
  | ['r'] => 3
  | ['a'] => 2
  | ['b'] => 1
  | _ => 0

theorem fetches_only_dependencies_diamond : ∃ st,
    fetchImageDeps (plainEnv diamond) 7 ['r'] = some (.ok st) ∧
      ∀ hash ∈ st.fetched, TransGen (plainGraph diamond).Dep ['r'] hash :=
  ⟨_, rfl, (fetches_only_dependencies _ (plainEnv diamond) (plainEnv_over _) ['r']).2 7 _ rfl⟩

end Rkt.Deps
