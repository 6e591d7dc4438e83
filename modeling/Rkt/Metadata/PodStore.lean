import Mathlib.Data.List.Induction

set_option autoImplicit false

namespace Rkt.Metadata

abbrev Str := List Char

/-- `types.UUID`. -/
abbrev UUID := Vector UInt8 16

abbrev Ptr := Nat

/-- `mdsPod`, over the types of the pod and the image manifests. -/
structure MdsPod (PM IM : Type) where
  uuid : UUID
  token : Str
  manifest : PM
  apps : Str → Option IM

/-- `podStore`, with the heap of the pods ever created. -/
structure PodStore (PM IM : Type) where
  heap : List (MdsPod PM IM)
  byToken : Str → Option Ptr
  byUUID : UUID → Option Ptr

inductive Err where
  /-- `errPodNotFound`. -/
  | podNotFound
  /-- `errAppNotFound`. -/
  | appNotFound
  deriving DecidableEq, Repr

variable {PM IM : Type}

def newPodStore : PodStore PM IM where
  heap := []
  byToken _ := none
  byUUID _ := none

namespace PodStore

def addPod (ps : PodStore PM IM) (u : UUID) (token : Str) (manifest : PM) : PodStore PM IM where
  heap := ps.heap ++ [⟨u, token, manifest, fun _ => none⟩]
  byUUID := Function.update ps.byUUID u (some ps.heap.length)
  byToken := Function.update ps.byToken token (some ps.heap.length)

/-- `addApp`. The pod is changed in place. -/
def addApp (ps : PodStore PM IM) (u : UUID) (app : Str) (manifest : IM) :
    Except Err (PodStore PM IM) :=
  match ps.byUUID u with
  | none => .error .podNotFound
  | some p => .ok { ps with
      heap := ps.heap.modify p fun pod =>
        { pod with apps := Function.update pod.apps app (some manifest) } }

def remove (ps : PodStore PM IM) (u : UUID) : Except Err (PodStore PM IM) :=
  match (ps.byUUID u).bind fun p => ps.heap[p]? with
  | none => .error .podNotFound
  | some pod => .ok { ps with
      byUUID := Function.update ps.byUUID u none
      byToken := Function.update ps.byToken pod.token none }

def ofToken (ps : PodStore PM IM) (token : Str) : Option (MdsPod PM IM) :=
  (ps.byToken token).bind fun p => ps.heap[p]?

def ofUUID (ps : PodStore PM IM) (u : UUID) : Option (MdsPod PM IM) :=
  (ps.byUUID u).bind fun p => ps.heap[p]?

def getUUID (ps : PodStore PM IM) (token : Str) : Except Err UUID :=
  match ps.ofToken token with
  | none => .error .podNotFound
  | some pod => .ok pod.uuid

def getPodManifest (ps : PodStore PM IM) (token : Str) : Except Err PM :=
  match ps.ofToken token with
  | none => .error .podNotFound
  | some pod => .ok pod.manifest

def getManifests (ps : PodStore PM IM) (token an : Str) : Except Err (PM × IM) :=
  match ps.ofToken token with
  | none => .error .podNotFound
  | some pod =>
    match pod.apps an with
    | none => .error .appNotFound
    | some im => .ok (pod.manifest, im)

end PodStore

inductive Op (PM IM : Type) where
  | addPod (u : UUID) (token : Str) (manifest : PM)
  | addApp (u : UUID) (app : Str) (manifest : IM)
  | remove (u : UUID)

/-- One operation. One that fails leaves the store as it is. -/
def PodStore.step (ps : PodStore PM IM) : Op PM IM → PodStore PM IM
  | .addPod u token manifest => ps.addPod u token manifest
  | .addApp u app manifest => (ps.addApp u app manifest).toOption.getD ps
  | .remove u => (ps.remove u).toOption.getD ps

def run (ops : List (Op PM IM)) : PodStore PM IM := ops.foldl PodStore.step newPodStore

theorem run_append (ops : List (Op PM IM)) (op : Op PM IM) :
    run (ops ++ [op]) = (run ops).step op := by
  simp [run, List.foldl_append]

structure Consistent (ps : PodStore PM IM) : Prop where
  byToken : ∀ t p, ps.byToken t = some p →
    ∃ pod, ps.heap[p]? = some pod ∧ pod.token = t ∧ ps.byUUID pod.uuid = some p
  byUUID : ∀ u p, ps.byUUID u = some p →
    ∃ pod, ps.heap[p]? = some pod ∧ pod.uuid = u ∧ ps.byToken pod.token = some p

/-- The registered pods, each with its last registration. -/
abbrev Registry (PM IM : Type) := UUID → Option (MdsPod PM IM)

namespace Registry

def empty : Registry PM IM := fun _ => none

def step (reg : Registry PM IM) : Op PM IM → Registry PM IM
  | .addPod u token manifest =>
    Function.update reg u (some ⟨u, token, manifest, fun _ => none⟩)
  | .addApp u app manifest =>
    Function.update reg u ((reg u).map fun pod =>
      { pod with apps := Function.update pod.apps app (some manifest) })
  | .remove u => Function.update reg u none

/-- A pod that is registered already is registered again only under its token, and a token that
is in use is given to its pod only. -/
def Admissible (reg : Registry PM IM) : Op PM IM → Prop
  | .addPod u token _ => ∀ v pod, reg v = some pod → (v = u ↔ pod.token = token)
  | _ => True

/-- Every operation is admissible when its turn comes. -/
def Admitted : Registry PM IM → List (Op PM IM) → Prop
  | _, [] => True
  | reg, op :: ops => reg.Admissible op ∧ (reg.step op).Admitted ops

end Registry

def registry (ops : List (Op PM IM)) : Registry PM IM := ops.foldl Registry.step Registry.empty

theorem registry_append (ops : List (Op PM IM)) (op : Op PM IM) :
    registry (ops ++ [op]) = (registry ops).step op := by
  simp [registry, List.foldl_append]

theorem admitted_append (reg : Registry PM IM) (ops : List (Op PM IM)) (op : Op PM IM) :
    reg.Admitted (ops ++ [op]) ↔
      reg.Admitted ops ∧ (ops.foldl Registry.step reg).Admissible op := by
  induction ops generalizing reg with
  | nil => simp [Registry.Admitted]
  | cons o ops ih => simp [Registry.Admitted, ih, and_assoc]

variable {pod : MdsPod PM IM} {u : UUID}

theorem heap_append {heap : List (MdsPod PM IM)} {p : Ptr}
    (new : MdsPod PM IM) (h : heap[p]? = some pod) : (heap ++ [new])[p]? = some pod := by
  obtain ⟨hp, -⟩ := List.getElem?_eq_some_iff.mp h
  rw [List.getElem?_append_left hp, h]

abbrev MdsPod.withApp (pod : MdsPod PM IM) (app : Str) (manifest : IM) : MdsPod PM IM :=
  { pod with apps := Function.update pod.apps app (some manifest) }

theorem heap_withApp {heap : List (MdsPod PM IM)} {q : Ptr} (p : Ptr)
    (app : Str) (manifest : IM) (h : heap[q]? = some pod) :
    ∃ pod', (heap.modify p fun pod => pod.withApp app manifest)[q]? = some pod' ∧
      pod'.uuid = pod.uuid ∧ pod'.token = pod.token := by
  by_cases hpq : p = q
  · exact ⟨pod.withApp app manifest, by simp [hpq, h], rfl, rfl⟩
  · exact ⟨pod, by simp [hpq, h], rfl, rfl⟩

theorem step_addApp {ps : PodStore PM IM} {p : Ptr} (h : ps.byUUID u = some p)
    (app : Str) (manifest : IM) :
    ps.step (.addApp u app manifest) =
      { ps with heap := ps.heap.modify p fun pod => pod.withApp app manifest } := by
  simp [PodStore.step, PodStore.addApp, h, Except.toOption]

theorem step_addApp_none {ps : PodStore PM IM} (h : ps.byUUID u = none)
    (app : Str) (manifest : IM) : ps.step (.addApp u app manifest) = ps := by
  simp [PodStore.step, PodStore.addApp, h, Except.toOption]

theorem step_remove {ps : PodStore PM IM}
    (h : ps.ofUUID u = some pod) :
    ps.step (.remove u) = { ps with
      byUUID := Function.update ps.byUUID u none
      byToken := Function.update ps.byToken pod.token none } := by
  unfold PodStore.ofUUID at h
  simp [PodStore.step, PodStore.remove, h, Except.toOption]

theorem step_remove_none {ps : PodStore PM IM} (h : ps.ofUUID u = none) :
    ps.step (.remove u) = ps := by
  unfold PodStore.ofUUID at h
  simp [PodStore.step, PodStore.remove, h, Except.toOption]

/-- `byUUID` is the registry. -/
structure Indexed (ps : PodStore PM IM) (reg : Registry PM IM) : Prop where
  valid : ∀ u p, ps.byUUID u = some p → ∃ pod, ps.heap[p]? = some pod ∧ pod.uuid = u
  pods : ∀ u, ps.ofUUID u = reg u

namespace Indexed

variable {ps : PodStore PM IM} {reg : Registry PM IM}

variable {u : UUID}

theorem address (h : Indexed ps reg) {pod : MdsPod PM IM} (hu : reg u = some pod) :
    ∃ p, ps.byUUID u = some p ∧ ps.heap[p]? = some pod := by
  rw [← h.pods u] at hu
  exact Option.bind_eq_some_iff.mp hu

theorem registered (h : Indexed ps reg) {p : Ptr} {pod : MdsPod PM IM}
    (hp : ps.byUUID u = some p) (hpod : ps.heap[p]? = some pod) : reg u = some pod := by
  rw [← h.pods u, PodStore.ofUUID, hp]
  exact hpod

theorem none_iff (h : Indexed ps reg) : reg u = none ↔ ps.byUUID u = none := by
  constructor
  · intro hu
    cases hp : ps.byUUID u with
    | none => rfl
    | some p =>
      obtain ⟨pod, hpod, -⟩ := h.valid u p hp
      have := h.pods u
      simp [PodStore.ofUUID, hp, hpod, hu] at this
  · intro hu
    rw [← h.pods u, PodStore.ofUUID, hu]
    rfl

theorem addPod (h : Indexed ps reg) (u : UUID) (token : Str) (manifest : PM) :
    Indexed (ps.addPod u token manifest) (reg.step (.addPod u token manifest)) := by
  constructor
  · intro v p hp
    by_cases hv : v = u
    · subst hv
      have : p = ps.heap.length := by simpa [PodStore.addPod, eq_comm] using hp
      subst this
      exact ⟨_, List.getElem?_concat_length, rfl⟩
    · have hold : ps.byUUID v = some p := by simpa [PodStore.addPod, hv] using hp
      obtain ⟨pod, hpod, hu⟩ := h.valid v p hold
      exact ⟨pod, heap_append _ hpod, hu⟩
  · intro v
    by_cases hv : v = u
    · subst hv
      simp [PodStore.ofUUID, PodStore.addPod, Registry.step]
    · simp only [PodStore.ofUUID, PodStore.addPod, Registry.step, Function.update_of_ne hv]
      rw [← h.pods v, PodStore.ofUUID]
      cases hp : ps.byUUID v with
      | none => rfl
      | some p =>
        obtain ⟨pod, hpod, -⟩ := h.valid v p hp
        simp only [Option.bind_some, hpod]
        exact heap_append _ hpod

theorem addApp (h : Indexed ps reg) (u : UUID) (app : Str) (manifest : IM) :
    Indexed (ps.step (.addApp u app manifest)) (reg.step (.addApp u app manifest)) := by
  cases hu : ps.byUUID u with
  | none =>
    rw [step_addApp_none hu]
    have hreg : reg.step (.addApp u app manifest) = reg := by
      simp [Registry.step, h.none_iff.mpr hu]
    rwa [hreg]
  | some p =>
    rw [step_addApp hu]
    obtain ⟨pod, hpod, huuid⟩ := h.valid u p hu
    constructor
    · intro v q hq
      obtain ⟨pod', hpod', hv⟩ := h.valid v q hq
      obtain ⟨pod'', hpod'', huuid', -⟩ := heap_withApp p app manifest hpod'
      exact ⟨pod'', hpod'', huuid'.trans hv⟩
    · intro v
      by_cases hv : v = u
      · subst hv
        simp [PodStore.ofUUID, Registry.step, hu, ← h.pods v, hpod]
      · simp only [PodStore.ofUUID, Registry.step, Function.update_of_ne hv]
        rw [← h.pods v, PodStore.ofUUID]
        cases hq : ps.byUUID v with
        | none => rfl
        | some q =>
          -- the address of another pod is another one
          have hpq : p ≠ q := by
            rintro rfl
            obtain ⟨pod', hpod', hv'⟩ := h.valid v p hq
            rw [hpod] at hpod'
            exact hv (by rw [← hv', ← huuid, Option.some.inj hpod'])
          simp [hpq]

theorem remove (h : Indexed ps reg) (u : UUID) :
    Indexed (ps.step (.remove u)) (reg.step (.remove u)) := by
  cases hu : ps.ofUUID u with
  | none =>
    rw [step_remove_none hu]
    have hreg : reg.step (.remove u) = reg := by
      simp [Registry.step, ← h.pods u, hu]
    rwa [hreg]
  | some pod =>
    rw [step_remove hu]
    constructor
    · intro v p hp
      by_cases hv : v = u
      · subst hv
        simp at hp
      · simp only [Function.update_of_ne hv] at hp
        exact h.valid v p hp
    · intro v
      by_cases hv : v = u
      · subst hv
        simp [PodStore.ofUUID, Registry.step]
      · simp only [PodStore.ofUUID, Registry.step, Function.update_of_ne hv]
        exact h.pods v

theorem step (h : Indexed ps reg) (op : Op PM IM) : Indexed (ps.step op) (reg.step op) := by
  cases op with
  | addPod u token manifest => exact h.addPod u token manifest
  | addApp u app manifest => exact h.addApp u app manifest
  | remove u => exact h.remove u

end Indexed

theorem run_pods (ops : List (Op PM IM)) : Indexed (run ops) (registry ops) := by
  induction ops using List.reverseRecOn with
  | nil => exact ⟨nofun, fun _ => rfl⟩
  | append_singleton ops op ih =>
    rw [run_append, registry_append]
    exact ih.step op

namespace Consistent

variable {ps : PodStore PM IM} {reg : Registry PM IM}

theorem addPod (h : Consistent ps) (hi : Indexed ps reg) {u : UUID} {token : Str} {manifest : PM}
    (ha : reg.Admissible (.addPod u token manifest : Op PM IM)) :
    Consistent (ps.addPod u token manifest) := by
  constructor
  · intro t p hp
    by_cases ht : t = token
    · subst ht
      have : p = ps.heap.length := by simpa [PodStore.addPod, eq_comm] using hp
      subst this
      exact ⟨_, List.getElem?_concat_length, rfl, by simp [PodStore.addPod]⟩
    · have hold : ps.byToken t = some p := by simpa [PodStore.addPod, ht] using hp
      obtain ⟨pod, hpod, htok, huuid⟩ := h.byToken t p hold
      -- the pod is not the one that is registered, which keeps its token
      have hne : pod.uuid ≠ u := by
        intro hu
        have hreg : reg u = some pod := hi.registered (hu ▸ huuid) hpod
        exact ht (by rw [← htok, (ha u pod hreg).mp rfl])
      refine ⟨pod, heap_append _ hpod, htok, ?_⟩
      simpa [PodStore.addPod, Function.update_of_ne hne] using huuid
  · intro v p hp
    by_cases hv : v = u
    · subst hv
      have : p = ps.heap.length := by simpa [PodStore.addPod, eq_comm] using hp
      subst this
      exact ⟨_, List.getElem?_concat_length, rfl, by simp [PodStore.addPod]⟩
    · have hold : ps.byUUID v = some p := by simpa [PodStore.addPod, hv] using hp
      obtain ⟨pod, hpod, huuid, htok⟩ := h.byUUID v p hold
      have hne : pod.token ≠ token := by
        intro ht
        have hreg : reg v = some pod := hi.registered hold hpod
        exact hv ((ha v pod hreg).mpr ht)
      refine ⟨pod, heap_append _ hpod, huuid, ?_⟩
      simpa [PodStore.addPod, Function.update_of_ne hne] using htok

theorem addApp (h : Consistent ps) (u : UUID) (app : Str) (manifest : IM) :
    Consistent (ps.step (.addApp u app manifest)) := by
  cases hu : ps.byUUID u with
  | none => rwa [step_addApp_none hu]
  | some p =>
    rw [step_addApp hu]
    constructor
    · intro t q hq
      obtain ⟨pod, hpod, htok, huuid⟩ := h.byToken t q hq
      obtain ⟨pod', hpod', hu', ht'⟩ := heap_withApp p app manifest hpod
      exact ⟨pod', hpod', by rw [ht', htok], by rw [hu']; exact huuid⟩
    · intro v q hq
      obtain ⟨pod, hpod, huuid, htok⟩ := h.byUUID v q hq
      obtain ⟨pod', hpod', hu', ht'⟩ := heap_withApp p app manifest hpod
      exact ⟨pod', hpod', by rw [hu', huuid], by rw [ht']; exact htok⟩

theorem remove (h : Consistent ps) (u : UUID) : Consistent (ps.step (.remove u)) := by
  cases hu : ps.ofUUID u with
  | none => rwa [step_remove_none hu]
  | some pod0 =>
    rw [step_remove hu]
    obtain ⟨p0, hp0, hpod0⟩ := Option.bind_eq_some_iff.mp hu
    obtain ⟨pod, hpod, huuid0, htok0⟩ := h.byUUID u p0 hp0
    obtain rfl : pod = pod0 := Option.some.inj (hpod.symm.trans hpod0)
    constructor
    · intro t p hp
      have ht : t ≠ pod.token := by
        rintro rfl
        simp at hp
      simp only [Function.update_of_ne ht] at hp
      obtain ⟨pod', hpod', htok, huuid⟩ := h.byToken t p hp
      have hne : pod'.uuid ≠ u := by
        intro hu'
        rw [hu', hp0, Option.some.injEq] at huuid
        subst huuid
        rw [hpod0, Option.some.injEq] at hpod'
        exact ht (by rw [← htok, hpod'])
      exact ⟨pod', hpod', htok, by simp only [Function.update_of_ne hne]; exact huuid⟩
    · intro v p hp
      have hv : v ≠ u := by
        rintro rfl
        simp at hp
      simp only [Function.update_of_ne hv] at hp
      obtain ⟨pod', hpod', huuid, htok⟩ := h.byUUID v p hp
      have hne : pod'.token ≠ pod.token := by
        intro ht
        rw [ht, htok0, Option.some.injEq] at htok
        subst htok
        rw [hpod0, Option.some.injEq] at hpod'
        exact hv (by rw [← huuid, ← hpod', huuid0])
      exact ⟨pod', hpod', huuid, by simp only [Function.update_of_ne hne]; exact htok⟩

theorem step (h : Consistent ps) (hi : Indexed ps reg) {op : Op PM IM} (ha : reg.Admissible op) :
    Consistent (ps.step op) := by
  cases op with
  | addPod u token manifest => exact h.addPod hi ha
  | addApp u app manifest => exact h.addApp u app manifest
  | remove u => exact h.remove u

theorem ofToken (h : Consistent ps) (hi : Indexed ps reg) {t : Str} {pod : MdsPod PM IM} :
    ps.ofToken t = some pod ↔ reg pod.uuid = some pod ∧ pod.token = t := by
  constructor
  · intro ht
    obtain ⟨p, hp, hpod⟩ := Option.bind_eq_some_iff.mp ht
    obtain ⟨pod', hpod', htok, huuid⟩ := h.byToken t p hp
    obtain rfl : pod' = pod := Option.some.inj (hpod'.symm.trans hpod)
    exact ⟨hi.registered huuid hpod, htok⟩
  · rintro ⟨hreg, rfl⟩
    obtain ⟨p, hp, hpod⟩ := hi.address hreg
    obtain ⟨pod', hpod', -, htok⟩ := h.byUUID _ p hp
    obtain rfl : pod' = pod := Option.some.inj (hpod'.symm.trans hpod)
    rw [PodStore.ofToken, htok]
    exact hpod

end Consistent

/-- The maps stay consistent as long as the operations are admissible; by induction on the
operations, from the last one. -/
theorem run_consistent (ops : List (Op PM IM)) (h : Registry.empty.Admitted ops) :
    Consistent (run ops) := by
  induction ops using List.reverseRecOn with
  | nil => exact ⟨nofun, nofun⟩
  | append_singleton ops op ih =>
    obtain ⟨hops, hop⟩ := (admitted_append _ ops op).mp h
    rw [run_append]
    exact (ih hops).step (run_pods ops) hop

/-- The operations that are not admissible are those that break the store. -/
theorem admissible_of_consistent {ps : PodStore PM IM} {reg : Registry PM IM}
    (hi : Indexed ps reg) (h : Consistent ps) (op : Op PM IM) (h' : Consistent (ps.step op)) :
    reg.Admissible op := by
  cases op with
  | addPod u token manifest =>
    intro v pod hreg
    obtain ⟨p, hp, hpod⟩ := hi.address hreg
    obtain ⟨pod1, hpod1, huuid, htok⟩ := h.byUUID v p hp
    obtain rfl : pod1 = pod := Option.some.inj (hpod1.symm.trans hpod)
    -- the new pod has a new address
    have hlt : p < ps.heap.length := (List.getElem?_eq_some_iff.mp hpod).1
    have hkept : ∀ w pod', (ps.addPod w token manifest).heap[p]? = some pod' → pod' = pod1 := by
      intro w pod' hpod'
      exact Option.some.inj
        (hpod'.symm.trans (heap_append ⟨w, token, manifest, fun _ => none⟩ hpod))
    constructor
    · rintro rfl
      by_contra hne
      have hold : (ps.addPod v token manifest).byToken pod1.token = some p := by
        simpa [PodStore.addPod, Function.update_of_ne hne] using htok
      obtain ⟨pod', hpod', -, hback⟩ := h'.byToken _ p hold
      have hnew : some ps.heap.length = some p := by
        simpa [PodStore.step, PodStore.addPod, hkept _ _ hpod', huuid] using hback
      exact absurd (Option.some.inj hnew) (Nat.ne_of_gt hlt)
    · intro ht
      by_contra hne
      have hold : (ps.addPod u token manifest).byUUID v = some p := by
        simpa [PodStore.addPod, Function.update_of_ne hne] using hp
      obtain ⟨pod', hpod', -, hback⟩ := h'.byUUID v p hold
      have hnew : some ps.heap.length = some p := by
        simpa [PodStore.step, PodStore.addPod, hkept _ _ hpod', ht] using hback
      exact absurd (Option.some.inj hnew) (Nat.ne_of_gt hlt)
  | addApp u app manifest => trivial
  | remove u => trivial

/-- A store that is consistent all along has seen admissible operations only. -/
theorem admitted_of_consistent (ops : List (Op PM IM))
    (h : ∀ l, l <+: ops → Consistent (run l)) : Registry.empty.Admitted ops := by
  induction ops using List.reverseRecOn with
  | nil => trivial
  | append_singleton ops op ih =>
    have hops : ∀ l, l <+: ops → Consistent (run l) :=
      fun l hl => h l (hl.trans (List.prefix_append ops [op]))
    refine (admitted_append _ ops op).mpr ⟨ih hops, ?_⟩
    refine admissible_of_consistent (run_pods ops) (hops ops List.prefix_rfl) op ?_
    rw [← run_append]
    exact h _ List.prefix_rfl

theorem admitted_start {reg : Registry PM IM} {l ops : List (Op PM IM)} (hl : l <+: ops)
    (h : reg.Admitted ops) : reg.Admitted l := by
  obtain ⟨ops', rfl⟩ := hl
  induction l generalizing reg with
  | nil => trivial
  | cons op l ih => exact ⟨h.1, ih h.2⟩

/-- **The maps agree after each operation if and only if all operations are admissible**: none
registers a pod again under another token or gives a token to a second pod. -/
theorem consistent_throughout_iff (ops : List (Op PM IM)) :
    (∀ l, l <+: ops → Consistent (run l)) ↔ Registry.empty.Admitted ops :=
  ⟨admitted_of_consistent ops, fun h l hl => run_consistent l (admitted_start hl h)⟩

theorem getUUID_ok {ps : PodStore PM IM} {t : Str} :
    ps.getUUID t = .ok u ↔ ∃ pod, ps.ofToken t = some pod ∧ pod.uuid = u := by
  unfold PodStore.getUUID
  cases ps.ofToken t <;> simp

/-- **The two maps agree**, after any operations that neither register a pod again under another
token nor give a token to a second pod: the maps describe the same pods, no token resolves to a
pod that has been removed, and a pod that has not been removed is found by its token, with its
manifest and its apps. -/
theorem indexes_agree (ops : List (Op PM IM)) (h : Registry.empty.Admitted ops) :
    Consistent (run ops) ∧
    (∀ u t, (run (ops ++ [.remove u])).getUUID t ≠ .ok u ∧
      ∀ pod, (run (ops ++ [.remove u])).ofToken t = some pod → pod.uuid ≠ u) ∧
    ∀ u pod, registry ops u = some pod →
      (run ops).getUUID pod.token = .ok u ∧
      (run ops).getPodManifest pod.token = .ok pod.manifest ∧
      ∀ an im, pod.apps an = some im →
        (run ops).getManifests pod.token an = .ok (pod.manifest, im) := by
  have hcons := run_consistent ops h
  refine ⟨hcons, fun u t => ?_, fun u pod hreg => ?_⟩
  · have hops : Registry.empty.Admitted (ops ++ [.remove u]) :=
      (admitted_append _ ops _).mpr ⟨h, trivial⟩
    have hgone : registry (ops ++ [.remove u]) u = none := by
      rw [registry_append]
      simp [Registry.step]
    have hnot : ∀ pod, (run (ops ++ [.remove u])).ofToken t = some pod → pod.uuid ≠ u := by
      rintro pod hpod rfl
      obtain ⟨hreg, -⟩ := ((run_consistent _ hops).ofToken (run_pods _)).mp hpod
      rw [hgone] at hreg
      cases hreg
    refine ⟨fun hu => ?_, hnot⟩
    obtain ⟨pod, hpod, huuid⟩ := getUUID_ok.mp hu
    exact hnot pod hpod huuid
  · have huuid : pod.uuid = u := by
      obtain ⟨p, hp, hpod⟩ := (run_pods ops).address hreg
      obtain ⟨pod', hpod', huuid⟩ := (run_pods ops).valid u p hp
      rw [hpod, Option.some.injEq] at hpod'
      rw [hpod', huuid]
    have hfound : (run ops).ofToken pod.token = some pod :=
      (hcons.ofToken (run_pods ops)).mpr ⟨by rw [huuid]; exact hreg, rfl⟩
    refine ⟨by simp [PodStore.getUUID, hfound, huuid], by simp [PodStore.getPodManifest, hfound],
      fun an im him => ?_⟩
    simp [PodStore.getManifests, hfound, him]

def someUUID : UUID := Vector.replicate 16 0
def otherUUID : UUID := Vector.replicate 16 1

/-- A pod is registered, removed, and registered again under another token. -/
def registeredAgain : List (Op Unit Unit) :=
  [.addPod someUUID ['a'] (), .addApp someUUID ['x'] (), .remove someUUID,
   .addPod someUUID ['b'] ()]

theorem indexes_agree_again : Consistent (run registeredAgain) ∧
    (run registeredAgain).getUUID ['b'] = .ok someUUID ∧
    ∀ t, (run (registeredAgain ++ [.remove someUUID])).getUUID t ≠ .ok someUUID := by
  have hadm : Registry.empty.Admitted registeredAgain := by
    refine ⟨nofun, trivial, trivial, fun v pod hpod => ?_, trivial⟩
    by_cases hv : v = someUUID <;>
      simp [Registry.step, Registry.empty, hv] at hpod
  obtain ⟨hcons, hgone, hfound⟩ := indexes_agree registeredAgain hadm
  have hreg : registry registeredAgain someUUID = some ⟨someUUID, ['b'], (), fun _ => none⟩ := by
    rw [registry, registeredAgain]
    rfl
  exact ⟨hcons, (hfound _ _ hreg).1, fun t => (hgone someUUID t).1⟩

/-- **A stale token.** A pod that is registered again under another token is still found by the
old one, also after it is removed; and the token of a pod that is given to a second one no longer
leads to the first. -/
theorem stale_token_resolves :
    let twice : List (Op Unit Unit) :=
      [.addPod someUUID ['a'] (), .addPod someUUID ['b'] ()]
    let taken : List (Op Unit Unit) :=
      [.addPod someUUID ['a'] (), .addPod otherUUID ['a'] ()]
    ¬ Consistent (run twice) ∧
    (run (twice ++ [.remove someUUID])).getUUID ['a'] = .ok someUUID ∧
    (registry taken someUUID).isSome ∧ (run taken).getUUID ['a'] = .ok otherUUID := by
  refine ⟨fun h => ?_, rfl, rfl, rfl⟩
  obtain ⟨pod, hpod, -, hback⟩ := h.byToken ['a'] 0 rfl
  cases hpod
  cases hback

end Rkt.Metadata
