import Rkt.Code.Base64
import Rkt.Keys.Keystore
import Rkt.Metadata.PodStore

set_option autoImplicit false

namespace Rkt.Metadata

/-- `ACName.Equals` and `ACIdentifier.Equals`. -/
def equals (n o : Str) : Bool := n.map Char.toLower = o.map Char.toLower

/-- `ACName.assertValid`, the check that `NewACName` makes. -/
def validACName (s : Str) : Bool :=
  s ≠ [] && s.all (fun c => Keys.alphanumeric c || c = '-') && s.head? ≠ some '-' &&
    s.getLast? ≠ some '-'

/-- `types.Annotation`. -/
structure Annotation where
  name : Str
  value : Str
  deriving DecidableEq, Repr

/-- `types.Annotations`. -/
abbrev Annotations := List Annotation

/-- `Annotations.Get`. -/
def Annotations.get (a : Annotations) (name : Str) : Option Str :=
  (a.find? (·.name = name)).map (·.value)

/-- `Annotations.Set`. -/
def Annotations.set (name value : Str) : Annotations → Annotations
  | [] => [⟨name, value⟩]
  | anno :: a =>
    if equals anno.name name then ⟨name, value⟩ :: a else anno :: Annotations.set name value a

/-- The part of `schema.RuntimeApp` the service looks at. -/
structure RuntimeApp where
  name : Str
  /-- `Image.ID`, as text. -/
  imageID : Str
  annotations : Annotations
  deriving DecidableEq, Repr

/-- The part of `schema.PodManifest` the service looks at. -/
structure PodManifest where
  apps : List RuntimeApp
  annotations : Annotations
  deriving DecidableEq, Repr

/-- `AppList.Get`. -/
def PodManifest.getApp (pm : PodManifest) (name : Str) : Option RuntimeApp :=
  pm.apps.find? fun a => equals name a.name

def PodManifest.Has (pm : PodManifest) (name : Str) : Prop := ∃ a ∈ pm.apps, a.name = name

instance (pm : PodManifest) (name : Str) : Decidable (pm.Has name) :=
  inferInstanceAs (Decidable (∃ a ∈ pm.apps, a.name = name))

/-- The part of `schema.ImageManifest` the service looks at. -/
structure ImageManifest where
  annotations : Annotations
  deriving DecidableEq, Repr

abbrev Pods := PodStore PodManifest ImageManifest

inductive Msg where
  /-- `UUID is missing or malformed: %v`. -/
  | malformedUUID (err : Str)
  /-- `token missing`. -/
  | tokenMissing
  /-- `app missing`. -/
  | appMissing
  /-- `JSON-decoding failed: %v`. -/
  | decoding (err : Str)
  /-- An error of the store of pods. -/
  | store (e : Err)
  /-- `Pod with given UUID not found`. -/
  | noPod
  /-- `Pod annotation %q is not a valid AC Identifier`. -/
  | podAnnotationName (n : Str)
  /-- `Pod annotation %q not found`. -/
  | podAnnotationUnknown (k : Str)
  /-- `App name %q is not a valid AC Name`. -/
  | appName (n : Str)
  /-- `App annotation name %q is not a valid AC Identifier`. -/
  | appAnnotationName (n : Str)
  /-- `App annotation %q not found`. -/
  | appAnnotationUnknown (k : Str)
  deriving DecidableEq, Repr

inductive Body where
  | empty
  | msg (m : Msg)
  | text (s : Str)
  /-- One line each. -/
  | lines (ls : List Str)
  | uuid (u : UUID)
  /-- A manifest, as JSON. -/
  | podManifest (pm : PodManifest)
  | imageManifest (im : ImageManifest)
  deriving DecidableEq

inductive Handled where
  | reply (status : Nat) (body : Body)
  | panicked (text : Str)
  deriving DecidableEq

/-- A request, as the handlers see it. A UUID or a body that does not parse is given by the error;
`tokens` are the values of `token` in the query. -/
inductive Request where
  | registerPod (uuid : Except Str UUID) (tokens : List Str) (body : Except Str PodManifest)
  | unregisterPod (uuid : Except Str UUID)
  | registerApp (uuid : Except Str UUID) (app : Str) (body : Except Str ImageManifest)
  | podAnnotations (token : Str)
  | podAnnotationValue (token name : Str)
  | podManifest (token : Str)
  | podUUID (token : Str)
  | appAnnotations (token app : Str)
  | appAnnotationValue (token app name : Str)
  | imageManifest (token app : Str)
  | appID (token app : Str)

/-- `queryValue`, for the values of a key. -/
def queryValue : List Str → Str
  | [v] => v
  | _ => []

def handleRegisterPod (ps : Pods) (uuid : Except Str UUID) (tokens : List Str)
    (body : Except Str PodManifest) : Pods × Handled :=
  match uuid with
  | .error err => (ps, .reply 400 (.msg (.malformedUUID err)))
  | .ok u =>
    let token := queryValue tokens
    if token = [] then (ps, .reply 400 (.msg .tokenMissing))
    else
      match body with
      | .error err => (ps, .reply 400 (.msg (.decoding err)))
      | .ok pm => (ps.addPod u token pm, .reply 200 .empty)

def handleUnregisterPod (ps : Pods) (uuid : Except Str UUID) : Pods × Handled :=
  match uuid with
  | .error err => (ps, .reply 400 (.msg (.malformedUUID err)))
  | .ok u =>
    match ps.remove u with
    | .error e => (ps, .reply 404 (.msg (.store e)))
    | .ok ps' => (ps', .reply 200 .empty)

def handleRegisterApp (ps : Pods) (uuid : Except Str UUID) (an : Str)
    (body : Except Str ImageManifest) : Pods × Handled :=
  match uuid with
  | .error err => (ps, .reply 400 (.msg (.malformedUUID err)))
  | .ok u =>
    if an = [] then (ps, .reply 400 (.msg .appMissing))
    else
      match body with
      | .error err => (ps, .reply 400 (.msg (.decoding err)))
      | .ok im =>
        match ps.addApp u an im with
        | .error _ => (ps, .reply 404 (.msg .noPod))
        | .ok ps' => (ps', .reply 200 .empty)

def podGet (ps : Pods) (token : Str) (h : PodManifest → Handled) : Handled :=
  match ps.getPodManifest token with
  | .error e => .reply 401 (.msg (.store e))
  | .ok pm => h pm

def appGet (ps : Pods) (token an : Str) (h : PodManifest → ImageManifest → Handled) : Handled :=
  if an = [] then .reply 400 (.msg .appMissing)
  else
    match ps.getManifests token an with
    | .ok (pm, im) => h pm im
    | .error .podNotFound => .reply 401 (.msg (.store .podNotFound))
    | .error e => .reply 404 (.msg (.store e))

/-- `handlePodAnnotations`. The loop is over the indices. -/
def handlePodAnnotations (pm : PodManifest) : Handled :=
  .reply 200 (.lines ((List.range pm.annotations.length).map (Nat.toDigits 10)))

def handlePodAnnotation (n : Str) (pm : PodManifest) : Handled :=
  if Keys.assertValid n then
    match pm.annotations.get n with
    | none => .reply 404 (.msg (.podAnnotationUnknown n))
    | some v => .reply 200 (.text v)
  else .reply 400 (.msg (.podAnnotationName n))

def handlePodManifest (pm : PodManifest) : Handled := .reply 200 (.podManifest pm)

def handlePodUUID (ps : Pods) (token : Str) : Handled :=
  match ps.getUUID token with
  | .error e => .reply 401 (.msg (.store e))
  | .ok u => .reply 200 (.uuid u)

def mergeAppAnnotations (im : ImageManifest) (pm : PodManifest) (appName : Str) : Annotations :=
  let merge (merged : Annotations) (annots : Annotations) : Annotations :=
    annots.foldl (fun merged annot => merged.set annot.name annot.value) merged
  let merged := merge [] im.annotations
  match pm.getApp appName with
  | none => merged
  | some app => merge merged app.annotations

def handleAppAnnotations (n : Str) (pm : PodManifest) (im : ImageManifest) : Handled :=
  if validACName n then .reply 200 (.lines ((mergeAppAnnotations im pm n).map (·.name)))
  else .reply 400 (.msg (.appName n))

def handleAppAnnotation (k n : Str) (pm : PodManifest) (im : ImageManifest) : Handled :=
  if ¬ Keys.assertValid k then .reply 400 (.msg (.appAnnotationName k))
  else if ¬ validACName n then .reply 400 (.msg (.appName n))
  else
    match (mergeAppAnnotations im pm n).get k with
    | none => .reply 404 (.msg (.appAnnotationUnknown k))
    | some v => .reply 200 (.text v)

def handleImageManifest (_ : PodManifest) (im : ImageManifest) : Handled :=
  .reply 200 (.imageManifest im)

def handleAppID (n : Str) (pm : PodManifest) (_ : ImageManifest) : Handled :=
  if validACName n then
    match pm.getApp n with
    | none => .panicked "could not find app in manifest!".toList
    | some app => .reply 200 (.text app.imageID)
  else .reply 400 (.msg (.appName n))

def handle (ps : Pods) : Request → Pods × Handled
  | .registerPod uuid tokens body => handleRegisterPod ps uuid tokens body
  | .unregisterPod uuid => handleUnregisterPod ps uuid
  | .registerApp uuid app body => handleRegisterApp ps uuid app body
  | .podAnnotations token => (ps, podGet ps token handlePodAnnotations)
  | .podAnnotationValue token name => (ps, podGet ps token <| handlePodAnnotation name)
  | .podManifest token => (ps, podGet ps token handlePodManifest)
  | .podUUID token => (ps, handlePodUUID ps token)
  | .appAnnotations token app => (ps, appGet ps token app (handleAppAnnotations app))
  | .appAnnotationValue token app name =>
    (ps, appGet ps token app <| handleAppAnnotation name app)
  | .imageManifest token app => (ps, appGet ps token app handleImageManifest)
  | .appID token app => (ps, appGet ps token app (handleAppID app))

def serve (reqs : List Request) : Pods := reqs.foldl (fun ps req => (handle ps req).1) newPodStore

theorem serve_append (reqs : List Request) (req : Request) :
    serve (reqs ++ [req]) = (handle (serve reqs) req).1 := by
  simp [serve, List.foldl_append]

/-- The operation of the store that a request comes to, if it is not refused. -/
def Request.op : Request → Option (Op PodManifest ImageManifest)
  | .registerPod (.ok u) tokens (.ok pm) =>
    if queryValue tokens = [] then none else some (.addPod u (queryValue tokens) pm)
  | .unregisterPod (.ok u) => some (.remove u)
  | .registerApp (.ok u) an (.ok im) => if an = [] then none else some (.addApp u an im)
  | _ => none

theorem handle_store (ps : Pods) (req : Request) : (handle ps req).1 = req.op.elim ps ps.step := by
  cases req with
  | registerPod uuid tokens body =>
    cases uuid with
    | error err => rfl
    | ok u =>
      cases body with
      | error err =>
        simp only [handle, handleRegisterPod, Request.op]
        split <;> rfl
      | ok pm =>
        simp only [handle, handleRegisterPod, Request.op]
        split <;> rfl
  | unregisterPod uuid =>
    cases uuid with
    | error err => rfl
    | ok u =>
      simp only [handle, handleUnregisterPod, Request.op, Option.elim_some, PodStore.step]
      cases ps.remove u <;> rfl
  | registerApp uuid an body =>
    cases uuid with
    | error err => rfl
    | ok u =>
      cases body with
      | error err =>
        simp only [handle, handleRegisterApp, Request.op]
        split <;> rfl
      | ok im =>
        simp only [handle, handleRegisterApp, Request.op]
        split
        · rfl
        · simp only [Option.elim_some, PodStore.step]
          cases ps.addApp u an im <;> rfl
  | _ => rfl

theorem serve_run (reqs : List Request) : serve reqs = run (reqs.filterMap Request.op) := by
  induction reqs using List.reverseRecOn with
  | nil => rfl
  | append_singleton reqs req ih =>
    rw [serve_append, handle_store, ih, List.filterMap_append]
    cases hop : req.op with
    | none => simp [hop]
    | some op => simp [hop, run_append]

theorem getManifests_ok {ps : Pods} {token an : Str} {pm : PodManifest} {im : ImageManifest} :
    ps.getManifests token an = .ok (pm, im) ↔
      ∃ p pod, ps.byToken token = some p ∧ ps.heap[p]? = some pod ∧ pod.manifest = pm ∧
        pod.apps an = some im := by
  have hpod : ∀ pod, ps.ofToken token = some pod ↔
      ∃ p, ps.byToken token = some p ∧ ps.heap[p]? = some pod :=
    fun pod => Option.bind_eq_some_iff
  unfold PodStore.getManifests
  cases htoken : ps.ofToken token with
  | none =>
    refine ⟨fun h => (by cases h), ?_⟩
    rintro ⟨p, pod, hp, hheap, -, -⟩
    rw [(hpod pod).mpr ⟨p, hp, hheap⟩] at htoken
    cases htoken
  | some pod =>
    obtain ⟨p, hp, hheap⟩ := (hpod pod).mp htoken
    constructor
    · intro h
      refine ⟨p, pod, hp, hheap, ?_⟩
      cases him : pod.apps an with
      | none => simp [him] at h
      | some im' => simpa [him] using h
    · rintro ⟨p', pod', hp', hheap', rfl, him⟩
      obtain rfl : p' = p := Option.some.inj (hp'.symm.trans hp)
      obtain rfl : pod' = pod := Option.some.inj (hheap'.symm.trans hheap)
      simp [him]

/-- Whatever manifests `getManifests` returns, the pod manifest has the app. -/
def Sound (ps : Pods) : Prop :=
  ∀ token an pm im, ps.getManifests token an = .ok (pm, im) → pm.Has an

/-- An app is registered that the manifest of its pod has, unless no token leads to the pod. -/
def Op.Fits (ps : Pods) : Op PodManifest ImageManifest → Prop
  | .addApp u an _ => ∀ token p pod, ps.byUUID u = some p → ps.byToken token = some p →
      ps.heap[p]? = some pod → pod.manifest.Has an
  | _ => True

section step

variable {ps : Pods}

theorem Sound.addPod (h : Sound ps) (u : UUID) (token : Str) (pm : PodManifest) :
    Sound (ps.addPod u token pm) := by
  intro t an pm' im hget
  obtain ⟨p, pod, hp, hheap, rfl, him⟩ := getManifests_ok.mp hget
  by_cases hlt : p < ps.heap.length
  · -- an old record, which the old store has under the same token
    have hold : ps.heap[p]? = some pod := by
      rwa [PodStore.addPod, List.getElem?_append_left hlt] at hheap
    have ht : t ≠ token := by
      rintro rfl
      have hnew : some ps.heap.length = some p := by simpa [PodStore.addPod] using hp
      exact absurd (Option.some.inj hnew) (Nat.ne_of_gt hlt)
    have hp' : ps.byToken t = some p := by simpa [PodStore.addPod, ht] using hp
    exact h t an _ im (getManifests_ok.mpr ⟨p, pod, hp', hold, rfl, him⟩)
  · -- the new record, which has no apps
    have hnew : pod = ⟨u, token, pm, fun _ => none⟩ := by
      rw [PodStore.addPod, List.getElem?_append_right (Nat.le_of_not_lt hlt)] at hheap
      exact (List.mem_singleton.mp (List.mem_of_getElem? hheap))
    rw [hnew] at him
    cases him

theorem Sound.remove (h : Sound ps) (u : UUID) : Sound (ps.step (.remove u)) := by
  cases hu : ps.ofUUID u with
  | none => rwa [step_remove_none hu]
  | some pod0 =>
    rw [step_remove hu]
    intro t an pm im hget
    obtain ⟨p, pod, hp, hheap, rfl, him⟩ := getManifests_ok.mp hget
    have ht : t ≠ pod0.token := by
      rintro rfl
      simp at hp
    have hp' : ps.byToken t = some p := by simpa [ht] using hp
    exact h t an _ im (getManifests_ok.mpr ⟨p, pod, hp', hheap, rfl, him⟩)

/-- Registering an app: exactly the apps that fit keep the store sound. -/
theorem sound_addApp (h : Sound ps) (u : UUID) (an : Str) (im : ImageManifest) :
    Sound (ps.step (.addApp u an im)) ↔ Op.Fits ps (.addApp u an im) := by
  cases hu : ps.byUUID u with
  | none =>
    rw [step_addApp_none hu]
    refine ⟨fun _ token p pod hp => ?_, fun _ => h⟩
    rw [hu] at hp
    cases hp
  | some q =>
    rw [step_addApp hu]
    constructor
    · intro hsound token p pod hp htoken hheap
      obtain rfl : p = q := Option.some.inj (hp.symm.trans hu)
      refine hsound token an pod.manifest im (getManifests_ok.mpr ?_)
      refine ⟨p, pod.withApp an im, htoken, ?_, rfl, Function.update_self _ _ _⟩
      simp [hheap]
    · intro hfits token an' pm im' hget
      obtain ⟨p, pod, hp, hheap, rfl, him⟩ := getManifests_ok.mp hget
      by_cases hpq : q = p
      · subst hpq
        -- the record that has been changed: the app is the new one, or it was there
        obtain ⟨pod0, hpod0, rfl⟩ :
            ∃ pod0, ps.heap[q]? = some pod0 ∧ pod0.withApp an im = pod := by
          simpa using hheap
        by_cases han : an' = an
        · subst han
          exact hfits token q pod0 hu hp hpod0
        · have him' : pod0.apps an' = some im' := by
            simpa [MdsPod.withApp, han] using him
          exact h token an' _ im' (getManifests_ok.mpr ⟨q, pod0, hp, hpod0, rfl, him'⟩)
      · have hheap' : ps.heap[p]? = some pod := by simpa [hpq] using hheap
        exact h token an' _ im' (getManifests_ok.mpr ⟨p, pod, hp, hheap', rfl, him⟩)

theorem sound_step (h : Sound ps) (op : Op PodManifest ImageManifest) :
    Sound (ps.step op) ↔ op.Fits ps := by
  cases op with
  | addPod u token pm => exact iff_of_true (h.addPod u token pm) trivial
  | addApp u an im => exact sound_addApp h u an im
  | remove u => exact iff_of_true (h.remove u) trivial

end step

def Request.Fits (ps : Pods) (req : Request) : Prop := ∀ op, req.op = some op → op.Fits ps

theorem sound_handle {ps : Pods} (h : Sound ps) (req : Request) :
    Sound (handle ps req).1 ↔ req.Fits ps := by
  rw [handle_store]
  unfold Request.Fits
  cases req.op with
  | none => exact iff_of_true h fun _ hop => by cases hop
  | some op => simpa using sound_step h op

theorem equals_self (n : Str) : equals n n = true := by simp [equals]

theorem PodManifest.Has.getApp {pm : PodManifest} {n : Str} (h : pm.Has n) :
    pm.getApp n ≠ none := by
  obtain ⟨a, ha, rfl⟩ := h
  intro hnone
  have hne := List.find?_eq_none.mp hnone a ha
  rw [equals_self] at hne
  exact hne rfl

theorem podGet_reply {ps : Pods} {token : Str} {h : PodManifest → Handled}
    (hh : ∀ pm text, h pm ≠ .panicked text) (text : Str) : podGet ps token h ≠ .panicked text := by
  unfold podGet
  cases ps.getPodManifest token with
  | error e => exact nofun
  | ok pm => exact hh pm text

/-- A handler under `appGet` panics on manifests that `getManifests` returned. -/
theorem appGet_panics {ps : Pods} {token an text : Str} {h : PodManifest → ImageManifest → Handled}
    (hp : appGet ps token an h = .panicked text) :
    ∃ pm im, ps.getManifests token an = .ok (pm, im) ∧ h pm im = .panicked text := by
  unfold appGet at hp
  split at hp
  · cases hp
  · split at hp
    · rename_i pm im hget
      exact ⟨pm, im, hget, hp⟩
    · cases hp
    · cases hp

/-- **Only `handleAppID` panics**, for a registered app that the pod manifest does not have. -/
theorem handle_panics {ps : Pods} {req : Request} {text : Str}
    (h : (handle ps req).2 = .panicked text) :
    ∃ token an pm im, req = .appID token an ∧ validACName an = true ∧
      ps.getManifests token an = .ok (pm, im) ∧ pm.getApp an = none := by
  cases req with
  | registerPod uuid tokens body =>
    simp only [handle, handleRegisterPod] at h
    repeat' split at h
    all_goals cases h
  | unregisterPod uuid =>
    simp only [handle, handleUnregisterPod] at h
    repeat' split at h
    all_goals cases h
  | registerApp uuid an body =>
    simp only [handle, handleRegisterApp] at h
    repeat' split at h
    all_goals cases h
  | podAnnotations token =>
    exact absurd h (podGet_reply (fun _ _ hp => Handled.noConfusion hp) text)
  | podAnnotationValue token name =>
    refine absurd h (podGet_reply (fun pm text hp => ?_) text)
    unfold handlePodAnnotation at hp
    repeat' split at hp
    all_goals cases hp
  | podManifest token => exact absurd h (podGet_reply (fun _ _ hp => Handled.noConfusion hp) text)
  | podUUID token =>
    simp only [handle, handlePodUUID] at h
    split at h <;> cases h
  | appAnnotations token app =>
    obtain ⟨pm, im, -, hp⟩ := appGet_panics h
    unfold handleAppAnnotations at hp
    split at hp <;> cases hp
  | appAnnotationValue token app name =>
    obtain ⟨pm, im, -, hp⟩ := appGet_panics h
    unfold handleAppAnnotation at hp
    repeat' split at hp
    all_goals cases hp
  | imageManifest token app =>
    obtain ⟨pm, im, -, hp⟩ := appGet_panics h
    cases hp
  | appID token app =>
    obtain ⟨pm, im, hget, hp⟩ := appGet_panics h
    unfold handleAppID at hp
    split at hp
    · rename_i hname
      split at hp
      · rename_i hnone
        exact ⟨token, app, pm, im, rfl, hname, hget, hnone⟩
      · cases hp
    · cases hp

theorem Sound.no_panic {ps : Pods} (h : Sound ps) (req : Request) (text : Str) :
    (handle ps req).2 ≠ .panicked text := by
  intro hp
  obtain ⟨token, an, pm, im, -, -, hget, hnone⟩ := handle_panics hp
  exact (h token an pm im hget).getApp hnone

/-- **Every manifest that is returned has the app, and no handler panics**, at any moment of a
sequence of requests, exactly if every registration of an app fits when its turn comes: the
manifest under which the pod was last registered has an app of that name, or no token leads to
the pod. -/
theorem manifests_have_apps_iff (reqs : List Request) :
    (∀ l, l <+: reqs →
      (∀ token an pm im, (serve l).getManifests token an = .ok (pm, im) → pm.Has an) ∧
      ∀ req text, (handle (serve l) req).2 ≠ .panicked text) ↔
    ∀ l req, l ++ [req] <+: reqs → req.Fits (serve l) := by
  constructor
  · intro h l req hl
    have hbefore : Sound (serve l) := (h l ((List.prefix_append l [req]).trans hl)).1
    have hafter : Sound (serve (l ++ [req])) := (h _ hl).1
    rw [serve_append] at hafter
    exact (sound_handle hbefore req).mp hafter
  · intro h l hl
    have hsound : Sound (serve l) := by
      -- by induction on the requests, from the last one
      induction l using List.reverseRecOn with
      | nil =>
        intro token an pm im hget
        cases hget
      | append_singleton l req ih =>
        rw [serve_append]
        exact (sound_handle (ih ((List.prefix_append l [req]).trans hl)) req).mpr (h l req hl)
    exact ⟨hsound, hsound.no_panic⟩

def webManifest : PodManifest := ⟨[⟨"web".toList, "sha512-0".toList, []⟩], []⟩

def podThenApp (app : Str) : List Request :=
  [.registerPod (.ok someUUID) [['a']] (.ok webManifest),
    .registerApp (.ok someUUID) app (.ok ⟨[]⟩)]

example : (handle (serve (podThenApp "web".toList)) (.appID ['a'] "web".toList)).2 =
    .reply 200 (.text "sha512-0".toList) := by decide

/-- **An app that the manifest does not have.** The pod has the app `web`; the app `db` is
registered for it, and the request for the image of `db` makes `handleAppID` panic. -/
theorem unknown_app_panics :
    (∃ im, (serve (podThenApp "db".toList)).getManifests ['a'] "db".toList =
      .ok (webManifest, im)) ∧ ¬ webManifest.Has "db".toList ∧
    (handle (serve (podThenApp "db".toList)) (.appID ['a'] "db".toList)).2 =
      .panicked "could not find app in manifest!".toList := by
  exact ⟨⟨⟨[]⟩, rfl⟩, by decide, by decide⟩

/-- HMAC-SHA512 with the key of the service, and `base64.StdEncoding`. -/
structure Crypto where
  hmac : List UInt8 → List UInt8
  encode : List UInt8 → Str
  decode : Str → Except Str (List UInt8)
  decode_encode : ∀ b, decode (encode b) = .ok b

def handlePodSign (C : Crypto) (ps : Pods) (token : Str) (content : List UInt8) : Handled :=
  match ps.getUUID token with
  | .error e => .reply 401 (.msg (.store e))
  | .ok uuid =>
    if content = [] then .reply 400 (.text "content form value not found".toList)
    else .reply 200 (.text (C.encode (C.hmac (uuid.toList ++ content))))

def handlePodVerify (C : Crypto) (uid : Except Str UUID) (content : List UInt8)
    (signature : Str) : Handled :=
  match uid with
  | .error e => .reply 400 (.text ("uid field missing or malformed: ".toList ++ e))
  | .ok uuid =>
    if content = [] then .reply 400 (.text "content field missing".toList)
    else
      match C.decode signature with
      | .error e => .reply 400 (.text ("signature field missing or corrupt: ".toList ++ e))
      | .ok sig =>
        if sig = C.hmac (uuid.toList ++ content) then .reply 200 .empty else .reply 403 .empty

/-- **A signature is good for the pod that asked for it, and for what it had signed.** After any
requests that are admissible, what is signed for a token is verified under the UUID that the token
is registered for. If it is verified for another pod, or for another content, then HMAC has the
same code for two messages. -/
theorem signature_verified (C : Crypto) (reqs : List Request)
    (hadm : Registry.empty.Admitted (reqs.filterMap Request.op)) {token sig : Str}
    {content : List UInt8}
    (hsign : handlePodSign C (serve reqs) token content = .reply 200 (.text sig)) :
    ∃ pod, registry (reqs.filterMap Request.op) pod.uuid = some pod ∧ pod.token = token ∧
      handlePodVerify C (.ok pod.uuid) content sig = .reply 200 .empty ∧
      ∀ u content', handlePodVerify C (.ok u) content' sig = .reply 200 .empty →
        u = pod.uuid ∧ content' = content ∨
          u.toList ++ content' ≠ pod.uuid.toList ++ content ∧
            C.hmac (u.toList ++ content') = C.hmac (pod.uuid.toList ++ content) := by
  unfold handlePodSign at hsign
  cases hu : (serve reqs).getUUID token with
  | error e =>
    rw [hu] at hsign
    cases hsign
  | ok uuid =>
    obtain ⟨pod, hpod, rfl⟩ := getUUID_ok.mp hu
    rw [hu] at hsign
    obtain ⟨hcontent, ⟨⟩⟩ := (ite_eq_iff.mp hsign).resolve_left (by simp)
    rw [serve_run] at hpod
    obtain ⟨hreg, htoken⟩ := ((run_consistent _ hadm).ofToken (run_pods _)).mp hpod
    refine ⟨pod, hreg, htoken, ?_, fun u content' hverify => ?_⟩
    · simp [handlePodVerify, hcontent, C.decode_encode]
    · simp only [handlePodVerify, C.decode_encode] at hverify
      split_ifs at hverify with hempty heq
      · cases hverify
      · by_cases hmsg : u.toList ++ content' = pod.uuid.toList ++ content
        · -- a UUID has 16 bytes
          obtain ⟨huuid, hsame⟩ := List.append_inj hmsg (by simp)
          exact .inl ⟨Vector.toList_inj.mp huuid, hsame⟩
        · exact .inr ⟨hmsg, heq.symm⟩
      · cases hverify

/-- The 64-bit FNV-1a hash, which stands in for SHA512. -/
def fnv (b : List UInt8) : List UInt8 :=
  let h : UInt64 := b.foldl (fun h x => (h ^^^ x.toUInt64) * 0x100000001b3) 0xcbf29ce484222325
  (List.range 8).map fun i => (h >>> (8 * (7 - i)).toUInt64).toUInt8

/-- HMAC with a key as long as a block, and base64. -/
def smallCrypto (key : List UInt8) : Crypto where
  hmac b := fnv (key.map (· ^^^ 0x5c) ++ fnv (key.map (· ^^^ 0x36) ++ b))
  encode := Base64.encode
  decode s := match Base64.decode s with
    | some b => .ok b
    | none => .error "illegal base64 data".toList
  decode_encode b := by rw [Base64.decode_encode]

theorem signature_verified_web : ∃ pod : MdsPod PodManifest ImageManifest, pod.token = ['a'] ∧
    handlePodVerify (smallCrypto [7]) (.ok pod.uuid) [1] ((smallCrypto [7]).encode
      ((smallCrypto [7]).hmac (someUUID.toList ++ [1]))) = .reply 200 .empty := by
  have hsign : handlePodSign (smallCrypto [7]) (serve (podThenApp "web".toList)) ['a'] [1] =
    .reply 200 (.text ((smallCrypto [7]).encode
      ((smallCrypto [7]).hmac (someUUID.toList ++ [1])))) := rfl
  obtain ⟨pod, -, htoken, hok, -⟩ := signature_verified (smallCrypto [7])
    (podThenApp "web".toList) ⟨nofun, trivial, trivial⟩ hsign
  exact ⟨pod, htoken, hok⟩

end Rkt.Metadata
