import Rkt.Conc.Fallible
import Rkt.Metadata.Service

set_option autoImplicit false

namespace Rkt.Metadata

open Conc Conc.Prog

/-- A transport error: there is no socket to connect to, or something else. -/
inductive TransportErr where
  | unreachable
  | other
  deriving DecidableEq, Repr

inductive Stat where
  | exists
  | notExist
  | failed
  deriving DecidableEq, Repr

inductive RegOp where
  /-- `rand.Read`, for 16 bytes. -/
  | readRandom
  /-- `os.Open` of the pod manifest. -/
  | openPodManifest
  /-- `os.Open` of the image manifest of an app. -/
  | openImageManifest (app : Str)
  /-- `os.Create` of the marker. -/
  | createMarker
  /-- `os.Stat` of the marker. -/
  | statMarker
  /-- `cli.Do`; the answer is the status. -/
  | attempt (req : Request)

abbrev RegOp.Res : RegOp → Type
  | .readRandom => Option (Vector UInt8 16)
  | .openPodManifest | .openImageManifest _ | .createMarker => Bool
  | .statMarker => Stat
  | .attempt _ => Except TransportErr Nat

abbrev regSig : Sig := ⟨RegOp, RegOp.Res⟩

abbrev regOp (o : RegOp) : Prog regSig o.Res := Prog.call (S := regSig) o

structure RegWorld where
  server : Pods
  marker : Bool

/-- The status of a reply. A handler that panics sends none. -/
def Handled.status : Handled → Option Nat
  | .reply status _ => some status
  | .panicked _ => none

def regNext : (o : RegOp) → o.Res → RegWorld → Option RegWorld
  | .createMarker, (r : Bool), w => some (if r then { w with marker := true } else w)
  | .statMarker, .exists, w => if w.marker then some w else none
  | .statMarker, .notExist, w => if w.marker then none else some w
  | .attempt req, .ok st, w =>
    if st = 200 then
      if (handle w.server req).2.status = some 200 then
        some { w with server := (handle w.server req).1 }
      else none
    else some w
  | _, _, w => some w

inductive HttpErr where
  /-- `%v %v returned %v`. -/
  | status (code : Nat)
  /-- `errUnreachable`. -/
  | unreachable
  /-- The error of `cli.Do`. -/
  | transport
  deriving DecidableEq, Repr

def retryCount : Nat := 3

/-- The loop of `httpRequest`, with `n` attempts left, after the transport error `e`. -/
def httpAttempts (req : Request) : Nat → TransportErr → Prog regSig (Except HttpErr Unit)
  | 0, .unreachable => return .error .unreachable
  | 0, .other => return .error .transport
  | n + 1, _ => do
    match ← regOp (.attempt req) with
    | .ok st => if st ≠ 200 then return .error (.status st) else return .ok ()
    | .error e => httpAttempts req n e

def httpRequest (req : Request) : Prog regSig (Except HttpErr Unit) :=
  httpAttempts req retryCount .other

structure Manifests where
  pod : Except Str PodManifest
  image : Str → Except Str ImageManifest

abbrev ACName := { n : Str // validACName n = true }

/-- The errors of `registerPod` and `unregisterPod`. -/
inductive RegErr where
  /-- `failed to generate MDS token: %v`. -/
  | generatingToken
  /-- `failed to open runtime manifest (%v): %v`. -/
  | openingPodManifest
  /-- `failed to register pod with metadata svc: %v`. -/
  | registeringPod (e : HttpErr)
  /-- `failed to create mds-register file: %v`. -/
  | creatingMarker
  /-- `failed reading app manifest %q: %v`. -/
  | readingAppManifest (app : Str)
  /-- `failed to register app with metadata svc: %v`. -/
  | registeringApp (e : HttpErr)
  /-- An error of `os.Stat`. -/
  | stat
  /-- An error of the DELETE request. -/
  | unregistering (e : HttpErr)
  deriving DecidableEq, Repr

def hexDigit (n : Nat) : Char := Char.ofNat (if n < 10 then 48 + n else 87 + n)

/-- `fmt.Sprintf("%x", bytes)`. -/
def hex (bytes : Vector UInt8 16) : Str :=
  bytes.toList.flatMap fun b => [hexDigit (b.toNat / 16), hexDigit (b.toNat % 16)]

def unregisterPod (u : UUID) : Prog regSig (Except RegErr Unit) := do
  match ← regOp .statMarker with
  | .exists => wrapError .unregistering (httpRequest (.unregisterPod (.ok u)))
  | .notExist => return .ok ()
  | .failed => return .error .stat

def registerApp (m : Manifests) (u : UUID) (app : ACName) : Prog regSig (Except HttpErr Unit) :=
  httpRequest (.registerApp (.ok u) app (m.image app))

def registerApps (m : Manifests) (u : UUID) : List ACName → Prog regSig (Except RegErr Unit)
  | [] => return .ok ()
  | app :: apps =>
    andThen (must (regOp (.openImageManifest app)) (.readingAppManifest app)) fun _ =>
    andThen (wrapError .registeringApp (registerApp m u app)) fun _ =>
    registerApps m u apps

/-- The part of `registerPod` after the deferred function has been set up. -/
def registerRest (m : Manifests) (u : UUID) (apps : List ACName) :
    Prog regSig (Except RegErr Unit) :=
  andThen (must (regOp .createMarker) .creatingMarker) fun _ => registerApps m u apps

def registerDeferred (m : Manifests) (u : UUID) (apps : List ACName) :
    Prog regSig (Except RegErr Unit) := do
  match ← registerRest m u apps with
  | .error e =>
    let _ ← unregisterPod u
    return .error e
  | .ok () => return .ok ()

def registerPod (m : Manifests) (u : UUID) (apps : List ACName) :
    Prog regSig (Except RegErr Str) := do
  match ← regOp .readRandom with
  | none => return .error .generatingToken
  | some bytes =>
    andThen (must (regOp .openPodManifest) .openingPodManifest) fun _ =>
    andThen (wrapError .registeringPod
      (httpRequest (.registerPod (.ok u) [hex bytes] m.pod))) fun _ =>
    andThen (registerDeferred m u apps) fun _ => return .ok (hex bytes)

/-- `os.Stat` does not fail, and a DELETE request is answered by the service. -/
def dependable : (o : RegOp) → o.Res → RegWorld → Bool
  | .statMarker, r, _ => r ≠ .failed
  | .attempt (.unregisterPod uuid), r, w =>
    match r with
    | .ok st => (handle w.server (.unregisterPod uuid)).2.status = some st
    | .error _ => false
  | _, _, _ => true

def dependably (o : RegOp) (r : o.Res) (w : RegWorld) : Option RegWorld :=
  if dependable o r w then regNext o r w else none

/-- The service has registered the pod `u` as `reg` says, and the marker exists if `marker` says
so. -/
def At (u : UUID) (reg : Option (MdsPod PodManifest ImageManifest)) (marker : Bool)
    (w : RegWorld) : Prop :=
  (∃ ops, w.server = run ops ∧ registry ops u = reg) ∧ w.marker = marker

theorem At.ofUUID {u : UUID} {reg : Option (MdsPod PodManifest ImageManifest)} {marker : Bool}
    {w : RegWorld} (h : At u reg marker w) : w.server.ofUUID u = reg := by
  obtain ⟨⟨ops, hserver, hreg⟩, -⟩ := h
  rw [hserver, (run_pods ops).pods u, hreg]

theorem At.step {u : UUID} {reg : Option (MdsPod PodManifest ImageManifest)} {marker : Bool}
    {w : RegWorld} (h : At u reg marker w) {req : Request} {op : Op PodManifest ImageManifest}
    (hop : req.op = some op) {reg' : Option (MdsPod PodManifest ImageManifest)}
    (hreg : ∀ ops, registry ops u = reg → (registry ops).step op u = reg') :
    At u reg' marker { w with server := (handle w.server req).1 } := by
  obtain ⟨⟨ops, hserver, hu⟩, hmarker⟩ := h
  refine ⟨⟨ops ++ [op], ?_, ?_⟩, hmarker⟩
  · rw [handle_store, hop, run_append, hserver]
    rfl
  · rw [registry_append]
    exact hreg ops hu

/-- A request: if it succeeds then the service has done what its handler does; if it fails then
nothing has happened. -/
theorem httpRequest_meets {A B : RegWorld → Prop} {req : Request}
    (h : ∀ w, A w → (handle w.server req).2.status = some 200 →
      B { w with server := (handle w.server req).1 }) :
    Meets dependably A (httpRequest req) (Outcome (fun _ => A) fun _ => B) := by
  have hloop : ∀ n e,
      Meets dependably A (httpAttempts req n e) (Outcome (fun _ => A) fun _ => B) := by
    intro n
    induction n with
    | zero => rintro (_ | _) <;> exact Meets.ret fun _ hs => hs
    | succ n ih =>
      intro e
      have hattempt : Meets dependably A (regOp (.attempt req))
          fun r w => if r = .ok 200 then B w else A w := by
        refine Meets.call fun w r w' hA hn => ?_
        have hn' : regNext (.attempt req) r w = some w' := by
          unfold dependably at hn
          split_ifs at hn
          exact hn
        cases r with
        | error e =>
          cases hn'
          exact hA
        | ok st =>
          simp only [regNext] at hn'
          split_ifs at hn' with hst hstatus
          · cases hn'
            rw [if_pos (by rw [hst])]
            exact h w hA hstatus
          · cases hn'
            rw [if_neg (by simpa using hst)]
            exact hA
      refine Meets.bind hattempt fun r => ?_
      cases r with
      | error e => exact (ih e).pre fun w hw => by simpa using hw
      | ok st =>
        refine Meets.ite (fun hst => ?_) fun hst => ?_
        · exact Meets.ret fun w hw => by simpa [hst, Prog.Outcome] using hw
        · exact Meets.ret fun w hw => by simpa [not_not.mp hst, Prog.Outcome] using hw
  exact hloop retryCount .other

variable {u : UUID} {marker : Bool} {pod : MdsPod PodManifest ImageManifest}

theorem delete_meets : Meets dependably (At u (some pod) marker)
    (httpRequest (.unregisterPod (.ok u))) fun r w => r = .ok () ∧ At u none marker w := by
  have hattempt : Meets dependably (At u (some pod) marker)
      (regOp (.attempt (.unregisterPod (.ok u))))
      fun r w => r = .ok 200 ∧ At u none marker w := by
    refine Meets.call fun w r w' hA hn => ?_
    have hstatus : (handle w.server (.unregisterPod (.ok u))).2.status = some 200 := by
      have hremove : w.server.remove u = .ok (w.server.step (.remove u)) := by
        have hu := hA.ofUUID
        unfold PodStore.ofUUID at hu
        simp [PodStore.step, PodStore.remove, hu, Except.toOption]
      simp [handle, handleUnregisterPod, hremove, Handled.status]
    unfold dependably at hn
    cases r with
    | error e => simp [dependable] at hn
    | ok st =>
      have hst : st = 200 := by
        by_contra hne
        have hne' : ¬ 200 = st := fun h => hne h.symm
        simp [dependable, hstatus, hne'] at hn
      subst hst
      simp only [dependable, hstatus, regNext, if_true, decide_true, Option.some.injEq] at hn
      subst hn
      refine ⟨rfl, hA.step rfl fun ops _ => ?_⟩
      simp [Registry.step]
  refine Meets.bind hattempt fun r => Meets.pre (B := fun w => At u none marker w ∧ r = .ok 200) ?_
    fun w hw => ⟨hw.2, hw.1⟩
  rintro w a w' ⟨hw, rfl⟩ hruns
  obtain ⟨rfl, rfl⟩ := hruns
  exact ⟨rfl, hw⟩

/-- `unregisterPod`, for a registered pod: the marker decides. -/
theorem unregisterPod_meets : Meets dependably (At u (some pod) marker) (unregisterPod u)
    fun r w => r = .ok () ∧ At u (if marker then none else some pod) marker w := by
  have hstat : Meets dependably (At u (some pod) marker) (regOp .statMarker)
      fun r w => At u (some pod) marker w ∧
        r = (if marker then Stat.exists else Stat.notExist) := by
    refine Meets.call fun w r w' hA hn => ?_
    unfold dependably at hn
    have hm := hA.2
    cases r with
    | «exists» =>
      simp only [dependable, regNext, hm] at hn
      split_ifs at hn with _ hmarker
      · cases hn
        exact ⟨hA, by simp [hmarker]⟩
    | notExist =>
      simp only [dependable, regNext, hm] at hn
      split_ifs at hn with _ hmarker
      · cases hn
        exact ⟨hA, by simp [hmarker]⟩
    | failed => simp [dependable] at hn
  refine Meets.bind hstat fun r => ?_
  cases marker with
  | true =>
    rintro w a w' ⟨hw, rfl⟩ hruns
    obtain ⟨r, w1, hdelete, hret⟩ := runs_bind.mp hruns
    obtain ⟨rfl, hgone⟩ := delete_meets w r w1 hw hdelete
    obtain ⟨rfl, rfl⟩ := hret
    exact ⟨rfl, hgone⟩
  | false =>
    rintro w a w' ⟨hw, rfl⟩ ⟨rfl, rfl⟩
    exact ⟨rfl, hw⟩

variable {m : Manifests} {token : Str}

/-- The pod is registered under the token with its manifest, and so are the apps in `apps`. -/
def Holding (m : Manifests) (token : Str) (apps : List ACName)
    (pod : MdsPod PodManifest ImageManifest) : Prop :=
  pod.token = token ∧ m.pod = .ok pod.manifest ∧
    ∀ app ∈ apps, ∃ im, m.image app = .ok im ∧ pod.apps app = some im

theorem registerApp_meets (app : ACName) (done : List ACName) :
    Meets dependably (fun w => ∃ pod, At u (some pod) true w ∧ Holding m token done pod)
      (registerApp m u app)
      (Outcome (fun _ w => ∃ pod, At u (some pod) true w ∧ Holding m token done pod)
        fun _ w => ∃ pod, At u (some pod) true w ∧ Holding m token (done ++ [app]) pod) := by
  refine httpRequest_meets ?_
  rintro w ⟨pod, hat, htoken, hpm, hdone⟩ hstatus
  have hname : app.val ≠ [] := by
    intro hnil
    have hvalid := app.property
    rw [hnil] at hvalid
    cases hvalid
  cases him : m.image app with
  | error err => simp [handle, handleRegisterApp, hname, him, Handled.status] at hstatus
  | ok im =>
    have hop : (Request.registerApp (.ok u) app (.ok im)).op = some (.addApp u app im) := by
      simp [Request.op, hname]
    refine ⟨pod.withApp app im, hat.step hop fun ops hops => ?_, htoken, hpm, fun a ha => ?_⟩
    · simp [Registry.step, hops]
    · by_cases haa : a.val = app.val
      · have haa' : a = app := Subtype.ext haa
        subst haa'
        exact ⟨im, him, Function.update_self _ _ _⟩
      · have hmem : a ∈ done := by
          rcases List.mem_append.mp ha with hold | hnew
          · exact hold
          · exact absurd (congrArg Subtype.val (List.mem_singleton.mp hnew)) haa
        obtain ⟨im', him', happ⟩ := hdone a hmem
        exact ⟨im', him', (Function.update_of_ne haa _ _).trans happ⟩

/-- The loop: the apps so far are registered, and an error leaves some registration behind. -/
theorem registerApps_meets (apps done : List ACName) :
    Meets dependably (fun w => ∃ pod, At u (some pod) true w ∧ Holding m token done pod)
      (registerApps m u apps)
      (Outcome (fun e w => e ≠ .creatingMarker ∧ ∃ pod, At u (some pod) true w)
        fun _ w => ∃ pod, At u (some pod) true w ∧ Holding m token (done ++ apps) pod) := by
  induction apps generalizing done with
  | nil => exact Meets.ret fun w hw => by simpa [Prog.Outcome] using hw
  | cons app apps ih =>
    have hopen : Meets dependably
        (fun w => ∃ pod, At u (some pod) true w ∧ Holding m token done pod)
        (regOp (.openImageManifest app))
        fun _ w => ∃ pod, At u (some pod) true w ∧ Holding m token done pod := by
      refine Meets.call fun w r w' hw hn => ?_
      cases hn
      exact hw
    refine Meets.andThen (Meets.must hopen fun w hw => ?_) fun _ => ?_
    · obtain ⟨pod, hat, -⟩ := hw
      exact ⟨nofun, pod, hat⟩
    refine Meets.andThen (Meets.wrapError (registerApp_meets app done) fun e w hw => ?_)
      fun _ => ?_
    · obtain ⟨pod, hat, -⟩ := hw
      exact ⟨nofun, pod, hat⟩
    · have hlist : done ++ app :: apps = (done ++ [app]) ++ apps := by simp
      rw [hlist]
      exact ih (done ++ [app])

/-- After an error the pod is not registered, unless the marker could not be created and did not
exist before. -/
def Undone (u : UUID) (marker : Bool) (e : RegErr) (w : RegWorld) : Prop :=
  if e = .creatingMarker ∧ marker = false then ∃ pod, At u (some pod) false w
  else ∃ marker', At u none marker' w

/-- What follows the registration of the pod itself, with the deferred function. -/
theorem registerDeferred_meets (apps : List ACName) (hpod : Holding m token [] pod) :
    Meets dependably (At u (some pod) marker) (registerDeferred m u apps) (Outcome (Undone u marker)
        fun _ w => ∃ pod, At u (some pod) true w ∧ Holding m token apps pod) := by
  have hcreate : Meets dependably (At u (some pod) marker) (regOp .createMarker)
      fun (r : Bool) w => At u (some pod) (marker || r) w := by
    refine Meets.call fun w (r : Bool) w' hw hn => ?_
    cases hn
    cases r with
    | false => simpa using hw
    | true => exact ⟨hw.1, by simp⟩
  have hrest : Meets dependably (At u (some pod) marker) (registerRest m u apps)
      (Outcome (fun e w => if e = .creatingMarker then At u (some pod) marker w
          else ∃ pod, At u (some pod) true w)
        fun _ w => ∃ pod, At u (some pod) true w ∧ Holding m token apps pod) := by
    refine Meets.andThen (Q := fun _ w => ∃ pod, At u (some pod) true w ∧ Holding m token [] pod)
      ?_ fun _ => (registerApps_meets apps []).post fun r w hw => ?_
    · refine Meets.bind hcreate fun r => ?_
      cases r with
      | false => exact Meets.ret fun w hw => by simpa [Prog.Outcome] using hw
      | true => exact Meets.ret fun w hw => ⟨pod, by simpa using hw, hpod⟩
    · cases r with
      | ok a => exact hw
      | error e =>
        obtain ⟨hne, hat⟩ := hw
        show if e = .creatingMarker then _ else _
        rwa [if_neg hne]
  refine Meets.bind hrest fun r => ?_
  match r with
  | .ok () => exact Meets.ret fun w hw => hw
  | .error e =>
    intro w a w' hw hruns
    obtain ⟨r, w1, hunregister, rfl, rfl⟩ := runs_bind.mp hruns
    have hw' : if e = .creatingMarker then At u (some pod) marker w
        else ∃ pod, At u (some pod) true w := hw
    show Undone u marker e _
    unfold Undone
    by_cases he : e = .creatingMarker
    · -- the marker is as it was before
      rw [if_pos he] at hw'
      obtain ⟨-, hat⟩ := unregisterPod_meets w r _ hw' hunregister
      cases marker with
      | false =>
        rw [if_pos ⟨he, rfl⟩]
        exact ⟨pod, hat⟩
      | true =>
        rw [if_neg (by simp)]
        exact ⟨true, hat⟩
    · -- the marker has been created
      rw [if_neg he] at hw'
      obtain ⟨pod', hat'⟩ := hw'
      obtain ⟨-, hat⟩ := unregisterPod_meets w r _ hat' hunregister
      rw [if_neg fun h => he h.1]
      exact ⟨true, hat⟩

theorem hex_ne_nil (bytes : Vector UInt8 16) : hex bytes ≠ [] := by
  intro h
  have hlen : bytes.toList.length = 16 := by simp
  cases hb : bytes.toList with
  | nil => simp [hb] at hlen
  | cons b bs => simp [hex, hb] at h

theorem putPod_meets (bytes : Vector UInt8 16) :
    Meets dependably (At u none marker) (httpRequest (.registerPod (.ok u) [hex bytes] m.pod))
      (Outcome (fun _ => At u none marker)
        fun _ w => ∃ pod, At u (some pod) marker w ∧ Holding m (hex bytes) [] pod) := by
  refine httpRequest_meets fun w hw hstatus => ?_
  have htoken : queryValue [hex bytes] ≠ [] := hex_ne_nil bytes
  cases hpm : m.pod with
  | error err => simp [handle, handleRegisterPod, htoken, hpm, Handled.status] at hstatus
  | ok pm =>
    have hop : (Request.registerPod (.ok u) [hex bytes] (.ok pm)).op =
        some (.addPod u (hex bytes) pm) := by
      simp only [Request.op, if_neg htoken]
      rfl
    refine ⟨⟨u, hex bytes, pm, fun _ => none⟩, hw.step hop fun ops _ => ?_, rfl, hpm, ?_⟩
    · simp [Registry.step]
    · exact fun app happ => absurd happ List.not_mem_nil

theorem registerPod_meets (apps : List ACName) :
    Meets dependably (At u none marker) (registerPod m u apps) (Outcome (Undone u marker)
        fun token w => ∃ pod, At u (some pod) true w ∧ Holding m token apps pod) := by
  have hfailed : ∀ e, e ≠ RegErr.creatingMarker →
      ∀ w, At u none marker w → Undone u marker e w := by
    intro e he w hw
    unfold Undone
    rw [if_neg fun h => he h.1]
    exact ⟨marker, hw⟩
  have hrandom : Meets dependably (At u none marker) (regOp .readRandom)
      fun _ => At u none marker :=
    Meets.call fun w r w' hw hn => by
      cases hn
      exact hw
  have hopen : Meets dependably (At u none marker) (regOp .openPodManifest)
      fun _ => At u none marker :=
    Meets.call fun w r w' hw hn => by
      cases hn
      exact hw
  refine Meets.bind hrandom fun bytes => ?_
  cases bytes with
  | none => exact Meets.ret (hfailed _ nofun)
  | some bytes =>
    refine Meets.andThen (Meets.must hopen (hfailed _ nofun)) fun _ => ?_
    refine Meets.andThen (Meets.wrapError (putPod_meets bytes) fun e => hfailed _ nofun)
      fun _ => ?_
    refine Meets.andThen (Q := fun _ w => ∃ pod, At u (some pod) true w ∧
      Holding m (hex bytes) apps pod) ?_ fun _ => Meets.ret fun w hw => hw
    rintro w a w' ⟨pod, hat, hpod⟩ hruns
    exact registerDeferred_meets apps hpod w a w' hat hruns

/-- **An error of `registerPod` leaves the pod unregistered, except where the marker cannot be
created**, and did not exist before. Without an error the pod is registered with its manifest and
all its apps, and as long as the marker exists and the pod is registered, `unregisterPod` takes
the registration back. -/
theorem registration_undone_iff (m : Manifests) (u : UUID) (apps : List ACName)
    (reqs : List Request) (w w' : RegWorld) (r : Except RegErr Str)
    (hserver : w.server = serve reqs) (hfresh : w.server.ofUUID u = none)
    (hruns : (registerPod m u apps).Runs dependably w r w') :
    (∀ e, r = .error e →
      (w'.server.ofUUID u = none ↔ (e = .creatingMarker → w.marker = true))) ∧
    ∀ token, r = .ok token →
      (∃ pod, w'.server.ofUUID u = some pod ∧ pod.token = token ∧ m.pod = .ok pod.manifest ∧
        ∀ app ∈ apps, ∃ im, m.image app = .ok im ∧ pod.apps app = some im) ∧
      ∀ reqs' w₁ r' w₂, w₁.server = serve reqs' → w₁.marker = w'.marker →
        w₁.server.ofUUID u ≠ none → (unregisterPod u).Runs dependably w₁ r' w₂ →
        r' = .ok () ∧ w₂.server.ofUUID u = none := by
  have hat : ∀ reqs (w : RegWorld), w.server = serve reqs →
      At u (w.server.ofUUID u) w.marker w := by
    intro reqs w hw
    refine ⟨⟨reqs.filterMap Request.op, hw.trans (serve_run reqs), ?_⟩, rfl⟩
    rw [hw, serve_run, (run_pods _).pods u]
  have hstart : At u none w.marker w := hfresh ▸ hat reqs w hserver
  have hend := registerPod_meets apps w r w' hstart hruns
  constructor
  · rintro e rfl
    have hundone : Undone u w.marker e w' := hend
    unfold Undone at hundone
    by_cases hcase : e = .creatingMarker ∧ w.marker = false
    · rw [if_pos hcase] at hundone
      obtain ⟨pod, hpod⟩ := hundone
      simp [hpod.ofUUID, hcase.1, hcase.2]
    · rw [if_neg hcase] at hundone
      obtain ⟨marker', hnone⟩ := hundone
      refine iff_of_true hnone.ofUUID fun he => ?_
      by_contra hmarker
      exact hcase ⟨he, by simpa using hmarker⟩
  · rintro token rfl
    obtain ⟨pod, hpod, htoken, hpm, happs⟩ :
        ∃ pod, At u (some pod) true w' ∧ Holding m token apps pod := hend
    refine ⟨⟨pod, hpod.ofUUID, htoken, hpm, happs⟩, ?_⟩
    intro reqs' w₁ r' w₂ hw₁ hmarker hreg hunregister
    obtain ⟨pod₁, hpod₁⟩ := Option.ne_none_iff_exists'.mp hreg
    have hat₁ := hat reqs' w₁ hw₁
    rw [hpod₁, hmarker, hpod.2] at hat₁
    obtain ⟨hr, hgone⟩ := unregisterPod_meets w₁ r' w₂ hat₁ hunregister
    exact ⟨hr, hgone.ofUUID⟩

/-- A system in which the marker can be created if `creates` says so, and all else succeeds. -/
def answering (creates : Bool) : (o : RegOp) → RegWorld → o.Res
  | .readRandom, _ => some (Vector.replicate 16 0)
  | .openPodManifest, _ | .openImageManifest _, _ => true
  | .createMarker, _ => creates
  | .statMarker, w => if w.marker then .exists else .notExist
  | .attempt req, w => .ok ((handle w.server req).2.status.getD 500)

def unused : RegWorld := ⟨newPodStore, false⟩

def webManifests : Manifests := ⟨.ok webManifest, fun _ => .ok ⟨[]⟩⟩

theorem web_valid : validACName "web".toList = true := by decide

def web : ACName := ⟨"web".toList, web_valid⟩

theorem registration_undone_iff_web :
    ∃ token w', (registerPod webManifests someUUID [web]).Runs dependably unused (.ok token) w' ∧
      ∃ pod, w'.server.ofUUID someUUID = some pod ∧ pod.manifest = webManifest ∧
        pod.apps web ≠ none := by
  obtain ⟨r, w', hruns, hr⟩ : ∃ r w',
      (registerPod webManifests someUUID [web]).Runs dependably unused r w' ∧ r.isOk = true :=
    eval_exists (answering true) (fun (r : Except RegErr Str) _ => r.isOk) (by decide)
  cases r with
  | error e => cases hr
  | ok token =>
    obtain ⟨⟨pod, hpod, -, hpm, happs⟩, -⟩ := (registration_undone_iff webManifests someUUID [web]
      [] unused w' _ rfl rfl hruns).2 token rfl
    obtain ⟨im, -, him⟩ := happs web (List.mem_singleton.mpr rfl)
    exact ⟨token, w', hruns, pod, hpod, (Except.ok.inj hpm).symm, by rw [him]; exact nofun⟩

/-- The marker could not be created, and the pod is registered. -/
def leftBehind : Except RegErr Str → RegWorld → Bool
  | .error e, w => e = .creatingMarker ∧ (w.server.ofUUID someUUID).isSome
  | .ok _, _ => false

/-- **The marker cannot be created.** Everything else succeeds; `registerPod` returns an error, and
the pod is still registered. -/
theorem registered_without_marker :
    ∃ w', (registerPod webManifests someUUID [web]).Runs dependably unused
      (.error .creatingMarker) w' ∧ w'.server.ofUUID someUUID ≠ none := by
  obtain ⟨r, w', hruns, hr⟩ : ∃ r w',
      (registerPod webManifests someUUID [web]).Runs dependably unused r w' ∧
        leftBehind r w' = true :=
    eval_exists (answering false) leftBehind (by decide)
  cases r with
  | ok token => cases hr
  | error e =>
    obtain ⟨rfl, hsome⟩ := of_decide_eq_true hr
    exact ⟨w', hruns, fun hnone => by rw [hnone] at hsome; cases hsome⟩

end Rkt.Metadata
