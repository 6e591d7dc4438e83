import Rkt.Conc.Record
import Rkt.Pods.Refresh
import Rkt.Pods.Rules

set_option autoImplicit false

namespace Rkt.Pods

open Conc Proto

inductive Transition where
  | toPreparing
  | toPrepared
  | toRun
  | toExitedGarbage
  | toGarbage
  deriving DecidableEq, Repr

def Transition.call : Transition → Pod → Prog podSig (Except Err Pod)
  | .toPreparing => Pod.xToPreparing
  | .toPrepared => Pod.xToPrepared
  | .toRun => Pod.xToRun
  | .toExitedGarbage => Pod.xToExitedGarbage
  | .toGarbage => Pod.xToGarbage

/-- The pod value after a call; an error leaves the flags as they were. -/
def Pod.after (x : Pod) : Except Err Pod → Pod
  | .ok y => y
  | .error _ => x

/-- The transitions one after the other, whatever they return. -/
def applyAll : List Transition → Pod → Prog podSig Pod
  | [], x => return x
  | t :: ts, x => do
    let r ← t.call x
    applyAll ts (x.after r)

structure Pod.Fits (x : Pod) (d : Dir) : Prop where
  embryo : x.isEmbryo = true ↔ d = .embryo
  preparing : x.isPreparing = true ∨ x.isAbortedPrepare = true ↔ d = .prepare
  notBoth : ¬ (x.isPreparing = true ∧ x.isAbortedPrepare = true)
  prepared : x.isPrepared = true ↔ d = .prepared
  exitedGarbage : x.isExitedGarbage = true ↔ d = .exitedGarbage
  garbage : x.isGarbage = true ↔ d = .garbage
  exited : x.isExited = true → d = .run ∨ d = .exitedGarbage
  notGone : x.isGone = false

structure Pod.Stale (x : Pod) (d : Dir) : Prop where
  path : x.path ≠ some d
  exited : x.isExited = true → x.isExitedGarbage = false → d ≠ .run

section flags

variable {x : Pod} {d d₀ : Dir}

theorem Pod.Fits.path (h : x.Fits d) : x.path = some d := by
  have hgone := h.notGone
  unfold Pod.path
  cases d with
  | embryo => simp [h.embryo]
  | prepare => simp [h.embryo, h.preparing]
  | prepared => simp [h.embryo, h.preparing, h.prepared]
  | exitedGarbage => simp [h.embryo, h.preparing, h.prepared, h.exitedGarbage]
  | garbage => simp [h.embryo, h.preparing, h.prepared, h.exitedGarbage, h.garbage]
  | run => simp [h.embryo, h.preparing, h.prepared, h.exitedGarbage, h.garbage, hgone]

theorem Pod.Fits.stale (h : x.Fits d₀) (hne : d₀ ≠ d) : x.Stale d := by
  refine ⟨?_, fun hexited hgarbage hrun => ?_⟩
  · rw [h.path]
    simpa using hne
  · rcases h.exited hexited with hd | hd
    · exact hne (hd.trans hrun.symm)
    · rw [h.exitedGarbage.mpr hd] at hgarbage
      cases hgarbage

theorem inDir_fits (l : Fd) (u : UUID) (mine : Bool) (d : Dir) :
    (({ lock := l, uuid := u, createdByMe := mine } : Pod).inDir d).Fits d := by
  cases d <;> constructor <;> simp [Pod.inDir]

end flags

def World.Only (s : World) (u : UUID) (d : Dir) : Prop := ∀ e, u ∈ s.dirs e ↔ e = d

/-- The operation is one that puts pod `u` into a directory or takes it out of one. -/
def Op.places (u : UUID) : Op → Bool
  | .mkdir _ v | .remove _ v | .rename _ _ v | .removeDir _ v => decide (v = u)
  | _ => false

def touches (u : UUID) : Move podSig → Bool
  | .run _ o _ => o.places u
  | .die _ => false

def Disturbed (p : Pid) (u : UUID) (ms : List (Move podSig)) : Prop :=
  ∃ m ∈ ms, m.pid ≠ p ∧ touches u m = true

def late : (o : Op) → o.Res → Bool
  | .syncDir _, .error _ | .unlock _, .error _ => true
  | _, _ => false

variable {p : Pid} {u : UUID} {d d₀ d₁ : Dir} {o : Op} {s s' : World} {x y : Pod}
  {ms : List (Move podSig)} {φ ψ φ' ψ' : Dir → Prop}

theorem next_dirs {r : o.Res} (ho : o.places u = false) (h : next p o r s = some s') (e : Dir) :
    u ∈ s'.dirs e ↔ u ∈ s.dirs e := by
  by_cases hq : o.quiet = true
  · rw [(quiet_same hq h).dirs]
  by_cases hf : o.failed r = true
  · rw [next_failed hf h]
  have hv : ∀ {v : UUID}, decide (v = u) = false → u ≠ v :=
    fun hv huv => of_decide_eq_false hv huv.symm
  cases o with
  | newUUID =>
    obtain ⟨-, ⟨⟩⟩ := Option.ite_none_right_eq_some.mp h
    rfl
  | exclusiveLock fd | trySharedLock fd | unlock fd =>
    simp only [next] at h
    split at h <;> (try split at h) <;> cases h <;> rfl
  | removeFiles d v =>
    obtain ⟨gone, err⟩ := r
    simp only [next] at h
    split at h <;> split at h <;> cases h <;> rfl
  | close fd | ran v =>
    cases h
    rfl
  | mkdir d v =>
    rcases r with e | _
    · exact absurd rfl hf
    obtain ⟨-, ⟨⟩⟩ := Option.ite_none_left_eq_some.mp h
    exact World.mem_link.trans (by simp [hv ho])
  | remove d v =>
    rcases r with e | _
    · exact absurd rfl hf
    obtain ⟨-, ⟨⟩⟩ := Option.ite_none_right_eq_some.mp h
    exact World.mem_unlink.trans (by simp [hv ho])
  | rename d d' v =>
    rcases r with e | _
    · exact absurd rfl hf
    obtain ⟨-, ⟨⟩⟩ := Option.ite_none_right_eq_some.mp h
    exact World.mem_move.trans (by simp [hv ho])
  | removeDir d v =>
    rcases r with e | _
    · exact absurd rfl hf
    simp only [next] at h
    split at h
    · obtain ⟨-, ⟨⟩⟩ := Option.ite_none_right_eq_some.mp h
      exact World.mem_unlink.trans (by simp [hv ho])
    · cases h
      rfl
  | _ => exact absurd rfl hq

/-- Nobody else has placed `u`, and it is in one directory, with `φ` if no late operation of `p` has
failed and with `ψ` if one has. -/
def Placed (p : Pid) (u : UUID) (φ ψ : Dir → Prop) (s : World × List (Move podSig)) : Prop :=
  Disturbed p u s.2 ∨
    ∃ d, s.1.Only u d ∧ (¬ Made p late s.2 ∧ φ d ∨ Made p late s.2 ∧ ψ d)

theorem Disturbed.append (h : Disturbed p u ms) (m : Move podSig) : Disturbed p u (ms ++ [m]) := by
  obtain ⟨m', hm, h⟩ := h
  exact ⟨m', List.mem_append_left _ hm, h⟩

theorem Placed.mono {t : World × List (Move podSig)} (h : Placed p u φ ψ t)
    (hφ : ∀ d, φ d → φ' d) (hψ : ∀ d, ψ d → ψ' d) : Placed p u φ' ψ' t := by
  rcases h with h | ⟨d, honly, ⟨hmade, h⟩ | ⟨hmade, h⟩⟩
  · exact .inl h
  · exact .inr ⟨d, honly, .inl ⟨hmade, hφ d h⟩⟩
  · exact .inr ⟨d, honly, .inr ⟨hmade, hψ d h⟩⟩

/-- An operation of `p` that leaves `u` where it is, and is not a late failure. -/
theorem Placed.keep {r : o.Res} (h : Placed p u φ ψ (s, ms))
    (hdirs : ∀ e, u ∈ s'.dirs e ↔ u ∈ s.dirs e) (hlate : late o r = false) :
    Placed p u φ ψ (s', ms ++ [.run p o r]) := by
  rcases h with h | ⟨d, honly, h⟩
  · exact .inl (h.append _)
  · refine .inr ⟨d, fun e => (hdirs e).trans (honly e), ?_⟩
    rw [made_last, hlate]
    simpa using h

theorem Placed.fail {r : o.Res} (h : Placed p u φ ψ (s, ms))
    (hdirs : ∀ e, u ∈ s'.dirs e ↔ u ∈ s.dirs e) (hlate : late o r = true) :
    Placed p u φ' (fun d => φ d ∨ ψ d) (s', ms ++ [.run p o r]) := by
  rcases h with h | ⟨d, honly, h⟩
  · exact .inl (h.append _)
  · refine .inr ⟨d, fun e => (hdirs e).trans (honly e), .inr ⟨made_last.mpr (.inr hlate), ?_⟩⟩
    exact h.imp And.right And.right

theorem placed_stable : (free podMachine).Stable p (Placed p u φ ψ) := by
  rintro q t t' hq - - ⟨m, hm, hrec, hmoves⟩ h
  unfold Placed
  rw [hrec]
  rcases h with h | ⟨d, honly, h⟩
  · exact .inl (h.append m)
  have hpid : m.pid ≠ p := by
    rw [hm]
    exact hq
  by_cases htouch : touches u m = true
  · exact .inl ⟨m, by simp, hpid, htouch⟩
  · have hdirs : ∀ e, u ∈ t'.1.dirs e ↔ u ∈ t.1.dirs e := by
      cases m with
      | run q o r => exact next_dirs (by simpa [touches] using htouch) (podMachine_next hmoves).2
      | die q =>
        rw [show t'.1 = World.die q t.1 from hmoves]
        exact fun e => Iff.rfl
    refine .inr ⟨d, fun e => (hdirs e).trans (honly e), ?_⟩
    rw [made_append, made_single, meets_other hpid]
    simpa using h

/-- The flags are right, or a late operation has failed and they are stale. -/
def Known (p : Pid) (u : UUID) (x : Pod) (s : World × List (Move podSig)) : Prop :=
  Placed p u x.Fits x.Stale s ∧ x.uuid = u

/-- The pod has just been moved to `d₁`, and the flags are those of the directory it came from. -/
def Moved (p : Pid) (u : UUID) (x : Pod) (d₁ : Dir) (s : World × List (Move podSig)) : Prop :=
  Placed p u (fun d => d = d₁ ∧ ∃ d₀, x.Fits d₀) (fun _ => False) s ∧ x.uuid = u

theorem known_stable : (free podMachine).Stable p (Known p u x) :=
  placed_stable.and fun _ _ _ _ _ _ _ h => h

theorem moved_stable : (free podMachine).Stable p (Moved p u x d₁) :=
  placed_stable.and fun _ _ _ _ _ _ _ h => h

theorem exclusiveLock_known (fd : Fd) :
    (free podMachine).Triple p (Known p u x) (sys (.exclusiveLock fd)) (fun _ => Known p u x) :=
  free_call known_stable fun _ _ _ _ h hn =>
    ⟨h.1.keep (next_dirs rfl (podMachine_next hn).2) rfl, h.2⟩

theorem rename_known (hu : x.uuid = u) (hsource : ∀ d, x.Stale d → d₀ ≠ d) :
    (free podMachine).Triple p (Known p u x) (sys (.rename d₀ d₁ u))
      (Result (Known p u x) fun _ => Moved p u x d₁) := by
  refine free_call known_stable fun s ms r s' h hn => ?_
  have hn := (podMachine_next hn).2
  cases r with
  | error e =>
    obtain rfl := next_failed rfl hn
    exact ⟨h.1.keep (fun _ => Iff.rfl) rfl, h.2⟩
  | ok _ =>
    obtain ⟨hmem, ⟨⟩⟩ := Option.ite_none_right_eq_some.mp hn
    refine ⟨?_, hu⟩
    rcases h.1 with h | ⟨d, honly, h⟩
    · exact .inl (h.append _)
    -- the pod was in the directory from which the rename started
    obtain rfl : d₀ = d := (honly d₀).mp hmem.1
    rcases h with ⟨hmade, hfits⟩ | ⟨-, hstale⟩
    · refine .inr ⟨d₁, fun e => ?_, .inl ⟨?_, rfl, d₀, hfits⟩⟩
      · rw [World.mem_move, honly e]
        simp
      · intro hmade'
        rcases made_last.mp hmade' with hold | hlate
        · exact hmade hold
        · cases hlate
    · exact absurd rfl (hsource d₀ hstale)

theorem renamePath_known : (free podMachine).Triple p (Known p x.uuid x) (x.renamePath d₁)
    (Result (Known p x.uuid x) fun _ => Moved p x.uuid x d₁) := by
  unfold Pod.renamePath
  cases hpath : x.path with
  | none => exact Triple.ret fun _ h => h
  | some d₀ => exact rename_known rfl fun d hstale hd => hstale.path (hd ▸ hpath)

theorem Moved.fail {r : o.Res} (h : Moved p u x d₁ (s, ms)) (hne : ∀ d₀, x.Fits d₀ → d₀ ≠ d₁)
    (hdirs : ∀ e, u ∈ s'.dirs e ↔ u ∈ s.dirs e) (hlate : late o r = true) :
    Known p u x (s', ms ++ [.run p o r]) := by
  have hfail : Placed p u x.Fits _ _ := h.1.fail hdirs hlate
  refine ⟨hfail.mono (fun _ h => h) ?_, h.2⟩
  rintro d (⟨rfl, d₀, hfits⟩ | h)
  · exact hfits.stale (hne d₀ hfits)
  · exact h.elim

theorem unlock_moved (hne : ∀ d₀, x.Fits d₀ → d₀ ≠ d₁) (fd : Fd) :
    (free podMachine).Triple p (Moved p u x d₁) (sys (.unlock fd))
      (Result (Known p u x) fun _ => Moved p u x d₁) := by
  refine free_call moved_stable fun s ms r s' h hn => ?_
  have hdirs := next_dirs (u := u) rfl (podMachine_next hn).2
  cases r with
  | error e => exact h.fail hne hdirs rfl
  | ok _ => exact ⟨h.1.keep hdirs rfl, h.2⟩

theorem syncThen_known (hy : ∀ d₀, x.Fits d₀ → d₀ ≠ d₁ ∧ y.Fits d₁) (hu : y.uuid = x.uuid) :
    (free podMachine).Triple p (Moved p u x d₁) (Pod.syncThen d₁ y)
      (fun r => Known p u (x.after r)) := by
  have hsync : (free podMachine).Triple p (Moved p u x d₁) (sys (.syncDir d₁))
      (Result (Known p u x) fun _ => Moved p u x d₁) := by
    refine free_call moved_stable fun s ms r s' h hn => ?_
    have hdirs := next_dirs (u := u) rfl (podMachine_next hn).2
    cases r with
    | error e => exact h.fail (fun d₀ hfits => (hy d₀ hfits).1) hdirs rfl
    | ok _ => exact ⟨h.1.keep hdirs rfl, h.2⟩
  refine hsync.onResult (fun _ => Triple.ret ?_) fun e => Triple.ret fun s h => h
  rintro s ⟨hplaced, hx⟩
  refine ⟨hplaced.mono ?_ fun _ h => h.elim, hu.trans hx⟩
  rintro d ⟨rfl, d₀, hfits⟩
  exact (hy d₀ hfits).2

theorem refused (e : Err) : (free podMachine).Triple p (Known p u x)
    (pure (.error e)) (fun r => Known p u (x.after r)) := Triple.ret fun _ h => h

theorem xToPreparing_known : (free podMachine).Triple p (Known p x.uuid x)
    x.xToPreparing (fun r => Known p x.uuid (x.after r)) := by
  unfold Pod.xToPreparing
  refine Triple.ite (fun _ => refused _) fun _ => Triple.ite (fun _ => refused _) fun hembryo => ?_
  have hembryo : x.isEmbryo = true := by simpa using hembryo
  have hpath : x.path = some .embryo := by simp [Pod.path, hembryo]
  refine (exclusiveLock_known x.lock).bind fun r => ?_
  cases r with
  | error e => exact refused _
  | ok _ =>
    refine (rename_known rfl fun d hstale hd => ?_).onResult (fun _ => ?_) fun e => refused _
    · exact hstale.path (hd ▸ hpath)
    · refine syncThen_known (fun d₀ h => ?_) rfl
      obtain rfl : d₀ = .embryo := h.embryo.mp hembryo
      cases h
      exact ⟨by decide, by constructor <;> simp_all⟩

theorem xToPrepared_known : (free podMachine).Triple p (Known p x.uuid x)
    x.xToPrepared (fun r => Known p x.uuid (x.after r)) := by
  unfold Pod.xToPrepared
  refine Triple.ite (fun _ => refused _) fun _ => Triple.ite (fun _ => refused _) fun hprep => ?_
  have hfrom : ∀ d₀, x.Fits d₀ → d₀ = .prepare :=
    fun d₀ h => h.preparing.mp (.inl (by simpa using hprep))
  refine renamePath_known.onResult (fun _ => ?_) fun e => refused _
  refine (unlock_moved (fun d₀ h => ?_) x.lock).onResult (fun _ => ?_) fun e => refused _
  · rw [hfrom d₀ h]
    decide
  · refine syncThen_known (fun d₀ h => ?_) rfl
    obtain rfl := hfrom d₀ h
    cases h
    exact ⟨by decide, by constructor <;> simp_all⟩

theorem xToRun_known : (free podMachine).Triple p (Known p x.uuid x)
    x.xToRun (fun r => Known p x.uuid (x.after r)) := by
  unfold Pod.xToRun
  refine Triple.ite (fun _ => refused _) fun hmine => ?_
  refine Triple.ite (fun _ => refused _) fun hprep => ?_
  have hfrom : ∀ d₀, x.Fits d₀ → d₀ = .prepared ∨ d₀ = .prepare := by
    intro d₀ h
    rw [← h.prepared, ← h.preparing]
    cases hc : x.createdByMe <;> cases hp : x.isPrepared <;> simp_all
  refine (exclusiveLock_known x.lock).bind fun r => ?_
  cases r with
  | error e => exact refused _
  | ok _ =>
    refine renamePath_known.onResult (fun _ => ?_) fun e => refused _
    refine syncThen_known (fun d₀ h => ?_) rfl
    rcases hfrom d₀ h with rfl | rfl
    all_goals
      cases h
      exact ⟨by decide, by constructor <;> simp_all⟩

theorem xToExitedGarbage_known : (free podMachine).Triple p (Known p x.uuid x)
    x.xToExitedGarbage (fun r => Known p x.uuid (x.after r)) := by
  unfold Pod.xToExitedGarbage
  refine Triple.ite (fun _ => refused _) fun hexited => ?_
  obtain ⟨hexited, hnot⟩ : x.isExited = true ∧ x.isExitedGarbage = false := by
    simpa using hexited
  refine (rename_known rfl fun d hstale hd => ?_).onResult (fun _ => ?_) fun e => refused _
  · exact hstale.exited hexited hnot hd.symm
  · refine syncThen_known (fun d₀ h => ?_) rfl
    rcases h.exited hexited with rfl | rfl
    · cases h
      exact ⟨by decide, by constructor <;> simp_all⟩
    · rw [h.exitedGarbage.mpr rfl] at hnot
      cases hnot

theorem xToGarbage_known : (free podMachine).Triple p (Known p x.uuid x)
    x.xToGarbage (fun r => Known p x.uuid (x.after r)) := by
  unfold Pod.xToGarbage
  refine Triple.ite (fun _ => refused _) fun hfrom => ?_
  refine renamePath_known.onResult (fun _ => ?_) fun e => refused _
  refine syncThen_known (fun d₀ h => ?_) rfl
  have hd : d₀ = .prepare ∨ d₀ = .prepared := by
    rw [← h.prepared, ← h.preparing]
    cases hp : x.isAbortedPrepare <;> simp_all
  rcases hd with rfl | rfl
  all_goals
    cases h
    exact ⟨by decide, by constructor <;> simp_all⟩

theorem Transition.call_known (t : Transition) : (free podMachine).Triple p (Known p x.uuid x)
    (t.call x) (fun r => Known p x.uuid (x.after r)) := by
  cases t with
  | toPreparing => exact xToPreparing_known
  | toPrepared => exact xToPrepared_known
  | toRun => exact xToRun_known
  | toExitedGarbage => exact xToExitedGarbage_known
  | toGarbage => exact xToGarbage_known

theorem applyAll_known (ts : List Transition) (x : Pod) :
    (free podMachine).Triple p (Known p x.uuid x) (applyAll ts x) (Known p x.uuid) := by
  induction ts generalizing x with
  | nil => exact Triple.ret fun _ h => h
  | cons t ts ih =>
    refine (t.call_known).bind fun r s h => ?_
    have hu : (x.after r).uuid = x.uuid := h.2
    have hrest := ih (x.after r) s
    rw [hu] at hrest
    exact hrest h

/-- **When the cached state is right.** A process applies transitions to a pod value whose flags
are those of the directory the pod is in, and no other process moves the pod. Afterwards `path` is
the directory of the pod and the flags are those of that directory if and only if no `Sync` and no
`Unlock` after a rename has failed. -/
theorem transitions_fit_iff {ts : List Transition} {y : Pod} {k : Pod → Prog podSig Unit}
    {c c' : Config podSig World} {seen : List World} (hc : c.procs p = applyAll ts x >>= k)
    (honly : c.shared.Only x.uuid d) (hfits : x.Fits d)
    (halone : ∀ m ∈ ms, touches x.uuid m = true → m.pid = p)
    (hcall : playCall podMachine p ms c (applyAll ts x) = some (seen, y, c')) :
    (∃ e, c'.shared.Only x.uuid e ∧ y.path = some e ∧ y.Fits e) ↔ ¬ Made p late ms := by
  have hstart : Known p x.uuid x (c.shared, []) :=
    ⟨.inr ⟨d, honly, .inl ⟨not_made_nil, hfits⟩⟩, rfl⟩
  obtain ⟨hend, -⟩ := playCall_holds (applyAll_known ts x) hc hstart hcall
  rcases hend with ⟨m, hm, hpid, htouch⟩ | ⟨e, honly', ⟨hmade, hfits'⟩ | ⟨hmade, hstale⟩⟩
  · exact absurd (halone m hm htouch) hpid
  · exact iff_of_true ⟨e, honly', hfits'.path, hfits'⟩ hmade
  · refine iff_of_false ?_ (not_not_intro hmade)
    rintro ⟨e', honly'', hpath, -⟩
    have he : e' = e := (honly' e').mp ((honly'' e').mpr rfl)
    exact hstale.path (he ▸ hpath)

def preparedPod : Pod := ({ lock := ⟨0, 0, 5⟩, uuid := 5 } : Pod).inDir .prepared

def preparedWorld : World :=
  { World.empty with dirs := fun d => if d = .prepared then {5} else ∅ }

def startsPod : Config podSig World where
  shared := preparedWorld
  procs q := if q = 0 then applyAll [.toRun] preparedPod >>= fun _ => pure () else pure ()

theorem preparedWorld_only : preparedWorld.Only 5 .prepared := by
  intro e
  cases e <;> decide

def syncEnds (r : Except Errno Unit) : List (Move podSig) :=
  [.run 0 (.exclusiveLock ⟨0, 0, 5⟩) (.ok ()), .run 0 (.rename .prepared .run 5) (.ok ()),
    .run 0 (.syncDir .run) r]

/-- What the process is left with, and where the pod is. -/
def leaves (r : Except Errno Unit) : Option (Option Dir × Bool) :=
  (playCall podMachine 0 (syncEnds r) startsPod (applyAll [.toRun] preparedPod)).map
    fun y => (y.2.1.path, decide (5 ∈ y.2.2.shared.dirs .run))

/-- A pod that is started without a failure. -/
theorem transitions_fit_started : ∃ seen y c', playCall podMachine 0 (syncEnds (.ok ())) startsPod
      (applyAll [.toRun] preparedPod) = some (seen, y, c') ∧
    ∃ e, c'.shared.Only 5 e ∧ y.path = some e ∧ y.Fits e := by
  have hplay : leaves (.ok ()) = some (some .run, true) := by decide
  obtain ⟨⟨seen, y, c'⟩, hcall, -⟩ := Option.map_eq_some_iff.mp hplay
  refine ⟨seen, y, c', hcall, ?_⟩
  exact (transitions_fit_iff rfl preparedWorld_only (inDir_fits _ _ _ .prepared) (by decide)
    hcall).mpr (by decide)

/-- **A pod that runs is thought to be prepared**: the directory was renamed, and then the sync
failed. -/
theorem transitions_stale : ∃ seen y c', playCall podMachine 0 (syncEnds (.error .other)) startsPod
      (applyAll [.toRun] preparedPod) = some (seen, y, c') ∧
    y.path = some .prepared ∧ 5 ∈ c'.shared.dirs .run := by
  have hplay : leaves (.error .other) = some (some .prepared, true) := by decide
  obtain ⟨⟨seen, y, c'⟩, hcall, hy⟩ := Option.map_eq_some_iff.mp hplay
  obtain ⟨hpath, hrun⟩ := Prod.mk.inj hy
  exact ⟨seen, y, c', hcall, hpath, of_decide_eq_true hrun⟩

end Rkt.Pods
