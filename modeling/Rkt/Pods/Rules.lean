import Rkt.Pods.Protocol

set_option autoImplicit false

namespace Rkt.Pods

open Conc Proto

variable {p : Pid} {u : UUID} {d d' : Dir} {fd : Fd} {s s' : World} {o : Op}

theorem podMachine_next {r : o.Res} (h : podMachine.next p o r s = some s') :
    p ∉ s.dead ∧ next p o r s = some s' := Option.ite_none_left_eq_some.mp h

namespace World

/-- Pod `u` exists and has left every directory before `d`. -/
def Reached (s : World) (u : UUID) (d : Dir) : Prop :=
  s.creator u ≠ none ∧ ∀ e, e.rank < d.rank → u ∉ s.dirs e

/-- Nobody is preparing `u`: it has left `prepare`, or its creator is dead. -/
def Abandoned (s : World) (u : UUID) : Prop :=
  s.Past u .prepare ∨ (s.creator u ≠ none ∧ s.CreatorGone u)

def Exited (s : World) (u : UUID) : Prop := s.Past u .prepared ∧ s.RunnerGone u

end World

theorem Guar.creator_ne_none {q : Pid} (hg : Guar q s s') (h : s.creator u ≠ none) :
    s'.creator u ≠ none := by
  obtain ⟨c, hc⟩ := Option.ne_none_iff_exists'.mp h
  rw [hg.creator u c hc]
  exact Option.some_ne_none c

theorem Guar.creator_eq {q c : Pid} (hg : Guar q s s') (h : s.creator u ≠ none)
    (hc : s'.creator u = some c) : s.creator u = some c := by
  obtain ⟨c', hc'⟩ := Option.ne_none_iff_exists'.mp h
  rw [hg.creator u c' hc'] at hc
  rw [hc', hc]

theorem lasting_past (u : UUID) (d : Dir) : podProto.Lasting (fun s => s.Past u d) :=
  fun _ _ _ _ _ hg h => Guar.past hg u d h

theorem reached_of_mem (hi : Inv s) (hm : u ∈ s.dirs d) : s.Reached u d := by
  refine ⟨fun hc => (hi.uncreated u hc).1 d hm, fun e he hm' => ?_⟩
  rw [hi.one u e d hm' hm] at he
  exact Nat.lt_irrefl _ he

theorem World.Reached.past {e : Dir} (h : s.Reached u d) (he : d.rank = e.rank + 1) : s.Past u e :=
  ⟨h.1, fun e' he' => h.2 e' (by omega)⟩

theorem lasting_reached (u : UUID) (d : Dir) : podProto.Lasting (fun s => s.Reached u d) := by
  rintro q s s' - - hg ⟨hc, hp⟩
  refine ⟨hg.creator_ne_none hc, fun e he => ?_⟩
  have hpast : s.Past u e := ⟨hc, fun e' he' => hp e' (by omega)⟩
  exact (Guar.past hg u e hpast).2 e (Nat.le_refl _)

theorem lasting_abandoned (u : UUID) : podProto.Lasting (fun s => s.Abandoned u) := by
  rintro q s s' - - hg (hp | ⟨hc, hgone⟩)
  · exact .inl (Guar.past hg u _ hp)
  · refine .inr ⟨hg.creator_ne_none hc, fun c hc' => ?_⟩
    exact hg.dead (hgone c (hg.creator_eq hc hc'))

theorem lasting_exited (u : UUID) : podProto.Lasting (fun s => s.Exited u) := by
  rintro q s s' - - hg ⟨hp, hgone⟩
  refine ⟨Guar.past hg u _ hp, fun c hc => ?_⟩
  cases hr : s.runner u with
  | none => exact absurd hp (hg.entered u c hr hc).2.1
  | some c' =>
    rw [hg.runner u c' hr] at hc
    cases hc
    exact hg.dead (hgone c hr)

/-- An assertion about what `p` itself has created and run. -/
structure Role (p : Pid) (A : World → Prop) : Prop where
  stable : podProto.Stable p A
  reads : ∀ s s', s'.creator = s.creator → s'.runner = s.runner → A s → A s'

/-- `p` is not the runner of any pod. -/
def World.NotRunner (s : World) (p : Pid) : Prop := ∀ u, s.runner u ≠ some p

theorem notRunner_role (p : Pid) : Role p (fun s => s.NotRunner p) := by
  refine ⟨fun q s s' hq _ _ hg h u hr => ?_, fun s s' _ hr h u => by rw [hr]; exact h u⟩
  cases hr' : s.runner u with
  | none => exact hq (Guar.entered hg u p hr' hr).1.symm
  | some c =>
    rw [Guar.runner hg u c hr'] at hr
    cases hr
    exact h u hr'

theorem bystander_role (p : Pid) : Role p (fun s => s.Bystander p) := by
  constructor
  · intro q s s' hq h1 h2 hg h u
    refine ⟨fun hc => ?_, (notRunner_role p).stable q s s' hq h1 h2 hg (fun v => (h v).2) u⟩
    cases hc' : s.creator u with
    | none => exact hq (Guar.created hg u p hc' hc).1.symm
    | some c =>
      rw [Guar.creator hg u c hc'] at hc
      cases hc
      exact (h u).1 hc'
  · intro s s' hc hr h u
    rw [hc, hr]
    exact h u

/-- `p` has created `u` and is not the runner of any pod. -/
def World.Creates (s : World) (p : Pid) (u : UUID) : Prop :=
  s.creator u = some p ∧ s.NotRunner p

theorem creates_role (p : Pid) (u : UUID) : Role p (fun s => s.Creates p u) := by
  constructor
  · rintro q s s' hq h1 h2 hg ⟨hc, hr⟩
    exact ⟨Guar.creator hg u p hc, (notRunner_role p).stable q s s' hq h1 h2 hg hr⟩
  · rintro s s' hc hr ⟨h1, h2⟩
    exact ⟨by rw [hc]; exact h1, (notRunner_role p).reads s s' hc hr h2⟩

theorem held_stable (hfd : fd.pid = p) : podProto.Stable p (fun s => s.lock u = .excl fd) :=
  fun _ _ _ hq _ _ hg h => Guar.lock hg u fd h (by rw [hfd]; exact Ne.symm hq)

/-- `p` has drawn `u` and has not created it yet. -/
def World.Drawn (s : World) (p : Pid) (u : UUID) : Prop :=
  s.drawnBy u = some p ∧ s.creator u = none

theorem drawn_stable (p : Pid) (u : UUID) : podProto.Stable p (fun s => s.Drawn p u) := by
  rintro q s s' hq _ _ hg ⟨hd, hc⟩
  refine ⟨Guar.drawn hg u p hd, ?_⟩
  cases hc' : s'.creator u with
  | none => rfl
  | some c =>
    have hdq := (Guar.created hg u c hc hc').2
    rw [hd] at hdq
    cases hdq
    exact absurd rfl hq

/-- `p` has renamed `u` into `run`, and nothing is recorded about `u` yet. -/
def World.Unreported (s : World) (p : Pid) (u : UUID) : Prop :=
  s.runner u = some p ∧ u ∉ s.ran.map Prod.fst

theorem unreported_stable (p : Pid) (u : UUID) : podProto.Stable p (fun s => s.Unreported p u) := by
  rintro q s s' hq _ h2 hg ⟨hr, hn⟩
  have hr' := Guar.runner hg u p hr
  refine ⟨hr', fun hm => ?_⟩
  obtain ⟨⟨v, c⟩, hx, rfl⟩ := List.mem_map.mp hm
  rcases Guar.ran hg _ hx with hx' | hc
  · exact hn (List.mem_map_of_mem hx')
  · -- a record of `q` would make `q` the runner
    have hc' : s'.runner v = some c := Inv.ran h2 v c hx
    simp only at hc hr'
    rw [hr', hc] at hc'
    cases hc'
    exact hq rfl

/-- The operations that only look, or touch what the protocol does not speak about. -/
def Op.quiet : Op → Bool
  | .initPods | .newLock _ _ | .syncDir _ | .readDir _ | .lstat _ _ | .now | .writeFile _ _ _
  | .openFile _ _ | .aside | .panic => true
  | _ => false

theorem quiet_same {r : o.Res} (ho : o.quiet = true) (h : next p o r s = some s') : Same s s' := by
  have same := Same.refl s
  cases o with
  | initPods | syncDir | now | aside =>
    cases h
    exact same
  | newLock d u | lstat d u | openFile fd f | readDir d =>
    simp only [next] at h
    split at h <;> (try split at h) <;> cases h <;>
      first
        | exact same
        | exact ⟨rfl, rfl, fun _ => Finset.Subset.refl _, rfl, rfl, rfl, rfl, rfl⟩
  | writeFile d u f =>
    simp only [next] at h
    split at h
    · split at h
      · cases h
        refine ⟨rfl, rfl, fun v => ?_, rfl, rfl, rfl, rfl, rfl⟩
        by_cases hv : v = u
        · subst hv
          simp
        · simp [hv]
      · cases h
    · cases h
      exact same
  | panic =>
    cases h
    exact ⟨rfl, rfl, fun _ => Finset.Subset.refl _, rfl, rfl, rfl, rfl, rfl⟩
  | _ => cases ho

variable {A : World → Prop}

theorem sys_triple {Q : o.Res → World → Prop} (hst : podProto.Stable p A)
    (h : ∀ s r s', Inv s → A s → p ∉ s.dead → next p o r s = some s' →
      Inv s' ∧ Guar p s s' ∧ Q r s') : podProto.Triple p A (sys o) Q :=
  Triple.call hst fun s r s' hi hs hn =>
    h s r s' hi hs (podMachine_next hn).1 (podMachine_next hn).2

theorem unchanged_ok {R : Prop} (hi : Inv s) (h : R) : Inv s ∧ Guar p s s ∧ R :=
  and_assoc.mp ⟨(Same.refl s).ok hi, h⟩

/-- A quiet operation keeps every assertion that is stable and does not look at what quiet
operations touch. -/
theorem quiet_triple (ho : o.quiet = true) (hst : podProto.Stable p A)
    (hsame : ∀ s s', Same s s' → A s → A s') : podProto.Triple p A (sys o) (fun _ => A) := by
  refine sys_triple hst fun s r s' hi hA _ hn => ?_
  have hs := quiet_same ho hn
  obtain ⟨hi', hg⟩ := hs.ok hi
  exact ⟨hi', hg, hsame s s' hs hA⟩

theorem Role.same (hA : Role p A) (s s' : World) (h : Same s s') :
    A s → A s' := hA.reads s s' h.creator h.runner

theorem Role.quiet (hA : Role p A) (ho : o.quiet = true) :
    podProto.Triple p A (sys o) (fun _ => A) := quiet_triple ho hA.stable hA.same

/-- Opening the directory of `u` in `d` shows that `u` has come that far. -/
theorem newLock_triple (hA : Role p A) : podProto.Triple p A (sys (.newLock d u))
      (Ends A fun fd s => s.Reached u d ∧ fd.pid = p ∧ fd.uuid = u) := by
  refine sys_triple hA.stable fun s r s' hi hs _ hn => ?_
  have hsame := quiet_same (by rfl) hn
  obtain ⟨hi', hg⟩ := hsame.ok hi
  refine ⟨hi', hg, ?_⟩
  rcases r with e | fd
  · exact hA.same s s' hsame hs
  · obtain ⟨⟨hm, rfl⟩, -⟩ := Option.ite_none_right_eq_some.mp hn
    exact ⟨hA.same s s' hsame hs,
      lasting_reached u d p s s' hi hi' hg (reached_of_mem hi hm), rfl, rfl⟩

theorem exclusiveLock_triple (hA : Role p A) (hfd : fd.pid = p) :
    podProto.Triple p A (sys (.exclusiveLock fd))
      (Ends A fun _ s => s.lock fd.uuid = .excl fd) := by
  refine sys_triple hA.stable fun s r s' hi hs _ hn => ?_
  rcases r with e | _
  · obtain rfl := next_failed rfl hn
    exact unchanged_ok hi hs
  · obtain ⟨hcan, ⟨⟩⟩ := Option.ite_none_right_eq_some.mp hn
    obtain ⟨hi', hg⟩ := setLock_ok (q := p) (u := fd.uuid) (l := .excl fd) hi
      (fun fd' hl _ => by
        rw [hl, Flock.canEx_excl] at hcan
        rw [hcan])
      (fun _ _ => ⟨fd, rfl, hfd⟩) (fun _ => ⟨fd, rfl, hfd⟩)
    refine ⟨hi', hg, hA.reads s _ rfl rfl hs, ?_⟩
    simp [World.setLock]

theorem giveUp_ok (hi : Inv s) (hfd : fd.pid = p)
    (hprep : s.creator fd.uuid = some p → fd.uuid ∉ s.dirs .prepare)
    (hrun : s.runner fd.uuid ≠ some p) : Inv (s.setLock fd.uuid ((s.lock fd.uuid).unlock fd)) ∧
      Guar p s (s.setLock fd.uuid ((s.lock fd.uuid).unlock fd)) := by
  refine setLock_ok hi (fun fd' hl hp => ?_) (fun hc hm => absurd hm (hprep hc))
    (fun hr => absurd hr hrun)
  rw [hl]
  refine Flock.unlock_excl ?_
  rintro rfl
  exact hp hfd

theorem close_triple (hfd : fd.pid = p) :
    podProto.Triple p (fun s => s.Bystander p) (sys (.close fd)) (fun _ s => s.Bystander p) := by
  refine sys_triple (bystander_role p).stable fun s r s' hi hs _ hn => ?_
  cases hn
  obtain ⟨hi', hg⟩ := giveUp_ok hi hfd (fun hc => absurd hc (hs _).1) (hs _).2
  exact ⟨hi', hg, (bystander_role p).reads s _ rfl rfl hs⟩

/-- Unlocking a pod for which the protocol does not ask `p` for the lock. -/
theorem unlock_triple (hst : podProto.Stable p A) (hfd : fd.pid = p)
    (hset : ∀ s l, A s → A (s.setLock fd.uuid l))
    (hprep : ∀ s, A s → s.creator fd.uuid = some p → fd.uuid ∉ s.dirs .prepare)
    (hrun : ∀ s, A s → s.runner fd.uuid ≠ some p) :
    podProto.Triple p A (sys (.unlock fd)) (fun _ => A) := by
  refine sys_triple hst fun s r s' hi hs _ hn => ?_
  rcases r with e | _
  · obtain rfl := next_failed rfl hn
    exact unchanged_ok hi hs
  · cases hn
    obtain ⟨hi', hg⟩ := giveUp_ok hi hfd (hprep s hs) (hrun s hs)
    exact ⟨hi', hg, hset s _ hs⟩

/-- **The lock test.** A bystander that is granted a shared lock learns that nobody runs the
pod, and that nobody prepares it if it is in `prepare`. -/
theorem trySharedLock_triple (hfd : fd.pid = p) :
    podProto.Triple p (fun s => s.Bystander p) (sys (.trySharedLock fd))
      (Ends (fun s => s.Bystander p) fun _ s => s.RunnerGone fd.uuid ∧
        (fd.uuid ∈ s.dirs .prepare → s.CreatorGone fd.uuid)) := by
  refine sys_triple (bystander_role p).stable fun s r s' hi hs _ hn => ?_
  rcases r with e | _
  · obtain rfl := next_failed rfl hn
    exact unchanged_ok hi hs
  obtain ⟨hcan, ⟨⟩⟩ := Option.ite_none_right_eq_some.mp hn
  -- the only exclusive lock the test can meet is one of the description itself
  have own : ∀ fd', s.lock fd.uuid = .excl fd' → fd'.pid = p := by
    intro fd' hl
    rw [hl, Flock.canSh_excl] at hcan
    rw [hcan]
    exact hfd
  obtain ⟨hi', hg⟩ := setLock_ok (q := p) (u := fd.uuid) (l := (s.lock fd.uuid).share fd) hi
    (fun fd' hl hp => absurd (own fd' hl) hp) (fun hc => absurd hc (hs _).1)
    (fun hr => absurd hr (hs _).2)
  refine ⟨hi', hg, (bystander_role p).reads s _ rfl rfl hs, ?_, ?_⟩
  · intro c hr
    by_contra hd
    obtain ⟨-, fd', hl, rfl⟩ := hi.running _ c hr hd
    exact (hs _).2 (by rw [← own fd' hl]; exact hr)
  · intro hm c hc
    by_contra hd
    obtain ⟨fd', hl, rfl⟩ := hi.preparing _ c hc hd hm
    exact (hs _).1 (by rw [← own fd' hl]; exact hc)

theorem rename_triple {A B : World → Prop} {Q : Unit → World → Prop} (hst : podProto.Stable p A)
    (hok : ∀ s, Inv s → A s → p ∉ s.dead → u ∈ s.dirs d → MoveOk p s d d' u)
    (hmoved : ∀ s, Inv s → A s → u ∈ s.dirs d → B (s.move p d d' u) ∧ Q () (s.move p d d' u))
    (herr : ∀ s, A s → B s) : podProto.Triple p A (sys (.rename d d' u)) (Ends B Q) := by
  refine sys_triple hst fun s r s' hi hs hd hn => ?_
  rcases r with e | _
  · obtain rfl := next_failed rfl hn
    exact unchanged_ok hi (herr _ hs)
  · obtain ⟨⟨hm, -⟩, ⟨⟩⟩ := Option.ite_none_right_eq_some.mp hn
    obtain ⟨hi', hg⟩ := move_ok hi hm (hok s hi hs hd hm)
    exact ⟨hi', hg, hmoved s hi hs hm⟩

theorem Role.move {q : Pid} (hA : Role p A) (hd' : d' ≠ .run) (h : A s) : A (s.move q d d' u) := by
  refine hA.reads s _ World.move_frame.2.2.2.2.1 (funext fun v => ?_) h
  rw [World.move_runner, if_neg (fun hx => hd' hx.1)]

/-- Unlinking the contents or the directory of a pod in a place nobody needs it. -/
theorem removeFiles_triple (hA : Role p A) (hprep : d ≠ .prepare)
    (hrun : d ≠ .run) : podProto.Triple p A (sys (.removeFiles d u)) (fun _ => A) := by
  refine sys_triple hA.stable fun s r s' hi hs _ hn => ?_
  obtain ⟨gone, e⟩ := r
  simp only [next] at hn
  split at hn
  · rename_i hm
    obtain ⟨-, ⟨⟩⟩ := Option.ite_none_right_eq_some.mp hn
    obtain ⟨hi', hg⟩ := unlinkFiles_ok hi hm hprep hrun
    exact ⟨hi', hg, hA.reads s _ rfl rfl hs⟩
  · obtain ⟨-, ⟨⟩⟩ := Option.ite_none_right_eq_some.mp hn
    exact unchanged_ok hi hs

theorem removeDir_triple (hA : Role p A) (hprep : d ≠ .prepare)
    (hrun : d ≠ .run) : podProto.Triple p A (sys (.removeDir d u)) (fun _ => A) := by
  refine sys_triple hA.stable fun s r s' hi hs _ hn => ?_
  rcases r with e | _
  · obtain rfl := next_failed rfl hn
    exact unchanged_ok hi hs
  simp only [next] at hn
  split at hn
  · rename_i hm
    obtain ⟨-, ⟨⟩⟩ := Option.ite_none_right_eq_some.mp hn
    obtain ⟨hi', hg⟩ := unlink_ok hi hm hprep hrun
    exact ⟨hi', hg, hA.reads s _ rfl rfl hs⟩
  · cases hn
    exact unchanged_ok hi hs

/-- `os.Remove` of a pod's directory in a place nobody needs it. -/
theorem remove_triple (hA : Role p A) (hprep : d ≠ .prepare)
    (hrun : d ≠ .run) : podProto.Triple p A (sys (.remove d u)) (fun _ => A) := by
  refine sys_triple hA.stable fun s r s' hi hs _ hn => ?_
  rcases r with e | _
  · obtain rfl := next_failed rfl hn
    exact unchanged_ok hi hs
  · obtain ⟨⟨hm, -⟩, ⟨⟩⟩ := Option.ite_none_right_eq_some.mp hn
    obtain ⟨hi', hg⟩ := unlink_ok hi hm hprep hrun
    exact ⟨hi', hg, hA.reads s _ rfl rfl hs⟩

theorem newUUID_triple (hA : Role p A) :
    podProto.Triple p A (sys .newUUID) (fun u s => A s ∧ s.Drawn p u) := by
  refine sys_triple hA.stable fun s u s' hi hs _ hn => ?_
  obtain ⟨hu, ⟨⟩⟩ := Option.ite_none_right_eq_some.mp hn
  obtain ⟨hi', hg⟩ := draw_ok (q := p) hi hu
  refine ⟨hi', hg, hA.reads s _ rfl rfl hs, Function.update_self _ _ _, ?_⟩
  show s.creator u = none
  cases hc : s.creator u with
  | none => rfl
  | some c =>
    rw [hi.drawn u c hc] at hu
    cases hu

theorem mkdir_triple : podProto.Triple p (fun s => s.NotRunner p ∧ s.Drawn p u)
    (sys (.mkdir .embryo u)) (Ends (fun s => s.NotRunner p) fun _ s => s.Creates p u) := by
  refine sys_triple ((notRunner_role p).stable.and (drawn_stable p u)) ?_
  rintro s r s' hi ⟨hr, hdrawn, hc⟩ - hn
  rcases r with e | _
  · obtain rfl := next_failed rfl hn
    exact unchanged_ok hi hr
  · obtain ⟨-, ⟨⟩⟩ := Option.ite_none_left_eq_some.mp hn
    obtain ⟨hi', hg⟩ := mkdir_ok hi hdrawn hc
    exact ⟨hi', hg, hr, by simp, hr⟩

theorem ran_triple : podProto.Triple p (fun s => s.Unreported p u) (sys (.ran u))
    (fun _ _ => True) := by
  refine sys_triple (unreported_stable p u) fun s r s' hi hs _ hn => ?_
  cases hn
  obtain ⟨hi', hg⟩ := ran_ok hi hs.1 hs.2
  exact ⟨hi', hg, trivial⟩

end Rkt.Pods
