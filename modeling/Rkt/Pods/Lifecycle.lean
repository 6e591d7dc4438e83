import Rkt.Pods.Rules

set_option autoImplicit false

namespace Rkt.Pods

open Conc Prog Proto

variable {p : Pid} {u : UUID} {d : Dir} {fd : Fd} {A : World → Prop}

/-- What `p` knows about a pod value that it got from `getPod`: it was found in `d` through a
description of `p`, and if it was found unlocked in `prepare` or `run` then nobody is behind it any
more. -/
def SeenIn (p : Pid) (u : UUID) (d : Dir) (x : Pod) (s : World) : Prop :=
  ∃ fd, (fd.pid = p ∧ fd.uuid = u) ∧
    (x = (openedIn d fd u).locked ∨
      x = openedIn d fd u ∧ (d = .prepare → s.Abandoned u) ∧ (d = .run → s.Exited u))

def Seen (p : Pid) (u : UUID) (x : Pod) (s : World) : Prop := ∃ d, SeenIn p u d x s

variable {x : Pod} {s : World} {P : Proto podMachine}

theorem SeenIn.seen (h : SeenIn p u d x s) : Seen p u x s := ⟨d, h⟩

theorem lasting_seenIn (p : Pid) (u : UUID) (d : Dir) (x : Pod) :
    podProto.Lasting (SeenIn p u d x) := by
  rintro q s s' h1 h2 hg ⟨fd, hfd, hx⟩
  refine ⟨fd, hfd, ?_⟩
  rcases hx with hx | ⟨hx, ha, he⟩
  · exact .inl hx
  · exact .inr ⟨hx, fun hd => lasting_abandoned u q s s' h1 h2 hg (ha hd),
      fun hd => lasting_exited u q s s' h1 h2 hg (he hd)⟩

theorem lasting_seen (p : Pid) (u : UUID) (x : Pod) : podProto.Lasting (Seen p u x) := by
  rintro q s s' h1 h2 hg ⟨d, hx⟩
  exact ⟨d, lasting_seenIn p u d x q s s' h1 h2 hg hx⟩

/-- The pod was found in `d` through a description of `p`. -/
def FoundIn (p : Pid) (u : UUID) (d : Dir) (fd : Fd) (s : World) : Prop :=
  s.Reached u d ∧ fd.pid = p ∧ fd.uuid = u

/-- Somebody who knows that the pod has come to `d0` does not find it in an earlier place. -/
theorem newLock_late {d0 : Dir} (hA : Role p A) :
    podProto.Triple p (fun s => A s ∧ s.Reached u d0) (sys (.newLock d u))
      (Ends (fun s => A s ∧ s.Reached u d0) fun fd s => FoundIn p u d fd s ∧ d0.rank ≤ d.rank) := by
  intro s hs s1 he hi r s' hn
  -- where the pod is found it is in the state in which it is looked for
  have hbefore := (hA.stable.and (lasting_reached u d0).stable).star he hs
  obtain ⟨hi', hg, hend⟩ := (newLock_triple hA).frame (lasting_reached u d0) s hs s1 he hi r s' hn
  refine ⟨hi', hg, ?_⟩
  rcases r with e | fd
  · exact hend
  · refine ⟨⟨hend.1.1, hend.2⟩, hend.1.2, ?_⟩
    obtain ⟨⟨hm, -⟩, -⟩ := Option.ite_none_right_eq_some.mp (podMachine_next hn).2
    by_contra hlt
    exact hbefore.2.2 d (by omega) hm

/-- One probe of `openPod`: the pod is found, or the search goes on, or it ends with an
error. -/
theorem probe_rule {F : Fd → World → Prop}
    {f : Except Errno Fd → Prog podSig (Except Err Pod)} {Q : Except Err Pod → World → Prop}
    (hnew : P.Triple p A (sys (.newLock d u)) (Ends A F))
    (hfound : ∀ fd, P.Triple p (fun s => A s ∧ F fd s) (f (.ok fd)) Q)
    (hblock : P.Triple p A (f (.error .wouldblock)) Q) (hother : P.Triple p A (f (.error .other)) Q)
    (hnext : P.Triple p A (f (.error .noent)) Q) : P.Triple p A (sys (.newLock d u) >>= f) Q := by
  refine Triple.attempt hnew hfound fun e => ?_
  cases e with
  | noent => exact hnext
  | wouldblock => exact hblock
  | other => exact hother

/-- What the probes say of the pod they find, `openPod` says of the pod it returns. -/
theorem openPod_rule {F : Dir → Fd → World → Prop}
    (hnew : ∀ d, P.Triple p A (sys (.newLock d u)) (Ends A (F d))) : P.Triple p A (openPod u)
      (Ends A fun x s => ∃ d fd, x = openedIn d fd u ∧ F d fd s) := by
  have found : ∀ d fd s, A s ∧ F d fd s →
      A s ∧ ∃ d' fd', openedIn d fd u = openedIn d' fd' u ∧ F d' fd' s :=
    fun d fd s h => ⟨h.1, d, fd, rfl, h.2⟩
  have keep : ∀ s, A s → A s := fun _ h => h
  refine probe_rule (hnew _) (fun fd => .ok (found .embryo fd)) (.error keep) (.error keep) ?_
  refine probe_rule (hnew _) (fun fd => .ok (found .prepare fd)) (.error keep) (.error keep) ?_
  refine probe_rule (hnew _) (fun fd => .ok (found .prepared fd)) (.error keep) (.error keep) ?_
  refine probe_rule (hnew _) (fun fd => .ok (found .run fd)) (.error keep) (.error keep) ?_
  refine probe_rule (hnew _) (fun fd => .ok (found .exitedGarbage fd)) (.error keep)
    (.error keep) ?_
  exact probe_rule (hnew _) (fun fd => .ok (found .garbage fd)) (.error keep) (.error keep)
    (.error keep)

/-- A pod that was found in `d` and then could be locked has nobody behind it. -/
theorem FoundIn.unlocked (h : FoundIn p u d fd s) (hr : s.RunnerGone u)
    (hc : u ∈ s.dirs .prepare → s.CreatorGone u) :
    (d = .prepare → s.Abandoned u) ∧ (d = .run → s.Exited u) := by
  obtain ⟨hreach, -⟩ := h
  constructor
  · rintro rfl
    by_cases hm : u ∈ s.dirs .prepare
    · exact .inr ⟨hreach.1, hc hm⟩
    · refine .inl ⟨hreach.1, fun e he => ?_⟩
      cases e with
      | embryo => exact hreach.2 .embryo (by decide)
      | prepare => exact hm
      | _ => simp [Dir.rank] at he
  · rintro rfl
    exact ⟨hreach.past rfl, hr⟩

theorem testLock_triple (hfd : fd.pid = p ∧ fd.uuid = u) :
    podProto.Triple p (fun s => s.Bystander p ∧ s.Reached u d) (testLock (openedIn d fd u))
      (Ends (fun s => s.Bystander p) (SeenIn p u d)) := by
  have hlock : (openedIn d fd u).lock = fd := by cases d <;> rfl
  unfold testLock
  split
  · rw [hlock]
    refine Triple.bind ((trySharedLock_triple hfd.1).frame (lasting_reached u d)) fun r => ?_
    rcases r with (_ | _ | _) | _
    · exact Triple.bind ((close_triple hfd.1).pre fun s h => h.1) fun _ =>
        Triple.error fun _ h => h
    · exact Triple.ok fun s h => ⟨h.1, fd, hfd, .inl rfl⟩
    · exact Triple.bind ((close_triple hfd.1).pre fun s h => h.1) fun _ =>
        Triple.error fun _ h => h
    · -- what the test has shown lasts, so it survives the unlocking
      have hlast : podProto.Lasting fun s =>
          (d = .prepare → s.Abandoned u) ∧ (d = .run → s.Exited u) :=
        (lasting_abandoned u).imp.and (lasting_exited u).imp
      have hun : podProto.Triple p (fun s => s.Bystander p) (sys (.unlock fd))
          (fun _ s => s.Bystander p) := unlock_triple (bystander_role p).stable hfd.1
        (fun s l h => (bystander_role p).reads s _ rfl rfl h)
        (fun s h hc => absurd hc (h _).1) (fun s h => (h _).2)
      refine Triple.bind ((hun.frame hlast).pre ?_) fun _ =>
        Triple.ok fun s h => ⟨h.1, fd, hfd, .inr ⟨rfl, h.2⟩⟩
      rintro s ⟨⟨hb, hr, hc⟩, hreach⟩
      rw [hfd.2] at hr hc
      exact ⟨hb, FoundIn.unlocked ⟨hreach, hfd⟩ hr hc⟩
  · rename_i hc
    refine Triple.ok fun s h => ⟨h.1, fd, hfd, .inr ⟨rfl, ?_, ?_⟩⟩
    · rintro rfl
      exact absurd rfl hc
    · rintro rfl
      exact absurd rfl hc

theorem loadNets_triple {Q : Pod → World → Prop} (hA : Role p A) (hQ : podProto.Lasting (Q x)) :
    podProto.Triple p (fun s => A s ∧ Q x s) (loadNets x) (Ends A Q) := by
  unfold loadNets
  split
  · refine Triple.bind ((hA.quiet (by rfl)).frame hQ) fun r => ?_
    rcases r with (_ | _ | _) | _
    · exact Triple.ok fun _ h => h
    · exact Triple.error fun _ h => h.1
    · exact Triple.error fun _ h => h.1
    · exact Triple.ok fun _ h => h
  · exact Triple.ok fun _ h => h

theorem initPods_rule (hinit : P.Triple p A (sys .initPods) (fun _ => A)) :
    P.Triple p A initPods (Ends A fun _ _ => True) := by
  refine Triple.bind hinit fun r => ?_
  rcases r with e | _
  · exact Triple.error fun _ h => h
  · exact Triple.ok fun _ h => ⟨h, trivial⟩

/-- The rule for looking at a pod: `bound` is what is known about the place it is found in. -/
theorem getPod_rule {bound : Dir → Prop} (hA : ∀ s, A s → s.Bystander p)
    (hinit : podProto.Triple p A (sys .initPods) (fun _ => A))
    (hnew : ∀ d, podProto.Triple p A (sys (.newLock d u))
      (Ends A fun fd s => FoundIn p u d fd s ∧ bound d)) : podProto.Triple p A (getPod u)
      (Ends (fun s => s.Bystander p) fun x s => ∃ d, bound d ∧ SeenIn p u d x s) := by
  refine Triple.attempt (initPods_rule hinit) (fun _ => ?_) fun e => .error hA
  refine Triple.attempt ((openPod_rule hnew).pre fun _ h => h.1) (fun x => ?_) fun e => .error hA
  rintro s ⟨hs, d, fd, rfl, ⟨hreach, hfd⟩, hd⟩
  suffices h : podProto.Triple p (fun s => s.Bystander p ∧ s.Reached u d) _ _ from
    h s ⟨hA s hs, hreach⟩
  refine Triple.attempt (testLock_triple hfd) (fun x => ?_) fun e => .error fun _ h => h
  refine (loadNets_triple (bystander_role p) (lasting_seenIn p u d x)).post ?_
  rintro (e | y) s h
  · exact h
  · exact ⟨h.1, d, hd, h.2⟩

/-- **Looking at a pod.** -/
theorem getPod_triple : podProto.Triple p (fun s => s.Bystander p) (getPod u)
    (Ends (fun s => s.Bystander p) (Seen p u)) := by
  have hnew : ∀ d, podProto.Triple p (fun s => s.Bystander p) (sys (.newLock d u))
      (Ends (fun s => s.Bystander p) fun fd s => FoundIn p u d fd s ∧ True) := by
    refine fun d => (newLock_triple (bystander_role p)).post ?_
    rintro (e | fd) s h
    · exact h
    · exact ⟨h.1, h.2, trivial⟩
  refine (getPod_rule (fun _ h => h) ((bystander_role p).quiet (by rfl)) hnew).post ?_
  rintro (e | x) s h
  · exact h
  · obtain ⟨hb, d, -, hseen⟩ := h
    exact ⟨hb, hseen.seen⟩

/-- Looking at a pod that has come to `d0`: it is found there or further on. -/
theorem getPod_late {d0 : Dir} :
    podProto.Triple p (fun s => s.Bystander p ∧ s.Reached u d0) (getPod u)
      (Ends (fun s => s.Bystander p) fun x s => ∃ d, d0.rank ≤ d.rank ∧ SeenIn p u d x s) :=
  getPod_rule (fun _ h => h.1) (((bystander_role p).quiet (by rfl)).frame (lasting_reached u d0))
    fun _ => newLock_late (bystander_role p)

theorem syncThen_triple {Q : Pod → World → Prop} (hst : podProto.Stable p A)
    (hsame : ∀ s s', Same s s' → A s → A s') (hQ : ∀ s, A s → Q x s) :
    podProto.Triple p A (Pod.syncThen d x) (Ends A Q) := by
  refine Triple.bind (quiet_triple (by rfl) hst hsame) fun r => ?_
  rcases r with e | _
  · exact Triple.error fun _ h => h
  · exact Triple.ok fun s h => ⟨h, hQ s h⟩

/-- A pod value that may be deleted: it is `p`'s own and, if its flags say that it is garbage,
its path leads to one of the garbage directories. -/
def Deletable (p : Pid) (x : Pod) : Prop :=
  x.lock.pid = p ∧ ((x.isExitedGarbage || x.isGarbage) = true →
    x.path = some .exitedGarbage ∨ x.path = some .garbage)

/-- A pod value that may be deleted and whose flags say that it is garbage. -/
def Garbage (p : Pid) (x : Pod) : Prop :=
  Deletable p x ∧ (x.isExitedGarbage || x.isGarbage) = true

theorem Seen.lock (h : Seen p u x s) : x.lock.pid = p ∧ x.lock.uuid = u ∧ x.uuid = u := by
  obtain ⟨d, fd, ⟨rfl, rfl⟩, rfl | ⟨rfl, -⟩⟩ := h <;> cases d <;> exact ⟨rfl, rfl, rfl⟩

theorem Seen.deletable (h : Seen p u x s) : Deletable p x := by
  refine ⟨h.lock.1, ?_⟩
  obtain ⟨d, fd, -, rfl | ⟨rfl, -⟩⟩ := h <;> cases d <;>
    simp [openedIn, Pod.locked, Pod.path]

/-- Only a pod that was found unlocked in `run` passes the guard of `xToExitedGarbage`. -/
theorem Seen.exited (h : Seen p u x s)
    (hx : ¬ (!x.isExited || x.isExitedGarbage) = true) : x.uuid = u ∧ s.Exited u ∧
      Deletable p { x with isExitedGarbage := true } := by
  have hlock := h.lock
  obtain ⟨d, fd, -, rfl | ⟨rfl, -, he⟩⟩ := h <;> cases d <;>
    simp only [openedIn, Pod.locked, Bool.not_true, Bool.not_false, Bool.or_self, Bool.or_true,
      Bool.or_false, if_true, if_false, not_true_eq_false, Bool.false_eq_true] at hx
  exact ⟨rfl, he rfl, hlock.1, fun _ => .inl rfl⟩

theorem xToExitedGarbage_triple :
    podProto.Triple p (fun s => s.Bystander p ∧ Seen p u x s) x.xToExitedGarbage
      (Ends (fun s => s.Bystander p) fun y _ => Garbage p y) := by
  rintro s ⟨hb, hseen⟩
  unfold Pod.xToExitedGarbage
  split
  · exact hb
  · rename_i hx
    obtain ⟨rfl, he, hdel⟩ := hseen.exited hx
    have hren : podProto.Triple p (fun s => s.Bystander p ∧ s.Exited x.uuid)
        (sys (.rename .run .exitedGarbage x.uuid))
        (Ends (fun s => s.Bystander p) fun _ _ => True) := by
      refine rename_triple ((bystander_role p).stable.and (lasting_exited _).stable) ?_ ?_
        (fun s h => h.1)
      · rintro s hi ⟨-, he⟩ - hm
        exact ⟨by decide, by simp, by simp, by simp, by simp, fun _ => he.2⟩
      · exact fun s _ h _ => ⟨(bystander_role p).move (by decide) h.1, trivial⟩
    suffices h : podProto.Triple p (fun s => s.Bystander p ∧ s.Exited x.uuid) _ _ from
      h s ⟨hb, he⟩
    exact Triple.attempt hren
      (fun _ => (syncThen_triple (bystander_role p).stable (bystander_role p).same
        fun _ _ => ⟨hdel, by simp⟩).pre fun _ h => h.1) fun e => .error fun _ h => h

/-- Only a pod that was found unlocked in `prepare`, or found in `prepared`, passes the guard
of `xToGarbage`. -/
theorem Seen.unneeded (h : Seen p u x s)
    (hx : ¬ (!x.isAbortedPrepare && !x.isPrepared) = true) : x.uuid = u ∧
      (∃ d, x.path = some d ∧ (d = .prepare ∨ d = .prepared) ∧ (d = .prepare → s.Abandoned u)) ∧
      Deletable p { x with isAbortedPrepare := false, isPrepared := false, isGarbage := true } := by
  have hlock := h.lock
  obtain ⟨d, fd, -, rfl | ⟨rfl, ha, -⟩⟩ := h <;> cases d <;>
    simp only [openedIn, Pod.locked, Bool.not_true, Bool.not_false, Bool.and_self,
      Bool.and_false, if_true, if_false, not_true_eq_false, Bool.false_eq_true] at hx
  · exact ⟨rfl, ⟨.prepared, rfl, .inr rfl, fun h => by cases h⟩, hlock.1, fun _ => .inr rfl⟩
  · exact ⟨rfl, ⟨.prepare, rfl, .inl rfl, fun _ => ha rfl⟩, hlock.1, fun _ => .inr rfl⟩
  · exact ⟨rfl, ⟨.prepared, rfl, .inr rfl, fun h => by cases h⟩, hlock.1, fun _ => .inr rfl⟩

/-- The rename of an unneeded pod into `garbage`. Somebody may have moved the pod on since it
was looked at; the rename then fails. -/
theorem rename_garbage_triple (hd : d = .prepare ∨ d = .prepared) :
    podProto.Triple p (fun s => s.Bystander p ∧ (d = .prepare → s.Abandoned u))
      (sys (.rename d .garbage u)) (Ends (fun s => s.Bystander p) fun _ _ => True) := by
  refine rename_triple ((bystander_role p).stable.and (lasting_abandoned u).imp.stable) ?_ ?_
    (fun s h => h.1)
  · rintro s hi ⟨-, ha⟩ - hm
    refine ⟨by rcases hd with rfl | rfl <;> decide, by simp, by simp, by simp, fun _ hprep => ?_,
      by rcases hd with rfl | rfl <;> simp⟩
    subst hprep
    rcases ha rfl with hp | ⟨-, hc⟩
    · exact absurd hm (hp.2 .prepare (Nat.le_refl _))
    · exact hc
  · exact fun s _ h _ => ⟨(bystander_role p).move (by decide) h.1, trivial⟩

theorem xToGarbage_triple : podProto.Triple p (fun s => s.Bystander p ∧ Seen p u x s) x.xToGarbage
      (Ends (fun s => s.Bystander p) fun y _ => Garbage p y) := by
  rintro s ⟨hb, hseen⟩
  unfold Pod.xToGarbage
  split
  · exact hb
  · rename_i hx
    obtain ⟨rfl, ⟨d, hp, hd, ha⟩, hdel⟩ := hseen.unneeded hx
    unfold Pod.renamePath
    rw [hp]
    suffices h : podProto.Triple p
        (fun s => s.Bystander p ∧ (d = .prepare → s.Abandoned x.uuid)) _ _ from h s ⟨hb, ha⟩
    exact Triple.attempt (rename_garbage_triple hd)
      (fun _ => (syncThen_triple (bystander_role p).stable (bystander_role p).same
        fun _ _ => ⟨hdel, by simp⟩).pre fun _ h => h.1) fun e => .error fun _ h => h

theorem orStop {β : Type} {x : Prog podSig (Except Errno Unit)}
    {f : Except Errno Unit → Prog podSig β} {R : β → World → Prop}
    (hx : podProto.Triple p A x (fun _ => A)) (hstop : ∀ e, podProto.Triple p A (f (.error e)) R)
    (hgo : podProto.Triple p A (f (.ok ())) R) : podProto.Triple p A (x >>= f) R := by
  refine Triple.bind hx fun r => ?_
  cases r with
  | error e => exact hstop e
  | ok _ => exact hgo

theorem cleanExited_triple (hA : Role p A) : podProto.Triple p A (cleanExited x) (fun _ => A) := by
  have stop : ∀ b : Bool, podProto.Triple p A (pure b) (fun _ => A) :=
    fun _ => Triple.ret fun _ h => h
  refine orStop (hA.quiet (by rfl)) (fun _ => stop false) ?_
  refine orStop (hA.quiet (by rfl)) (fun _ => stop false) ?_
  refine orStop (hA.quiet (by rfl)) (fun _ => stop false) ?_
  refine orStop (hA.quiet (by rfl)) (fun _ => stop true) ?_
  refine orStop (hA.quiet (by rfl)) (fun _ => stop false) ?_
  exact orStop (hA.quiet (by rfl)) (fun _ => stop false) (stop true)

theorem removeAllPath_triple (hA : Role p A)
    (hx : x.path = some .exitedGarbage ∨ x.path = some .garbage) :
    podProto.Triple p A x.removeAllPath (fun _ => A) := by
  have remove : ∀ d : Dir, d ≠ .prepare → d ≠ .run →
      podProto.Triple p A (removeAll d x.uuid) (fun _ => A) := by
    intro d hprep hrun
    refine Triple.bind (removeFiles_triple hA hprep hrun) fun r => ?_
    rcases r with ⟨gone, _ | e⟩
    · exact removeDir_triple hA hprep hrun
    · exact Triple.ret fun _ h => h
  unfold Pod.removeAllPath
  rcases hx with hx | hx <;> rw [hx]
  · exact Triple.bind (remove _ (by decide) (by decide)) fun _ => Triple.ret fun _ h => h
  · exact Triple.bind (remove _ (by decide) (by decide)) fun _ => Triple.ret fun _ h => h

theorem deletePod_triple (hA : Role p A) (hx : Deletable p x) :
    podProto.Triple p A (deletePod x) (fun _ => A) := by
  unfold deletePod
  refine Triple.ite (fun _ => hA.quiet (by rfl)) fun hflag => ?_
  have hpath := hx.2 (by
    cases h1 : x.isExitedGarbage <;> cases h2 : x.isGarbage <;> simp_all)
  refine Triple.ite (fun _ => ?_) fun _ => removeAllPath_triple hA hpath
  refine Triple.bind (cleanExited_triple hA) fun b => ?_
  cases b with
  | false => exact Triple.ret fun _ h => h
  | true => exact removeAllPath_triple hA hpath

theorem lockAndDelete_triple (hA : Role p A) (hx : Deletable p x) :
    podProto.Triple p A (lockAndDelete x) (fun _ => A) :=
  Triple.attempt (exclusiveLock_triple hA hx.1)
    (fun _ => (deletePod_triple hA hx).pre fun _ h => h.1) fun _ => Triple.ret fun _ h => h

section collectors

variable {β : Type} {incl : IncludeMask} {f : β → Pod → Prog podSig β}

/-- What a walk calls must be safe for a pod that was just looked at. -/
def Visits (p : Pid) (f : β → Pod → Prog podSig β) : Prop :=
  ∀ b u x, podProto.Triple p (fun s => s.Bystander p ∧ Seen p u x s) (f b x)
    (fun _ s => s.Bystander p)

variable {P : Proto podMachine} {x : Pod}

/-- The rule for the loop of a walk. `K` is what lasts of the listing, and `L` what a look at a
listed pod shows. -/
theorem walkList_rule {K : UUID → World → Prop}
    {L : UUID → Pod → World → Prop} (hK : ∀ u, P.Lasting (K u))
    (hget : ∀ u, P.Triple p (fun s => A s ∧ K u s) (getPod u) (Ends A (L u)))
    (hclose : ∀ u x s, L u x s → P.Triple p A (sys (.close x.lock)) (fun _ => A))
    (hf : ∀ b u x, omits incl x = false →
      P.Triple p (fun s => A s ∧ L u x s) (f b x) (fun _ => A)) (us : List UUID) :
    ∀ b, P.Triple p (fun s => A s ∧ ∀ u ∈ us, K u s) (walkList incl f us b) (fun _ => A) := by
  induction us with
  | nil => exact fun b => Triple.ret fun _ h => h.1
  | cons u us ih =>
    intro b
    have hrest : P.Lasting fun s => ∀ v ∈ us, K v s :=
      fun q s s' h1 h2 hg h v hv => hK v q s s' h1 h2 hg (h v hv)
    have hget' : P.Triple p (fun s => A s ∧ ∀ v ∈ u :: us, K v s) (getPod u)
        (fun r s => Ends A (L u) r s ∧ ∀ v ∈ us, K v s) :=
      ((hget u).frame hrest).pre fun s h => ⟨⟨h.1, h.2 u List.mem_cons_self⟩,
        fun v hv => h.2 v (List.mem_cons_of_mem _ hv)⟩
    refine Triple.bind hget' fun r => ?_
    rcases r with e | x
    · exact ih b
    rintro s ⟨⟨hA, hlook⟩, hus⟩
    have hclose' := (hclose u x s hlook).frame hrest
    suffices h : P.Triple p (fun s => (A s ∧ L u x s) ∧ ∀ v ∈ us, K v s) _ _ from
      h s ⟨⟨hA, hlook⟩, hus⟩
    refine Triple.ite (fun _ => ?_) fun homit => ?_
    · exact Triple.bind (hclose'.pre fun _ h => ⟨h.1.1, h.2⟩) fun _ => ih b
    · exact Triple.bind ((hf b u x (by simpa using homit)).frame hrest) fun b' =>
        Triple.bind hclose' fun _ => ih b'

/-- Pod `u` has come to one of the included directories. -/
def World.Listed (s : World) (incl : IncludeMask) (u : UUID) : Prop :=
  ∃ d, incl d = true ∧ s.Reached u d

theorem lasting_listed (incl : IncludeMask) (u : UUID) :
    podProto.Lasting fun s => s.Listed incl u := by
  rintro q s s' h1 h2 hg ⟨d, hd, hr⟩
  exact ⟨d, hd, lasting_reached u d q s s' h1 h2 hg hr⟩

theorem readDir_triple (hA : Role p A) : podProto.Triple p A (sys (.readDir d))
    (Ends A fun us s => ∀ u ∈ us, s.Reached u d) := by
  refine sys_triple hA.stable fun s r s' hi hs _ hn => ?_
  have hsame := quiet_same (by rfl) hn
  obtain ⟨hi', hg⟩ := hsame.ok hi
  refine ⟨hi', hg, ?_⟩
  rcases r with e | us
  · exact hA.same s s' hsame hs
  · obtain ⟨hus, ⟨⟩⟩ := Option.ite_none_right_eq_some.mp hn
    exact ⟨hs, fun u hu => reached_of_mem hi (hus ▸ hu)⟩

theorem listDirs_triple (ds : List Dir) : ∀ ups : Finset UUID,
    podProto.Triple p (fun s => s.Bystander p ∧ ∀ u ∈ ups, s.Listed incl u) (listDirs incl ds ups)
      (Ends (fun s => s.Bystander p) fun us s => ∀ u ∈ us, s.Listed incl u) := by
  induction ds with
  | nil => exact fun ups => Triple.ok fun _ h => h
  | cons d ds ih =>
    intro ups
    have hups : podProto.Lasting fun s => ∀ u ∈ ups, s.Listed incl u :=
      fun q s s' h1 h2 hg h u hu => lasting_listed incl u q s s' h1 h2 hg (h u hu)
    refine Triple.ite (fun hd => ?_) fun _ => ih ups
    have hlist : podProto.Triple p (fun s => s.Bystander p ∧ ∀ u ∈ ups, s.Listed incl u)
        (listPodsFromDir d) (Ends (fun s => s.Bystander p)
          fun ps s => ∀ u ∈ ups ∪ ps, s.Listed incl u) := by
      refine Triple.bind ((readDir_triple (bystander_role p)).frame hups) fun r => ?_
      rcases r with (_ | _ | _) | ps
      · exact Triple.ok fun _ h => ⟨h.1, by simpa using h.2⟩
      · exact Triple.error fun _ h => h.1
      · exact Triple.error fun _ h => h.1
      · refine Triple.ok fun s h => ⟨h.1.1, fun u hu => ?_⟩
        rcases Finset.mem_union.mp hu with hu | hu
        · exact h.2 u hu
        · exact ⟨d, hd, h.1.2 u hu⟩
    exact Triple.attempt hlist (fun us => ih _) fun e => Triple.error fun _ h => h

theorem listPods_triple : podProto.Triple p (fun s => s.Bystander p) (listPods incl)
    (Ends (fun s => s.Bystander p) fun us s => ∀ u ∈ us, s.Listed incl u) :=
  (listDirs_triple allDirs ∅).pre fun _ h => ⟨h, by simp⟩

theorem walkPods_rule {K : UUID → World → Prop} (b : β)
    (hinit : P.Triple p A (sys .initPods) (fun _ => A))
    (hlist : P.Triple p A (listPods incl) (Ends A fun us s => ∀ u ∈ us, K u s))
    (hwalk : ∀ us b, P.Triple p (fun s => A s ∧ ∀ u ∈ us, K u s) (walkList incl f us b)
      (fun _ => A)) : P.Triple p A (walkPods incl f b) (Ends A fun _ _ => True) := by
  refine Triple.attempt (initPods_rule hinit) (fun _ => ?_) fun e => Triple.error fun _ h => h
  refine Triple.attempt (hlist.pre fun _ h => h.1) (fun us => ?_)
    fun e => Triple.error fun _ h => h
  refine Triple.bind ((hwalk (us.sort (· ≤ ·)) b).pre fun s h => ⟨h.1, fun u hu => ?_⟩)
    fun b' => Triple.ok fun _ h => ⟨h, trivial⟩
  exact h.2 u ((Finset.mem_sort _).mp hu)

theorem walkPods_triple (hf : Visits p f) (b : β) :
    podProto.Triple p (fun s => s.Bystander p) (walkPods incl f b)
      (Ends (fun s => s.Bystander p) fun _ _ => True) := by
  refine walkPods_rule b ((bystander_role p).quiet (by rfl)) listPods_triple ?_
  exact walkList_rule (lasting_listed incl) (fun u => getPod_triple.pre fun _ h => h.1)
    (fun u x s hseen => close_triple hseen.lock.1) fun b u x _ => hf b u x

theorem ifExpired_triple {n : Nat} {act : Prog podSig Unit}
    (hact : podProto.Triple p (fun s => s.Bystander p ∧ Seen p u x s) act
      (fun _ s => s.Bystander p)) :
    podProto.Triple p (fun s => s.Bystander p ∧ Seen p u x s) (ifExpired n x act)
      (fun _ s => s.Bystander p) := by
  have quiet : ∀ {o : Op}, o.quiet = true →
      podProto.Triple p (fun s => s.Bystander p ∧ Seen p u x s) (sys o)
        (fun _ s => s.Bystander p ∧ Seen p u x s) :=
    fun ho => ((bystander_role p).quiet ho).frame (lasting_seen p u x)
  unfold ifExpired
  split
  · exact Triple.ret fun _ h => h.1
  · refine Triple.bind (quiet (by rfl)) fun r => ?_
    rcases r with e | ctime
    · exact Triple.ret fun _ h => h.1
    · exact Triple.bind (quiet (by rfl)) fun now =>
        Triple.ite (fun _ => hact) fun _ => Triple.ret fun _ h => h.1

theorem dropped {x : Prog podSig (Except Err Pod)} {Q : Pod → World → Prop} {A' : World → Prop}
    (h : podProto.Triple p A' x (Ends A Q)) :
    podProto.Triple p A' (do let _ ← x) (fun _ => A) :=
  Triple.attempt h (fun _ => Triple.ret fun _ h => h.1) fun _ => Triple.ret fun _ h => h

theorem renameExited_triple : podProto.Triple p (fun s => s.Bystander p) renameExited
    (Ends (fun s => s.Bystander p) fun _ _ => True) := by
  refine walkPods_triple (fun _ u x => ?_) ()
  exact Triple.ite (fun _ => dropped xToExitedGarbage_triple) fun _ => Triple.ret fun _ h => h.1

theorem renameAborted_triple : podProto.Triple p (fun s => s.Bystander p) renameAborted
    (Ends (fun s => s.Bystander p) fun _ _ => True) := by
  refine walkPods_triple (fun _ u x => ?_) ()
  exact Triple.ite (fun _ => dropped xToGarbage_triple) fun _ => Triple.ret fun _ h => h.1

theorem renameExpired_triple (n : Nat) : podProto.Triple p (fun s => s.Bystander p)
    (renameExpired n) (Ends (fun s => s.Bystander p) fun _ _ => True) :=
  walkPods_triple (fun _ _ _ => ifExpired_triple (dropped xToGarbage_triple)) ()

theorem lockAndDelete_seen_triple :
    podProto.Triple p (fun s => s.Bystander p ∧ Seen p u x s) (lockAndDelete x)
      (fun _ s => s.Bystander p) :=
  fun s h => lockAndDelete_triple (bystander_role p) h.2.deletable s h.1

theorem emptyExitedGarbage_triple (n : Nat) : podProto.Triple p (fun s => s.Bystander p)
    (emptyExitedGarbage n) (Ends (fun s => s.Bystander p) fun _ _ => True) :=
  walkPods_triple (fun _ _ _ => ifExpired_triple lockAndDelete_seen_triple) ()

theorem emptyGarbage_triple : podProto.Triple p (fun s => s.Bystander p) emptyGarbage
    (Ends (fun s => s.Bystander p) fun _ _ => True) :=
  walkPods_triple (fun _ _ _ => lockAndDelete_seen_triple) ()

theorem runGC_triple (n m : Nat) : podProto.Triple p (fun s => s.Bystander p) (runGC n m)
    (fun _ _ => True) := by
  have stop : podProto.Triple p (fun s => s.Bystander p) (pure ()) (fun _ _ => True) :=
    Triple.ret fun _ _ => trivial
  refine Triple.attempt renameExited_triple (fun _ => Triple.pre (fun _ h => h.1) ?_)
    fun _ => stop
  refine Triple.attempt renameAborted_triple (fun _ => Triple.pre (fun _ h => h.1) ?_)
    fun _ => stop
  refine Triple.attempt (renameExpired_triple m) (fun _ => Triple.pre (fun _ h => h.1) ?_)
    fun _ => stop
  refine Triple.attempt (emptyExitedGarbage_triple n) (fun _ => Triple.pre (fun _ h => h.1) ?_)
    fun _ => stop
  exact Triple.bind emptyGarbage_triple fun _ => Triple.ret fun _ _ => trivial

theorem Seen.garbage {s : World} (h : Seen p u x s) (hrun : x.isRunning = false)
    (hprep : (x.isEmbryo || x.isPreparing) = false)
    (hunneeded : (x.isAbortedPrepare || x.isPrepared) = false) (hexited : x.isExited = false) :
    Garbage p x := by
  refine ⟨h.deletable, ?_⟩
  obtain ⟨d, fd, -, rfl | ⟨rfl, -⟩⟩ := h <;> cases d <;>
    simp [openedIn, Pod.locked, Pod.isRunning] at hrun hprep hunneeded hexited ⊢

/-- The rule for `removePod`: its three ways lead to the deletion of a pod that is garbage. -/
theorem removePod_rule (hgarbage : P.Triple p (fun s => s.Bystander p ∧ Seen p u x s) x.xToGarbage
      (Ends (fun s => s.Bystander p) fun y _ => Garbage p y))
    (hexited : P.Triple p (fun s => s.Bystander p ∧ Seen p u x s) x.xToExitedGarbage
      (Ends (fun s => s.Bystander p) fun y _ => Garbage p y))
    (hdelete : ∀ y, Garbage p y → P.Triple p (fun s => s.Bystander p) (removePod.lockDelete y)
      (fun _ s => s.Bystander p)) : P.Triple p (fun s => s.Bystander p ∧ Seen p u x s) (removePod x)
      (fun _ s => s.Bystander p) := by
  have stop : ∀ {A'}, (∀ s : World, A' s → s.Bystander p) →
      P.Triple p A' (pure false) (fun _ s => s.Bystander p) := fun h => Triple.ret h
  have last : ∀ {y : Pod}, P.Triple p (fun s => s.Bystander p ∧ Garbage p y)
      (removePod.lockDelete y) (fun _ s => s.Bystander p) := Triple.given (hdelete _)
  unfold removePod
  refine Triple.ite (fun _ => stop fun _ h => h.1) fun hrun => ?_
  refine Triple.ite (fun _ => stop fun _ h => h.1) fun hprep => ?_
  refine Triple.ite (fun _ => stop fun _ h => h.1) fun _ => ?_
  refine Triple.ite (fun _ => ?_) fun hunneeded => ?_
  · exact Triple.attempt hgarbage (fun _ => last) fun _ => stop fun _ h => h
  refine Triple.ite (fun _ => ?_) fun hex => ?_
  · exact Triple.attempt hexited (fun _ => last) fun _ => stop fun _ h => h
  · exact last.pre fun s h => ⟨h.1, h.2.garbage (by simpa using hrun) (by simpa using hprep)
      (by simpa using hunneeded) (by simpa using hex)⟩

theorem lockDelete_triple (hx : Deletable p x) :
    podProto.Triple p (fun s => s.Bystander p) (removePod.lockDelete x)
      (fun _ s => s.Bystander p) := by
  refine Triple.attempt (exclusiveLock_triple (bystander_role p) hx.1) (fun _ => ?_)
    fun _ => Triple.ret fun _ h => h
  exact Triple.bind ((deletePod_triple (bystander_role p) hx).pre fun _ h => h.1) fun _ =>
    Triple.ret fun _ h => h

theorem removePod_triple : podProto.Triple p (fun s => s.Bystander p ∧ Seen p u x s) (removePod x)
      (fun _ s => s.Bystander p) :=
  removePod_rule xToGarbage_triple xToExitedGarbage_triple fun _ hy => lockDelete_triple hy.1

theorem runRmOr_rule {failed : Prog podSig Unit}
    (hget : ∀ u, P.Triple p (fun s => s.Bystander p) (getPod u)
      (Ends (fun s => s.Bystander p) (Seen p u)))
    (hremove : ∀ u x, P.Triple p (fun s => s.Bystander p ∧ Seen p u x s) (removePod x)
      (fun _ s => s.Bystander p))
    (hfailed : P.Triple p (fun s => s.Bystander p) failed (fun _ _ => True)) (us : List UUID) :
    P.Triple p (fun s => s.Bystander p) (runRmOr failed us) (fun _ _ => True) := by
  induction us with
  | nil => exact Triple.ret fun _ _ => trivial
  | cons u us ih =>
    refine Triple.attempt (hget u) (fun x => ?_) fun e => hfailed
    exact Triple.bind (hremove u x) fun _ => ih

theorem runRm_triple (us : List UUID) : podProto.Triple p (fun s => s.Bystander p) (runRm us)
    (fun _ _ => True) := by
  rw [runRm_eq]
  refine runRmOr_rule (fun _ => getPod_triple) (fun _ _ => removePod_triple) ?_ us
  exact ((bystander_role p).quiet (o := .panic) rfl).post fun _ _ _ => trivial

end collectors

def preparingPod (l : Fd) (u : UUID) : Pod :=
  { lock := l, uuid := u, createdByMe := true, isPreparing := true }

/-- `p` has created `u` and holds its lock through `fd`. -/
def Prepares (p : Pid) (u : UUID) (fd : Fd) (s : World) : Prop :=
  s.Creates p u ∧ s.lock u = .excl fd

theorem prepares_stable (hfd : fd.pid = p) : podProto.Stable p (Prepares p u fd) :=
  (creates_role p u).stable.and (held_stable hfd)

theorem prepares_same (s s' : World) (h : Same s s') (hp : Prepares p u fd s) :
    Prepares p u fd s' :=
  ⟨(creates_role p u).same s s' h hp.1, by rw [h.lock]; exact hp.2⟩

theorem always_role (p : Pid) : Role p (fun _ => True) :=
  ⟨fun _ _ _ _ _ _ _ _ => trivial, fun _ _ _ _ _ => trivial⟩

/-- The creator locks its embryo before the rename makes it visible in `prepare`. -/
theorem xToPreparing_triple (hfd : fd.pid = p ∧ fd.uuid = u) :
    podProto.Triple p (fun s => s.Creates p u)
      (Pod.xToPreparing { lock := fd, uuid := u, createdByMe := true, isEmbryo := true })
      (Ends (fun _ => True) fun x s => x = preparingPod fd u ∧ Prepares p u fd s) := by
  have hren : podProto.Triple p (Prepares p u fd) (sys (.rename .embryo .prepare u))
      (Ends (fun _ => True) fun _ => Prepares p u fd) := by
    refine rename_triple (prepares_stable hfd.1) ?_ ?_ (fun _ _ => trivial)
    · rintro s - hp - -
      refine ⟨by decide, fun _ => ⟨hp.1.1, fd, hp.2, hfd.1⟩, by simp, by simp, by simp, by simp⟩
    · intro s _ hp _
      refine ⟨trivial, (creates_role p u).move (by decide) hp.1, ?_⟩
      rw [World.move_frame.1]
      exact hp.2
  have hsync : podProto.Triple p (Prepares p u fd) (Pod.syncThen .prepare (preparingPod fd u))
      (Ends (Prepares p u fd) fun x s => x = preparingPod fd u ∧ Prepares p u fd s) :=
    syncThen_triple (prepares_stable hfd.1) prepares_same fun _ h => ⟨rfl, h⟩
  refine Triple.attempt (exclusiveLock_triple (creates_role p u) hfd.1) (fun _ => ?_)
    fun e => Triple.error fun _ _ => trivial
  refine Triple.attempt (hren.pre fun s h => ⟨h.1, by rw [← hfd.2]; exact h.2⟩)
    (fun _ => ?_) fun e => Triple.error fun _ _ => trivial
  refine hsync.conseq (fun _ h => h.2) ?_
  rintro (e | x) s h
  · trivial
  · exact ⟨trivial, h.2⟩

theorem newPod_triple : podProto.Triple p (fun s => s.NotRunner p) newPod
    (Ends (fun _ => True) fun x s => ∃ fd u, (fd.pid = p ∧ fd.uuid = u) ∧
      x = preparingPod fd u ∧ Prepares p u fd s) := by
  have fail : ∀ {A'} {e : Err}, podProto.Triple p A' (pure (.error e))
      (Ends (fun _ => True) fun x s => ∃ fd u, (fd.pid = p ∧ fd.uuid = u) ∧
        x = preparingPod fd u ∧ Prepares p u fd s) := Triple.error fun _ _ => trivial
  refine Triple.attempt (initPods_rule ((notRunner_role p).quiet (by rfl))) (fun _ => ?_)
    fun e => fail
  refine Triple.bind ((newUUID_triple (notRunner_role p)).pre fun _ h => h.1) fun u => ?_
  refine Triple.attempt mkdir_triple (fun _ => ?_) fun e => fail
  refine Triple.attempt ((newLock_triple (creates_role p u)).pre fun _ h => h.2) (fun fd => ?_)
    fun e => ?_
  · rintro s ⟨hc, -, hfd⟩
    refine (xToPreparing_triple hfd).post ?_ s hc
    rintro (e | x) s h
    · trivial
    · exact ⟨trivial, fd, u, hfd, h.2⟩
  · exact Triple.bind (remove_triple (creates_role p u) (by decide) (by decide)) fun _ => fail

theorem stage0Prepare_triple (hfd : fd.pid = p) (useOverlay : Bool) (x : Pod) :
    podProto.Triple p (Prepares p u fd) (stage0Prepare useOverlay x)
      (fun _ => Prepares p u fd) := by
  have quiet : ∀ {o : Op}, o.quiet = true →
      podProto.Triple p (Prepares p u fd) (sys o) (fun _ => Prepares p u fd) :=
    fun ho => quiet_triple ho (prepares_stable hfd) prepares_same
  have done : ∀ b : Bool, podProto.Triple p (Prepares p u fd) (pure b)
      (fun _ => Prepares p u fd) := fun _ => Triple.ret fun _ h => h
  unfold stage0Prepare
  split
  · exact done false
  refine orStop (quiet (by rfl)) (fun _ => done false) ?_
  refine orStop (quiet (by rfl)) (fun _ => done false) ?_
  refine orStop (quiet (by rfl)) (fun _ => done false) ?_
  refine Triple.ite (fun _ => ?_) fun _ => done true
  exact orStop (quiet (by rfl)) (fun _ => done false) (done true)

/-- Who renames a pod into `run` holds its lock. Nobody did so before: the pod would not be
where it was found. -/
theorem rename_run_triple (hfd : fd.pid = p) (hd : d.rank ≤ Dir.prepared.rank) :
    podProto.Triple p (fun s => s.lock u = .excl fd) (sys (.rename d .run u))
      (Ends (fun _ => True) fun _ s => s.Unreported p u) := by
  refine rename_triple (held_stable hfd) ?_ ?_ (fun _ _ => trivial)
  · intro s _ hl halive _
    refine ⟨?_, by simp, fun _ => ⟨halive, ⟨fd, hl, hfd⟩, hd⟩, by simp, by simp, ?_⟩
    · exact Nat.lt_of_le_of_lt hd (by decide)
    · rintro rfl
      exact absurd hd (by decide)
  · intro s hi _ hm
    refine ⟨trivial, by rw [World.move_runner, if_pos ⟨rfl, rfl⟩], ?_⟩
    rw [World.move_frame.2.2.2.2.2]
    intro hran
    obtain ⟨⟨v, c⟩, hx, rfl⟩ := List.mem_map.mp hran
    exact (hi.past v c (hi.ran v c hx)).2 d hd hm

theorem xToRun_triple (hx : x.lock.pid = p ∧ x.lock.uuid = x.uuid)
    (hpath : ∃ d, x.path = some d ∧ d.rank ≤ Dir.prepared.rank) :
    podProto.Triple p (fun _ => True) x.xToRun
      (Ends (fun _ => True) fun y s => y.uuid = x.uuid ∧ s.Unreported p x.uuid) := by
  obtain ⟨d, hd, hrank⟩ := hpath
  unfold Pod.xToRun
  refine Triple.ite (fun _ => .error fun _ h => h) fun _ => ?_
  refine Triple.ite (fun _ => .error fun _ h => h) fun _ => ?_
  refine Triple.attempt (exclusiveLock_triple (always_role p) hx.1) (fun _ => ?_)
    fun e => .error fun _ h => h
  unfold Pod.renamePath
  rw [hd]
  refine Triple.attempt ((rename_run_triple hx.1 hrank).pre fun s h => ?_) (fun _ => ?_)
    fun e => .error fun _ h => h
  · rw [← hx.2]
    exact h.2
  · have hsync := syncThen_triple (d := .run) (unreported_stable p x.uuid)
      (Q := fun y s => y.uuid = x.uuid ∧ s.Unreported p x.uuid)
      (x := { x with isPreparing := false, isPrepared := false })
      (fun s s' h hu => ⟨by rw [h.runner]; exact hu.1, by rw [h.ran]; exact hu.2⟩)
      (fun _ h => ⟨rfl, h⟩)
    refine hsync.conseq (fun _ h => h.2) ?_
    rintro (e | y) s h
    · trivial
    · exact ⟨trivial, h.2⟩

theorem runPod_triple (hx : x.lock.pid = p ∧ x.lock.uuid = x.uuid)
    (hpath : ∃ d, x.path = some d ∧ d.rank ≤ Dir.prepared.rank) :
    podProto.Triple p (fun _ => True) (runPod x) (fun _ _ => True) := by
  have stop : podProto.Triple p (fun _ => True) (pure ()) (fun _ _ => True) :=
    Triple.ret fun _ h => h
  refine Triple.attempt (xToRun_triple hx hpath) (fun y => ?_) fun e => stop
  rintro s ⟨-, hy, hun⟩
  rw [← hy] at hun
  suffices h : podProto.Triple p (fun s => s.Unreported p y.uuid) _ _ from h s hun
  refine Triple.bind ran_triple fun _ => ?_
  refine orStop ((always_role p).quiet (by rfl)) (fun _ => stop) ?_
  exact Triple.bind ((always_role p).quiet (by rfl)) fun _ => stop

/-- The creator gives up the lock only after the rename out of `prepare`. -/
theorem xToPrepared_triple (hfd : fd.pid = p ∧ fd.uuid = u) :
    podProto.Triple p (Prepares p u fd) (preparingPod fd u).xToPrepared (fun _ _ => True) := by
  have hren : podProto.Triple p (Prepares p u fd) (sys (.rename .prepare .prepared u))
      (Ends (fun _ => True) fun _ s => s.NotRunner p ∧ s.Past u .prepare) := by
    refine rename_triple (prepares_stable hfd.1) ?_ ?_ (fun _ _ => trivial)
    · rintro s - - - -
      exact ⟨by decide, by simp, by simp, by simp, by simp, by simp⟩
    · intro s hi hp hm
      refine ⟨trivial, (notRunner_role p).move (by decide) hp.1.2, ?_, fun e he hm' => ?_⟩
      · rw [World.move_frame.2.2.2.2.1, hp.1.1]
        simp
      · rcases World.mem_move.mp hm' with ⟨m, n⟩ | ⟨rfl, -⟩
        · exact n ⟨hi.one u e _ m hm, rfl⟩
        · exact absurd he (by decide)
  have hun : podProto.Triple p (fun s => s.NotRunner p ∧ s.Past u .prepare) (sys (.unlock fd))
      (fun _ s => s.NotRunner p ∧ s.Past u .prepare) := by
    refine unlock_triple ((notRunner_role p).stable.and (lasting_past u .prepare).stable) hfd.1
      (fun s l h => h) (fun s h _ => ?_) (fun s h => h.1 _)
    rw [hfd.2]
    exact h.2.2 _ (Nat.le_refl _)
  refine Triple.attempt hren (fun _ => Triple.pre (fun _ h => h.2) ?_)
    fun e => Triple.ret fun _ _ => trivial
  refine Triple.bind hun fun r => ?_
  rcases r with e | _
  · exact Triple.ret fun _ _ => trivial
  · exact (syncThen_triple (always_role p).stable (always_role p).same
      (Q := fun _ _ => True) fun _ h => h).conseq (fun _ _ => trivial) fun _ _ _ => trivial

theorem withNewPod {f : Except Err Pod → Prog podSig Unit} (herr : ∀ e, f (.error e) = pure ())
    (hok : ∀ {fd u}, fd.pid = p ∧ fd.uuid = u →
      podProto.Triple p (Prepares p u fd) (f (.ok (preparingPod fd u))) fun _ _ => True) :
    podProto.Triple p (fun s => s.NotRunner p) (newPod >>= f) fun _ _ => True := by
  refine Triple.attempt newPod_triple (fun x => ?_) fun e => ?_
  · rintro s ⟨-, fd, u, hfd, rfl, hp⟩
    exact hok hfd s hp
  · rw [herr]
    exact Triple.ret fun _ _ => trivial

theorem runRun_triple (useOverlay : Bool) :
    podProto.Triple p (fun s => s.NotRunner p) (runRun useOverlay) (fun _ _ => True) := by
  have stop : ∀ {A' : World → Prop}, podProto.Triple p A' (pure ()) (fun _ _ => True) :=
    Triple.ret fun _ _ => trivial
  refine withNewPod (fun _ => rfl) fun {fd u} hfd => ?_
  refine orStop (quiet_triple (by rfl) (prepares_stable hfd.1) prepares_same)
    (fun _ => stop) ?_
  refine Triple.bind (stage0Prepare_triple hfd.1 useOverlay _) fun b => ?_
  cases b with
  | false => exact stop
  | true =>
    exact (runPod_triple hfd ⟨.prepare, rfl, by decide⟩).pre fun _ _ => trivial

theorem runPrepare_triple (useOverlay : Bool) :
    podProto.Triple p (fun s => s.NotRunner p) (runPrepare useOverlay) (fun _ _ => True) := by
  have stop : ∀ {A' : World → Prop}, podProto.Triple p A' (pure ()) (fun _ _ => True) :=
    Triple.ret fun _ _ => trivial
  refine withNewPod (fun _ => rfl) fun {fd u} hfd => ?_
  refine Triple.bind (stage0Prepare_triple hfd.1 useOverlay _) fun b => ?_
  cases b with
  | false => exact stop
  | true =>
    refine orStop (quiet_triple (by rfl) (prepares_stable hfd.1) prepares_same)
      (fun _ => stop) ?_
    exact Triple.bind (xToPrepared_triple hfd) fun _ => stop

theorem Seen.prepared (h : Seen p u x s) (hx : x.isPrepared = true) : x.path = some .prepared := by
  obtain ⟨d, fd, -, rfl | ⟨rfl, -⟩⟩ := h <;> cases d <;>
    simp [openedIn, Pod.locked, Pod.path] at hx ⊢

theorem runRunPrepared_triple (u : UUID) :
    podProto.Triple p (fun s => s.Bystander p) (runRunPrepared u) (fun _ _ => True) := by
  have stop : ∀ {A' : World → Prop}, podProto.Triple p A' (pure ()) (fun _ _ => True) :=
    Triple.ret fun _ _ => trivial
  refine orStop ((bystander_role p).quiet (by rfl)) (fun _ => stop) ?_
  refine Triple.attempt getPod_triple (fun x => ?_) fun e => stop
  rintro s ⟨-, hseen⟩
  suffices h : podProto.Triple p (fun _ => True) _ _ from h s trivial
  refine Triple.ite (fun _ => stop) fun hx => ?_
  have hpath := hseen.prepared (by simpa using hx)
  obtain ⟨hpid, huuid, rfl⟩ := hseen.lock
  refine orStop ((always_role p).quiet (by rfl)) (fun _ => stop) ?_
  exact runPod_triple ⟨hpid, huuid⟩ ⟨.prepared, hpath, Nat.le_refl _⟩

/-- **Every command keeps the protocol.** -/
theorem Command.triple (cmd : Command) :
    podProto.Triple p (fun s => s.Bystander p) cmd.prog (fun _ _ => True) := by
  cases cmd with
  | run useOverlay => exact (runRun_triple useOverlay).pre fun _ h u => (h u).2
  | prepare useOverlay => exact (runPrepare_triple useOverlay).pre fun _ h u => (h u).2
  | runPrepared u => exact runRunPrepared_triple u
  | gc n m => exact runGC_triple n m
  | rm us => exact runRm_triple us

theorem start_ok (cmds : Pid → Command) : podProto.Ok (start cmds) :=
  ⟨inv_empty, fun p => (cmds p).triple _ fun _ => ⟨by simp [start, World.empty],
    by simp [start, World.empty]⟩⟩

/-- **A pod is collected only after the processes behind it are dead.** Whatever the commands
of the processes, in whatever order they take their steps and wherever they die: a step that
moves a pod to a garbage directory, or removes it, finds the process that ran it dead, and also
the one that created it if it is still in `prepare`. -/
theorem collects_only_after_death (cmds : Pid → Command) {c c' : Config podSig World}
    (hr : Reach podMachine (start cmds) c) (hs : Step podMachine c c') (u : UUID)
    (hu : Collects c.shared c'.shared u) :
    (∀ p, (u, p) ∈ c.shared.ran → p ∈ c.shared.dead) ∧ c.shared.RunnerGone u ∧
      (u ∈ c.shared.dirs .prepare → c.shared.CreatorGone u) := by
  have hok := (start_ok cmds).reach hr
  obtain ⟨⟨q, hg⟩, -⟩ := hok.step hs
  obtain ⟨hgone, hcreator⟩ := Guar.collects hg u hu
  exact ⟨fun p hp => hgone p (Inv.ran hok.1 u p hp), hgone, hcreator⟩

/-- The first moves of a process 0 that runs `rkt run`: pod 5 is created and is in `prepare`. -/
def creation : List (Move podSig) :=
  [.run 0 .initPods (.ok ()), .run 0 .newUUID (5 : Nat), .run 0 (.mkdir .embryo 5) (.ok ()),
    .run 0 (.newLock .embryo 5) (.ok ⟨0, 0, 5⟩), .run 0 (.exclusiveLock ⟨0, 0, 5⟩) (.ok ()),
    .run 0 (.rename .embryo .prepare 5) (.ok ()), .run 0 (.syncDir .prepare) (.ok ())]

/-- Process 0 runs `rkt run`, the others `rkt rm` of pod 5. -/
def runAndRm : Pid → Command := fun p => if p = 0 then .run false else .rm [5]

/-- The creator dies while the pod is in `prepare`; `rkt rm` looks at the pod and collects
it. -/
theorem collects_aborted_prepare : ∃ c c', Reach podMachine (start runAndRm) c ∧
    Step podMachine c c' ∧ Collects c.shared c'.shared 5 ∧ c.shared.CreatorGone 5 := by
  obtain ⟨c, c', hr, hs, h⟩ := observe_step (M := podMachine) (c := start runAndRm)
    (creation ++ [.die 0, .run 1 .initPods (.ok ()),
      .run 1 (.newLock .embryo 5) (.error .noent), .run 1 (.newLock .prepare 5) (.ok ⟨1, 1, 5⟩),
      .run 1 (.trySharedLock ⟨1, 1, 5⟩) (.ok ()), .run 1 (.unlock ⟨1, 1, 5⟩) (.ok ())])
    (.run 1 (.rename .prepare .garbage 5) (.ok ()))
    (fun c c' => decide (5 ∈ c.shared.dirs .prepare ∧ 5 ∉ c.shared.dirs .garbage ∧
      5 ∈ c'.shared.dirs .garbage)) (by decide +kernel)
  obtain ⟨hprep, hout, hin⟩ := of_decide_eq_true h
  have hcoll : Collects c.shared c'.shared 5 := .inl ⟨.garbage, .inr rfl, hout, hin⟩
  exact ⟨c, c', hr, hs, hcoll, (collects_only_after_death runAndRm hr hs 5 hcoll).2.2 hprep⟩

/-- **A pod is in one place, and runs once, under its lock.** In every reachable state the pod
is in at most one directory and `xToRun` has returned without an error at most once for it. The
process whose rename brings it into `run` holds the exclusive lock before the rename and, in
every later state, for as long as it lives; and it is the only one for which `xToRun` ever
returns. -/
theorem runs_once_under_lock (cmds : Pid → Command) {c : Config podSig World}
    (hr : Reach podMachine (start cmds) c) (u : UUID) :
    (∀ d d', u ∈ c.shared.dirs d → u ∈ c.shared.dirs d' → d = d') ∧
    (c.shared.ran.map Prod.fst).count u ≤ 1 ∧
    (∀ p, (u, p) ∈ c.shared.ran → p ∉ c.shared.dead → c.shared.Holds p u) ∧
    (∀ c', Step podMachine c c' → u ∉ c.shared.dirs .run → u ∈ c'.shared.dirs .run →
      ∃ p, p ∉ c.shared.dead ∧ c.shared.Holds p u ∧ ∀ c'', Reach podMachine c' c'' →
        (∀ q, (u, q) ∈ c''.shared.ran → q = p) ∧
        (p ∉ c''.shared.dead → c''.shared.Holds p u)) := by
  have hok := (start_ok cmds).reach hr
  have hi : Inv c.shared := hok.1
  refine ⟨hi.one u, List.nodup_iff_count_le_one.mp hi.ranOnce u,
    fun p hp hd => (hi.running u p (hi.ran u p hp) hd).2, fun c' hs hm hm' => ?_⟩
  obtain ⟨⟨p, hg⟩, hok'⟩ := hok.step hs
  obtain ⟨hnone, hsome⟩ := Guar.enters hg u hm hm'
  obtain ⟨-, -, halive, hholds⟩ := Guar.entered hg u p hnone hsome
  refine ⟨p, halive, hholds, fun c'' hr'' => ?_⟩
  have hi'' : Inv c''.shared := (hok'.reach hr'').1
  have hrunner : c''.shared.runner u = some p :=
    hok'.lasting hr'' (A := fun s => s.runner u = some p)
      (fun q s s' _ _ hg h => Guar.runner hg u p h) hsome
  refine ⟨fun q hq => ?_, fun hd => (hi''.running u p hrunner hd).2⟩
  have hq' := hi''.ran u q hq
  rw [hrunner] at hq'
  cases hq'
  rfl

/-- The step of `rkt run` that brings the pod into `run`: a live process holds the lock. -/
theorem runs_once_from_prepare : ∃ c c', Reach podMachine (start runAndRm) c ∧
    Step podMachine c c' ∧ 5 ∉ c.shared.dirs .run ∧ 5 ∈ c'.shared.dirs .run ∧
    ∃ p, p ∉ c.shared.dead ∧ c.shared.Holds p 5 := by
  obtain ⟨c, c', hr, hs, h⟩ := observe_step (M := podMachine) (c := start runAndRm)
    (creation ++ [.run 0 .aside (.ok ()), .run 0 .aside (.ok ()),
      .run 0 (.writeFile .prepare 5 .pod) (.ok ()),
      .run 0 (.writeFile .prepare 5 .stage1ID) (.ok ()),
      .run 0 (.exclusiveLock ⟨0, 0, 5⟩) (.ok ())])
    (.run 0 (.rename .prepare .run 5) (.ok ()))
    (fun c c' => decide (5 ∉ c.shared.dirs .run ∧ 5 ∈ c'.shared.dirs .run))
    (by decide +kernel)
  obtain ⟨hout, hin⟩ := of_decide_eq_true h
  obtain ⟨p, halive, hholds, -⟩ := (runs_once_under_lock runAndRm hr 5).2.2.2 c' hs hout hin
  exact ⟨c, c', hr, hs, hout, hin, p, halive, hholds⟩

/-- **A pod only moves forward, and does not come back.** Whatever the commands and the order of
their steps: where a pod is seen later is no place before the one where it was seen first; and
when it has disappeared, it never shows up again. -/
theorem pod_moves_forward (cmds : Pid → Command) {c c' c'' : Config podSig World}
    (hr : Reach podMachine (start cmds) c) (hr' : Reach podMachine c c')
    (hr'' : Reach podMachine c' c'') {u : UUID} {d : Dir} (hd : u ∈ c.shared.dirs d) :
    (∀ d', u ∈ c'.shared.dirs d' → d.rank ≤ d'.rank) ∧
    ((∀ d', u ∉ c'.shared.dirs d') → ∀ d', u ∉ c''.shared.dirs d') := by
  have hok := (start_ok cmds).reach hr
  have hreached : c'.shared.Reached u d :=
    hok.lasting hr' (lasting_reached u d) (reached_of_mem hok.1 hd)
  refine ⟨fun d' hd' => ?_, fun hgone d' hd' => ?_⟩
  · by_contra hlt
    exact hreached.2 d' (Nat.not_le.mp hlt) hd'
  · have hpast : c'.shared.Past u d' := ⟨hreached.1, fun e _ => hgone e⟩
    exact ((hok.reach hr').lasting hr'' (lasting_past u d') hpast).2 d' (Nat.le_refl _) hd'

theorem pod_moves_forward_created : ∃ c c', Reach podMachine (start runAndRm) c ∧
    Reach podMachine c c' ∧ 5 ∈ c.shared.dirs .embryo ∧ 5 ∈ c'.shared.dirs .prepare ∧
    Dir.embryo.rank ≤ Dir.prepare.rank := by
  obtain ⟨c, c', hr, hs, h⟩ := observe_step (M := podMachine) (c := start runAndRm)
    (creation.take 5) (.run 0 (.rename .embryo .prepare 5) (.ok ()))
    (fun c c' => decide (5 ∈ c.shared.dirs .embryo ∧ 5 ∈ c'.shared.dirs .prepare))
    (by decide +kernel)
  obtain ⟨hfirst, hthen⟩ := of_decide_eq_true h
  exact ⟨c, c', hr, .single hs, hfirst, hthen,
    (pod_moves_forward runAndRm hr (.single hs) .refl hfirst).1 _ hthen⟩

end Rkt.Pods
