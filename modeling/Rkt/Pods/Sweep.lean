import Rkt.Pods.Alone
import Rkt.Pods.Lifecycle

set_option autoImplicit false

namespace Rkt.Pods

open Conc

/-- `deletePod` can do its work for an exited pod with these files. -/
def Cleanable (fs : Finset PodFile) : Prop :=
  .stage1ID ∈ fs ∧ (.overlayPrepared ∈ fs → .pod ∈ fs)

instance (fs : Finset PodFile) : Decidable (Cleanable fs) := inferInstanceAs (Decidable (_ ∧ _))

def afterDelete (fs : Finset PodFile) : PodView :=
  if Cleanable fs then .gone else .only .exitedGarbage fs

section treatment

variable {t : Nat} {p : Pid} {fd : Fd} {d d' : Dir} {fs : Finset PodFile}
  {L : UUID → Flock Fd} {V : UUID → PodView}

theorem removeAllPath_sure (hV : V fd.uuid = .only d fs) :
    Alone t p (Mine p fd L V) (found d fd).removeAllPath
      (fun _ => Mine p fd L (Function.update V fd.uuid .gone)) := by
  unfold Pod.removeAllPath removeAll
  rw [found_path, found_uuid]
  refine Total.bind (Q := fun _ => Mine p fd L (Function.update V fd.uuid .gone)) ?_
    fun _ => Total.ret fun _ h => h
  refine Total.bind (removeFiles_sure hV) fun r => ?_
  rintro s ⟨rfl, h⟩
  refine (removeDir_sure (by rw [Function.update_self])).conseq (fun _ h => h) ?_ s h
  rintro r s ⟨-, h⟩
  rwa [Function.update_idem] at h

theorem cleanExited_sure (hV : V fd.uuid = .only d fs) :
    Alone t p (Mine p fd L V) (cleanExited (found d fd))
      (fun b s => (b = true ↔ Cleanable fs) ∧ Mine p fd L V s) := by
  have hopen : ∀ {f : PodFile}, Alone t p (Mine p fd L V) (sys (.openFile fd f))
      (fun r s => (r = .ok () ∧ f ∈ fs ∨ r = .error .noent ∧ f ∉ fs) ∧ Mine p fd L V s) :=
    openFile_sure (fun _ h => h.alive) fun s h => World.files_of_view (by rw [h.view, hV])
  unfold cleanExited
  rw [found_lock]
  refine Total.bind (aside_sure fun _ h => h.alive) fun r => ?_
  rintro s ⟨rfl, h⟩
  refine Total.bind hopen (fun r => ?_) s h
  rintro s ⟨⟨rfl, hstage1⟩ | ⟨rfl, hstage1⟩, h⟩
  swap
  · exact ⟨by simp [Cleanable, hstage1], h⟩
  refine Total.bind (aside_sure fun _ h => h.alive) (fun r => ?_) s h
  rintro s ⟨rfl, h⟩
  refine Total.bind hopen (fun r => ?_) s h
  rintro s ⟨⟨rfl, hoverlay⟩ | ⟨rfl, hoverlay⟩, h⟩
  swap
  · exact ⟨by simp [Cleanable, hstage1, hoverlay], h⟩
  refine Total.bind hopen (fun r => ?_) s h
  rintro s ⟨⟨rfl, hpod⟩ | ⟨rfl, hpod⟩, h⟩
  swap
  · exact ⟨by simp [Cleanable, hoverlay, hpod], h⟩
  refine Total.bind (aside_sure fun _ h => h.alive) (fun r => ?_) s h
  rintro s ⟨rfl, h⟩
  exact ⟨by simp [Cleanable, hstage1, hpod], h⟩

theorem deletePod_garbage (hV : V fd.uuid = .only .garbage fs) :
    Alone t p (Mine p fd L V) (deletePod (found .garbage fd))
      (fun _ => Mine p fd L (Function.update V fd.uuid .gone)) :=
  removeAllPath_sure hV

theorem deletePod_exited (hV : V fd.uuid = .only .exitedGarbage fs) :
    Alone t p (Mine p fd L V) (deletePod (found .exitedGarbage fd))
      (fun _ => Mine p fd L (Function.update V fd.uuid (afterDelete fs))) := by
  refine Total.bind (cleanExited_sure hV) fun b => ?_
  rintro s ⟨hb, h⟩
  by_cases hdel : Cleanable fs
  · rw [hb.mpr hdel, afterDelete, if_pos hdel]
    exact removeAllPath_sure hV s h
  · have hfalse : b = false := by simpa [hdel] using hb
    subst hfalse
    rw [afterDelete, if_neg hdel, ← hV, Function.update_eq_self]
    exact h

theorem lockAndDelete_sure {v : PodView} (hL : L fd.uuid = .free)
    (hdelete : Alone t p (Mine p fd L V) (deletePod (found d fd))
      (fun _ => Mine p fd L (Function.update V fd.uuid v))) :
    Alone t p (Still p L V) (lockAndDelete (found d fd))
      (fun _ => Mine p fd L (Function.update V fd.uuid v)) := by
  unfold lockAndDelete
  rw [found_lock]
  refine Total.bind (exclusiveLock_sure hL) fun r => ?_
  rintro s ⟨rfl, h⟩
  exact hdelete s h

theorem ifExpired_sure {act : Prog podSig Unit} {Q : Unit → World → Prop}
    (hV : V fd.uuid = .only d fs) (hact : Alone t p (Still p L V) act Q) :
    Alone t p (Still p L V) (ifExpired 0 (found d fd) act) Q := by
  unfold ifExpired
  rw [found_path, found_uuid]
  refine Total.bind (lstat_sure hV) fun r => ?_
  rintro s ⟨⟨ctime, rfl, hle⟩, h⟩
  refine Total.bind now_sure (fun (now : Nat) => ?_) s h
  rintro s ⟨hlt, h⟩
  have hexpired : ctime + 0 < now := by omega
  simp only [hexpired, if_true]
  exact hact s h

theorem moved_sure {x : Pod} {k : Except Errno Unit → Prog podSig (Except Err Pod)}
    (hk : k (.ok ()) = Pod.syncThen d' x) (hV : V fd.uuid = .only d fs) (hne : d' ≠ d) :
    Alone t p (Still p L V) (sys (.rename d d' fd.uuid) >>= k)
      (fun r s => r = .ok x ∧ Still p L (Function.update V fd.uuid (.only d' fs)) s) := by
  refine Total.bind (rename_sure hV hne) fun r => ?_
  rintro s ⟨rfl, h⟩
  rw [hk]
  refine Total.bind (syncDir_sure fun _ h => h.alive) (fun r => ?_) s h
  rintro s ⟨rfl, h⟩
  exact ⟨rfl, h⟩

theorem xToExitedGarbage_sure (hV : V fd.uuid = .only .run fs) :
    Alone t p (Still p L V) (found .run fd).xToExitedGarbage
      (fun r s => r = .ok (found .exitedGarbage fd) ∧
        Still p L (Function.update V fd.uuid (.only .exitedGarbage fs)) s) := by
  have hne : Dir.exitedGarbage ≠ .run := by decide
  exact moved_sure rfl hV hne

theorem xToGarbage_sure (hd : d = .prepare ∨ d = .prepared) (hV : V fd.uuid = .only d fs) :
    Alone t p (Still p L V) (found d fd).xToGarbage (fun r s => r = .ok (found .garbage fd) ∧
        Still p L (Function.update V fd.uuid (.only .garbage fs)) s) := by
  have hne : Dir.garbage ≠ d := by rcases hd with rfl | rfl <;> decide
  rcases hd with rfl | rfl
  · exact moved_sure rfl hV hne
  · exact moved_sure rfl hV hne

end treatment

open Classical in
noncomputable def PodView.treat (d : Dir) (T : Finset PodFile → PodView) (v : PodView) : PodView :=
  if d ∈ v.dirs then T v.files else v

noncomputable def sweep (d : Dir) (T : Finset PodFile → PodView) (V : UUID → PodView)
    (u : UUID) : PodView :=
  (V u).treat d T

theorem afterDelete_single (fs : Finset PodFile) : (afterDelete fs).Single := by
  unfold afterDelete
  split
  · exact gone_single
  · exact only_single _ _

def noLock : UUID → Flock Fd := fun _ => .free

section pass

variable {t : Nat} {p : Pid} {d : Dir} {V : UUID → PodView} {incl : IncludeMask}
  {f : Unit → Pod → Prog podSig Unit} {T : Finset PodFile → PodView}

theorem sweep_single (hV : ∀ u, (V u).Single) (hT : ∀ fs, (T fs).Single) (u : UUID) :
    (sweep d T V u).Single := by
  unfold sweep PodView.treat
  split
  · exact hT _
  · exact hV u

theorem readDir_sure {L : UUID → Flock Fd} : Alone t p (Still p L V) (sys (.readDir d))
    (fun r s => (∃ us, r = .ok us ∧ ∀ u, u ∈ us ↔ d ∈ (V u).dirs) ∧ Still p L V s) := by
  refine sure_call (fun _ h => h.alive) (fun s _ => ?_) fun s r s' h hr hn => ?_
  · exact ⟨.ok (s.dirs d), s, rfl, if_pos rfl⟩
  · rcases r with e | us
    · cases hr
    · obtain ⟨hus, ⟨⟩⟩ := Option.ite_none_right_eq_some.mp hn
      refine ⟨⟨us, rfl, fun u => ?_⟩, h⟩
      rw [hus, ← h.view]
      rfl

theorem listDirs_sure {L : UUID → Flock Fd} (ds : List Dir) : ∀ ups : Finset UUID,
    Alone t p (Still p L V) (listDirs incl ds ups) (fun r s => (∃ us, r = .ok us ∧
        ∀ u, u ∈ us ↔ u ∈ ups ∨ ∃ e ∈ ds, incl e = true ∧ e ∈ (V u).dirs) ∧ Still p L V s) := by
  induction ds with
  | nil => exact fun ups => Total.ret fun s h => ⟨⟨ups, rfl, by simp⟩, h⟩
  | cons d ds ih =>
    intro ups
    refine Total.ite (fun hd => ?_) fun hd => ?_
    · have hread : Alone t p (Still p L V) (listPodsFromDir d)
          (fun r s => (∃ us, r = .ok us ∧ ∀ u, u ∈ us ↔ d ∈ (V u).dirs) ∧ Still p L V s) := by
        refine Total.bind readDir_sure fun r => ?_
        rintro s ⟨⟨us, rfl, hus⟩, h⟩
        exact ⟨⟨us, rfl, hus⟩, h⟩
      refine Total.bind hread fun r => ?_
      rintro s ⟨⟨ps, rfl, hps⟩, h⟩
      refine (ih (ups ∪ ps)).conseq (fun _ h => h) ?_ s h
      rintro r s ⟨⟨us, rfl, hus⟩, h⟩
      refine ⟨⟨us, rfl, fun u => ?_⟩, h⟩
      rw [hus, Finset.mem_union, hps]
      simp [hd, or_assoc]
    · refine (ih ups).conseq (fun _ h => h) ?_
      rintro r s ⟨⟨us, rfl, hus⟩, h⟩
      refine ⟨⟨us, rfl, fun u => ?_⟩, h⟩
      rw [hus]
      simp [hd]

theorem omits_found {fd : Fd} (hd : incl d = true) : omits incl (found d fd) = false := by
  cases d <;> simp [omits, found, openedIn, hd, Pod.isRunning]

theorem walkList_sure (hd : incl d = true)
    (hf : ∀ V (fd : Fd) fs, fd.pid = p → V fd.uuid = .only d fs →
      Alone t p (Still p noLock V) (f () (found d fd))
        (fun _ => Mine p fd noLock (Function.update V fd.uuid (T fs)))) (us : List UUID) :
    ∀ V, us.Nodup → (∀ u ∈ us, V u = .only d (V u).files) →
      Alone t p (Still p noLock V) (walkList incl f us ())
        (fun _ => Still p noLock (fun u => if u ∈ us then T (V u).files else V u)) := by
  induction us with
  | nil => exact fun V _ _ => Total.ret fun s h => by simpa using h
  | cons u us ih =>
    intro V hnodup hV
    have hu : V u = .only d (V u).files := hV u List.mem_cons_self
    refine Total.bind (getPod_sure hu free_foreign) fun r => ?_
    rintro s ⟨⟨fd, rfl, hpid, hfd⟩, h⟩
    subst hfd
    simp only [noLock, looked_free, omits_found hd, Bool.false_eq_true, if_false]
    refine Total.bind (hf V fd _ hpid hu) (fun _ => ?_) s h
    rw [found_lock]
    refine Total.bind close_sure fun _ => ?_
    obtain ⟨hnot, hnodup⟩ := List.nodup_cons.mp hnodup
    -- the rest of the list does not see what was done to this pod
    have hrest : ∀ v, v ∈ us → Function.update V fd.uuid (T (V fd.uuid).files) v = V v :=
      fun v hv => Function.update_of_ne (ne_of_mem_of_not_mem hv hnot) _ _
    refine (ih _ hnodup fun v hv => ?_).conseq (fun _ h => h) fun _ s h => ?_
    · rw [hrest v hv]
      exact hV v (List.mem_cons_of_mem _ hv)
    · convert h using 2 with v
      by_cases hv : v ∈ us
      · simp [hv, hrest v hv]
      · by_cases heq : v = fd.uuid
        · subst heq
          simp [hv]
        · simp [hv, heq]

/-- **What a pass does.** -/
theorem walkPods_sure (hincl : ∀ e, incl e = true ↔ e = d) (hV : ∀ u, (V u).Single)
    (hf : ∀ V (fd : Fd) fs, fd.pid = p → V fd.uuid = .only d fs →
      Alone t p (Still p noLock V) (f () (found d fd))
        (fun _ => Mine p fd noLock (Function.update V fd.uuid (T fs)))) :
    Alone t p (Still p noLock V) (walkPods incl f ())
      (fun r s => r = .ok () ∧ Still p noLock (sweep d T V) s) := by
  refine Total.bind (runInit_sure fun _ h => h.alive) fun r => ?_
  rintro s ⟨rfl, h⟩
  refine Total.bind (listDirs_sure allDirs ∅) (fun r => ?_) s h
  rintro s ⟨⟨us, rfl, hus⟩, h⟩
  have hmem : ∀ u, u ∈ us.sort (· ≤ ·) ↔ d ∈ (V u).dirs := by
    intro u
    have hall : d ∈ allDirs := by cases d <;> decide
    rw [Finset.mem_sort, hus]
    simp [hincl, hall]
  refine Total.bind (walkList_sure ((hincl d).mpr rfl) hf (us.sort (· ≤ ·)) V
    (us.sort_nodup (· ≤ ·)) fun u hu => hV u d ((hmem u).mp hu)) (fun _ => ?_) s h
  refine Total.ret fun s h => ⟨rfl, ?_⟩
  have hsweep : sweep d T V =
      fun u => if u ∈ us.sort (· ≤ ·) then T (V u).files else V u := by
    funext u
    by_cases hu : d ∈ (V u).dirs
    · rw [sweep, PodView.treat, if_pos hu, if_pos ((hmem u).mpr hu)]
    · rw [sweep, PodView.treat, if_neg hu, if_neg (fun h => hu ((hmem u).mp h))]
  rw [hsweep]
  exact h

end pass

noncomputable def afterGC (V : UUID → PodView) : UUID → PodView :=
  sweep .garbage (fun _ => .gone) (sweep .exitedGarbage afterDelete
    (sweep .prepared (.only .garbage) (sweep .prepare (.only .garbage)
      (sweep .run (.only .exitedGarbage) V))))

theorem runGC_sure {t : Nat} {p : Pid} {V : UUID → PodView} (hV : ∀ u, (V u).Single) :
    Alone t p (Still p noLock V) (runGC 0 0) (fun _ => Still p noLock (afterGC V)) := by
  have h1 := sweep_single (d := .run) hV (only_single .exitedGarbage)
  have h2 := sweep_single (d := .prepare) h1 (only_single .garbage)
  have h3 := sweep_single (d := .prepared) h2 (only_single .garbage)
  have h4 := sweep_single (d := .exitedGarbage) h3 afterDelete_single
  have dropped : ∀ {α : Type} {A B : World → Prop} {x : Prog podSig α},
      Alone t p A x (fun _ => B) → Alone t p A (do let _ ← x) (fun _ => B) :=
    fun hx => Total.bind hx fun _ => Total.ret fun _ h => h
  -- a description that holds nothing may as well be closed
  have held : ∀ {α : Type} {V V' : UUID → PodView} {fd : Fd} {x : Prog podSig α} {a : α},
      fd.pid = p → Alone t p (Still p noLock V) x (fun r s => r = a ∧ Still p noLock V' s) →
      Alone t p (Still p noLock V) x (fun _ => Mine p fd noLock V') :=
    fun hpid hx => hx.conseq (fun _ h => h) fun _ _ h => h.2.mine free_foreign hpid
  refine Total.bind (walkPods_sure (d := .run) (fun e => by simp [includeRunDir]) hV
    fun V fd fs hpid hfd => dropped (held hpid (xToExitedGarbage_sure hfd))) fun r => ?_
  rintro s ⟨rfl, h⟩
  refine Total.bind (walkPods_sure (d := .prepare) (fun e => by simp [includePrepareDir]) h1
    fun V fd fs hpid hfd => dropped (held hpid (xToGarbage_sure (.inl rfl) hfd))) (fun r => ?_) s h
  rintro s ⟨rfl, h⟩
  refine Total.bind (walkPods_sure (d := .prepared) (fun e => by simp [includePreparedDir]) h2
    fun V fd fs hpid hfd => ifExpired_sure hfd
      (dropped (held hpid (xToGarbage_sure (.inr rfl) hfd))))
    (fun r => ?_) s h
  rintro s ⟨rfl, h⟩
  refine Total.bind (walkPods_sure (d := .exitedGarbage)
    (fun e => by simp [includeExitedGarbageDir]) h3
    fun V fd fs _ hfd => ifExpired_sure hfd (lockAndDelete_sure rfl (deletePod_exited hfd)))
    (fun r => ?_) s h
  rintro s ⟨rfl, h⟩
  refine dropped ((walkPods_sure (d := .garbage) (fun e => by simp [includeGarbageDir]) h4
    fun V fd fs _ hfd => lockAndDelete_sure rfl (deletePod_garbage hfd)).conseq (fun _ h => h)
    fun _ _ h => h.2) s h

theorem treat_only {d e : Dir} {T : Finset PodFile → PodView} {fs : Finset PodFile} :
    (PodView.only d fs).treat e T = if e = d then T fs else .only d fs := by
  have hmem : e ∈ (PodView.only d fs).dirs ↔ e = d := Iff.rfl
  by_cases he : e = d
  · rw [PodView.treat, if_pos (hmem.mpr he), if_pos he]
    rfl
  · rw [PodView.treat, if_neg (fun hin => he (hmem.mp hin)), if_neg he]

theorem treat_of_empty {v : PodView} {e : Dir} {T : Finset PodFile → PodView} (h : v.dirs = ∅) :
    v.treat e T = v := by
  rw [PodView.treat, if_neg (by simp [h])]

/-- A pod is left exactly if no pass looks for it, or the one that does gives up. -/
theorem afterGC_dirs {V : UUID → PodView} {u : UUID} (hV : (V u).Single) :
    (afterGC V u).dirs = ∅ ↔ .embryo ∉ (V u).dirs ∧
      (.run ∈ (V u).dirs ∨ .exitedGarbage ∈ (V u).dirs → Cleanable (V u).files) := by
  by_cases hnone : (V u).dirs = ∅
  · simp [afterGC, sweep, hnone, treat_of_empty hnone]
  · obtain ⟨d, hd⟩ := Set.nonempty_iff_ne_empty.mpr hnone
    have hu := hV d hd
    generalize (V u).files = fs at hu
    have hlast : ((afterDelete fs).treat .garbage fun _ => .gone).dirs = ∅ ↔ Cleanable fs := by
      by_cases hc : Cleanable fs
      · rw [afterDelete, if_pos hc, treat_of_empty rfl]
        exact iff_of_true rfl hc
      · rw [afterDelete, if_neg hc, treat_only, if_neg (by decide)]
        exact iff_of_false (Set.singleton_ne_empty _) hc
    cases d with
    | embryo => simp [afterGC, sweep, hu, treat_only]
    | run | exitedGarbage => simp [afterGC, sweep, hu, treat_only, hlast]
    | prepare | prepared | garbage => simp [afterGC, sweep, hu, treat_only]

section system

variable {cmds : Pid → Command} {c : Config podSig World} {p : Pid}

theorem view_single (hr : Reach podMachine (start cmds) c) (u : UUID) :
    (c.shared.view u).Single := by
  have hi : Inv c.shared := ((start_ok cmds).reach hr).1
  intro d hd
  ext e
  · exact ⟨fun he => hi.one u e d he hd, fun he => he ▸ hd⟩
  · rfl

theorem runGC_ensures (hr : Reach podMachine (start cmds) c) (hp : p ∉ c.shared.dead)
    (hfree : ∀ u, c.shared.lock u = Flock.free) (t : Nat) :
    Ensures (sureMachine t) nobody p (runGC 0 0) (fun _ => Still p noLock (afterGC c.shared.view))
      c.shared :=
  runGC_sure (view_single hr) _ ⟨hp, rfl, funext hfree⟩

/-- **What `rkt gc` leaves.** In a pods directory reached by any commands, any of which may have
died at any point, let nobody hold a lock, and let process `p` run `rkt gc` with both periods
zero. As long as everything succeeds it is never stuck, and at its end no pod is left in any of
the six directories exactly if at its beginning there was no pod in `embryo`, and the pods in
`run` and `exited-garbage` had the files that `deletePod` asks for. -/
theorem gc_leaves_nothing_iff (hr : Reach podMachine (start cmds) c) (hp : p ∉ c.shared.dead)
    (hfree : ∀ u, c.shared.lock u = Flock.free) (t : Nat) {s' : World} {y : Prog podSig Unit}
    (hgc : Relation.ReflTransGen (Turn (sureMachine t) nobody p) (c.shared, runGC 0 0) (s', y)) :
    Runnable (sureMachine t) p s' y ∨ y = .ret () ∧ ((∀ d, s'.dirs d = ∅) ↔
      c.shared.dirs .embryo = ∅ ∧ ∀ u, u ∈ c.shared.dirs .run ∨ u ∈ c.shared.dirs .exitedGarbage →
        Cleanable (c.shared.files u)) := by
  rcases (runGC_ensures hr hp hfree t).sound_alone hgc with hgo | ⟨⟨⟩, rfl, hend⟩
  · exact .inl hgo
  · refine .inr ⟨rfl, ?_⟩
    have hleft : (∀ d, s'.dirs d = ∅) ↔ ∀ u, (afterGC c.shared.view u).dirs = ∅ := by
      rw [← hend.view]
      constructor
      · intro h u
        ext d
        simp [World.view, h d]
      · intro h d
        ext u
        have hd : d ∈ (s'.view u).dirs ↔ d ∈ (∅ : Set Dir) := by rw [h u]
        simpa [World.view] using hd
    rw [hleft]
    simp only [afterGC_dirs (view_single hr _), forall_and]
    refine and_congr ?_ Iff.rfl
    exact Finset.eq_empty_iff_forall_notMem.symm

end system

/-- Process 0 runs `rkt run`, the others `rkt gc` with both periods zero. -/
def runThenGC : Pid → Command := fun p => if p = 0 then .run false else .gc 0 0

/-- Process 0 makes the first moves of `rkt run` and dies. -/
def diesAfter (n : Nat) : Option (Config podSig World) :=
  play podMachine (start runThenGC) (creation.take n ++ [.die 0])

/-- The creator of pod 5 dies while the pod is in `prepare`; one `rkt gc` later nothing is
left. -/
theorem gc_leaves_nothing_prepare : ∃ c s', diesAfter 7 = some c ∧ 5 ∈ c.shared.dirs .prepare ∧
    Relation.ReflTransGen (Turn (sureMachine 0) nobody 1) (c.shared, runGC 0 0) (s', .ret ()) ∧
    ∀ d, s'.dirs d = ∅ := by
  obtain ⟨c, hc, hfacts⟩ : ∃ c, diesAfter 7 = some c ∧ 5 ∈ c.shared.dirs .prepare ∧
      1 ∉ c.shared.dead ∧ c.shared.dirs .embryo = ∅ ∧ c.shared.dirs .run = ∅ ∧
      c.shared.dirs .exitedGarbage = ∅ ∧ ∀ u, c.shared.lock u = Flock.free := by
    refine ⟨_, rfl, by decide, by decide, by decide, by decide, by decide, fun u => ?_⟩
    by_cases hu : u = 5
    · subst hu
      rfl
    · show (Function.update World.empty.lock 5 (.excl ⟨0, 0, 5⟩) u).release _ = Flock.free
      rw [Function.update_of_ne hu]
      rfl
  obtain ⟨hprep, hp, hembryo, hrun, hexited, hfree⟩ := hfacts
  obtain ⟨⟨⟩, s', hgc, -⟩ := (runGC_ensures (play_reach hc) hp hfree 0).finishes
  rcases gc_leaves_nothing_iff (play_reach hc) hp hfree 0 hgc with hgo | ⟨-, hiff⟩
  · exact hgo.elim
  · exact ⟨c, s', hc, hprep, hgc, hiff.mpr ⟨hembryo, by simp [hrun, hexited]⟩⟩

/-- **`rkt gc` leaves an embryo.** The creator of pod 5 dies right after it has made the
directory. No other process has started, no lock is held and everything succeeds; the directory
stays in `embryo`. -/
theorem gc_leaves_embryo : ∃ c s', Reach podMachine (start runThenGC) c ∧
    (∀ p, p ∈ c.shared.dead ∨ c.procs p = runGC 0 0) ∧
    (∀ u, c.shared.lock u = Flock.free) ∧
    Relation.ReflTransGen (Turn (sureMachine 0) nobody 1) (c.shared, runGC 0 0) (s', .ret ()) ∧
    5 ∈ s'.dirs .embryo := by
  obtain ⟨c, hc, hfacts⟩ : ∃ c, diesAfter 3 = some c ∧ c.shared.view 5 = .only .embryo ∅ ∧
      1 ∉ c.shared.dead ∧ (∀ p, p ∈ c.shared.dead ∨ c.procs p = runGC 0 0) ∧
      ∀ u, c.shared.lock u = Flock.free := by
    refine ⟨_, rfl, ?_, by decide, fun p => ?_, fun u => rfl⟩
    · ext e
      · show 5 ∈ World.dirs _ e ↔ e = .embryo
        cases e <;> decide
      · rfl
    · by_cases hp : p = 0
      · subst hp
        exact .inl (by decide)
      · refine .inr ?_
        rw [Config.set_procs_ne _ _ _ hp, Config.set_procs_ne _ _ _ hp,
          Config.set_procs_ne _ _ _ hp, Config.set_procs_ne _ _ _ hp]
        simp [start, runThenGC, hp, Command.prog]
  obtain ⟨hview, hp, hprocs, hfree⟩ := hfacts
  obtain ⟨⟨⟩, s', hgc, hend⟩ := (runGC_ensures (play_reach hc) hp hfree 0).finishes
  refine ⟨c, s', play_reach hc, hprocs, hfree, hgc, ?_⟩
  have hleft : s'.view 5 = .only .embryo ∅ := by
    rw [hend.view]
    simp [afterGC, sweep, hview, treat_only]
  exact (World.mem_of_view hleft).mpr rfl

end Rkt.Pods
