import Rkt.Conc.Interference
import Rkt.Pods.Protocol

set_option autoImplicit false

namespace Rkt.Pods

open Conc

/-- The answer to an operation is neither an I/O error nor a failure of the work elsewhere; the
clock reads later than `t`, and what has been changed, has been changed by `t`. -/
def Op.sure (t : Nat) : (o : Op) → o.Res → Bool
  | .initPods, r | .mkdir _ _, r | .remove _ _, r | .exclusiveLock _, r | .unlock _, r
  | .syncDir _, r | .writeFile _ _ _, r | .removeDir _ _, r | .aside, r =>
    Except.isOk (ε := Errno) (α := Unit) r
  | .readDir _, r => Except.isOk (ε := Errno) (α := Finset UUID) r
  | .newLock _ _, r => match r with | .ok _ | .error .noent => true | .error _ => false
  | .openFile _ _, r | .rename _ _ _, r =>
    match r with | .ok _ | .error .noent => true | .error _ => false
  | .trySharedLock _, r => match r with | .ok _ | .error .wouldblock => true | .error _ => false
  | .lstat _ _, r => match r with | .ok ctime => ctime ≤ t | .error e => e = .noent
  | .now, (n : Nat) => t < n
  | .removeFiles _ _, (_, e) => e = none
  | .newUUID, _ | .close _, _ | .panic, _ | .ran _, _ => true

def sureMachine (t : Nat) : Machine podSig World :=
  podMachine.restrict (fun _ o r _ => o.sure t r = true)

/-- What there is of one pod: the directories it is in, and its files. -/
@[ext]
structure PodView where
  dirs : Set Dir
  files : Finset PodFile

def PodView.only (d : Dir) (fs : Finset PodFile) : PodView := ⟨{d}, fs⟩

def PodView.gone : PodView := ⟨∅, ∅⟩

@[simp] theorem only_dirs (d : Dir) (fs : Finset PodFile) : (PodView.only d fs).dirs = {d} := rfl

@[simp] theorem only_files (d : Dir) (fs : Finset PodFile) : (PodView.only d fs).files = fs := rfl

@[simp] theorem gone_dirs : PodView.gone.dirs = ∅ := rfl

def PodView.Single (v : PodView) : Prop := ∀ d ∈ v.dirs, v = .only d v.files

theorem only_single (d : Dir) (fs : Finset PodFile) : (PodView.only d fs).Single := by
  rintro e rfl
  rfl

theorem gone_single : PodView.gone.Single := fun _ h => h.elim

namespace World

def view (s : World) (u : UUID) : PodView := ⟨{d | u ∈ s.dirs d}, s.files u⟩

variable {s : World} {p : Pid} {u : UUID} {d d' : Dir} {fs : Finset PodFile}

theorem mem_of_view (h : s.view u = .only d fs) {e : Dir} : u ∈ s.dirs e ↔ e = d := by
  have hdirs : e ∈ (s.view u).dirs ↔ e ∈ (PodView.only d fs).dirs := by rw [h]
  exact hdirs

theorem files_of_view (h : s.view u = .only d fs) : s.files u = fs :=
  congrArg PodView.files h

theorem view_change {s' : World} {x : PodView} (hu : s'.view u = x)
    (hne : ∀ v, v ≠ u → s'.view v = s.view v) : s'.view = Function.update s.view u x := by
  funext v
  by_cases hv : v = u
  · subst hv
    rw [Function.update_self]
    exact hu
  · rw [Function.update_of_ne hv]
    exact hne v hv

theorem view_move (h : s.view u = .only d fs) :
    (s.move p d d' u).view = Function.update s.view u (.only d' fs) := by
  have hfiles : (s.move p d d' u).files = s.files := move_frame.2.1
  refine view_change ?_ fun v hv => ?_
  · ext e
    · show u ∈ (s.move p d d' u).dirs e ↔ e = d'
      rw [mem_move, mem_of_view h]
      tauto
    · simp [view, hfiles, PodView.only, files_of_view h]
  · ext e
    · simp [view, mem_move, hv]
    · simp [view, hfiles]

theorem view_empty (h : s.view u = .only d fs) :
    ({ s with files := Function.update s.files u ∅ } : World).view =
      Function.update s.view u (.only d ∅) := by
  refine view_change ?_ fun v hv => ?_
  · ext e
    · exact mem_of_view h
    · simp [view, PodView.only]
  · simp [view, Function.update_of_ne hv]

theorem view_unlink (h : s.view u = .only d ∅) :
    (s.unlink d u).view = Function.update s.view u .gone := by
  refine view_change ?_ fun v hv => ?_
  · ext e
    · show u ∈ (s.unlink d u).dirs e ↔ False
      rw [mem_unlink, mem_of_view h]
      tauto
    · simp [view, unlink, PodView.gone, files_of_view h]
  · ext e
    · simp [view, mem_unlink, hv]
    · simp [view, unlink]

end World

/-- Process `p` runs alone, and everything it does succeeds. -/
abbrev Alone {α : Type} (t : Nat) (p : Pid) (A : World → Prop) (x : Prog podSig α)
    (Q : α → World → Prop) : Prop :=
  Total (sureMachine t) nobody p A x Q

/-- The pods are as `V` says and their locks as `L` says. -/
structure Still (p : Pid) (L : UUID → Flock Fd) (V : UUID → PodView) (s : World) : Prop where
  alive : p ∉ s.dead
  view : s.view = V
  lock : s.lock = L

/-- The pods are as `V` says, and their locks would be as `L` says without `fd`. -/
structure Mine (p : Pid) (fd : Fd) (L : UUID → Flock Fd) (V : UUID → PodView) (s : World) :
    Prop where
  alive : p ∉ s.dead
  view : s.view = V
  lock : Function.update s.lock fd.uuid ((s.lock fd.uuid).unlock fd) = L

/-- The lock is free, or another process holds it exclusively. -/
def Foreign (p : Pid) (l : Flock Fd) : Prop := l = .free ∨ ∃ g, l = .excl g ∧ g.pid ≠ p

section ops

variable {t : Nat} {p : Pid} {fd : Fd} {u : UUID} {d d' : Dir} {fs : Finset PodFile} {f : PodFile}
  {L : UUID → Flock Fd} {V : UUID → PodView} {s s' : World}

theorem free_foreign : Foreign p .free := .inl rfl

variable {l : Flock Fd} {A : World → Prop} {o : Op}

theorem Foreign.unlock (h : Foreign p l) (hfd : fd.pid = p) : l.unlock fd = l := by
  rcases h with rfl | ⟨g, rfl, hg⟩
  · rfl
  · refine Flock.unlock_excl fun hgf => hg ?_
    rw [hgf]
    exact hfd

theorem Foreign.canSh (h : Foreign p l) (hfd : fd.pid = p) : l.canSh fd = true ↔ l = .free := by
  rcases h with rfl | ⟨g, rfl, hg⟩
  · exact iff_of_true rfl rfl
  · refine iff_of_false (fun hcan => hg ?_) nofun
    rw [(Flock.canSh_excl fd g).mp hcan]
    exact hfd

theorem Still.mine (h : Still p L V s) (hL : Foreign p (L fd.uuid)) (hfd : fd.pid = p) :
    Mine p fd L V s := by
  refine ⟨h.alive, h.view, ?_⟩
  rw [h.lock, hL.unlock hfd, Function.update_eq_self]

theorem Mine.unlock (h : Mine p fd L V s) :
    Still p L V (s.setLock fd.uuid ((s.lock fd.uuid).unlock fd)) :=
  ⟨h.alive, h.view, h.lock⟩

theorem Still.take (h : Still p L V s) (hl : l.unlock fd = L fd.uuid) :
    Mine p fd L V (s.setLock fd.uuid l) := by
  refine ⟨h.alive, h.view, ?_⟩
  simp [World.setLock, hl, h.lock]

theorem sure_call {Q : o.Res → World → Prop} (halive : ∀ s, A s → p ∉ s.dead)
    (hgo : ∀ s, A s → ∃ r s', o.sure t r = true ∧ next p o r s = some s')
    (h : ∀ s r s', A s → o.sure t r = true → next p o r s = some s' → Q r s') :
    Alone t p A (sys o) Q := by
  refine Total.call (fun _ _ he => he.elim) (fun s hs => ?_) fun s r s' hs hn => ?_
  · obtain ⟨r, s', hr, hn⟩ := hgo s hs
    refine ⟨r, s', ?_⟩
    simp only [sureMachine, Machine.restrict, podMachine]
    rw [if_pos hr, if_neg (halive s hs)]
    exact hn
  · obtain ⟨hr, hn'⟩ := Machine.restrict_next hn
    simp only [podMachine] at hn'
    rw [if_neg (halive s hs)] at hn'
    exact h s r s' hs hr hn'

theorem sure_answer {A B : World → Prop} (r0 : o.Res) (halive : ∀ s, A s → p ∉ s.dead)
    (hsure : o.sure t r0 = true) (hgo : ∀ s, A s → ∃ s', next p o r0 s = some s' ∧ B s')
    (hone : ∀ s r s', A s → o.sure t r = true → next p o r s = some s' → r = r0) :
    Alone t p A (sys o) (fun r s => r = r0 ∧ B s) := by
  refine sure_call halive (fun s hs => ?_) fun s r s' hs hr hn => ?_
  · obtain ⟨s', hn, -⟩ := hgo s hs
    exact ⟨r0, s', hsure, hn⟩
  · have hr0 := hone s r s' hs hr hn
    subst hr0
    obtain ⟨s1, hn1, hB⟩ := hgo s hs
    rw [hn] at hn1
    cases hn1
    exact ⟨rfl, hB⟩

theorem sure_plain (r0 : o.Res) (halive : ∀ s, A s → p ∉ s.dead)
    (hsure : o.sure t r0 = true) (hone : ∀ r, o.sure t r = true → r = r0)
    (hsame : ∀ s, next p o r0 s = some s) : Alone t p A (sys o) (fun r s => r = r0 ∧ A s) :=
  sure_answer r0 halive hsure (fun s hs => ⟨s, hsame s, hs⟩) fun _ r _ _ hr _ => hone r hr

theorem ok_of_sure {r : Except Errno Unit} (h : r.isOk = true) : r = .ok () := by
  cases r with
  | ok _ => rfl
  | error e => cases h

theorem initPods_sure (halive : ∀ s, A s → p ∉ s.dead) :
    Alone t p A (sys .initPods) (fun r s => r = .ok () ∧ A s) :=
  sure_plain (o := .initPods) (.ok ()) halive rfl (fun _ => ok_of_sure) fun _ => rfl

theorem aside_sure (halive : ∀ s, A s → p ∉ s.dead) :
    Alone t p A (sys .aside) (fun r s => r = .ok () ∧ A s) :=
  sure_plain (o := .aside) (.ok ()) halive rfl (fun _ => ok_of_sure) fun _ => rfl

theorem syncDir_sure (halive : ∀ s, A s → p ∉ s.dead) :
    Alone t p A (sys (.syncDir d)) (fun r s => r = .ok () ∧ A s) :=
  sure_plain (o := .syncDir d) (.ok ()) halive rfl (fun _ => ok_of_sure) fun _ => rfl

theorem trySharedLock_sure (hcan : (L fd.uuid).canSh fd = true) :
    Alone t p (Still p L V) (sys (.trySharedLock fd)) (fun r s => r = .ok () ∧
      Mine p fd (Function.update L fd.uuid ((L fd.uuid).unlock fd)) V s) := by
  refine sure_answer (o := .trySharedLock fd) (.ok ()) (fun s h => h.alive) rfl
    (fun s h => ⟨_, if_pos (by rw [h.lock]; exact hcan), h.alive, h.view, ?_⟩)
    fun s r s' h hr hn => ?_
  · simp only [World.setLock, Function.update_self, Function.update_idem, h.lock]
    cases hl : L fd.uuid with
    | excl g =>
      rw [hl, Flock.canSh_excl] at hcan
      simp [Flock.share, Flock.unlock, Flock.free, hcan]
    | shared gs => simp [Flock.share, Flock.unlock]
  · rcases r with (_ | _ | _) | _
    · cases hr
    · simp [next, h.lock, hcan] at hn
    · cases hr
    · rfl

theorem trySharedLock_refused (hL : (L fd.uuid).canSh fd = false) :
    Alone t p (Still p L V) (sys (.trySharedLock fd))
      (fun r s => r = .error .wouldblock ∧ Still p L V s) := by
  have hcan : ∀ s, Still p L V s → ¬ (s.lock fd.uuid).canSh fd = true := by
    intro s h
    rw [h.lock, hL]
    exact Bool.false_ne_true
  refine sure_answer (o := .trySharedLock fd) (.error .wouldblock) (fun s h => h.alive) rfl
    (fun s h => ⟨_, if_neg (hcan s h), h⟩) fun s r s' h hr hn => ?_
  rcases r with (_ | _ | _) | _
  · cases hr
  · rfl
  · cases hr
  · simp [next, hcan s h] at hn

theorem unlock_sure : Alone t p (Mine p fd L V) (sys (.unlock fd))
    (fun r s => r = .ok () ∧ Still p L V s) :=
  sure_answer (o := .unlock fd) (.ok ()) (fun _ h => h.alive) rfl
    (fun _ h => ⟨_, rfl, h.unlock⟩) fun _ _ _ _ hr _ => ok_of_sure hr

theorem close_sure : Alone t p (Mine p fd L V) (sys (.close fd)) (fun _ => Still p L V) :=
  (sure_answer (o := .close fd) () (fun _ h => h.alive) rfl (fun _ h => ⟨_, rfl, h.unlock⟩)
    fun _ _ _ _ _ _ => rfl).conseq (fun _ h => h) fun _ _ h => h.2

theorem exclusiveLock_sure (hL : L fd.uuid = .free) :
    Alone t p (Still p L V) (sys (.exclusiveLock fd))
      (fun r s => r = .ok () ∧ Mine p fd L V s) := by
  have hcan : ∀ s, Still p L V s → (s.lock fd.uuid).canEx fd = true := by
    intro s h
    rw [h.lock, hL]
    rfl
  exact sure_answer (o := .exclusiveLock fd) (.ok ()) (fun _ h => h.alive) rfl
    (fun s h => ⟨_, if_pos (hcan s h), h.take (by simp [Flock.unlock, hL])⟩)
    fun _ _ _ _ hr _ => ok_of_sure hr

theorem rename_sure (hV : V u = .only d fs) (hne : d' ≠ d) :
    Alone t p (Still p L V) (sys (.rename d d' u))
      (fun r s => r = .ok () ∧ Still p L (Function.update V u (.only d' fs)) s) := by
  have hview : ∀ s, Still p L V s → s.view u = .only d fs := fun s h => by rw [h.view, hV]
  have hin : ∀ s, Still p L V s → u ∈ s.dirs d :=
    fun s h => (World.mem_of_view (hview s h)).mpr rfl
  have hout : ∀ s, Still p L V s → u ∉ s.dirs d' :=
    fun s h hmem => hne ((World.mem_of_view (hview s h)).mp hmem)
  have hmoved : ∀ s, Still p L V s →
      Still p L (Function.update V u (.only d' fs)) (s.move p d d' u) := by
    intro s h
    have hlock : (s.move p d d' u).lock = s.lock := World.move_frame.1
    have hdead : (s.move p d d' u).dead = s.dead := World.move_frame.2.2.1
    refine ⟨by rw [hdead]; exact h.alive, ?_, by rw [hlock]; exact h.lock⟩
    rw [World.view_move (hview s h), h.view]
  refine sure_answer (o := .rename d d' u) (.ok ()) (fun _ h => h.alive) rfl
    (fun s h => ⟨_, if_pos ⟨hin s h, hout s h⟩, hmoved s h⟩) fun s r s' h hr hn => ?_
  rcases r with (_ | _ | _) | _
  · simp [next, hin s h] at hn
  · cases hr
  · cases hr
  · rfl

theorem openFile_sure (halive : ∀ s, A s → p ∉ s.dead)
    (hfiles : ∀ s, A s → s.files fd.uuid = fs) : Alone t p A (sys (.openFile fd f))
      (fun r s => (r = .ok () ∧ f ∈ fs ∨ r = .error .noent ∧ f ∉ fs) ∧ A s) := by
  refine sure_call halive (fun s h => ?_) fun s r s' h hr hn => ?_
  · by_cases hf : f ∈ s.files fd.uuid
    · exact ⟨.ok (), s, rfl, if_pos hf⟩
    · exact ⟨.error .noent, s, rfl, if_neg hf⟩
  · rw [← hfiles s h]
    rcases r with (_ | _ | _) | _
    · obtain ⟨hf, ⟨⟩⟩ := Option.ite_none_left_eq_some.mp hn
      exact ⟨.inr ⟨rfl, hf⟩, h⟩
    · cases hr
    · cases hr
    · obtain ⟨hf, ⟨⟩⟩ := Option.ite_none_right_eq_some.mp hn
      exact ⟨.inl ⟨rfl, hf⟩, h⟩

theorem lstat_sure (hV : V u = .only d fs) : Alone t p (Still p L V) (sys (.lstat d u))
    (fun r s => (∃ ctime, r = .ok ctime ∧ ctime ≤ t) ∧ Still p L V s) := by
  have hin : ∀ s, Still p L V s → u ∈ s.dirs d := by
    intro s h
    exact (World.mem_of_view (by rw [h.view, hV])).mpr rfl
  refine sure_call (fun _ h => h.alive) (fun s h => ?_) fun s r s' h hr hn => ?_
  · exact ⟨.ok 0, s, by simp [Op.sure], if_pos (hin s h)⟩
  · rcases r with (_ | _ | _) | ctime
    · simp [next, hin s h] at hn
    · cases hr
    · cases hr
    · simp only [next, if_pos (hin s h)] at hn
      cases hn
      exact ⟨⟨ctime, rfl, of_decide_eq_true hr⟩, h⟩

theorem now_sure : Alone t p (Still p L V) (sys .now)
    (fun (now : Nat) s => t < now ∧ Still p L V s) := by
  refine sure_call (fun _ h => h.alive) (fun s _ => ?_)
    fun s (r : Nat) s' h (hr : decide (t < r) = true) hn => ?_
  · exact ⟨t + 1, s, by simp [Op.sure], rfl⟩
  · cases hn
    exact ⟨of_decide_eq_true hr, h⟩

theorem removeFiles_sure (hV : V u = .only d fs) : Alone t p (Mine p fd L V)
    (sys (.removeFiles d u))
    (fun r s => r = (fs, none) ∧ Mine p fd L (Function.update V u (.only d ∅)) s) := by
  have hview : ∀ s, Mine p fd L V s → s.view u = .only d fs := fun s h => by rw [h.view, hV]
  have hin : ∀ s, Mine p fd L V s → u ∈ s.dirs d :=
    fun s h => (World.mem_of_view (hview s h)).mpr rfl
  have hfiles : ∀ s, Mine p fd L V s → s.files u = fs := fun s h => World.files_of_view (hview s h)
  refine sure_answer (o := .removeFiles d u) (fs, none) (fun _ h => h.alive) rfl
    (fun s h => ?_) fun s r s' h hr hn => ?_
  · refine ⟨{ s with files := Function.update s.files u ∅ }, ?_, h.alive, ?_, h.lock⟩
    · simp [next, hin s h, hfiles s h]
    · rw [World.view_empty (hview s h), h.view]
  · obtain ⟨gone, e⟩ := r
    have he : e = none := of_decide_eq_true hr
    subst he
    simp only [next, if_pos (hin s h)] at hn
    obtain ⟨⟨-, hgone⟩, -⟩ := Option.ite_none_right_eq_some.mp hn
    rw [hgone trivial, hfiles s h]

theorem removeDir_sure (hV : V u = .only d ∅) : Alone t p (Mine p fd L V) (sys (.removeDir d u))
    (fun r s => r = .ok () ∧ Mine p fd L (Function.update V u .gone) s) := by
  have hview : ∀ s, Mine p fd L V s → s.view u = .only d ∅ := fun s h => by rw [h.view, hV]
  refine sure_answer (o := .removeDir d u) (.ok ()) (fun _ h => h.alive) rfl
    (fun s h => ?_) fun _ _ _ _ hr _ => ok_of_sure hr
  refine ⟨s.unlink d u, ?_, h.alive, ?_, h.lock⟩
  · simp [next, (World.mem_of_view (hview s h)).mpr rfl, World.files_of_view (hview s h)]
  · rw [World.view_unlink (hview s h), h.view]

theorem probe_sure {α : Type} {e : Dir} {k : Except Errno Fd → Prog podSig α} {Q : α → World → Prop}
    (hfound : e ∈ (V u).dirs → ∀ fd : Fd, fd.pid = p → fd.uuid = u →
      Alone t p (Still p L V) (k (.ok fd)) Q)
    (hnext : e ∉ (V u).dirs → Alone t p (Still p L V) (k (.error .noent)) Q) :
    Alone t p (Still p L V) (sys (.newLock e u) >>= k) Q := by
  have hmem : ∀ s, Still p L V s → (u ∈ s.dirs e ↔ e ∈ (V u).dirs) := by
    intro s h
    rw [← h.view]
    rfl
  refine Total.bind (Q := fun r s => ((e ∈ (V u).dirs ∧ ∃ fd, r = .ok fd ∧ fd.pid = p ∧
    fd.uuid = u) ∨
    e ∉ (V u).dirs ∧ r = .error .noent) ∧ Still p L V s)
    (sure_call (fun _ h => h.alive) (fun s h => ?_) fun s r s' h hr hn => ?_) fun r => ?_
  · by_cases hu : u ∈ s.dirs e
    · exact ⟨.ok ⟨p, s.nextFd, u⟩, _, rfl, if_pos ⟨hu, rfl⟩⟩
    · exact ⟨.error .noent, s, rfl, if_neg hu⟩
  · rw [← hmem s h]
    rcases r with (_ | _ | _) | fd
    · obtain ⟨hu, ⟨⟩⟩ := Option.ite_none_left_eq_some.mp hn
      exact ⟨.inr ⟨hu, rfl⟩, h⟩
    · cases hr
    · cases hr
    · obtain ⟨⟨hmem, rfl⟩, ⟨⟩⟩ := Option.ite_none_right_eq_some.mp hn
      exact ⟨.inl ⟨hmem, _, rfl, rfl, rfl⟩, h.alive, h.view, h.lock⟩
  · rintro s ⟨⟨hin, fd, rfl, hpid, hfd⟩ | ⟨hout, rfl⟩, h⟩
    · exact hfound hin fd hpid hfd s h
    · exact hnext hout s h

end ops

def found (d : Dir) (fd : Fd) : Pod := openedIn d fd fd.uuid

section lookup

variable {t : Nat} {p : Pid} {fd : Fd} {u : UUID} {d : Dir} {fs : Finset PodFile}
  {L : UUID → Flock Fd} {V : UUID → PodView}

@[simp] theorem found_lock : (found d fd).lock = fd := by cases d <;> rfl

@[simp] theorem found_uuid : (found d fd).uuid = fd.uuid := by cases d <;> rfl

@[simp] theorem found_path : (found d fd).path = some d := by cases d <;> rfl

/-- The value that `getPod` returns for a pod in `d` with the lock `l`. -/
def looked (l : Flock Fd) (d : Dir) (fd : Fd) : Pod :=
  if l.canSh fd then found d fd else (found d fd).locked

theorem looked_free : looked .free d fd = found d fd := rfl

theorem openPod_sure : Alone t p (Still p L V) (openPod u)
    (fun r s => ((∃ d fd, d ∈ (V u).dirs ∧ r = .ok (found d fd) ∧ fd.pid = p ∧ fd.uuid = u) ∨
      (V u).dirs = ∅ ∧ r = .error (.notFound u)) ∧ Still p L V s) := by
  have here : ∀ {e : Dir} {x : Pod} {fd : Fd}, e ∈ (V u).dirs → fd.pid = p → fd.uuid = u →
      x = found e fd → Alone t p (Still p L V) (pure (.ok x : Except Err Pod))
        (fun r s => ((∃ d fd, d ∈ (V u).dirs ∧ r = .ok (found d fd) ∧ fd.pid = p ∧ fd.uuid = u) ∨
          (V u).dirs = ∅ ∧ r = .error (.notFound u)) ∧ Still p L V s) := by
    rintro e x fd hin hpid hfd rfl
    exact Total.ret fun s h => ⟨.inl ⟨e, fd, hin, rfl, hpid, hfd⟩, h⟩
  refine probe_sure (fun h fd hp hfd => here h hp hfd (by rw [← hfd]; rfl)) fun h1 => ?_
  refine probe_sure (fun h fd hp hfd => here h hp hfd (by rw [← hfd]; rfl)) fun h2 => ?_
  refine probe_sure (fun h fd hp hfd => here h hp hfd (by rw [← hfd]; rfl)) fun h3 => ?_
  refine probe_sure (fun h fd hp hfd => here h hp hfd (by rw [← hfd]; rfl)) fun h4 => ?_
  refine probe_sure (fun h fd hp hfd => here h hp hfd (by rw [← hfd]; rfl)) fun h5 => ?_
  refine probe_sure (fun h fd hp hfd => here h hp hfd (by rw [← hfd]; rfl)) fun h6 => ?_
  -- there is no seventh directory
  refine Total.ret fun s h => ⟨.inr ⟨Set.eq_empty_of_forall_notMem fun e => ?_, rfl⟩, h⟩
  cases e <;> assumption

/-- Testing a lock changes no other lock, nor a lock that another process holds. -/
theorem testLock_sure (hfd : fd.pid = p) : Alone t p (Still p L V) (testLock (found d fd))
    (fun r s => r = .ok (looked (L fd.uuid) d fd) ∧ ∃ L', ((∀ v, v ≠ fd.uuid → L' v = L v) ∧
      (Foreign p (L fd.uuid) → L' = L)) ∧ Still p L' V s) := by
  have hsame : (∀ v, v ≠ fd.uuid → L v = L v) ∧ (Foreign p (L fd.uuid) → L = L) :=
    ⟨fun _ _ => rfl, fun _ => rfl⟩
  refine Total.ite (fun _ => ?_) fun hd => Total.ret fun s h => ⟨?_, L, hsame, h⟩
  · rw [found_lock]
    cases hcan : (L fd.uuid).canSh fd with
    | true =>
      refine Total.bind (trySharedLock_sure hcan) fun r => ?_
      rintro s ⟨rfl, h⟩
      refine Total.bind unlock_sure (fun r => ?_) s h
      refine Total.ret fun s h => ⟨by simp [looked, hcan], _,
        ⟨fun v hv => Function.update_of_ne hv _ _, fun hL => ?_⟩, h.2⟩
      rw [hL.unlock hfd, Function.update_eq_self]
    | false =>
      refine Total.bind (trySharedLock_refused hcan) fun r => ?_
      rintro s ⟨rfl, h⟩
      exact ⟨by simp [looked, hcan], L, hsame, h⟩
  · -- in the other two directories the lock says nothing
    unfold looked
    cases d <;> simp_all [found, openedIn, Pod.locked]

theorem loadNets_sure {x : Pod} : Alone t p (Still p L V) (loadNets x)
    (fun r s => r = .ok x ∧ Still p L V s) := by
  refine Total.ite (fun _ => ?_) fun _ => Total.ret fun s h => ⟨rfl, h⟩
  have hfiles : ∀ s, Still p L V s → s.files x.lock.uuid = (V x.lock.uuid).files := by
    intro s h
    rw [← h.view]
    rfl
  refine Total.bind (openFile_sure (fun _ h => h.alive) hfiles) fun r => ?_
  rintro s ⟨⟨rfl, -⟩ | ⟨rfl, -⟩, h⟩
  · exact ⟨rfl, h⟩
  · exact ⟨rfl, h⟩

theorem runInit_sure {A : World → Prop} (halive : ∀ s, A s → p ∉ s.dead) :
    Alone t p A initPods (fun r s => r = .ok () ∧ A s) := by
  refine Total.bind (initPods_sure halive) fun r => ?_
  rintro s ⟨rfl, h⟩
  exact ⟨rfl, h⟩

/-- **Looking at a pod** shows where it is and whether it is locked. -/
theorem getPod_total : Alone t p (Still p L V) (getPod u)
    (fun r s => (∃ d fd, d ∈ (V u).dirs ∧ (fd.pid = p ∧ fd.uuid = u) ∧
        r = .ok (looked (L u) d fd) ∧ ∃ L', ((∀ v, v ≠ u → L' v = L v) ∧
          (Foreign p (L u) → L' = L)) ∧ Still p L' V s) ∨
      (V u).dirs = ∅ ∧ r = .error (.notFound u) ∧ Still p L V s) := by
  refine Total.bind (runInit_sure fun _ h => h.alive) fun r => ?_
  rintro s ⟨rfl, h⟩
  refine Total.bind openPod_sure (fun r => ?_) s h
  rintro s ⟨⟨d, fd, hd, rfl, hpid, rfl⟩ | ⟨hnone, rfl⟩, h⟩
  · refine Total.bind (testLock_sure hpid) (fun r => ?_) s h
    rintro s ⟨rfl, L', hL', h⟩
    refine loadNets_sure.conseq (fun _ h => h) ?_ s h
    rintro r s ⟨rfl, h⟩
    exact .inl ⟨d, fd, hd, ⟨hpid, rfl⟩, rfl, L', hL', h⟩
  · exact .inr ⟨hnone, rfl, h⟩

theorem getPod_sure (hV : V u = .only d fs) (hL : Foreign p (L u)) :
    Alone t p (Still p L V) (getPod u)
      (fun r s => (∃ fd, r = .ok (looked (L u) d fd) ∧ fd.pid = p ∧ fd.uuid = u) ∧
        Still p L V s) := by
  refine getPod_total.conseq (fun _ h => h) ?_
  rintro r s (⟨e, fd, he, hfd, rfl, L', ⟨-, hsame⟩, h⟩ | ⟨hnone, -⟩)
  · rw [hV] at he
    cases he
    exact ⟨⟨fd, rfl, hfd⟩, hsame hL ▸ h⟩
  · rw [hV] at hnone
    exact absurd hnone (Set.singleton_ne_empty d)

end lookup

end Rkt.Pods
