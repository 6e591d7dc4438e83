import Rkt.Conc.Proto
import Rkt.Pods.Commands

set_option autoImplicit false

namespace Rkt.Pods

open Conc

/-- The order in which a pod passes through the directories. -/
def Dir.rank : Dir → Nat
  | .embryo => 0
  | .prepare => 1
  | .prepared => 2
  | .run => 3
  | .exitedGarbage => 4
  | .garbage => 5

namespace World

/-- Pod `u` exists and is in none of the directories up to `d`. -/
def Past (s : World) (u : UUID) (d : Dir) : Prop :=
  s.creator u ≠ none ∧ ∀ d', d'.rank ≤ d.rank → u ∉ s.dirs d'

/-- Process `p` holds the exclusive lock of pod `u`. -/
def Holds (s : World) (p : Pid) (u : UUID) : Prop := ∃ fd, s.lock u = .excl fd ∧ fd.pid = p

/-- The process that renamed `u` into `run`, if any, is dead. -/
def RunnerGone (s : World) (u : UUID) : Prop := ∀ p, s.runner u = some p → p ∈ s.dead

def CreatorGone (s : World) (u : UUID) : Prop := ∀ p, s.creator u = some p → p ∈ s.dead

/-- Process `p` has neither created a pod nor renamed one into `run`. -/
def Bystander (s : World) (p : Pid) : Prop := ∀ u, s.creator u ≠ some p ∧ s.runner u ≠ some p

end World

/-- The step from `s` to `s'` collects pod `u`: it moves the pod to one of the two garbage
directories, or removes the pod or some of its contents. -/
def Collects (s s' : World) (u : UUID) : Prop :=
  (∃ d, (d = .exitedGarbage ∨ d = .garbage) ∧ u ∉ s.dirs d ∧ u ∈ s'.dirs d) ∨
  ((∃ d, u ∈ s.dirs d) ∧ ∀ d, u ∉ s'.dirs d) ∨
  ¬ s.files u ⊆ s'.files u

structure Inv (s : World) : Prop where
  drawn : ∀ u p, s.creator u = some p → s.drawnBy u = some p
  uncreated : ∀ u, s.creator u = none → (∀ d, u ∉ s.dirs d) ∧ s.runner u = none
  one : ∀ u d d', u ∈ s.dirs d → u ∈ s.dirs d' → d = d'
  preparing : ∀ u p, s.creator u = some p → p ∉ s.dead → u ∈ s.dirs .prepare → s.Holds p u
  past : ∀ u p, s.runner u = some p → s.Past u .prepared
  running : ∀ u p, s.runner u = some p → p ∉ s.dead → u ∈ s.dirs .run ∧ s.Holds p u
  ran : ∀ u p, (u, p) ∈ s.ran → s.runner u = some p
  ranOnce : (s.ran.map Prod.fst).Nodup

structure Guar (q : Pid) (s s' : World) : Prop where
  dead : s.dead ⊆ s'.dead
  killed : ∀ p ∈ s'.dead, p ∈ s.dead ∨ p = q
  drawn : ∀ u p, s.drawnBy u = some p → s'.drawnBy u = some p
  creator : ∀ u p, s.creator u = some p → s'.creator u = some p
  created : ∀ u p, s.creator u = none → s'.creator u = some p → p = q ∧ s.drawnBy u = some q
  runner : ∀ u p, s.runner u = some p → s'.runner u = some p
  entered : ∀ u p, s.runner u = none → s'.runner u = some p →
    p = q ∧ ¬ s.Past u .prepared ∧ q ∉ s.dead ∧ s.Holds q u
  enters : ∀ u, u ∉ s.dirs .run → u ∈ s'.dirs .run → s.runner u = none ∧ s'.runner u = some q
  past : ∀ u d, s.Past u d → s'.Past u d
  lock : ∀ u fd, s.lock u = .excl fd → fd.pid ≠ q → s'.lock u = .excl fd
  ran : ∀ x ∈ s'.ran, x ∈ s.ran ∨ x.2 = q
  collects : ∀ u, Collects s s' u →
    s.RunnerGone u ∧ (u ∈ s.dirs .prepare → s.CreatorGone u)

/-- The step only touches the descriptor counter and the panic record, or adds files. -/
structure Same (s s' : World) : Prop where
  dirs : s'.dirs = s.dirs
  lock : s'.lock = s.lock
  files : ∀ u, s.files u ⊆ s'.files u
  dead : s'.dead = s.dead
  drawnBy : s'.drawnBy = s.drawnBy
  creator : s'.creator = s.creator
  runner : s'.runner = s.runner
  ran : s'.ran = s.ran

theorem Same.refl (s : World) : Same s s :=
  ⟨rfl, rfl, fun _ => Finset.Subset.refl _, rfl, rfl, rfl, rfl, rfl⟩

theorem inv_empty : Inv World.empty where
  drawn := by simp [World.empty]
  uncreated := by simp [World.empty]
  one := by simp [World.empty]
  preparing := by simp [World.empty]
  past := by simp [World.empty]
  running := by simp [World.empty]
  ran := by simp [World.empty]
  ranOnce := by simp [World.empty]

theorem not_collects_self (s : World) (u : UUID) : ¬ Collects s s u := by
  rintro (⟨d, -, h1, h2⟩ | ⟨⟨d, h1⟩, h2⟩ | h)
  · exact h1 h2
  · exact h2 d h1
  · exact h (Finset.Subset.refl _)

theorem Guar.refl (q : Pid) (s : World) : Guar q s s where
  dead := Finset.Subset.refl _
  killed := fun _ h => .inl h
  drawn := fun _ _ h => h
  creator := fun _ _ h => h
  created := fun u p h h' => by rw [h] at h'; cases h'
  runner := fun _ _ h => h
  entered := fun u p h h' => by rw [h] at h'; cases h'
  enters := fun u h h' => absurd h' h
  past := fun _ _ h => h
  lock := fun _ _ h _ => h
  ran := fun _ h => .inl h
  collects := fun u h => absurd h (not_collects_self s u)

namespace World

variable {s : World} {u v : UUID} {d d' e : Dir} {p : Pid}

theorem mem_unlink : u ∈ (s.unlink d v).dirs e ↔ u ∈ s.dirs e ∧ ¬ (e = d ∧ u = v) := by
  by_cases he : e = d
  · subst he
    simp [unlink, and_comm]
  · simp [unlink, he]

theorem mem_link : u ∈ (s.link d v).dirs e ↔ u ∈ s.dirs e ∨ (e = d ∧ u = v) := by
  by_cases he : e = d
  · subst he
    simp [link, or_comm]
  · simp [link, he]

theorem mem_move : u ∈ (s.move p d d' v).dirs e ↔
    (u ∈ s.dirs e ∧ ¬ (e = d ∧ u = v)) ∨ (e = d' ∧ u = v) := by
  rw [← mem_unlink, ← mem_link]
  unfold move
  split <;> rfl

theorem move_runner : (s.move p d d' v).runner u =
    if d' = .run ∧ u = v then some p else s.runner u := by
  by_cases hd : d' = .run
  · by_cases hu : u = v
    · subst hu
      simp [move, hd]
    · simp [move, hd, hu, unlink, link]
  · simp [move, hd, unlink, link]

theorem move_frame : (s.move p d d' v).lock = s.lock ∧ (s.move p d d' v).files = s.files ∧
    (s.move p d d' v).dead = s.dead ∧ (s.move p d d' v).drawnBy = s.drawnBy ∧
    (s.move p d d' v).creator = s.creator ∧ (s.move p d d' v).ran = s.ran := by
  unfold move
  split <;> exact ⟨rfl, rfl, rfl, rfl, rfl, rfl⟩

theorem move_holds {q : Pid} : (s.move p d d' v).Holds q u ↔ s.Holds q u := by
  unfold Holds
  rw [move_frame.1]

/-- Who is the runner of a pod after a rename: who was before, or who made the rename. -/
theorem move_runner_cases {q : Pid} (hr : (s.move p d d' v).runner u = some q) :
    s.runner u = some q ∨ d' = .run ∧ u = v ∧ q = p := by
  rw [move_runner] at hr
  split at hr
  · rename_i hx
    cases hr
    exact .inr ⟨hx.1, hx.2, rfl⟩
  · exact .inl hr

end World

section ops

variable {q : Pid} {s : World} {u : UUID} {d d' : Dir}

/-- What only touches the descriptor counter and the panic record, or adds files. -/
theorem Same.ok {s' : World} (hs : Same s s') (h : Inv s) : Inv s' ∧ Guar q s s' := by
  obtain ⟨dirs, lock, files, n, dead, pan, drawn, creator, runner, ran⟩ := s
  obtain ⟨dirs', lock', files', n', dead', pan', drawn', creator', runner', ran'⟩ := s'
  obtain ⟨hdirs, hlock, hfiles, hdead, hdrawn, hcreator, hrunner, hran⟩ := hs
  simp only at hdirs hlock hdead hdrawn hcreator hrunner hran
  subst hdirs hlock hdead hdrawn hcreator hrunner hran
  have hg := Guar.refl q ⟨dirs', lock', files, n, dead', pan, drawn', creator', runner', ran'⟩
  refine ⟨{ h with }, { hg with collects := ?_ }⟩
  rintro u (⟨d, -, h1, h2⟩ | ⟨⟨d, h1⟩, h2⟩ | hf)
  · exact absurd h2 h1
  · exact absurd h1 (h2 d)
  · exact absurd (hfiles u) hf

/-- A change of one lock: nobody else's exclusive lock is touched, and `q` keeps the lock as
long as the protocol wants it to. -/
theorem setLock_ok {l : Flock Fd} (h : Inv s)
    (hothers : ∀ fd, s.lock u = .excl fd → fd.pid ≠ q → l = .excl fd)
    (hprep : s.creator u = some q → u ∈ s.dirs .prepare → ∃ fd, l = .excl fd ∧ fd.pid = q)
    (hrun : s.runner u = some q → ∃ fd, l = .excl fd ∧ fd.pid = q) :
    Inv (s.setLock u l) ∧ Guar q s (s.setLock u l) := by
  have hg := Guar.refl q s
  -- a holder `p` that the protocol asks for is still the holder
  have keep : ∀ v p, s.Holds p v → (v = u → p = q → ∃ fd, l = .excl fd ∧ fd.pid = q) →
      (s.setLock u l).Holds p v := by
    rintro v p ⟨fd, hfd, hpid⟩ hq
    by_cases hv : v = u
    · subst hv
      by_cases hp : p = q
      · subst hp
        obtain ⟨fd', hl, hp'⟩ := hq rfl rfl
        exact ⟨fd', by simp [World.setLock, hl], hp'⟩
      · refine ⟨fd, ?_, hpid⟩
        simp [World.setLock, hothers fd hfd (by rw [hpid]; exact hp)]
    · exact ⟨fd, by simp [World.setLock, hv, hfd], hpid⟩
  constructor
  · refine { h with preparing := ?_, running := ?_ }
    · intro v p hc hd hm
      refine keep v p (h.preparing v p hc hd hm) ?_
      rintro rfl rfl
      exact hprep hc hm
    · intro v p hr hd
      obtain ⟨hm, hh⟩ := h.running v p hr hd
      refine ⟨hm, keep v p hh ?_⟩
      rintro rfl rfl
      exact hrun hr
  · refine { hg with lock := ?_ }
    intro v fd hl hp
    by_cases hv : v = u
    · subst hv
      simp [World.setLock, hothers fd hl hp]
    · simp [World.setLock, hv, hl]

theorem draw_ok (h : Inv s) (hu : s.drawnBy u = none) :
    Inv { s with drawnBy := Function.update s.drawnBy u (some q) } ∧
      Guar q s { s with drawnBy := Function.update s.drawnBy u (some q) } := by
  have hg := Guar.refl q s
  have keep : ∀ v p, s.drawnBy v = some p →
      Function.update s.drawnBy u (some q) v = some p := by
    intro v p hv
    have hne : v ≠ u := by
      rintro rfl
      rw [hu] at hv
      cases hv
    rw [Function.update_of_ne hne, hv]
  exact ⟨{ h with drawn := fun v p hc => keep v p (h.drawn v p hc) }, { hg with drawn := keep }⟩

section mkdir

variable (h : Inv s) (hdrawn : s.drawnBy u = some q) (hu : s.creator u = none)

include hu

theorem mkdir_past {v : UUID} {e : Dir} (hp : s.Past v e) :
    ({ s.link .embryo u with creator := Function.update s.creator u (some q) } : World).Past
      v e := by
  have hv : v ≠ u := by
    rintro rfl
    exact hp.1 hu
  refine ⟨by simpa [hv] using hp.1, fun e' he' hm => ?_⟩
  rcases World.mem_link.mp hm with hm | ⟨-, rfl⟩
  · exact hp.2 e' he' hm
  · exact hv rfl

include hdrawn in
theorem mkdir_guar :
    Guar q s { s.link .embryo u with creator := Function.update s.creator u (some q) } where
  __ := Guar.refl q s
  creator := by
    intro v p hc
    have hv : v ≠ u := by
      rintro rfl
      rw [hu] at hc
      cases hc
    simpa [hv] using hc
  created := by
    intro v p hc hc'
    by_cases hv : v = u
    · subst hv
      simp only [Function.update_self, Option.some.injEq] at hc'
      exact ⟨hc'.symm, hdrawn⟩
    · simp only [Function.update_of_ne hv] at hc'
      rw [hc] at hc'
      cases hc'
  enters := by
    intro v hm hm'
    rcases World.mem_link.mp hm' with hm' | ⟨he, -⟩
    · exact absurd hm' hm
    · cases he
  past := fun v e => mkdir_past hu
  collects := by
    rintro v (⟨e, he, h1, h2⟩ | ⟨⟨e, h1⟩, h2⟩ | hf)
    · rcases World.mem_link.mp h2 with h2 | ⟨rfl, -⟩
      · exact absurd h2 h1
      · rcases he with he | he <;> cases he
    · exact absurd (World.mem_link.mpr (.inl h1)) (h2 e)
    · exact absurd (Finset.Subset.refl _) hf

include h

theorem ne_of_mem {v : UUID} {e : Dir} (hm : v ∈ s.dirs e) : v ≠ u := by
  rintro rfl
  exact (h.uncreated v hu).1 e hm

include hdrawn

theorem mkdir_inv :
    Inv { s.link .embryo u with creator := Function.update s.creator u (some q) } where
  drawn := by
    intro v p hc
    by_cases hv : v = u
    · subst hv
      simp only [Function.update_self, Option.some.injEq] at hc
      rw [← hc]
      exact hdrawn
    · simp only [Function.update_of_ne hv] at hc
      exact h.drawn v p hc
  uncreated := by
    intro v hc
    have hv : v ≠ u := by
      rintro rfl
      simp at hc
    simp only [Function.update_of_ne hv] at hc
    refine ⟨fun e hm => ?_, (h.uncreated v hc).2⟩
    rcases World.mem_link.mp hm with hm | ⟨-, rfl⟩
    · exact (h.uncreated v hc).1 e hm
    · exact hv rfl
  one := by
    intro v e e' hm hm'
    rcases World.mem_link.mp hm with h1 | ⟨rfl, rfl⟩
    · rcases World.mem_link.mp hm' with h2 | ⟨-, hv⟩
      · exact h.one v e e' h1 h2
      · exact absurd hv (ne_of_mem h hu h1)
    · rcases World.mem_link.mp hm' with h2 | ⟨he', -⟩
      · exact absurd rfl (ne_of_mem h hu h2)
      · exact he'.symm
  preparing := by
    intro v p hc hd hm
    rcases World.mem_link.mp hm with hm | ⟨he, -⟩
    · simp only [Function.update_of_ne (ne_of_mem h hu hm)] at hc
      exact h.preparing v p hc hd hm
    · cases he
  past := fun v p hr => mkdir_past hu (h.past v p hr)
  running := by
    intro v p hr hd
    obtain ⟨hm, hh⟩ := h.running v p hr hd
    exact ⟨World.mem_link.mpr (.inl hm), hh⟩
  ran := h.ran
  ranOnce := h.ranOnce

/-- `mkdir` of a pod's directory in `embryo`, under a UUID that `q` has drawn. -/
theorem mkdir_ok :
    Inv { s.link .embryo u with creator := Function.update s.creator u (some q) } ∧
      Guar q s { s.link .embryo u with creator := Function.update s.creator u (some q) } :=
  ⟨mkdir_inv h hdrawn hu, mkdir_guar hdrawn hu⟩

end mkdir

/-- A live runner's pod is in `run`. -/
theorem runnerGone_of_mem (h : Inv s) (hm : u ∈ s.dirs d) (hrun : d ≠ .run) : s.RunnerGone u := by
  intro p hr
  by_contra hd
  exact hrun (h.one u _ _ hm (h.running u p hr hd).1)

/-- Removing a pod's directory from a place where no live process needs it. -/
theorem unlink_ok (h : Inv s) (hm : u ∈ s.dirs d) (hprep : d ≠ .prepare) (hrun : d ≠ .run) :
    Inv (s.unlink d u) ∧ Guar q s (s.unlink d u) := by
  have hg := Guar.refl q s
  have hmem : ∀ v e, v ∈ (s.unlink d u).dirs e ↔ v ∈ s.dirs e ∧ ¬ (e = d ∧ v = u) :=
    fun v e => World.mem_unlink
  have hpast : ∀ v e, s.Past v e → (s.unlink d u).Past v e := by
    rintro v e ⟨hc, hp⟩
    exact ⟨hc, fun e' he' hm' => hp e' he' ((hmem v e').mp hm').1⟩
  constructor
  · refine { h with
      uncreated := ?_, one := ?_, preparing := ?_, running := ?_
      past := fun v p hr => hpast v _ (h.past v p hr) }
    · intro v hc
      exact ⟨fun e hm' => (h.uncreated v hc).1 e ((hmem v e).mp hm').1, (h.uncreated v hc).2⟩
    · intro v e e' h1 h2
      exact h.one v e e' ((hmem v e).mp h1).1 ((hmem v e').mp h2).1
    · intro v p hc hd hm'
      exact h.preparing v p hc hd ((hmem v _).mp hm').1
    · intro v p hr hd
      obtain ⟨hm', hh⟩ := h.running v p hr hd
      exact ⟨(hmem v _).mpr ⟨hm', fun he => hrun he.1.symm⟩, hh⟩
  · refine { hg with enters := ?_, past := hpast, collects := ?_ }
    · intro v hm' hm''
      exact absurd ((hmem v _).mp hm'').1 hm'
    · rintro v (⟨e, he, h1, h2⟩ | ⟨⟨e, h1⟩, h2⟩ | hf)
      · exact absurd ((hmem v e).mp h2).1 h1
      · by_cases hv : v = u
        · subst hv
          exact ⟨runnerGone_of_mem h hm hrun, fun hp => absurd (h.one v _ _ hm hp) hprep⟩
        · exact absurd ((hmem v e).mpr ⟨h1, fun hc => hv hc.2⟩) (h2 e)
      · exact absurd (Finset.Subset.refl _) hf

/-- Unlinking contents of a pod in a place where no live process needs it. -/
theorem unlinkFiles_ok {fs : Finset PodFile} (h : Inv s) (hm : u ∈ s.dirs d)
    (hprep : d ≠ .prepare) (hrun : d ≠ .run) :
    Inv { s with files := Function.update s.files u fs } ∧
      Guar q s { s with files := Function.update s.files u fs } := by
  have hg := Guar.refl q s
  refine ⟨{ h with }, { hg with collects := ?_ }⟩
  rintro v (⟨e, -, h1, h2⟩ | ⟨⟨e, h1⟩, h2⟩ | hf)
  · exact absurd h2 h1
  · exact absurd h1 (h2 e)
  · have hv : v = u := by
      by_contra hv
      exact hf (by simp [hv])
    subst hv
    exact ⟨runnerGone_of_mem h hm hrun, fun hp => absurd (h.one v _ _ hm hp) hprep⟩

/-- **The condition under which a rename keeps the protocol.** It goes forward; into `prepare`
it is made by the creator, who holds the lock; into `run` it is made by a live process that
holds the lock; out of `prepare` into `garbage` only without a live creator, and out of `run`
only without a live runner. -/
structure MoveOk (q : Pid) (s : World) (d d' : Dir) (u : UUID) : Prop where
  rank : d.rank < d'.rank
  toPrepare : d' = .prepare → s.creator u = some q ∧ s.Holds q u
  toRun : d' = .run → q ∉ s.dead ∧ s.Holds q u ∧ d.rank ≤ Dir.prepared.rank
  toExited : d' = .exitedGarbage → d = .run
  toGarbage : d' = .garbage → d = .prepare → s.CreatorGone u
  fromRun : d = .run → s.RunnerGone u

section move

variable (h : Inv s) (hm : u ∈ s.dirs d) (hok : MoveOk q s d d' u)

include hm hok

theorem move_past {v : UUID} {e : Dir} (hp : s.Past v e) : (s.move q d d' u).Past v e := by
  refine ⟨by rw [World.move_frame.2.2.2.2.1]; exact hp.1, fun e' he' hm' => ?_⟩
  rcases World.mem_move.mp hm' with ⟨hm', -⟩ | ⟨rfl, rfl⟩
  · exact hp.2 e' he' hm'
  · have hlt := hok.rank
    exact hp.2 d (by omega) hm

include h

/-- A pod enters `run` only once: with a runner it is past `prepared`. -/
theorem runner_none_of_move (hd' : d' = .run) : s.runner u = none := by
  cases hr : s.runner u with
  | none => rfl
  | some p => exact absurd hm ((h.past u p hr).2 d (hok.toRun hd').2.2)

theorem move_keeps_runner {v : UUID} {p : Pid} (hr : s.runner v = some p) :
    (s.move q d d' u).runner v = some p := by
  rw [World.move_runner, if_neg]
  · exact hr
  · rintro ⟨hd', rfl⟩
    rw [runner_none_of_move h hm hok hd'] at hr
    cases hr

/-- While its runner lives, the pod is in `run`, and from there it is moved only without. -/
theorem runnerGone_of_move : s.RunnerGone u := by
  intro p hr
  by_contra hd
  obtain ⟨hm', -⟩ := h.running u p hr hd
  exact hd (hok.fromRun (h.one u _ _ hm hm') p hr)

theorem move_inv : Inv (s.move q d d' u) := by
  obtain ⟨-, -, hdead, hdrawn, hcreator, hran⟩ := @World.move_frame s u d d' q
  have hcreated : s.creator u ≠ none := fun hc => (h.uncreated u hc).1 d hm
  constructor
  case drawn =>
    intro v p hc
    rw [hcreator] at hc
    rw [hdrawn]
    exact h.drawn v p hc
  case uncreated =>
    intro v hc
    rw [hcreator] at hc
    have hv : v ≠ u := by
      rintro rfl
      exact hcreated hc
    refine ⟨fun e hm' => ?_, ?_⟩
    · rcases World.mem_move.mp hm' with ⟨hm', -⟩ | ⟨-, rfl⟩
      · exact (h.uncreated v hc).1 e hm'
      · exact hv rfl
    · rw [World.move_runner, if_neg (fun hx => hv hx.2)]
      exact (h.uncreated v hc).2
  case one =>
    intro v e e' h1 h2
    rcases World.mem_move.mp h1 with ⟨m1, n1⟩ | ⟨rfl, rfl⟩
    · rcases World.mem_move.mp h2 with ⟨m2, -⟩ | ⟨-, rfl⟩
      · exact h.one v e e' m1 m2
      · exact absurd ⟨h.one v e d m1 hm, rfl⟩ n1
    · rcases World.mem_move.mp h2 with ⟨m2, n2⟩ | ⟨he', -⟩
      · exact absurd ⟨h.one v e' d m2 hm, rfl⟩ n2
      · exact he'.symm
  case preparing =>
    intro v p hc hd hm'
    rw [hcreator] at hc
    rw [hdead] at hd
    rw [World.move_holds]
    rcases World.mem_move.mp hm' with ⟨hm', -⟩ | ⟨he, rfl⟩
    · exact h.preparing v p hc hd hm'
    · obtain ⟨hcq, hq⟩ := hok.toPrepare he.symm
      rw [hc] at hcq
      cases hcq
      exact hq
  case past =>
    intro v p hr
    rcases World.move_runner_cases hr with hr | ⟨rfl, rfl, -⟩
    · exact move_past hm hok (h.past v p hr)
    · refine ⟨by rw [hcreator]; exact hcreated, fun e he hm' => ?_⟩
      rcases World.mem_move.mp hm' with ⟨m, n⟩ | ⟨rfl, -⟩
      · exact n ⟨h.one v e d m hm, rfl⟩
      · simp [Dir.rank] at he
  case running =>
    intro v p hr hd
    rw [hdead] at hd
    rw [World.move_holds]
    rcases World.move_runner_cases hr with hrun | ⟨rfl, rfl, rfl⟩
    · obtain ⟨hm', hh⟩ := h.running v p hrun hd
      refine ⟨World.mem_move.mpr (.inl ⟨hm', ?_⟩), hh⟩
      rintro ⟨-, rfl⟩
      exact hd (runnerGone_of_move h hm hok p hrun)
    · exact ⟨World.mem_move.mpr (.inr ⟨rfl, rfl⟩), (hok.toRun rfl).2.1⟩
  case ran =>
    intro v p hx
    rw [hran] at hx
    exact move_keeps_runner h hm hok (h.ran v p hx)
  case ranOnce =>
    rw [hran]
    exact h.ranOnce

theorem move_collects {v : UUID} (hv : Collects s (s.move q d d' u) v) :
    s.RunnerGone v ∧ (v ∈ s.dirs .prepare → s.CreatorGone v) := by
  rcases hv with ⟨e, he, h1, h2⟩ | ⟨⟨e, h1⟩, h2⟩ | hf
  · rcases World.mem_move.mp h2 with ⟨m, -⟩ | ⟨rfl, rfl⟩
    · exact absurd m h1
    · refine ⟨runnerGone_of_move h hm hok, fun hp => ?_⟩
      have hd := h.one v _ _ hm hp
      subst hd
      rcases he with rfl | rfl
      · exact absurd (hok.toExited rfl) (by decide)
      · exact hok.toGarbage rfl rfl
  · -- the pod is still somewhere
    by_cases hvu : v = u
    · subst hvu
      exact absurd (World.mem_move.mpr (.inr ⟨rfl, rfl⟩)) (h2 d')
    · exact absurd (World.mem_move.mpr (.inl ⟨h1, fun hx => hvu hx.2⟩)) (h2 e)
  · rw [World.move_frame.2.1] at hf
    exact absurd (Finset.Subset.refl _) hf

theorem move_guar : Guar q s (s.move q d d' u) := by
  have hg := Guar.refl q s
  obtain ⟨hlock, -, hdead, hdrawn, hcreator, hran⟩ := @World.move_frame s u d d' q
  constructor
  case dead => rw [hdead]
  case killed =>
    rw [hdead]
    exact hg.killed
  case drawn =>
    rw [hdrawn]
    exact hg.drawn
  case creator =>
    rw [hcreator]
    exact hg.creator
  case created =>
    rw [hcreator]
    exact hg.created
  case runner => exact fun v p => move_keeps_runner h hm hok
  case entered =>
    intro v p hr hr'
    rcases World.move_runner_cases hr' with hr' | ⟨hd', rfl, rfl⟩
    · rw [hr] at hr'
      cases hr'
    · obtain ⟨ha, hh, hrk⟩ := hok.toRun hd'
      exact ⟨rfl, fun hp => hp.2 d hrk hm, ha, hh⟩
  case enters =>
    intro v hm' hm''
    rcases World.mem_move.mp hm'' with ⟨m, -⟩ | ⟨he, rfl⟩
    · exact absurd m hm'
    · exact ⟨runner_none_of_move h hm hok he.symm, by
        rw [World.move_runner, if_pos ⟨he.symm, rfl⟩]⟩
  case past => exact fun v e => move_past hm hok
  case lock =>
    rw [hlock]
    exact hg.lock
  case ran =>
    rw [hran]
    exact hg.ran
  case collects => exact fun v => move_collects h hm hok

theorem move_ok : Inv (s.move q d d' u) ∧ Guar q s (s.move q d d' u) :=
  ⟨move_inv h hm hok, move_guar h hm hok⟩

end move

/-- Recording that `xToRun` returned, by the process that renamed the pod. -/
theorem ran_ok (h : Inv s) (hr : s.runner u = some q) (hu : u ∉ s.ran.map Prod.fst) :
    Inv { s with ran := (u, q) :: s.ran } ∧ Guar q s { s with ran := (u, q) :: s.ran } := by
  have hg := Guar.refl q s
  refine ⟨{ h with ran := ?_, ranOnce := ?_ }, { hg with ran := ?_ }⟩
  · intro v p hx
    rcases List.mem_cons.mp hx with hx | hx
    · cases hx
      exact hr
    · exact h.ran v p hx
  · rw [List.map_cons]
    exact List.nodup_cons.mpr ⟨hu, h.ranOnce⟩
  · intro x hx
    rcases List.mem_cons.mp hx with rfl | hx
    · exact .inr rfl
    · exact .inl hx

/-- The death of a process: it was asked for its locks only as long as it lived. -/
theorem die_ok (h : Inv s) : Inv (s.die q) ∧ Guar q s (s.die q) := by
  have hg := Guar.refl q s
  have keep : ∀ v fd, s.lock v = .excl fd → fd.pid ≠ q → (s.die q).lock v = .excl fd := by
    intro v fd hl hp
    show (s.lock v).release _ = _
    rw [hl]
    exact Flock.release_excl (by simpa using hp)
  have hold : ∀ v p, s.Holds p v → p ∉ (s.die q).dead → (s.die q).Holds p v := by
    rintro v p ⟨fd, hl, rfl⟩ hd
    refine ⟨fd, keep v fd hl ?_, rfl⟩
    intro hp
    exact hd (Finset.mem_insert.mpr (.inl hp))
  have alive : ∀ p, p ∉ (s.die q).dead → p ∉ s.dead :=
    fun p hd hp => hd (Finset.mem_insert_of_mem hp)
  constructor
  · refine { h with preparing := ?_, running := ?_ }
    · intro v p hc hd hm
      exact hold v p (h.preparing v p hc (alive p hd) hm) hd
    · intro v p hr hd
      obtain ⟨hm, hh⟩ := h.running v p hr (alive p hd)
      exact ⟨hm, hold v p hh hd⟩
  · refine { hg with dead := Finset.subset_insert _ _, killed := ?_, lock := keep }
    intro p hp
    rcases Finset.mem_insert.mp hp with rfl | hp
    · exact .inr rfl
    · exact .inl hp

end ops

/-- **The protocol of the pods directory.** -/
def podProto : Proto podMachine where
  inv := Inv
  guar := Guar
  inv_die := fun _ _ h => (die_ok h).1
  guar_die := fun _ _ h => (die_ok h).2

end Rkt.Pods
