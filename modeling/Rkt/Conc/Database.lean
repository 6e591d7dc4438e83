import Rkt.Conc.Proto

set_option autoImplicit false

namespace Conc

/-- The operations on a database, with `O` the other operations and `Q` the statements. -/
inductive DbOp (O Q : Type) where
  | base (o : O)
  | acquire
  | begin
  | stmt (o : Q)
  | commit
  | rollback
  | release
  deriving DecidableEq

def DbOp.Res (S T : Sig) : DbOp S.Op T.Op → Type
  | .base o => S.Res o
  | .stmt o => T.Res o
  | .acquire | .begin | .commit => Bool
  | .rollback | .release => Unit

abbrev dbSig (S T : Sig) : Sig := ⟨DbOp S.Op T.Op, DbOp.Res S T⟩

/-- The rest of the state, the committed database, who holds the lock, and the working copies
of the open transactions. -/
structure DbState (σ D : Type) where
  core : σ
  db : D
  owner : Option Pid
  work : Pid → Option D

variable {S T : Sig} {σ D α : Type}

namespace DbState

def setWork (s : DbState σ D) (p : Pid) (w : Option D) : DbState σ D :=
  { s with work := Function.update s.work p w }

end DbState

/-- What an operation of process `p` does; `run` says what statements do. -/
def dbNext (N : Machine S σ) (run : (o : T.Op) → T.Res o → D → Option D) (p : Pid) :
    (o : DbOp S.Op T.Op) → DbOp.Res S T o → DbState σ D → Option (DbState σ D)
  | .base o, r, s => (N.next p o r s.core).map fun c => { s with core := c }
  | .acquire, (r : Bool), s =>
    if r then
      match s.owner with
      | none => some { s with owner := some p }
      | some _ => none
    else some s
  | .begin, (r : Bool), s => some (if r then s.setWork p (some s.db) else s)
  | .stmt o, r, s =>
    match s.work p with
    | some w => (run o r w).map fun w' => s.setWork p (some w')
    | none => none
  | .commit, (r : Bool), s =>
    match s.work p with
    | some w => some { s.setWork p none with db := if r then w else s.db }
    | none => none
  | .rollback, _, s => some (s.setWork p none)
  | .release, _, s => some (if s.owner = some p then { s with owner := none } else s)

theorem dbNext_stmt_congr {N : Machine S σ} {run run' : (o : T.Op) → T.Res o → D → Option D}
    {p : Pid} {o : T.Op} {r : T.Res o} {s : DbState σ D} (h : ∀ w, run o r w = run' o r w) :
    dbNext N run p (.stmt o) r s = dbNext N run' p (.stmt o) r s := by
  simp only [dbNext, h]

/-- The machine with the database. The death of a process ends its transaction and gives up
its lock. -/
def dbMachine (N : Machine S σ) (run : (o : T.Op) → T.Res o → D → Option D) :
    Machine (dbSig S T) (DbState σ D) where
  next := dbNext N run
  die p s :=
    { s.setWork p none with
      core := N.die p s.core
      owner := if s.owner = some p then none else s.owner }

/-- A transaction's statements, as a part of a program of the whole machine. -/
def Prog.stmts : Prog T α → Prog (dbSig S T) α
  | .ret a => .ret a
  | .op o k => .op (.stmt o) fun r => (k r).stmts

/-- An invariant and guarantees that do not look into transactions. -/
structure DbProto (N : Machine S σ) (D : Type) where
  inv : σ → D → Prop
  guar : Pid → σ → D → σ → D → Prop
  refl : ∀ p c d, guar p c d c d
  inv_die : ∀ p c d, inv c d → inv (N.die p c) d
  guar_die : ∀ p c d, inv c d → guar p c d (N.die p c) d

namespace DbProto

variable {N : Machine S σ} {run : (o : T.Op) → T.Res o → D → Option D}
  {M : Machine (dbSig S T) (DbState σ D)}

/-- The protocol with transactions: only who holds the lock has one, and nobody touches the
database of the one who holds the lock. -/
def proto (P : DbProto N D) (hM : M.Sub (dbMachine N run)) : Proto M where
  inv s := P.inv s.core s.db ∧ ∀ p w, s.work p = some w → s.owner = some p
  guar q s s' := P.guar q s.core s.db s'.core s'.db ∧
    ∀ p, p ≠ q → s'.work p = s.work p ∧ (s.owner = some p → s'.owner = some p ∧ s'.db = s.db)
  inv_die p s := by
    rintro ⟨hi, hw⟩
    rw [hM.die]
    refine ⟨P.inv_die p _ _ hi, fun q w h => ?_⟩
    by_cases hq : q = p
    · subst hq
      simp [dbMachine, DbState.setWork] at h
    · have hown : s.owner = some q := hw q w (by simpa [dbMachine, DbState.setWork, hq] using h)
      simp [dbMachine, hown, hq]
  guar_die p s := by
    rintro ⟨hi, hw⟩
    rw [hM.die]
    refine ⟨P.guar_die p _ _ hi, fun q hq => ⟨?_, fun hown => ⟨?_, rfl⟩⟩⟩
    · simp [dbMachine, DbState.setWork, hq]
    · simp [dbMachine, hown, hq]

def Stable (P : DbProto N D) (p : Pid) (A : σ → D → Prop) : Prop :=
  ∀ q c d c' d', q ≠ p → P.inv c d → P.inv c' d' → P.guar q c d c' d' → A c d → A c' d'

def Lasting (P : DbProto N D) (A : σ → D → Prop) : Prop :=
  ∀ q c d c' d', P.inv c d → P.inv c' d' → P.guar q c d c' d' → A c d → A c' d'

/-- Outside of a transaction; with `own`, the process holds the lock. -/
def Idle (p : Pid) (own : Bool) (A : σ → D → Prop) (s : DbState σ D) : Prop :=
  s.work p = none ∧ (own = true → s.owner = some p) ∧ A s.core s.db

/-- In a transaction that began with `d` and has come to `w`. -/
def InTx (p : Pid) (d w : D) (A : σ → D → Prop) (s : DbState σ D) : Prop :=
  s.work p = some w ∧ s.owner = some p ∧ s.db = d ∧ A s.core d

variable {P : DbProto N D} {hM : M.Sub (dbMachine N run)} {p : Pid} {own : Bool}
  {A : σ → D → Prop} {d w : D}

theorem Lasting.stable (h : P.Lasting A) : P.Stable p A :=
  fun q c d c' d' _ hi hi' hg hA => h q c d c' d' hi hi' hg hA

theorem Idle.forget {s : DbState σ D} (h : Idle p own A s) : Idle p false A s :=
  ⟨h.1, by simp, h.2.2⟩

theorem Stable.idle (h : P.Stable p A) : (P.proto hM).Stable p (Idle p own A) := by
  rintro q s s' hq ⟨hi, -⟩ ⟨hi', -⟩ ⟨hg, hframe⟩ ⟨hw, hown, hA⟩
  obtain ⟨hw', hown'⟩ := hframe p (Ne.symm hq)
  exact ⟨hw'.trans hw, fun ho => (hown' (hown ho)).1, h q _ _ _ _ hq hi hi' hg hA⟩

theorem Stable.inTx (h : P.Stable p A) : (P.proto hM).Stable p (InTx p d w A) := by
  rintro q s s' hq ⟨hi, -⟩ ⟨hi', -⟩ ⟨hg, hframe⟩ ⟨hw, hown, hd, hA⟩
  obtain ⟨hw', hown'⟩ := hframe p (Ne.symm hq)
  obtain ⟨hown', hd'⟩ := hown' hown
  refine ⟨hw'.trans hw, hown', hd'.trans hd, ?_⟩
  subst hd
  rw [← hd']
  exact h q _ _ _ _ hq hi hi' hg hA

theorem Lasting.lift (h : P.Lasting A) : (P.proto hM).Lasting (fun s => A s.core s.db) :=
  fun q _ _ hi hi' hg hA => h q _ _ _ _ hi.1 hi'.1 hg.1 hA

theorem guar_refl (s : DbState σ D) : (P.proto hM).guar p s s :=
  ⟨P.refl _ _ _, fun _ _ => ⟨rfl, fun ho => ⟨ho, rfl⟩⟩⟩

/-- An operation on the core state, of which the machine `M` may know more than `N`. -/
theorem base_triple_of {o : S.Op} {Q : S.Res o → σ → D → Prop} (hA : P.Stable p A)
    (h : ∀ s s' c' r, M.next p (.base o) r s = some s' → P.inv s.core s.db → A s.core s.db →
      N.next p o r s.core = some c' → P.inv c' s.db ∧ P.guar p s.core s.db c' s.db ∧ Q r c' s.db) :
    (P.proto hM).Triple p (Idle p own A) (Prog.call (S := dbSig S T) (.base o))
      (fun r => Idle p own (Q r)) := by
  refine Proto.Triple.call hA.idle fun s r s' ⟨hi, hw⟩ ⟨hnone, hown, hA⟩ hn => ?_
  obtain ⟨c, hc, rfl⟩ := Option.map_eq_some_iff.mp (hM.next hn)
  obtain ⟨hi', hg, hQ⟩ := h s _ c r hn hi hA hc
  exact ⟨⟨hi', hw⟩, ⟨hg, fun q _ => ⟨rfl, fun ho => ⟨ho, rfl⟩⟩⟩, hnone, hown, hQ⟩

theorem base_triple {o : S.Op} {Q : S.Res o → σ → D → Prop} (hA : P.Stable p A)
    (h : ∀ c d r c', P.inv c d → A c d → N.next p o r c = some c' →
      P.inv c' d ∧ P.guar p c d c' d ∧ Q r c' d) :
    (P.proto hM).Triple p (Idle p own A) (Prog.call (S := dbSig S T) (.base o))
      (fun r => Idle p own (Q r)) :=
  base_triple_of hA fun s _ c' r _ hi hA hn => h s.core s.db r c' hi hA hn

theorem acquire_triple (hA : P.Stable p A) :
    (P.proto hM).Triple p (Idle p false A) (Prog.call (S := dbSig S T) .acquire)
      (fun r => Idle p r A) := by
  refine Proto.Triple.call hA.idle fun s r s' ⟨hi, hw⟩ ⟨hnone, _, hA⟩ hn => ?_
  have hn' : dbNext N run p .acquire r s = some s' := hM.next hn
  cases r with
  | false =>
    cases hn'
    exact ⟨⟨hi, hw⟩, guar_refl s, hnone, by simp, hA⟩
  | true =>
    cases hfree : s.owner with
    | some q => simp [dbNext, hfree] at hn'
    | none =>
      have hs' : s' = { s with owner := some p } := by
        simpa [dbNext, hfree] using hn'.symm
      subst hs'
      refine ⟨⟨hi, fun q w hq => ?_⟩, ⟨P.refl _ _ _, fun q _ => ⟨rfl, fun ho => ?_⟩⟩,
        hnone, fun _ => rfl, hA⟩
      · rw [hw q w hq] at hfree
        cases hfree
      · rw [ho] at hfree
        cases hfree

theorem release_triple (hA : P.Stable p A) :
    (P.proto hM).Triple p (Idle p true A) (Prog.call (S := dbSig S T) .release)
      (fun _ => Idle p false A) := by
  refine Proto.Triple.call hA.idle fun s r s' ⟨hi, hw⟩ ⟨hnone, hown, hA⟩ hn => ?_
  have hs' : s' = { s with owner := none } := by
    simpa [dbMachine, dbNext, hown rfl] using (hM.next hn).symm
  subst hs'
  refine ⟨⟨hi, fun q w hq => ?_⟩, ⟨P.refl _ _ _, fun q hq => ⟨rfl, fun ho => ?_⟩⟩,
    hnone, by simp, hA⟩
  · -- a transaction of the owner would be one of `p`
    have ho := hw q w hq
    rw [hown rfl] at ho
    cases ho
    rw [hnone] at hq
    cases hq
  · rw [hown rfl] at ho
    cases ho
    exact absurd rfl hq

/-- A change of one's own working copy, while one holds the lock. -/
theorem setWork_ok {s : DbState σ D} {w : Option D} (hi : (P.proto hM).inv s)
    (hown : s.owner = some p) :
    (P.proto hM).inv (s.setWork p w) ∧ (P.proto hM).guar p s (s.setWork p w) := by
  refine ⟨⟨hi.1, fun q w' hq => ?_⟩, P.refl _ _ _, fun q hq => ⟨?_, fun ho => ⟨ho, rfl⟩⟩⟩
  · by_cases hqp : q = p
    · subst hqp
      exact hown
    · exact hi.2 q w' (by simpa [DbState.setWork, hqp] using hq)
  · simp [DbState.setWork, hq]

theorem begin_triple (hA : P.Stable p A) :
    (P.proto hM).Triple p (Idle p true A) (Prog.call (S := dbSig S T) .begin)
      (fun (r : Bool) s => if r = true then ∃ d, InTx p d d A s else Idle p true A s) := by
  refine Proto.Triple.call hA.idle fun s r s' hi ⟨hnone, hown, hA⟩ hn => ?_
  have hn' : dbNext N run p .begin r s = some s' := hM.next hn
  cases r with
  | false =>
    cases hn'
    exact ⟨hi, guar_refl s, hnone, hown, hA⟩
  | true =>
    cases hn'
    obtain ⟨hi', hg⟩ := setWork_ok (w := some s.db) hi (hown rfl)
    exact ⟨hi', hg, s.db, by simp [DbState.setWork], hown rfl, rfl, hA⟩

/-- The statements of a transaction change its working copy, and nothing else. -/
theorem stmts_triple (hA : P.Stable p A) (x : Prog T α) (w : D) :
    (P.proto hM).Triple p (InTx p d w A) (x.stmts (S := S))
      (fun a s => ∃ w', Prog.Runs run x w a w' ∧ InTx p d w' A s) := by
  induction x generalizing w with
  | ret a => exact fun s h => ⟨w, ⟨rfl, rfl⟩, h⟩
  | op o k ih =>
    have hop : (P.proto hM).Triple p (InTx p d w A) (Prog.call (S := dbSig S T) (.stmt o))
        (fun r s => ∃ w1, run o r w = some w1 ∧ InTx p d w1 A s) := by
      refine Proto.Triple.call hA.inTx fun s r s' hi ⟨hw, hown, hd, hA⟩ hn => ?_
      have hn' : (run o r w).map (fun w' => s.setWork p (some w')) = some s' := by
        simpa [dbMachine, dbNext, hw] using hM.next hn
      obtain ⟨w1, hrun, rfl⟩ := Option.map_eq_some_iff.mp hn'
      obtain ⟨hi', hg⟩ := setWork_ok (w := some w1) hi hown
      refine ⟨hi', hg, w1, hrun, ?_, hown, hd, hA⟩
      simp [DbState.setWork]
    refine hop.bind fun r s ⟨w1, hrun, hs⟩ => ?_
    refine (ih r w1).post (fun a s ⟨w', hw', h⟩ => ⟨w', ⟨r, w1, hrun, hw'⟩, h⟩) s hs

theorem rollback_triple (hA : P.Stable p A) :
    (P.proto hM).Triple p (InTx p d w A) (Prog.call (S := dbSig S T) .rollback)
      (fun _ => Idle p true A) := by
  refine Proto.Triple.call hA.inTx fun s r s' hi ⟨hw, hown, hd, hA⟩ hn => ?_
  have hs' : s' = s.setWork p none := (Option.some.inj (hM.next hn)).symm
  subst hs' hd
  obtain ⟨hi', hg⟩ := setWork_ok (w := none) hi hown
  exact ⟨hi', hg, by simp [DbState.setWork], fun _ => hown, hA⟩

/-- Committing a transaction. The database is replaced, or the commit fails. -/
theorem commit_triple {Q : Bool → σ → D → Prop} (hA : P.Stable p A)
    (hcommit : ∀ s s', s.work p = some w → s.db = d → M.next p .commit true s = some s' →
      P.inv s.core d → A s.core d → P.inv s.core w ∧ P.guar p s.core d s.core w ∧ Q true s.core w)
    (hfail : ∀ s s', s.work p = some w → s.db = d → M.next p .commit false s = some s' →
      P.inv s.core d → A s.core d → Q false s.core d) :
    (P.proto hM).Triple p (InTx p d w A) (Prog.call (S := dbSig S T) .commit)
      (fun r => Idle p true (Q r)) := by
  refine Proto.Triple.call hA.inTx fun s r s' hi ⟨hw, hown, hd, hA⟩ hn => ?_
  subst hd
  have hn' : dbNext N run p .commit r s = some s' := hM.next hn
  obtain ⟨⟨hi1, hw1⟩, hg1, hframe⟩ := setWork_ok (w := none) hi hown
  have hnone : (s.setWork p none).work p = none := by simp [DbState.setWork]
  simp only [dbNext, hw, Option.some.injEq] at hn'
  cases r with
  | false =>
    subst hn'
    exact ⟨⟨hi1, hw1⟩, ⟨hg1, hframe⟩, hnone, fun _ => hown, hfail s _ hw rfl hn hi.1 hA⟩
  | true =>
    obtain ⟨hi2, hg2, hQ⟩ := hcommit s s' hw rfl hn hi.1 hA
    subst hn'
    refine ⟨⟨hi2, hw1⟩, ⟨hg2, fun q hq => ⟨(hframe q hq).1, fun ho => ?_⟩⟩,
      hnone, fun _ => hown, hQ⟩
    rw [hown] at ho
    cases ho
    exact absurd rfl hq

end DbProto

end Conc
