import Rkt.Conc.Calls
import Rkt.Store.Do

set_option autoImplicit false

namespace Rkt.Store

open Conc Proto

def faultless : (o : DbOp Op Stmt) → DbOp.Res coreSig stmtSig o → Bool
  | .base .sqlOpen, (r : Bool) => r
  | .base .sqlClose, (r : Bool) => r
  | _, _ => true

/-- The store, as long as the two do not fail for `p`. -/
def faultlessMachine (p : Pid) : Machine (dbSig coreSig stmtSig) (DbState Core Database) :=
  storeMachine.restrict fun q o r _ => q = p → faultless o r = true

/-- The `DB` struct of `p` has the fields `h`, and with `own`, `p` holds the lock; without, it does
not. -/
def Has (p : Pid) (h : Handle) (own : Bool) (s : DbState Core Database) : Prop :=
  s.core.handle p = h ∧ (s.owner = some p ↔ own = true)

variable {p q : Pid}

/-- Most operations touch neither the structs nor the record of panics. -/
theorem next_keeps {o : Op} {r : o.Res} {c c' : Core} (hset : ∀ h, o ≠ .setHandle h)
    (hpanic : o ≠ .panic) (h : next q o r c = some c') :
    c'.handle = c.handle ∧ c'.panicked = c.panicked := by
  cases o with
  | setHandle h' => exact absurd rfl (hset h')
  | panic => exact absurd rfl hpanic
  | erase store key =>
    simp only [next] at h
    split_ifs at h
    · cases store <;> simp only [Core.erase] at h <;> split_ifs at h <;> cases h <;>
        exact ⟨rfl, rfl⟩
    · cases h
      exact ⟨rfl, rfl⟩
  | handle | lockImage | shareImage | lockStore | readManifest | parseURL | checkSignature =>
    simp only [next] at h
    repeat' split at h
    all_goals first
      | cases h; exact ⟨rfl, rfl⟩
      | cases h
  | closeImage | newStoreLock | importBlob | writeManifest | returned =>
    cases h
    split_ifs <;> exact ⟨rfl, rfl⟩
  | sqlOpen | sqlClose | closeShared | createBackup | aside | now | httpGet | openFile | convert
  | trustKeys | storing | stored | opened | dropped | halted =>
    cases h
    exact ⟨rfl, rfl⟩

variable {o : DbOp Op Stmt} {α : Type}

/-- What another process does leaves the struct of `p` alone, and its hold of the lock. -/
theorem other_next {r : DbOp.Res coreSig stmtSig o}
    {s s' : DbState Core Database} (hq : q ≠ p) (h : storeMachine.next q o r s = some s') :
    s'.core.handle p = s.core.handle p ∧ (s'.owner = some p ↔ s.owner = some p) ∧
      (p ∈ s'.core.panicked → p ∈ s.core.panicked) := by
  cases o with
  | base o =>
    obtain ⟨c, hc, rfl⟩ := Option.map_eq_some_iff.mp h
    by_cases hset : ∃ h, o = .setHandle h
    · obtain ⟨h', rfl⟩ := hset
      cases hc
      exact ⟨Function.update_of_ne (Ne.symm hq) _ _, Iff.rfl, id⟩
    · by_cases hpanic : o = .panic
      · subst hpanic
        cases hc
        refine ⟨rfl, Iff.rfl, fun hp => ?_⟩
        exact (List.mem_cons.mp hp).resolve_left (Ne.symm hq)
      · obtain ⟨hh, hp⟩ := next_keeps (fun h' heq => hset ⟨h', heq⟩) hpanic hc
        exact ⟨congrFun hh p, Iff.rfl, fun hmem => hp ▸ hmem⟩
  | acquire =>
    simp only [storeMachine, dbMachine, dbNext] at h
    split_ifs at h
    · split at h
      · rename_i hfree
        cases h
        refine ⟨rfl, ?_, id⟩
        simp [hfree, hq]
      · cases h
    · cases h
      exact ⟨rfl, Iff.rfl, id⟩
  | release =>
    simp only [storeMachine, dbMachine, dbNext, Option.some.injEq] at h
    subst h
    split_ifs with hown
    · refine ⟨rfl, ?_, id⟩
      simp [hown, hq]
    · exact ⟨rfl, Iff.rfl, id⟩
  | begin =>
    cases h
    split_ifs <;> exact ⟨rfl, Iff.rfl, id⟩
  | stmt o =>
    simp only [storeMachine, dbMachine, dbNext] at h
    split at h
    · obtain ⟨w, -, rfl⟩ := Option.map_eq_some_iff.mp h
      exact ⟨rfl, Iff.rfl, id⟩
    · cases h
  | commit =>
    simp only [storeMachine, dbMachine, dbNext] at h
    split at h
    · cases h
      exact ⟨rfl, Iff.rfl, id⟩
    · cases h
  | rollback =>
    cases h
    exact ⟨rfl, Iff.rfl, id⟩

/-- `p` does not panic, and nobody else touches its struct or its hold of the lock. -/
def handleProto (p : Pid) : Proto (faultlessMachine p) where
  inv s := p ∉ s.core.panicked
  guar q s s' := q ≠ p →
    s'.core.handle p = s.core.handle p ∧ (s'.owner = some p ↔ s.owner = some p)
  inv_die _ _ h := h
  guar_die q s _ hq := by
    refine ⟨Function.update_of_ne (Ne.symm hq) _ _, ?_⟩
    show (if s.owner = some q then none else s.owner) = some p ↔ s.owner = some p
    split_ifs with hown
    · simp [hown, hq]
    · exact Iff.rfl

theorem others_safe (hq : q ≠ p) (x : StoreProg Unit) (s : DbState Core Database) :
    (handleProto p).Safe q x (fun _ _ => True) s := by
  induction x generalizing s with
  | ret a => trivial
  | op o k ih =>
    intro s1 _ hi r s' hn
    obtain ⟨hhandle, hown, hpanicked⟩ := other_next hq (Machine.restrict_next hn).2
    exact ⟨fun hp => hi (hpanicked hp), fun _ => ⟨hhandle, hown⟩, ih r s'⟩

variable {h : Handle} {own : Bool}

theorem has_stable : (handleProto p).Stable p (Has p h own) := by
  intro q s s' hq _ _ hg hs
  obtain ⟨hhandle, hown⟩ := hg hq
  exact ⟨hhandle.trans hs.1, hown.trans hs.2⟩

theorem own_triple {Q : DbOp.Res coreSig stmtSig o → DbState Core Database → Prop}
    (hop : ∀ s r s', Has p h own s → faultless o r = true → storeMachine.next p o r s = some s' →
      s'.core.panicked = s.core.panicked ∧ Q r s') :
    (handleProto p).Triple p (Has p h own) (Prog.call (S := dbSig coreSig stmtSig) o) Q := by
  refine Triple.call has_stable fun s r s' hi hs hn => ?_
  obtain ⟨hok, hn⟩ := Machine.restrict_next hn
  obtain ⟨hpanicked, hQ⟩ := hop s r s' hs (hok rfl) hn
  refine ⟨?_, fun hne => absurd rfl hne, hQ⟩
  show p ∉ s'.core.panicked
  rwa [hpanicked]

theorem sys_triple {o : Op} (hset : ∀ h, o ≠ .setHandle h) (hpanic : o ≠ .panic) :
    (handleProto p).Triple p (Has p h own) (sys o)
      fun r s => Has p h own s ∧ faultless (.base o) r = true := by
  refine own_triple fun s r s' hs hok hn => ?_
  obtain ⟨c, hc, rfl⟩ := Option.map_eq_some_iff.mp hn
  obtain ⟨hh, hp⟩ := next_keeps hset hpanic hc
  exact ⟨hp, ⟨(congrFun hh p).trans hs.1, hs.2⟩, hok⟩

theorem handle_triple : (handleProto p).Triple p (Has p h own) (sys .handle)
    fun r s => Has p h own s ∧ r = h := by
  refine own_triple fun s (r : Handle) s' hs _ hn => ?_
  obtain ⟨c, hc, rfl⟩ := Option.map_eq_some_iff.mp hn
  simp only [coreMachine, next] at hc
  split_ifs at hc with hr
  cases hc
  exact ⟨rfl, hs, hr.trans hs.1⟩

theorem setHandle_triple (h' : Handle) : (handleProto p).Triple p (Has p h own)
    (sys (.setHandle h')) fun _ => Has p h' own := by
  refine own_triple fun s r s' hs _ hn => ?_
  cases hn
  exact ⟨rfl, Function.update_self _ _ _, hs.2⟩

theorem acquire_has : (handleProto p).Triple p (Has p h false) acquire fun ok => Has p h ok := by
  refine own_triple fun s (r : Bool) s' hs _ hn => ?_
  cases r with
  | false =>
    cases hn
    exact ⟨rfl, hs⟩
  | true =>
    simp only [storeMachine, dbMachine, dbNext, if_true] at hn
    split at hn
    · cases hn
      exact ⟨rfl, hs.1, by simp⟩
    · cases hn

theorem release_has : (handleProto p).Triple p (Has p h true) release fun _ => Has p h false := by
  refine own_triple fun s r s' hs _ hn => ?_
  have hown : s.owner = some p := hs.2.mpr rfl
  simp only [storeMachine, dbMachine, dbNext, hown, if_true, Option.some.injEq] at hn
  subst hn
  exact ⟨rfl, hs.1, by simp⟩

theorem tx_has (ho : o = .begin ∨ o = .commit ∨ o = .rollback ∨ ∃ q, o = .stmt q) :
    (handleProto p).Triple p (Has p h own) (Prog.call (S := dbSig coreSig stmtSig) o)
      fun _ => Has p h own := by
  refine own_triple fun s r s' hs _ hn => ?_
  have hkeep : s'.core = s.core ∧ s'.owner = s.owner := by
    rcases ho with rfl | rfl | rfl | ⟨q, rfl⟩
    · cases hn
      split_ifs <;> exact ⟨rfl, rfl⟩
    · simp only [storeMachine, dbMachine, dbNext] at hn
      split at hn <;> cases hn
      exact ⟨rfl, rfl⟩
    · cases hn
      exact ⟨rfl, rfl⟩
    · simp only [storeMachine, dbMachine, dbNext] at hn
      split at hn
      · obtain ⟨w, -, rfl⟩ := Option.map_eq_some_iff.mp hn
        exact ⟨rfl, rfl⟩
      · cases hn
  obtain ⟨hcore, howner⟩ := hkeep
  unfold Has
  rw [hcore, howner]
  exact ⟨rfl, hs⟩

/-- Both fields are nil, and the lock is not taken. -/
abbrev Released (p : Pid) : DbState Core Database → Prop := Has p ⟨false, false⟩ false

theorem dbOpen_has : (handleProto p).Triple p (Released p) dbOpen
    (Result (Released p) fun _ => Has p ⟨true, true⟩ true) := by
  refine handle_triple.bind fun h' => Triple.given ?_
  rintro rfl
  refine Triple.ite (fun hlock => absurd hlock (by decide)) fun _ => ?_
  refine acquire_has.bind fun ok => ?_
  cases ok with
  | false => exact Triple.ret fun _ hs => hs
  | true =>
    refine (setHandle_triple _).bind fun _ => ?_
    refine (sys_triple (o := .sqlOpen) nofun nofun).bind fun (opened : Bool) => Triple.given ?_
    intro hopened
    refine Triple.ite (fun _ => ?_) fun hfailed => absurd hopened hfailed
    exact (setHandle_triple _).bind fun _ => Triple.ret fun _ hs => hs

theorem dbClose_has : (handleProto p).Triple p (Has p ⟨true, true⟩ true) dbClose
    fun _ => Released p := by
  refine handle_triple.bind fun h' => Triple.given ?_
  rintro rfl
  refine Triple.ite (fun hlock => absurd hlock (by decide)) fun _ => ?_
  refine Triple.ite (fun hsqldb => absurd hsqldb (by decide)) fun _ => ?_
  refine (sys_triple (o := .sqlClose) nofun nofun).bind fun (closed : Bool) => Triple.given ?_
  intro hclosed
  refine Triple.ite (fun _ => ?_) fun hfailed => absurd hclosed hfailed
  refine (setHandle_triple _).bind fun _ => ?_
  refine release_has.bind fun _ => ?_
  exact (setHandle_triple _).bind fun _ => Triple.ret fun _ hs => hs

theorem stmts_has (fn : TxProg α) : (handleProto p).Triple p (Has p h own)
    (fn.stmts (S := coreSig)) fun _ => Has p h own := by
  induction fn with
  | ret a => exact Triple.ret fun _ hs => hs
  | op o k ih => exact (tx_has (.inr (.inr (.inr ⟨o, rfl⟩)))).bind ih

theorem dbDoTx_has (fn : TxProg (Except Err α)) :
    (handleProto p).Triple p (Has p h own) (dbDoTx fn) fun _ => Has p h own := by
  refine (tx_has (o := .begin) (.inl rfl)).bind fun (ok : Bool) => ?_
  cases ok with
  | false => exact Triple.ret fun _ hs => hs
  | true =>
    refine (stmts_has fn).bind fun r => ?_
    match r with
    | .error e =>
      refine (tx_has (o := .rollback) (.inr (.inr (.inl rfl)))).bind fun _ => ?_
      exact Triple.ret fun _ hs => hs
    | .ok a =>
      exact (tx_has (o := .commit) (.inr (.inl rfl))).bind fun _ => Triple.ret fun _ hs => hs

theorem dbDoTxAll_has (fns : List TxFunc) : (handleProto p).Triple p (Has p h own)
    (dbDoTxAll fns) fun _ => Has p h own := by
  have hfns : (handleProto p).Triple p (Has p h own) (doFns fns) fun _ => Has p h own := by
    induction fns with
    | nil => exact (tx_has (o := .commit) (.inr (.inl rfl))).bind fun _ => Triple.ret fun _ hs => hs
    | cons fn fns ih =>
      refine (stmts_has fn).bind fun r => ?_
      match r with
      | .error e =>
        refine (tx_has (o := .rollback) (.inr (.inr (.inl rfl)))).bind fun _ => ?_
        exact Triple.ret fun _ hs => hs
      | .ok () => exact ih
  refine (tx_has (o := .begin) (.inl rfl)).bind fun (ok : Bool) => ?_
  cases ok with
  | false => exact Triple.ret fun _ hs => hs
  | true => exact hfns

theorem dbDoAll_has (fns : List TxFunc) :
    (handleProto p).Triple p (Released p) (dbDoAll fns) fun _ => Released p := by
  refine Triple.onResult dbOpen_has (fun _ => ?_) fun e => Triple.ret fun _ hs => hs
  refine (dbDoTxAll_has fns).bind fun r => ?_
  exact dbClose_has.bind fun _ => Triple.ret fun _ hs => hs

theorem dbDo_has (fn : TxProg (Except Err α)) :
    (handleProto p).Triple p (Released p) (dbDo fn) fun _ => Released p := by
  refine Triple.onResult dbOpen_has (fun _ => ?_) fun e => Triple.ret fun _ hs => hs
  refine (dbDoTx_has fn).bind fun r => ?_
  exact dbClose_has.bind fun _ => Triple.ret fun _ hs => hs

/-- **`DB.Do` leaves nothing behind**, in any sequence of calls, as long as neither `sql.Open` nor
`sqldb.Close` fails for the process. It never panics; whenever a call has returned, both fields
are nil and the lock is not taken; and then, as soon as nobody else has the lock either, every
call whose functions can run on the database can return nil. -/
theorem do_leaves_closed (p : Pid)
    (c₀ : Config (dbSig coreSig stmtSig) (DbState Core Database))
    (hcalls : MakesCalls dbDoAll (c₀.procs p))
    (hlock : c₀.shared.core.handle p = ⟨false, false⟩) (howner : c₀.shared.owner ≠ some p)
    (hpanicked : p ∉ c₀.shared.core.panicked) :
    (∀ c, Reach (faultlessMachine p) c₀ c → p ∉ c.shared.core.panicked) ∧
    ∀ c, Returned (faultlessMachine p) p dbDoAll c₀ c →
      c.shared.core.handle p = ⟨false, false⟩ ∧ c.shared.owner ≠ some p ∧
      (c.shared.owner = none → ∀ fns w, (inOrder fns).Runs Stmt.run c.shared.db (.ok ()) w →
        ∃ s', (dbDoAll fns).Runs (storeMachine.next p) c.shared (.ok ()) s' ∧ s'.db = w) := by
  have hhas : Released p c₀.shared := ⟨hlock, by simpa using howner⟩
  have hok : (handleProto p).Ok c₀ := by
    refine ⟨hpanicked, fun q => ?_⟩
    by_cases hq : q = p
    · subst hq
      exact (hcalls.triple dbDoAll_has).post (fun _ _ _ => trivial) _ hhas
    · exact others_safe hq _ _
  refine ⟨fun c hc => (hok.reach hc).1, fun c hc => ?_⟩
  obtain ⟨⟨hhandle, hown⟩, -⟩ := hc.holds dbDoAll_has (hok.but p) hhas
  refine ⟨hhandle, by simpa using hown, fun hfree fns w hfns => ?_⟩
  obtain ⟨s', hruns, hdb⟩ := dbDoAll_runs true ⟨hfree, hhandle⟩ hfns
  refine ⟨s', hruns.mono fun o r s s' hn => ?_, hdb⟩
  cases o with
  | commit =>
    simp only [doStep] at hn
    split_ifs at hn
    exact hn
  | _ => exact hn

def twoDos : Config (dbSig coreSig stmtSig) (DbState Core Database) where
  shared := versionless
  procs
    | 0 => do
      let _ ← dbDoAll insertTwo
      let _ ← dbDoAll insertTwo
      return ()
    | _ => return ()

theorem twoDos_calls : MakesCalls dbDoAll (twoDos.procs 0) :=
  .call insertTwo _ fun _ => .call insertTwo _ fun _ => .done

def opening : List (Move (dbSig coreSig stmtSig)) :=
  [.run 0 (.base .handle) (⟨false, false⟩ : Handle), .run 0 .acquire true,
    .run 0 (.base (.setHandle ⟨true, false⟩)) ()]

def inserting : List (Move (dbSig coreSig stmtSig)) :=
  [.run 0 (.base .sqlOpen) true, .run 0 (.base (.setHandle ⟨true, true⟩)) (), .run 0 .begin true,
    .run 0 (.stmt (.exec (.insertVersion 1))) (some ()),
    .run 0 (.stmt (.exec (.insertVersion 2))) (some ()), .run 0 .commit true,
    .run 0 (.base .handle) (⟨true, true⟩ : Handle)]

theorem do_leaves_closed_two :
    ∃ c, Returned (faultlessMachine 0) 0 dbDoAll twoDos c ∧ c.shared.db.version = some [1, 2] ∧
      c.shared.core.handle 0 = ⟨false, false⟩ ∧ c.shared.owner ≠ some 0 ∧
      0 ∉ c.shared.core.panicked := by
  obtain ⟨c, -, hc, -, hversion⟩ := playCall_returned (M := faultlessMachine 0) (p := 0)
    (F := dbDoAll) (opening ++ inserting ++ [.run 0 (.base .sqlClose) true,
      .run 0 (.base (.setHandle ⟨true, false⟩)) (), .run 0 .release (),
      .run 0 (.base (.setHandle ⟨false, false⟩)) ()]) [] insertTwo (c := twoDos)
    (fun c _ => c.shared.db.version = some [1, 2]) rfl (by decide)
  have hdo := do_leaves_closed 0 twoDos twoDos_calls rfl nofun nofun
  obtain ⟨hhandle, hown, -⟩ := hdo.2 c hc
  exact ⟨c, hc, of_decide_eq_true hversion, hhandle, hown, hdo.1 c hc.reach⟩

/-- **A failed `sql.Open` makes the next `DB.Do` panic.** The lock has been closed, but the field
is still set. -/
theorem failed_open_panics :
    MakesCalls dbDoAll (twoDos.procs 0) ∧ Released 0 twoDos.shared ∧
    ∃ c₁ c₂, Returned storeMachine 0 dbDoAll twoDos c₁ ∧
      c₁.shared.core.handle 0 = ⟨true, false⟩ ∧ c₁.shared.owner = none ∧
      Reach storeMachine c₁ c₂ ∧ 0 ∈ c₂.shared.core.panicked := by
  refine ⟨twoDos_calls, ⟨rfl, by decide⟩, ?_⟩
  obtain ⟨c₁, c₂, h₁, h₂, hend⟩ := playCall_returned (M := storeMachine) (p := 0) (F := dbDoAll)
    (opening ++ [.run 0 (.base .sqlOpen) false, .run 0 .release ()])
    [.run 0 (.base .handle) (⟨true, false⟩ : Handle), .run 0 (.base .panic) ()] insertTwo
    (c := twoDos) (fun c₁ c₂ => c₁.shared.core.handle 0 = ⟨true, false⟩ ∧
      c₁.shared.owner = none ∧ 0 ∈ c₂.shared.core.panicked) rfl (by decide)
  obtain ⟨hhandle, hown, hpanicked⟩ := of_decide_eq_true hend
  exact ⟨c₁, c₂, h₁, hhandle, hown, h₂, hpanicked⟩

/-- **A failed `sqldb.Close` keeps the lock**, although `DB.Do` has returned nil. -/
theorem failed_close_keeps_lock :
    ∃ c, Returned storeMachine 0 dbDoAll twoDos c ∧ c.shared.core.handle 0 = ⟨true, true⟩ ∧
      c.shared.owner = some 0 := by
  obtain ⟨c, -, hc, -, hend⟩ := playCall_returned (M := storeMachine) (p := 0) (F := dbDoAll)
    (opening ++ inserting ++ [.run 0 (.base .sqlClose) false]) [] insertTwo (c := twoDos)
    (fun c _ => c.shared.core.handle 0 = ⟨true, true⟩ ∧ c.shared.owner = some 0) rfl (by decide)
  exact ⟨c, hc, of_decide_eq_true hend⟩

end Rkt.Store
