import Rkt.Fetch.Rules
import Rkt.Store.Version

set_option autoImplicit false

namespace Rkt.Fetch

open Conc Proto DbProto Store

/-- What a process does with the store: `NewStore`, and calls if that returned a store. -/
def session (hash : Image → Key) (dbVersion : Nat) (sc : Script) : StoreProg Unit := do
  match ← newStore dbVersion with
  | .error _ => sys .dropped
  | .ok () =>
    sys (.opened dbVersion)
    sc.prog hash
    sys .dropped

def sessions (hash : Image → Key) (versions : Pid → Nat) (scripts : Pid → Script) (d : Database) :
    Config (dbSig coreSig stmtSig) (DbState Core Database) :=
  ⟨initial Core.empty d, fun p => session hash (versions p) (scripts p)⟩

/-- `NewStore` begins only while all processes that use the store have the same version, or a later
one and their store already; no commit that would change the version fails, and no statement that
sets it. -/
def careful (versions : Pid → Nat) (p : Pid) :
    (o : DbOp Op Stmt) → DbOp.Res coreSig stmtSig o → DbState Core Database → Bool
  | .base .newStoreLock, (r : Bool), s =>
    r = true → ∀ q ∈ s.core.users, versions q = versions p ∨
      (versions p < versions q ∧ s.core.opened q ≠ none)
  | .commit, (r : Bool), s => r = false → ∀ w ∈ s.work p, w.version = s.db.version
  | .stmt o, r, _ => !o.failsVersion r
  | _, _, _ => true

/-- The store, as long as its version is handled with care. -/
def carefulMachine (versions : Pid → Nat) :
    Machine (dbSig coreSig stmtSig) (DbState Core Database) :=
  storeMachine.restrict fun p o r s => careful versions p o r s = true

variable {versions : Pid → Nat}

theorem careful_sub (versions : Pid → Nat) :
    (carefulMachine versions).Sub (dbMachine coreMachine surely) := by
  refine ⟨fun {p o r s s'} h => ?_, rfl⟩
  obtain ⟨hok, hn⟩ := Machine.restrict_next h
  cases o with
  | stmt o =>
    have hfails : o.failsVersion r = false := by simpa [careful] using hok
    have hrun : ∀ w, surely o r w = o.run r w := fun w => by simp [surely, hfails]
    exact (dbNext_stmt_congr (T := stmtSig) (N := coreMachine) hrun).trans hn
  | _ => exact hn

section steps

variable {p : Pid} {s s' : DbState Core Database} {w : Database}

theorem careful_begin (h : (carefulMachine versions).next p (.base .newStoreLock) true s = some s') :
    ∀ q ∈ s.core.users, versions q = versions p ∨
      (versions p < versions q ∧ s.core.opened q ≠ none) := by
  have hok := (Machine.restrict_next h).1
  simpa only [careful, decide_eq_true_eq, forall_const] using hok

theorem careful_fail (hw : s.work p = some w)
    (h : (carefulMachine versions).next p .commit false s = some s') :
    w.version = s.db.version := by
  have hok := (Machine.restrict_next h).1
  simp only [careful, decide_eq_true_eq, forall_const] at hok
  exact hok w hw

end steps

/-- There is one version, and it is that of every process that has a store. Of two processes that
use the store, one of a later version has its store already. -/
structure Versioned (versions : Pid → Nat) (c : Core) (d : Database) : Prop where
  single : ∀ vs, d.version = some vs → ∃ v, vs = [v]
  opened : ∀ p v, c.opened p = some v →
    v = versions p ∧ p ∈ c.users ∧ d.version = some [versions p]
  later : ∀ p q, p ∈ c.users → q ∈ c.users → versions p < versions q → c.opened q ≠ none

theorem die_opened {p q : Pid} {c : Core} (hp : p ≠ q) :
    (coreMachine.die q c).opened p = c.opened p := Function.update_of_ne hp _ _

theorem die_users {p q : Pid} {c : Core} (hp : p ≠ q) (hu : p ∈ c.users) :
    p ∈ (coreMachine.die q c).users := List.mem_filter.mpr ⟨hu, by simpa using hp⟩

/-- The version is still the same, or it has come closer to `n`. -/
def Nears (n : Nat) (version version' : Option (List Nat)) : Prop :=
  version' = version ∨ ∃ u v, version = some [u] ∧ version' = some [v] ∧ u < v ∧ v ≤ n

/-- The version of a database that another one uses changes at most to what that one waits for. -/
def versionProto (versions : Pid → Nat) : DbProto coreMachine Database where
  inv := Versioned versions
  guar q c d c' d' := ∀ p, p ≠ q → c'.opened p = c.opened p ∧
    (p ∈ c.users → p ∈ c'.users ∧ (d.version ≠ none → Nears (versions p) d.version d'.version))
  refl _ _ _ _ _ := ⟨rfl, fun hu => ⟨hu, fun _ => .inl rfl⟩⟩
  inv_die q c d h := by
    have hleft : ∀ p, p ∈ (coreMachine.die q c).users → p ∈ c.users ∧ p ≠ q := fun p hp =>
      have ⟨hu, hne⟩ := List.mem_filter.mp hp
      ⟨hu, by simpa using hne⟩
    refine ⟨h.single, fun p v hv => ?_, fun p r hp hr hlt => ?_⟩
    · have hp : p ≠ q := by
        rintro rfl
        simp [coreMachine, Core.die, Core.dropped] at hv
      rw [die_opened hp] at hv
      obtain ⟨hver, hu, hd⟩ := h.opened p v hv
      exact ⟨hver, die_users hp hu, hd⟩
    · rw [die_opened (hleft r hr).2]
      exact h.later p r (hleft p hp).1 (hleft r hr).1 hlt
  guar_die q c d _ p hp := ⟨die_opened hp, fun hu => ⟨die_users hp hu, fun _ => .inl rfl⟩⟩

variable {p : Pid} {c c' : Core} {d d' : Database}

/-- A step that neither touches the version nor what is known about the others. -/
theorem Versioned.same (hi : Versioned versions c d) (ho : c'.opened = c.opened)
    (hu : c'.users = c.users) (hv : d'.version = d.version) :
    Versioned versions c' d' ∧ (versionProto versions).guar p c d c' d' := by
  refine ⟨⟨?_, ?_, ?_⟩, fun q _ => ⟨by rw [ho], fun hq => ⟨hu ▸ hq, fun _ => .inl hv⟩⟩⟩
  · rw [hv]
    exact hi.single
  · rw [ho, hu, hv]
    exact hi.opened
  · rw [ho, hu]
    exact hi.later

theorem versionProto_indifferent (hash : Image → Key) (versions : Pid → Nat) :
    Indifferent hash (versionProto versions) := by
  exact fun p c c' d h hi => hi.same h.opened h.users rfl

/-- `p` has begun to use the store, `NewStore` has not returned yet, and `B` holds of the
version. -/
def Opening (p : Pid) (B : Option (List Nat) → Prop) (c : Core) (d : Database) : Prop :=
  c.opened p = none ∧ p ∈ c.users ∧ B d.version

/-- What `p` knows about the version of a database that exists stays true. -/
theorem opening_steady {B : Option (List Nat) → Prop} (hB : ¬ B none ∨ ∀ v, B v)
    (hnear : ∀ version version', Nears (versions p) version version' → B version → B version') :
    Steady (versionProto versions) p (Opening p B) where
  stable q c d c' d' hq _ _ hg h := by
    obtain ⟨ho, hu, hver⟩ := h
    obtain ⟨ho', hkeep⟩ := hg p (Ne.symm hq)
    obtain ⟨hu', hver'⟩ := hkeep hu
    refine ⟨ho'.trans ho, hu', ?_⟩
    rcases hB with hnone | hall
    · exact hnear _ _ (hver' fun heq => hnone (heq ▸ hver)) hver
    · exact hall _
  blind c c' d hsame _ h := by
    obtain ⟨ho, hu, hver⟩ := h
    exact ⟨by rw [hsame.opened, ho], by rwa [hsame.users], hver⟩

theorem closed_steady : Steady (versionProto versions) p fun c _ => c.opened p = none where
  stable q _ _ _ _ hq _ _ hg h := (hg p (Ne.symm hq)).1.trans h
  blind _ _ _ hsame _ h := by rw [hsame.opened, h]

/-- What the first transaction finds out about the version. Another process may migrate first. -/
def Found (dbVersion : Nat) (needsMigrate : Bool) (version : Option (List Nat)) : Prop :=
  if needsMigrate = true then ∃ u ≤ dbVersion, version = some [u] else version = some [dbVersion]

theorem found_steady (needsMigrate : Bool) :
    Steady (versionProto versions) p (Opening p (Found (versions p) needsMigrate)) := by
  refine opening_steady (.inl fun h => ?_) ?_
  · cases needsMigrate with
    | false => cases h
    | true =>
      obtain ⟨u, -, h⟩ := h
      cases h
  · rintro version _ (rfl | ⟨u, v, rfl, rfl, hlt, hle⟩) h
    · exact h
    · cases needsMigrate with
      | true => exact ⟨v, hle, rfl⟩
      | false =>
        cases h
        omega

theorem found_of_head {dbVersion u : Nat} {vs : List Nat} (hi : Versioned versions c d)
    (hd : d.version = some (u :: vs)) (hu : u ≤ dbVersion) :
    Found dbVersion (decide (u < dbVersion)) d.version := by
  obtain ⟨v, hv⟩ := hi.single _ hd
  cases hv
  unfold Found
  by_cases hlt : u < dbVersion
  · rw [if_pos (by simpa using hlt)]
    exact ⟨u, hu, hd⟩
  · rw [if_neg (by simpa using hlt), hd, show u = dbVersion by omega]

theorem populate_commits (dbVersion : Nat) : Commits surely (versionProto versions)
    (carefulMachine versions) p (Opening p fun _ => True)
      (populateTx dbVersion) fun needsMigrate => Opening p (Found dbVersion needsMigrate) where
  commit needsMigrate s _ w hruns _ _ hi hA := by
    rcases populateTx_ok (runs_surely hruns) with ⟨hnone, rfl, hw⟩ | ⟨rfl, u, vs, hvs, hu, rfl⟩
    · -- nobody has a store while there is no database
      have hnobody : ∀ q v, s.core.opened q ≠ some v := by
        intro q v hq
        have hver := (hi.opened q v hq).2.2
        rw [hnone] at hver
        cases hver
      refine ⟨⟨fun vs hvs => ?_, fun q v hq => absurd hq (hnobody q v), hi.later⟩,
        fun q _ => ⟨rfl, fun hq => ⟨hq, fun hne => absurd hnone hne⟩⟩, hA.1, hA.2.1, hw⟩
      rw [hw] at hvs
      exact ⟨dbVersion, (Option.some.inj hvs).symm⟩
    · exact ⟨hi, (versionProto versions).refl _ _ _, hA.1, hA.2.1, found_of_head hi hvs hu⟩
  fail needsMigrate s _ w hruns hw hn hi hA := by
    have hsame := careful_fail hw hn
    rcases populateTx_ok (runs_surely hruns) with ⟨hnone, -, hw⟩ | ⟨rfl, u, vs, hvs, hu, rfl⟩
    · rw [hw, hnone] at hsame
      cases hsame
    · exact ⟨hA.1, hA.2.1, found_of_head hi hvs hu⟩

/-- A process that migrates is alone with processes of its own version: one of a later version would
have its store, and the database would be too new. -/
theorem Versioned.migrating (hi : Versioned versions c d) (hclosed : c.opened p = none)
    (huser : p ∈ c.users) {u : Nat} (hu : u ≤ versions p) (hd : d.version = some [u]) {q : Pid}
    (hq : q ∈ c.users) : versions q = versions p := by
  have hle : versions q ≤ versions p := by
    by_contra hlt
    obtain ⟨v, hv⟩ := Option.ne_none_iff_exists'.mp (hi.later p q huser hq (by omega))
    have hver := (hi.opened q v hv).2.2
    rw [hd] at hver
    cases hver
    omega
  have hge : ¬ versions q < versions p := fun hlt => hi.later q p hq huser hlt hclosed
  omega

theorem migrate_commits : Commits surely (versionProto versions) (carefulMachine versions) p
    (Opening p (Found (versions p) true)) (migrate (versions p) (versions p))
      fun _ => Opening p (Found (versions p) false) where
  commit _ s s' w hruns hw hn hi hA := by
    obtain ⟨hclosed, huser, u, hu, hd⟩ := hA
    have hver : w.version = some [versions p] := migrate_ok hd hu hruns
    have hsame : ∀ q ∈ s.core.users, versions q = versions p := fun q =>
      hi.migrating hclosed huser hu hd
    refine ⟨⟨fun vs hvs => ?_, fun q v hq => ?_, hi.later⟩, fun q hq => ⟨rfl, fun hmem => ⟨hmem,
      fun _ => ?_⟩⟩, hclosed, huser, hver⟩
    · rw [hver] at hvs
      exact ⟨versions p, (Option.some.inj hvs).symm⟩
    · obtain ⟨hv, hquser, -⟩ := hi.opened q v hq
      exact ⟨hv, hquser, by rw [hver, hsame q hquser]⟩
    · rw [hsame q hmem, hver, hd]
      rcases hu.lt_or_eq with hlt | rfl
      · exact .inr ⟨u, versions p, rfl, rfl, hlt, le_rfl⟩
      · exact .inl rfl
  fail _ s s' w hruns hw hn hi hA := by
    obtain ⟨hclosed, huser, u, hu, hd⟩ := hA
    have hver : w.version = some [versions p] := migrate_ok hd hu hruns
    exact ⟨hclosed, huser, (careful_fail hw hn).symm.trans hver⟩

theorem newStoreLock_triple : ((versionProto versions).proto (careful_sub versions)).Triple p
      (Idle p false fun c _ => c.opened p = none) (sys .newStoreLock) fun (ok : Bool) =>
        if ok = true then Idle p false (Opening p fun _ => True)
        else Idle p false fun c _ => c.opened p = none := by
  have hlock : ((versionProto versions).proto (careful_sub versions)).Triple p
      (Idle p false fun c _ => c.opened p = none) (sys .newStoreLock) fun (ok : Bool) =>
        Idle p false fun c _ => c.opened p = none ∧ (ok = true → p ∈ c.users) := by
    refine base_triple_of closed_steady.stable fun s s' c' ok hM hi hA hn => ?_
    cases ok with
    | false =>
      cases hn
      exact ⟨hi, (versionProto versions).refl _ _ _, hA, fun h => nomatch h⟩
    | true =>
      have hbegin := careful_begin hM
      cases hn
      refine ⟨⟨hi.single, fun q v hv => ?_, fun q r hq hr hlt => ?_⟩, fun q _ => ⟨rfl, fun hq =>
        ⟨List.mem_cons_of_mem p hq, fun _ => .inl rfl⟩⟩, hA, fun _ => List.mem_cons_self⟩
      · obtain ⟨hver, hu, hd⟩ := hi.opened q v hv
        exact ⟨hver, List.mem_cons_of_mem p hu, hd⟩
      · rcases List.mem_cons.mp hq with rfl | hq' <;> rcases List.mem_cons.mp hr with rfl | hr'
        · omega
        · rcases hbegin r hr' with heq | ⟨-, hopened⟩
          · omega
          · exact hopened
        · rcases hbegin q hq' with heq | ⟨hgt, -⟩ <;> omega
        · exact hi.later q r hq' hr' hlt
  refine hlock.post fun ok s hs => ?_
  cases ok with
  | false => exact ⟨hs.1, hs.2.1, hs.2.2.1⟩
  | true => exact ⟨hs.1, hs.2.1, hs.2.2.1, hs.2.2.2 rfl, trivial⟩

theorem lockStore_triple {A : Core → Database → Prop} (hA : (versionProto versions).Stable p A)
    (hblind : ∀ c d l, A c d → A { c with storeLock := l } d) :
    ((versionProto versions).proto (careful_sub versions)).Triple p (Idle p false A) (sys .lockStore)
      fun _ => Idle p false A := by
  refine base_triple hA fun c d ok c' hi h hn => ?_
  have hc' : c' = c ∨ c' = { c with storeLock := some p } := by
    simp only [coreMachine, next] at hn
    split_ifs at hn
    · split at hn
      · exact .inr (Option.some.inj hn).symm
      · cases hn
    · exact .inl (Option.some.inj hn).symm
  rcases hc' with rfl | rfl
  · exact ⟨hi, (versionProto versions).refl _ _ _, h⟩
  · have hsame : Versioned versions { c with storeLock := some p } d ∧ _ :=
      hi.same (p := p) rfl rfl rfl
    exact ⟨hsame.1, hsame.2, hblind c d _ h⟩

/-- **`NewStore` returns when the database has the right version.** -/
theorem newStore_triple : ((versionProto versions).proto (careful_sub versions)).Triple p
      (Idle p false fun c _ => c.opened p = none) (newStore (versions p))
      (Result (Idle p false fun c _ => c.opened p = none)
        fun _ => Idle p false (Opening p (Found (versions p) false))) := by
  have hP : Tolerant (versionProto versions) := (versionProto_indifferent (fun _ => []) _).tolerant
  have hany : Steady (versionProto versions) p (Opening p fun _ => True) :=
    opening_steady (.inr fun _ => trivial) fun _ _ _ _ => trivial
  have hclosed : ∀ {B : Option (List Nat) → Prop} (s : DbState Core Database),
      Idle p false (Opening p B) s → Idle p false (fun c _ => c.opened p = none) s :=
    fun s hs => ⟨hs.1, hs.2.1, hs.2.2.1⟩
  refine Triple.check_same (quiet_triple (o := .aside) hP closed_steady rfl) (fun _ hs => hs) ?_
  refine Triple.check_same (quiet_triple (o := .aside) hP closed_steady rfl) (fun _ hs => hs) ?_
  refine Triple.check newStoreLock_triple (fun _ hs => hs) ?_
  refine Triple.check_same (quiet_triple (o := .aside) hP hany rfl) hclosed ?_
  refine Triple.onResult (dbDo_triple hP hany found_steady
    (populate_commits (versions p))) (fun needsMigrate => ?_) fun e => Triple.ret hclosed
  cases needsMigrate with
  | false => exact Triple.ret fun s hs => hs
  | true =>
    have hfound : Steady (versionProto versions) p (Opening p (Found (versions p) true)) :=
      found_steady true
    refine Triple.check_same (lockStore_triple hfound.stable fun c d l h => h) hclosed ?_
    refine Triple.check_same (quiet_triple (o := .createBackup) hP hfound rfl) hclosed ?_
    refine (dbDo_triple hP hfound (fun _ => found_steady false) migrate_commits).post
      fun r s hs => ?_
    cases r with
    | ok r => exact hs
    | error e => exact hclosed s hs

theorem commits_of_version {α : Type} {fn : TxProg (Except Err α)}
    (h : ∀ a d w, fn.Runs Stmt.run d (.ok a) w → w.version = d.version) :
    Commits surely (versionProto versions) (carefulMachine versions) p (fun _ _ => True) fn
      fun _ _ _ => True where
  commit a _ _ _ hruns _ _ hi _ :=
    have ⟨hi', hg⟩ := hi.same rfl rfl (h a _ _ (runs_surely hruns))
    ⟨hi', hg, trivial⟩
  fail _ _ _ _ _ _ _ _ _ := trivial

theorem record_version {o : Op} (ho : Op.record o = true) :
    ((versionProto versions).proto (careful_sub versions)).Triple p (Out p) (sys o) fun _ => Out p := by
  refine base_triple steady_true.stable fun c d r c' hi _ hn => ?_
  have hrec : Recorded p c c' := record_next ho hn
  have hkeep := hi.same (p := p) hrec.opened hrec.users rfl
  exact ⟨hkeep.1, hkeep.2, trivial⟩

theorem parts_version (hash : Image → Key) :
    Parts ((versionProto versions).proto (careful_sub versions)) p (Out p) (fun _ _ => True) hash := by
  have hP := versionProto_indifferent hash versions
  have hwrite : ∀ file latest, ((versionProto versions).proto (careful_sub versions)).Triple p (Out p)
      (writeACI hash file latest) fun _ => Out p := fun file latest =>
    out_writeACI hP file latest fun _ _ => commits_of_version fun _ _ _ => importTx_version
  exact Parts.plain hP.tolerant (fun _ => record_version) hwrite
    (fun key => removeACI_triple hP key (commits_of_version fun _ _ _ => removeTx_version))
    (fun url => out_dbDo hP.tolerant (commits_of_version fun _ _ _ => getRemoteTx_version))
    (saveImage_out hP.tolerant (fun _ => record_version) hwrite fun row =>
      out_dbDo hP.tolerant (commits_of_version fun _ _ _ => writeRemoteTx_version))

theorem dropped_triple {A : Core → Database → Prop} (hA : (versionProto versions).Stable p A) :
    ((versionProto versions).proto (careful_sub versions)).Triple p (Idle p false A) (sys .dropped)
      fun _ => Out p := by
  refine base_triple hA fun c d r c' hi _ hn => ?_
  cases hn
  -- the death of a process does the same to users and versions
  exact ⟨⟨hi.single, ((versionProto versions).inv_die p c d hi).opened,
    ((versionProto versions).inv_die p c d hi).later⟩, (versionProto versions).guar_die p c d hi, trivial⟩

theorem session_triple (hash : Image → Key) (sc : Script) :
    ((versionProto versions).proto (careful_sub versions)).Triple p
      (Idle p false fun c _ => c.opened p = none) (session hash (versions p) sc)
      fun _ => Out p := by
  refine Triple.onResult newStore_triple (fun _ => ?_) fun _ =>
    dropped_triple closed_steady.stable
  have hopened : ((versionProto versions).proto (careful_sub versions)).Triple p
      (Idle p false (Opening p (Found (versions p) false))) (sys (.opened (versions p)))
      fun _ => Out p := by
    refine base_triple (found_steady false).stable fun c d r c' hi hA hn => ?_
    cases hn
    refine ⟨⟨hi.single, fun q v hq => ?_, fun q r hq hr hlt => ?_⟩, fun q hq =>
      ⟨Function.update_of_ne hq _ _, fun hu => ⟨hu, fun _ => .inl rfl⟩⟩, trivial⟩
    · by_cases hqp : q = p
      · subst hqp
        have hv : some (versions q) = some v := (Function.update_self q _ c.opened).symm.trans hq
        exact ⟨(Option.some.inj hv).symm, hA.2.1, hA.2.2⟩
      · have hv : c.opened q = some v := (Function.update_of_ne hqp _ c.opened).symm.trans hq
        exact hi.opened q v hv
    · show Function.update c.opened p (some (versions p)) r ≠ none
      rw [Function.update_apply]
      split_ifs
      · exact Option.some_ne_none _
      · exact hi.later q r hq hr hlt
  refine hopened.bind fun _ => ?_
  refine ((parts_version hash).script (.inr fun _ _ => trivial)).bind fun _ => ?_
  exact dropped_triple steady_true.stable

theorem sessions_ok (hash : Image → Key) (versions : Pid → Nat) (scripts : Pid → Script)
    {d : Database} (hd : ∀ vs, d.version = some vs → ∃ v, vs = [v]) :
    ((versionProto versions).proto (careful_sub versions)).Ok (sessions hash versions scripts d) := by
  refine ⟨⟨⟨hd, fun p v hv => ?_, nofun⟩, fun p w hw => ?_⟩, fun p => ?_⟩
  · cases hv
  · cases hw
  · refine (session_triple hash (scripts p)).post (fun _ _ _ => trivial) _ ⟨rfl, ?_, rfl⟩
    simp

/-- **The database has the version of every process that has a store**, from the moment
`NewStore` returns until the process drops the store; in every run in which no process begins to use
the store next to one of an older version, or next to one of a later version that has no store yet,
and in which the version does not fail to be set. -/
theorem version_stays (hash : Image → Key) (versions : Pid → Nat) (scripts : Pid → Script)
    (d : Database) (hd : ∀ vs, d.version = some vs → ∃ v, vs = [v])
    {c : Config (dbSig coreSig stmtSig) (DbState Core Database)}
    (h : Reach (carefulMachine versions) (sessions hash versions scripts d) c) {p : Pid}
    (hp : c.shared.core.opened p ≠ none) : c.shared.db.version = some [versions p] := by
  have hinv : Versioned versions c.shared.core c.shared.db :=
    ((sessions_ok hash versions scripts hd).reach h).1.1
  obtain ⟨v, hv⟩ := Option.ne_none_iff_exists'.mp hp
  exact (hinv.opened p v hv).2.2

/-- Process 0 is of version 1, and all others are of version 2. -/
def exampleVersions : Pid → Nat
  | 0 => 1
  | _ => 2

theorem version_stays_migrated :
    ∃ c, Reach (carefulMachine exampleVersions)
        (sessions exampleHash exampleVersions (fun _ => .done) (newDatabase 1)) c ∧
      c.shared.core.opened 1 ≠ none ∧ c.shared.db.version = some [exampleVersions 1] := by
  obtain ⟨c, hc, hopened⟩ := follow_exists (M := carefulMachine exampleVersions)
    exampleOutside.answer [.run 0 20, .run 1 40]
    (c := sessions exampleHash exampleVersions (fun _ => .done) (newDatabase 1))
    (fun c => c.shared.core.opened 1 ≠ none) (by decide)
  have hne : c.shared.core.opened 1 ≠ none := of_decide_eq_true hopened
  refine ⟨c, hc, hne, version_stays _ _ _ _ (fun vs hvs => ?_) hc hne⟩
  exact ⟨1, (Option.some.inj hvs).symm⟩

/-- **A database is migrated while it is in use.** Process 0 has a store of version 1. Process 1
takes the lock of the store, which process 0 does not hold, and migrates the database. -/
theorem migrated_while_open :
    ∃ c, Reach storeMachine
        (sessions exampleHash exampleVersions (fun _ => .done) (newDatabase 1)) c ∧
      c.shared.core.opened 0 ≠ none ∧ c.shared.db.version ≠ some [exampleVersions 0] := by
  obtain ⟨c, hc, hend⟩ := follow_exists (M := storeMachine) exampleOutside.answer
    [.run 0 19, .run 1 40]
    (c := sessions exampleHash exampleVersions (fun _ => .done) (newDatabase 1))
    (fun c => c.shared.core.opened 0 ≠ none ∧ c.shared.db.version ≠ some [exampleVersions 0])
    (by decide)
  exact ⟨c, hc, of_decide_eq_true hend⟩

end Rkt.Fetch
