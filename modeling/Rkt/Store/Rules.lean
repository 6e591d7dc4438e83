import Rkt.Store.Store

set_option autoImplicit false

namespace Rkt.Store

open Conc Prog Proto DbProto

/-- The two states differ in the `DB` structs, the shared image locks and the record of panics
only. -/
structure Core.Same (c c' : Core) : Prop where
  blob : c'.blob = c.blob
  imageManifest : c'.imageManifest = c.imageManifest
  imageLock : c'.imageLock = c.imageLock
  storeLock : c'.storeLock = c.storeLock
  accepted : c'.accepted = c.accepted
  returned : c'.returned = c.returned
  storing : c'.storing = c.storing
  users : c'.users = c.users
  opened : c'.opened = c.opened

theorem Core.Same.refl (c : Core) : c.Same c := ⟨rfl, rfl, rfl, rfl, rfl, rfl, rfl, rfl, rfl⟩

/-- The protocol does not look at what is private to a process. -/
def Tolerant (P : DbProto coreMachine Database) : Prop :=
  ∀ p c c' d, c.Same c' → P.inv c d → P.inv c' d ∧ P.guar p c d c' d

/-- An assertion that the others cannot spoil and that does not look at what is private to a
process. -/
structure Steady (P : DbProto coreMachine Database) (p : Pid) (A : Core → Database → Prop) :
    Prop where
  stable : P.Stable p A
  blind : ∀ c c' d, c.Same c' → P.inv c d → A c d → A c' d

def Op.quiet : Op → Bool
  | .handle | .setHandle _ | .sqlOpen | .sqlClose | .createBackup | .aside
  | .shareImage _ | .closeShared _ | .readManifest _ | .now | .parseURL _ | .httpGet _ _
  | .openFile _ | .convert _ | .trustKeys _ | .panic | .halted => true
  | _ => false

theorem quiet_next {p : Pid} {o : Op} {r : o.Res} {c c' : Core} (ho : o.quiet = true)
    (h : next p o r c = some c') : c.Same c' := by
  cases o with
  | handle | readManifest =>
    simp only [next] at h
    split_ifs at h
    cases h
    exact .refl c
  | shareImage key =>
    simp only [next] at h
    repeat' split at h
    all_goals first
      | cases h; exact ⟨rfl, rfl, rfl, rfl, rfl, rfl, rfl, rfl, rfl⟩
      | cases h
  | setHandle | closeShared | panic =>
    cases h
    exact ⟨rfl, rfl, rfl, rfl, rfl, rfl, rfl, rfl, rfl⟩
  | parseURL url =>
    cases r with
    | none =>
      cases h
      exact .refl c
    | some scheme =>
      simp only [next] at h
      split_ifs at h
      cases h
      exact .refl c
  | sqlOpen | sqlClose | createBackup | aside | now | httpGet | openFile
  | convert | trustKeys | halted =>
    cases h
    exact .refl c
  | lockImage | closeImage | newStoreLock | lockStore | importBlob | writeManifest | erase
  | checkSignature | returned | storing | stored | opened | dropped => cases ho

variable {P : DbProto coreMachine Database}
  {M : Machine (dbSig coreSig stmtSig) (DbState Core Database)}
  {run : (o : Stmt) → o.Res → Database → Option Database} {hM : M.Sub (dbMachine coreMachine run)}
  {p : Pid} {own : Bool} {A B : Core → Database → Prop} {α : Type}

theorem quiet_triple (hP : Tolerant P) (hA : Steady P p A) {o : Op} (ho : o.quiet = true) :
    (P.proto hM).Triple p (Idle p own A) (sys o) (fun _ => Idle p own A) :=
  base_triple hA.stable fun c d _ c' hi h hn =>
    have hsame := quiet_next ho hn
    have ⟨hi', hg⟩ := hP p c c' d hsame hi
    ⟨hi', hg, hA.blind c c' d hsame hi h⟩

theorem panic_triple (hP : Tolerant P) (hA : Steady P p A) {Q : α → DbState Core Database → Prop} :
    (P.proto hM).Triple p (Idle p own A) panic Q := by
  refine (quiet_triple hP hA rfl).bind fun _ => ?_
  refine (quiet_triple (o := .halted) hP hA rfl).bind fun never => ?_
  exact nomatch never

theorem dbOpen_triple (hP : Tolerant P) (hA : Steady P p A) :
    (P.proto hM).Triple p (Idle p false A) dbOpen
      (Result (Idle p false A) fun _ => Idle p true A) := by
  refine (quiet_triple (o := .handle) hP hA rfl).bind fun h => ?_
  refine Triple.ite (fun _ => panic_triple hP hA) fun _ => ?_
  have hacquire : (P.proto hM).Triple p (Idle p false A) acquire
      fun ok => if ok = true then Idle p true A else Idle p false A :=
    (acquire_triple hA.stable).post fun ok s h => by
      cases ok <;> exact h
  refine Triple.check hacquire (fun _ hs => hs) ?_
  refine (quiet_triple (o := .setHandle _) hP hA rfl).bind fun _ => ?_
  refine (quiet_triple (o := .sqlOpen) hP hA rfl).bind fun (opened : Bool) => ?_
  refine Triple.ite (fun _ => ?_) fun _ => ?_
  · refine (quiet_triple (o := .setHandle _) hP hA rfl).bind fun _ => ?_
    exact Triple.ret fun _ h => h
  · refine (release_triple hA.stable).bind fun _ => ?_
    exact Triple.ret fun _ h => h

theorem dbClose_triple (hP : Tolerant P) (hA : Steady P p A) :
    (P.proto hM).Triple p (Idle p true A) dbClose (fun _ => Idle p false A) := by
  refine (quiet_triple (o := .handle) hP hA rfl).bind fun h => ?_
  refine Triple.ite (fun _ => panic_triple hP hA) fun _ => ?_
  refine Triple.ite (fun _ => panic_triple hP hA) fun _ => ?_
  have hrest : (P.proto hM).Triple p (Idle p true A)
      (check (sys .sqlClose) Err.sqlClose do
        sys (.setHandle { h with sqldb := false })
        release
        sys (.setHandle ⟨false, false⟩)
        return .ok ())
      (Result (Idle p false A) fun _ => Idle p false A) := by
    refine Triple.check_same (quiet_triple (o := .sqlClose) hP hA rfl) (fun _ h => Idle.forget h) ?_
    refine (quiet_triple (o := .setHandle _) hP hA rfl).bind fun _ => ?_
    refine (release_triple hA.stable).bind fun _ => ?_
    refine (quiet_triple (o := .setHandle _) hP hA rfl).bind fun _ => ?_
    exact Triple.ret fun _ h => h
  exact hrest.post fun r s h => by cases r <;> exact h

/-- What the commit of a transaction `fn` has to do, with `Q` after a commit that takes effect and
after one that fails; `run` says what the statements do. -/
structure Commits (run : (o : Stmt) → o.Res → Database → Option Database)
    (P : DbProto coreMachine Database)
    (M : Machine (dbSig coreSig stmtSig) (DbState Core Database)) (p : Pid)
    (A : Core → Database → Prop) (fn : TxProg (Except Err α))
    (Q : α → Core → Database → Prop) : Prop where
  commit : ∀ a s s' w, fn.Runs run s.db (.ok a) w → s.work p = some w →
    M.next p .commit true s = some s' → P.inv s.core s.db → A s.core s.db →
    P.inv s.core w ∧ P.guar p s.core s.db s.core w ∧ Q a s.core w
  fail : ∀ a s s' w, fn.Runs run s.db (.ok a) w → s.work p = some w →
    M.next p .commit false s = some s' → P.inv s.core s.db → A s.core s.db → Q a s.core s.db

theorem dbDoTx_triple {fn : TxProg (Except Err α)} {Q : α → Core → Database → Prop}
    (hA : Steady P p A) (h : Commits run P M p A fn Q) :
    (P.proto hM).Triple p (Idle p true A) (dbDoTx fn)
      (Result (Idle p true A) fun a => Idle p true (Q a)) := by
  have hbegin : (P.proto hM).Triple p (Idle p true A) begin
      fun ok => if ok = true then (fun s => ∃ d, InTx p d d A s) else Idle p true A :=
    (begin_triple hA.stable).post fun ok s h => by
      cases ok <;> exact h
  refine Triple.check hbegin (fun _ hs => hs) ?_
  rintro s ⟨d, hs⟩
  suffices htx : (P.proto hM).Triple p (InTx p d d A) _ _ from htx s hs
  refine (stmts_triple hA.stable fn d).bind fun r => ?_
  rintro s ⟨w, hruns, hs⟩
  cases r with
  | error e =>
    suffices hroll : (P.proto hM).Triple p (InTx p d w A) _ _ from hroll s hs
    exact (rollback_triple hA.stable).bind fun _ => Triple.ret fun _ h => h
  | ok a =>
    suffices hcommit : (P.proto hM).Triple p (InTx p d w A) _ _ from hcommit s hs
    refine (commit_triple (Q := fun _ => Q a) hA.stable ?_ ?_).bind fun _ =>
      Triple.ret fun _ h => h
    · intro s s' hw hd hn hi hA
      subst hd
      exact h.commit a s s' w hruns hw hn hi hA
    · intro s s' hw hd hn hi hA
      subst hd
      exact h.fail a s s' w hruns hw hn hi hA

/-- **A whole transaction.** -/
theorem dbDo_triple {fn : TxProg (Except Err α)} {Q : α → Core → Database → Prop}
    (hP : Tolerant P) (hA : Steady P p A) (hQ : ∀ a, Steady P p (Q a))
    (h : Commits run P M p A fn Q) : (P.proto hM).Triple p (Idle p false A) (dbDo fn)
      (Result (Idle p false A) fun a => Idle p false (Q a)) := by
  refine Triple.onResult (dbOpen_triple hP hA) (fun _ => ?_) fun e => Triple.ret fun _ h => h
  refine (dbDoTx_triple hA h).bind fun r => ?_
  cases r with
  | error e => exact (dbClose_triple hP hA).bind fun _ => Triple.ret fun _ h => h
  | ok a => exact (dbClose_triple hP (hQ a)).bind fun _ => Triple.ret fun _ h => h

def Out (p : Pid) : DbState Core Database → Prop := Idle p false fun _ _ => True

theorem steady_true : Steady P p (fun _ _ => True) :=
  ⟨fun _ _ _ _ _ _ _ _ _ _ => trivial, fun _ _ _ _ _ _ => trivial⟩

/-- What nobody can spoil does not look at what is private to a process. -/
theorem Tolerant.steady (hP : Tolerant P) (hA : P.Lasting A) : Steady P p A where
  stable := hA.stable
  blind c c' d h hi hc :=
    have ⟨hi', hg⟩ := hP p c c' d h hi
    hA p c d c' d hi hi' hg hc

/-- A transaction whose result shows something that nobody can spoil. -/
theorem dbDo_shows {fn : TxProg (Except Err α)} {Q : α → Core → Database → Prop}
    (hP : Tolerant P) (hQ : ∀ a, P.Lasting (Q a)) (h : Commits run P M p (fun _ _ => True) fn Q) :
    (P.proto hM).Triple p (Out p) (dbDo fn)
      fun r s => Out p s ∧ ∀ a, r = .ok a → Q a s.core s.db := by
  refine (dbDo_triple hP steady_true (fun a => hP.steady (hQ a)) h).post fun r s hs => ?_
  cases r with
  | error e => exact ⟨hs, fun _ heq => nomatch heq⟩
  | ok a =>
    refine ⟨⟨hs.1, hs.2.1, trivial⟩, fun a' heq => ?_⟩
    cases heq
    exact hs.2.2

/-- A transaction that keeps the invariant and the guarantee, and of which nothing else is
known. -/
theorem out_dbDo (hP : Tolerant P) {fn : TxProg (Except Err α)}
    (h : Commits run P M p (fun _ _ => True) fn fun _ _ _ => True) :
    (P.proto hM).Triple p (Out p) (dbDo fn) (fun _ => Out p) := by
  exact (dbDo_triple hP steady_true (fun _ => steady_true) h).either (fun _ _ hs => hs)
    fun _ hs => hs

/-- The two states differ in images, their locks, and private things only; a new image is stored
under its own key. -/
structure Core.Alike (hash : Image → Key) (c c' : Core) : Prop where
  blob : ∀ key image, c'.blob key = some image → c.blob key = some image ∨ hash image = key
  storeLock : c'.storeLock = c.storeLock
  accepted : c'.accepted = c.accepted
  returned : c'.returned = c.returned
  storing : c'.storing = c.storing
  users : c'.users = c.users
  opened : c'.opened = c.opened

variable {hash : Image → Key}

theorem Core.Alike.of_blob {c c' : Core} (hb : c'.blob = c.blob) (hl : c'.storeLock = c.storeLock)
    (ha : c'.accepted = c.accepted) (hr : c'.returned = c.returned)
    (hs : c'.storing = c.storing) (hu : c'.users = c.users) (ho : c'.opened = c.opened) :
    c.Alike hash c' :=
  ⟨fun _ _ h => .inl (hb ▸ h), hl, ha, hr, hs, hu, ho⟩

theorem Core.Alike.refl (c : Core) : c.Alike hash c := .of_blob rfl rfl rfl rfl rfl rfl rfl

theorem Core.Same.alike {c c' : Core} (h : c.Same c') : c.Alike hash c' :=
  .of_blob h.blob h.storeLock h.accepted h.returned h.storing h.users h.opened

/-- The protocol does not look at images, except for the keys under which they are stored. -/
def Indifferent (hash : Image → Key) (P : DbProto coreMachine Database) : Prop :=
  ∀ p c c' d, c.Alike hash c' → P.inv c d → P.inv c' d ∧ P.guar p c d c' d

theorem Indifferent.tolerant (hP : Indifferent hash P) : Tolerant P :=
  fun p c c' d h => hP p c c' d h.alike

/-- An assertion that the others cannot spoil and that does not look at images. -/
structure Blind (hash : Image → Key) (P : DbProto coreMachine Database) (p : Pid)
    (A : Core → Database → Prop) : Prop where
  stable : P.Stable p A
  alike : ∀ c c' d, c.Alike hash c' → P.inv c d → A c d → A c' d

theorem Blind.steady (hA : Blind hash P p A) : Steady P p A :=
  ⟨hA.stable, fun c c' d h => hA.alike c c' d h.alike⟩

theorem blind_true : Blind hash P p (fun _ _ => True) :=
  ⟨fun _ _ _ _ _ _ _ _ _ _ => trivial, fun _ _ _ _ _ _ => trivial⟩

theorem Indifferent.blind (hP : Indifferent hash P) (hA : P.Lasting A) : Blind hash P p A where
  stable := hA.stable
  alike c c' d h hi hc :=
    have ⟨hi', hg⟩ := hP p c c' d h hi
    hA p c d c' d hi hi' hg hc

/-- The operations on images and their locks; images are imported under their own keys. -/
def Op.Image (hash : Image → Key) : Op → Prop
  | .importBlob key image => hash image = key
  | .lockImage _ | .closeImage _ | .writeManifest _ _ | .erase _ _ => True
  | _ => False

theorem Core.erase_eq {c c' : Core} {key : Key} {store : DiskvStore}
    (h : c.erase key store = some c') :
    c' = { c with blob := Function.update c.blob key none } ∨
      c' = { c with imageManifest := Function.update c.imageManifest key none } := by
  cases store with
  | blob =>
    simp only [Core.erase] at h
    split_ifs at h
    exact .inl (Option.some.inj h).symm
  | imageManifest =>
    simp only [Core.erase] at h
    split_ifs at h
    exact .inr (Option.some.inj h).symm

theorem update_eq_some {β : Type} {f : Key → Option β} {key key' : Key} {v : Option β} {b : β}
    (h : Function.update f key v key' = some b) : f key' = some b ∨ key' = key ∧ v = some b := by
  by_cases hkey : key' = key
  · subst hkey
    rw [Function.update_self] at h
    exact .inr ⟨rfl, h⟩
  · rw [Function.update_of_ne hkey] at h
    exact .inl h

theorem lockImage_next {key : Key} {c c' : Core} (h : next p (.lockImage key) true c = some c') :
    c.imageLock key = none ∧
      c' = { c with imageLock := Function.update c.imageLock key (some p) } := by
  simp only [next, if_true] at h
  split at h
  · split_ifs at h
    exact ⟨‹_›, (Option.some.inj h).symm⟩
  · cases h

theorem image_next {o : Op} {r : o.Res} {c c' : Core} (ho : o.Image hash)
    (h : next p o r c = some c') : c.Alike hash c' := by
  cases o with
  | lockImage key =>
    simp only [next] at h
    repeat' split at h
    all_goals first
      | cases h; exact .of_blob rfl rfl rfl rfl rfl rfl rfl
      | cases h
  | importBlob key image =>
    cases h
    split
    · refine ⟨fun key' image' h => ?_, rfl, rfl, rfl, rfl, rfl, rfl⟩
      rcases update_eq_some h with hold | ⟨rfl, hnew⟩
      · exact .inl hold
      · cases hnew
        exact .inr ho
    · exact .refl c
  | closeImage key | writeManifest key m =>
    cases h
    split
    · exact .of_blob rfl rfl rfl rfl rfl rfl rfl
    · exact .refl c
  | erase store key =>
    simp only [next] at h
    split at h
    · rcases Core.erase_eq h with rfl | rfl
      · refine ⟨fun key' image' h => ?_, rfl, rfl, rfl, rfl, rfl, rfl⟩
        rcases update_eq_some h with hold | ⟨-, hnew⟩
        · exact .inl hold
        · cases hnew
      · exact .of_blob rfl rfl rfl rfl rfl rfl rfl
    · cases h
      exact .refl c
  | handle | setHandle | sqlOpen | sqlClose | shareImage | closeShared | newStoreLock | lockStore
  | createBackup | aside | readManifest | now | parseURL | httpGet | openFile | convert | trustKeys
  | checkSignature | returned | storing | stored | opened | dropped | panic | halted => cases ho

theorem image_triple (hP : Indifferent hash P) (hA : Blind hash P p A) {o : Op}
    (ho : o.Image hash) : (P.proto hM).Triple p (Idle p own A) (sys o) (fun _ => Idle p own A) :=
  base_triple hA.stable fun c d _ c' hi h hn =>
    have halike := image_next ho hn
    have ⟨hi', hg⟩ := hP p c c' d halike hi
    ⟨hi', hg, hA.alike c c' d halike hi h⟩

theorem importImage_triple (hP : Indifferent hash P) (hA : Blind hash P p A) (hB : Blind hash P p B)
    {image : Image} {latest : Bool}
    (h : Commits run P M p A (importTx (hash image) image latest) fun _ => B) :
    (P.proto hM).Triple p (Idle p false A) (importImage (hash image) image latest)
      (Result (Idle p false A) fun key s => Idle p false B s ∧ key = hash image) := by
  refine Triple.check_same (image_triple hP hA (o := .importBlob _ _) rfl) (fun _ hs => hs) ?_
  refine Triple.check_same (quiet_triple (o := .aside) hP.tolerant hA.steady rfl) (fun _ hs => hs) ?_
  refine Triple.check_same (image_triple hP hA (o := .writeManifest _ _) trivial) (fun _ hs => hs) ?_
  refine Triple.onResult (dbDo_triple hP.tolerant hA.steady (fun _ => hB.steady) h) ?_ ?_
  · exact fun _ => Triple.ret fun s hs => ⟨hs, rfl⟩
  · exact fun e => Triple.ret fun s hs => hs

/-- `WriteACI`, if its own operations keep `I` and the import is done under a lock, where
`J` holds. -/
theorem writeACI_parts {R : Proto M} {I : DbState Core Database → Prop}
    {J : Image → DbState Core Database → Prop} {Q : Key → DbState Core Database → Prop}
    {file : File} {latest : Bool}
    (haside : R.Triple p I (sys .aside) fun _ => I)
    (hlock : ∀ image, R.Triple p I (sys (.lockImage (hash image)))
      fun (ok : Bool) => if ok = true then J image else I)
    (himport : ∀ image, file = some image → R.Triple p (J image) (do
      let r ← importImage (hash image) image latest
      sys (.closeImage (hash image))
      return r) (Result I Q)) :
    R.Triple p I (writeACI hash file latest) (Result I Q) := by
  refine Triple.check_same haside (fun _ hs => hs) ?_
  refine Triple.check_same haside (fun _ hs => hs) ?_
  refine Triple.check_same haside (fun _ hs => hs) ?_
  cases file with
  | none => exact Triple.ret fun _ hs => hs
  | some image =>
    refine Triple.check_same haside (fun _ hs => hs) ?_
    refine Triple.check_same haside (fun _ hs => hs) ?_
    exact Triple.check (hlock image) (fun _ hs => hs) (himport image rfl)

/-- `WriteACI` returns the key of the image, and then its transaction has been committed. -/
theorem writeACI_triple {B : Key → Core → Database → Prop} (hP : Indifferent hash P)
    (hA : Blind hash P p A) (hB : ∀ key, Blind hash P p (B key)) (file : File) (latest : Bool)
    (h : ∀ image, file = some image →
      Commits run P M p A (importTx (hash image) image latest) fun _ => B (hash image)) :
    (P.proto hM).Triple p (Idle p false A) (writeACI hash file latest)
      (Result (Idle p false A) fun key s =>
        Idle p false (B key) s ∧ ∃ image, file = some image ∧ key = hash image) := by
  refine writeACI_parts (J := fun _ => Idle p false A)
    (quiet_triple (o := .aside) hP.tolerant hA.steady rfl) (fun image => ?_) fun image himage => ?_
  · refine (image_triple hP hA (o := .lockImage _) trivial).post fun ok s hs => ?_
    cases ok <;> exact hs
  · refine Triple.onResult (importImage_triple hP hA (hB _) (h image himage)) (fun key => ?_)
      fun e => ?_
    · refine Triple.given fun hkey => ?_
      subst hkey
      refine (image_triple hP (hB _) (o := .closeImage _) trivial).bind fun _ => ?_
      exact Triple.ret fun s hs => ⟨hs, image, himage, rfl⟩
    · refine (image_triple hP hA (o := .closeImage _) trivial).bind fun _ => ?_
      exact Triple.ret fun s hs => hs

theorem out_writeACI (hP : Indifferent hash P) (file : File) (latest : Bool)
    (h : ∀ key image, Commits run P M p (fun _ _ => True) (importTx key image latest)
      fun _ _ _ => True) :
    (P.proto hM).Triple p (Out p) (writeACI hash file latest) (fun _ => Out p) := by
  exact (writeACI_triple hP blind_true (fun _ => blind_true) file latest
    fun image _ => h _ image).either (fun _ _ hs => hs.1) fun _ hs => hs

/-- `RemoveACI`, if each of its operations and its transaction lead back to `I`. -/
theorem removeACI_parts {R : Proto M} {I : DbState Core Database → Prop} {key : Key}
    (hlock : R.Triple p I (sys (.lockImage key)) fun _ => I)
    (htx : R.Triple p I (dbDo (removeTx key)) fun _ => I)
    (herase : ∀ store, R.Triple p I (sys (.erase store key)) fun _ => I)
    (hclose : R.Triple p I (sys (.closeImage key)) fun _ => I) :
    R.Triple p I (removeACI key) fun _ => I := by
  have hall : ∀ stores, R.Triple p I (eraseAll key stores) fun _ => I := by
    intro stores
    induction stores with
    | nil => exact Triple.ret fun _ hs => hs
    | cons store stores ih => exact (herase store).bind fun ok => ih.thenRet fun _ => ⟨_, rfl⟩
  have hremove : R.Triple p I (removeImage key) fun _ => I := by
    refine htx.bind fun r => ?_
    cases r with
    | error e => exact Triple.ret fun _ hs => hs
    | ok u => exact (hall _).thenRet fun _ => ⟨_, rfl⟩
  refine hlock.bind fun (ok : Bool) => ?_
  refine Triple.ite (fun _ => ?_) fun _ => Triple.ret fun _ hs => hs
  exact hremove.bind fun r => hclose.thenRet fun _ => ⟨_, rfl⟩

theorem removeACI_triple (hP : Indifferent hash P) (key : Key)
    (h : Commits run P M p (fun _ _ => True) (removeTx key) fun _ _ _ => True) :
    (P.proto hM).Triple p (Out p) (removeACI key) (fun _ => Out p) :=
  removeACI_parts (image_triple hP blind_true (o := .lockImage key) trivial)
    (out_dbDo hP.tolerant h)
    (fun store => image_triple hP blind_true (o := .erase store key) trivial)
    (image_triple hP blind_true (o := .closeImage key) trivial)

end Rkt.Store
