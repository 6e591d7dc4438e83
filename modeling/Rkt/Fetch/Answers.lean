import Rkt.Fetch.References
import Rkt.Store.Handle

set_option autoImplicit false

namespace Rkt.Fetch

open Conc Proto DbProto Store

variable {M : Machine (dbSig coreSig stmtSig) (DbState Core Database)} {R : Proto M} {p : Pid}
  {Out : DbState Core Database → Prop} {hash : Image → Key} {f : Fetcher} {a : Args}
  {C : Str → Prop} {G : Prop} {N : Image → Prop} {K : Key → DbState Core Database → Prop}

/-- What is known of the answers to a call with the arguments `a`. -/
structure Answers (R : Proto M) (p : Pid) (Out : DbState Core Database → Prop) (a : Args)
    (C : Str → Prop) (G : Prop) (N : Image → Prop) : Prop extends Calm R p Out where
  httpGet : ∀ etag, R.Triple p Out (sys (.httpGet a.aciURL etag)) fun r s => Out s ∧
    ∀ res, r = some res → (res.statusCode = 304 → C etag) ∧ (res.statusCode = 200 → G)
  parseURL : R.Triple p Out (sys (.parseURL a.aciURL)) fun r s => Out s ∧
    ∀ scheme, r = some scheme → scheme = "docker".toList ∨ scheme = "file".toList → G
  convert : G → ∀ url, R.Triple p Out (sys (.convert url))
    fun r s => Out s ∧ ∀ image, r = some (some image) → N image
  checked : G → ∀ image : Image, (a.appName ≠ [] → image.manifest.name = a.appName) → N image

theorem Answers.of_calm (h : Calm R p Out) (hget : ∀ etag (r : Option Response) s s',
      M.next p (.base (.httpGet a.aciURL etag)) r s = some s' →
      ∀ res, r = some res → (res.statusCode = 304 → C etag) ∧ (res.statusCode = 200 → G))
    (hparse : ∀ (r : Option Str) s s', M.next p (.base (.parseURL a.aciURL)) r s = some s' →
      ∀ scheme, r = some scheme → scheme = "docker".toList ∨ scheme = "file".toList → G)
    (hconvert : G → ∀ url (r : Option File) s s', M.next p (.base (.convert url)) r s = some s' →
      ∀ image, r = some (some image) → N image)
    (hchecked : G → ∀ image : Image, (a.appName ≠ [] → image.manifest.name = a.appName) →
      N image) : Answers R p Out a C G N where
  toCalm := h
  httpGet etag := (h.outward (.httpGet _ _) rfl).answered (hget etag)
  parseURL := (h.outward (.parseURL _) rfl).answered hparse
  convert hG url := (h.outward (.convert _) rfl).answered (hconvert hG url)
  checked := hchecked

/-- **The way through `fetchImageFrom`**: what is known of the key that is returned. -/
theorem Answers.fetchImageFrom (h : Answers R p Out a C G N) (hK : ∀ key, R.Lasting (K key))
    (hsave : ∀ fetched, (∀ image, fetched.file = some image → N image) →
      R.Triple p Out (saveImage hash f a fetched) (Result Out fun key s => Out s ∧ K key s))
    (hreturned : ∀ row key, R.Triple p Out (sys (.returned f.ks row key)) fun _ => Out)
    (hget : LooksUp f a → R.Triple p Out (getRemote a.aciURL) fun r s => Out s ∧ ∀ row found,
      r = .ok (row, found) → found = true ∨ C row.etag → K row.blobKey s)
    (hpanic : C [] → ¬ LooksUp f a → R.Triple p Out
      (Store.panic : StoreProg (Except FetchErr Key)) (Result Out fun key s => Out s ∧ K key s)) :
    R.Triple p Out (Fetch.fetchImageFrom hash f a) (Result Out fun key s => Out s ∧ K key s) := by
  have hcourse : Course R p Out hash f a C G (fun image _ => N image) (fun _ => K) K :=
    { h.toCalm with
      fetched := fun _ _ _ _ _ _ _ hN => hN
      known := fun _ => hK
      httpGet := h.httpGet
      parseURL := h.parseURL.post fun _ _ hs =>
        ⟨hs.1, fun hdocker => h.convert (hs.2 _ hdocker (.inl rfl)),
          fun hfile => hs.2 _ hfile (.inr rfl)⟩
      signed := fun hG image hname _ => by
        refine (h.checkSignature image.manifest.name (some image)).post fun r s hs => ?_
        match r with
        | .error e => exact hs
        | .ok () => exact ⟨hs, h.checked hG image hname⟩
      unsigned := fun hG image hname _ _ _ => h.checked hG image hname
      getRemote := hget
      saveImage := fun fetched => Triple.given (hsave fetched)
      returned := fun row key => Triple.frame (hK key) (hreturned row key)
      panic := hpanic }
  exact hcourse.fetchImageFrom

/-- Whether the server replies 304 to a request for the URL, in which case the URL is one of a
server; and the database does not fail: neither does `sql.Open` or `sqldb.Close`, nor does a
commit. -/
def replying (b : Bool) (url : Str) : (o : DbOp Op Stmt) → DbOp.Res coreSig stmtSig o → Bool
  | .base (.httpGet url' _), (r : Option Response) =>
    url' = url → r.all fun res => decide (res.statusCode = 304) = b
  | .base (.parseURL url'), (r : Option Str) =>
    url' = url → b = true → r ≠ some "docker".toList ∧ r ≠ some "file".toList
  | .commit, (r : Bool) => r
  | o, r => faultless o r

def replyMachine (b : Bool) (p : Pid) (url : Str) :
    Machine (dbSig coreSig stmtSig) (DbState Core Database) :=
  storeMachine.restrict fun q o r _ => q = p → replying b url o r = true

theorem reply_sub (b : Bool) (p : Pid) (url : Str) :
    (replyMachine b p url).Sub (dbMachine coreMachine Stmt.run) := Machine.restrict_sub

theorem replying_faultless {b : Bool} {url : Str} {o : DbOp Op Stmt}
    {r : DbOp.Res coreSig stmtSig o} (h : replying b url o r = true) : faultless o r = true := by
  cases o with
  | base o => cases o <;> first | exact h | rfl
  | _ => rfl

theorem reply_sub_faultless (b : Bool) (p : Pid) (url : Str) :
    (replyMachine b p url).Sub (faultlessMachine p) where
  next h := by
    obtain ⟨hok, hn⟩ := Machine.restrict_next h
    simp only [faultlessMachine, Machine.restrict]
    rw [if_pos fun hq => replying_faultless (hok hq), hn]
  die := rfl

/-- There is a new image only if the reply is not 304. -/
theorem Answers.of_replying {b : Bool} {R : Proto (replyMachine b p a.aciURL)} (h : Calm R p Out) :
    Answers R p Out a (fun _ => b = true) (b = false) fun _ => b = false := by
  refine .of_calm h (fun etag r s s' hn res hres => ?_) (fun r s s' hn scheme hr hscheme => ?_)
    (fun hb _ _ _ _ _ _ _ => hb) fun hb _ _ => hb
  · have hok := (Machine.restrict_next hn).1 rfl
    subst hres
    simp only [replying, decide_eq_true_eq, Option.all_some, forall_const] at hok
    refine ⟨fun hstatus => ?_, fun hstatus => ?_⟩ <;> rw [hstatus] at hok <;> exact hok.symm
  · have hok := (Machine.restrict_next hn).1 rfl
    subst hr
    simp only [replying, decide_eq_true_eq, forall_const, ne_eq, Option.some.injEq] at hok
    by_contra hb
    have hnot := hok (by simpa using hb)
    exact hscheme.elim hnot.1 hnot.2

/-- The row of the URL is looked up in the database, and found. -/
def RowFound (f : Fetcher) (a : Args) (d : Database) : Prop :=
  LooksUp f a ∧ ∃ row ∈ d.remote, row.aciURL = a.aciURL

/-- Every row points to an image, no key is empty, and no image is dropped; and if the server
replies 304 then the database stays as it was. -/
def storedProto (b : Bool) (d₀ : Database) : DbProto coreMachine Database where
  inv _ d := (Referenced d ∧ [] ∉ d.keys) ∧ (b = true → d = d₀)
  guar _ _ d _ d' := d.keys ⊆ d'.keys
  refl _ _ d := List.Subset.refl d.keys
  inv_die _ _ _ h := h
  guar_die _ _ d _ := List.Subset.refl d.keys

/-- The key of an image that was just stored. -/
def Saved (b : Bool) (key : Key) (_ : Core) (d : Database) : Prop := b = false ∧ key ∈ d.keys

/-- What is known of the key that is returned: it is in the database, or it is empty. -/
def Expected (b : Bool) (f : Fetcher) (a : Args) (d₀ : Database) (key : Key) (d : Database) :
    Prop :=
  ((b = true → RowFound f a d₀) → key ∈ d.keys) ∧ (¬ (b = true → RowFound f a d₀) → key = [])

section stored

variable {url : Str} {b : Bool} {d₀ : Database}

theorem storedProto_indifferent (hash : Image → Key) : Indifferent hash (storedProto b d₀) :=
  fun _ _ _ d _ hi => ⟨hi, List.Subset.refl d.keys⟩

theorem saved_lasting (key : Key) : (storedProto b d₀).Lasting (Saved b key) :=
  fun _ _ _ _ _ _ _ hg hkey => ⟨hkey.1, hg hkey.2⟩

theorem saved_blind (hash : Image → Key) (key : Key) :
    Blind hash (storedProto b d₀) p (Saved b key) :=
  (storedProto_indifferent hash).blind (saved_lasting key)

theorem expected_lasting (key : Key) :
    (storedProto b d₀).Lasting fun _ d => Expected b f a d₀ key d :=
  fun _ _ _ _ _ _ _ hg hkey => ⟨fun h => hg (hkey.1 h), hkey.2⟩

theorem Saved.expected {key : Key} {c : Core} {d : Database} (h : Saved b key c d) :
    Expected b f a d₀ key d := by
  refine ⟨fun _ => h.2, fun hnot => absurd (fun hb => ?_) hnot⟩
  rw [h.1] at hb
  cases hb

theorem no_commit_fails {s s' : DbState Core Database}
    (h : (replyMachine b p url).next p .commit false s = some s') : False :=
  Bool.noConfusion ((Machine.restrict_next h).1 rfl)

/-- `WriteACI` adds the key. -/
theorem import_stored (hhash : ∀ image, hash image ≠ []) (hb : b = false) (image : Image)
    (latest : Bool) : Commits Stmt.run (storedProto b d₀) (replyMachine b p url) p (fun _ _ => True)
      (importTx (hash image) image latest) fun _ => Saved b (hash image) where
  commit _ s _ w hruns _ _ hi _ := by
    have hkeys := importTx_keys hruns
    refine ⟨⟨⟨fun row hrow => ?_, fun hempty => ?_⟩, fun h => ?_⟩,
      fun key hkey => (hkeys key).mpr (.inr hkey), hb, (hkeys _).mpr (.inl rfl)⟩
    · rw [importTx_remote hruns] at hrow
      exact (hkeys _).mpr (.inr (hi.1.1 row hrow))
    · rcases (hkeys _).mp hempty with hnew | hold
      · exact hhash image hnew.symm
      · exact hi.1.2 hold
    · exact absurd h (by simp [hb])
  fail _ _ _ _ _ _ hn := (no_commit_fails hn).elim

/-- `WriteRemote`, while the image is known. -/
theorem writeRemote_stored (row : Remote) :
    Commits Stmt.run (storedProto b d₀) (replyMachine b p url) p (Saved b row.blobKey)
      (writeRemoteTx row) fun _ => Saved b row.blobKey where
  commit _ s _ w hruns _ _ hi hA := by
    have hkeys : w.keys = s.db.keys := writeRemoteTx_keys hruns
    have hrows : Referenced w := fun row' hrow => by
      rw [hkeys]
      rcases writeRemoteTx_remote hruns hrow with hold | rfl
      · exact hi.1.1 row' hold
      · exact hA.2
    refine ⟨⟨⟨hrows, ?_⟩, fun h => absurd h (by simp [hA.1])⟩, fun key hkey => ?_, hA.1, ?_⟩ <;>
      rw [hkeys]
    · exact hi.1.2
    · exact hkey
    · exact hA.2
  fail _ _ _ _ _ _ hn := (no_commit_fails hn).elim

/-- The key of a row that was found is known; one that was not found has the empty key. -/
theorem getRemote_stored (hlook : LooksUp f a) :
    Commits Stmt.run (storedProto b d₀) (replyMachine b p a.aciURL) p (fun _ _ => True)
      (getRemoteTx a.aciURL)
      fun r _ d => r.2 = true ∨ b = true → Expected b f a d₀ r.1.blobKey d where
  commit r s _ w hruns _ _ hi _ := by
    obtain ⟨row, found⟩ := r
    obtain ⟨rfl, hrow⟩ := getRemoteTx_ok hruns
    refine ⟨hi, List.Subset.refl _, fun h => ?_⟩
    cases found with
    | true =>
      refine ⟨fun _ => hi.1.1 row hrow.1, fun hnot => absurd (fun hb => ?_) hnot⟩
      exact ⟨hlook, row, hi.2 hb ▸ hrow.1, hrow.2⟩
    | false =>
      have hb : b = true := h.resolve_left nofun
      refine ⟨fun hfound => ?_, fun _ => ?_⟩
      · obtain ⟨-, row', hrow', hurl⟩ := hfound hb
        exact absurd hurl (hrow.2 row' (hi.2 hb ▸ hrow'))
      · -- the row is the empty one
        have hzero : row = Remote.zero := hrow.1
        rw [hzero]
        rfl
  fail _ _ _ _ _ _ hn := (no_commit_fails hn).elim

theorem core_stored {A : Core → Database → Prop} (hA : (storedProto b d₀).Stable p A)
    (hcore : ∀ c c' d, A c d → A c' d) (o : Op) :
    ((storedProto b d₀).proto (reply_sub b p url)).Triple p (Idle p false A) (sys o)
      fun _ => Idle p false A :=
  base_triple hA fun c d _ c' hi hs _ => ⟨hi, List.Subset.refl _, hcore c c' d hs⟩

theorem out_stored (o : Op) : ((storedProto b d₀).proto (reply_sub b p url)).Triple p (Store.Out p)
    (sys o) fun _ => Store.Out p :=
  core_stored steady_true.stable (fun _ _ _ h => h) o

theorem saveImage_stored (hhash : ∀ image, hash image ≠ []) (fetched : Fetched)
    (hnew : ∀ image, fetched.file = some image → b = false) :
    ((storedProto b d₀).proto (reply_sub b p url)).Triple p (Store.Out p)
      (saveImage hash f a fetched)
      (Result (Store.Out p) fun key s => Store.Out p s ∧ Expected b f a d₀ key s.db) := by
  have hP : Indifferent hash (storedProto b d₀) := storedProto_indifferent hash
  refine saveImage_triple (A := Store.Out p) (B := fun key => Idle p false (Saved b key))
    (out_stored _) ?_ (fun key => ?_) (fun row _ => ?_) (out_stored _) fun key => ?_
  · refine (writeACI_triple hP blind_true (saved_blind hash) fetched.file a.latest
      fun image himage => import_stored hhash (hnew image himage) image a.latest).post
      fun r s hs => ?_
    cases r with
    | ok key => exact hs.1
    | error e => exact hs
  · exact quiet_triple hP.tolerant (saved_blind hash key).steady rfl
  · refine (dbDo_triple hP.tolerant (saved_blind hash row.blobKey).steady
      (fun _ => (saved_blind hash row.blobKey).steady) (writeRemote_stored row)).post
      fun r s hs => ?_
    cases r <;> exact hs
  · exact (core_stored (saved_blind hash key).stable (fun _ _ _ h => h) _).post
      fun _ s hs => ⟨⟨hs.1, hs.2.1, trivial⟩, hs.2.2.expected⟩

theorem fetchImageFrom_stored (hhash : ∀ image, hash image ≠ []) :
    ((storedProto b d₀).proto (reply_sub b p a.aciURL)).Triple p (Store.Out p)
      (fetchImageFrom hash f a)
      (Result (Store.Out p) fun key s => Store.Out p s ∧ Expected b f a d₀ key s.db) := by
  have hP : Indifferent hash (storedProto b d₀) := storedProto_indifferent hash
  have hcalm : Calm ((storedProto b d₀).proto (reply_sub b p a.aciURL)) p (Store.Out p) :=
    ⟨fun o _ => out_stored o, fun _ _ => out_stored _⟩
  refine (Answers.of_replying hcalm).fetchImageFrom (fun key => (expected_lasting key).lift)
    (saveImage_stored hhash) (fun _ _ => out_stored _) (fun hlook => ?_)
    fun _ _ => panic_triple (out_stored _) (out_stored _)
  have hlast : ∀ r : Remote × Bool, (storedProto b d₀).Lasting
      fun _ d => r.2 = true ∨ b = true → Expected b f a d₀ r.1.blobKey d :=
    fun r q c d c' d' hi hi' hg hs h => expected_lasting _ q c d c' d' hi hi' hg (hs h)
  exact (dbDo_shows hP.tolerant hlast (getRemote_stored hlook)).post
    fun r s hs => ⟨hs.1, fun row found heq => hs.2 (row, found) heq⟩

end stored

section released

def Op.fatal : Op → Bool
  | .setHandle _ | .panic => true
  | _ => false

theorem released_sys (o : Op) (ho : Op.fatal o = false) :
    (handleProto p).Triple p (Released p) (sys o) fun _ => Released p := by
  refine (sys_triple (fun h => ?_) ?_).post fun _ _ hs => hs.1
  · rintro rfl
    cases ho
  · rintro rfl
    cases ho

theorem writeACI_released (file : File) (latest : Bool) :
    (handleProto p).Triple p (Released p) (writeACI hash file latest) fun _ => Released p := by
  have hwrite : (handleProto p).Triple p (Released p) (writeACI hash file latest)
      (Result (Released p) fun _ => Released p) := by
    refine writeACI_parts (J := fun _ => Released p) (released_sys _ rfl) (fun image => ?_)
      fun image _ => ?_
    · exact (released_sys _ rfl).post fun ok s hs => by cases ok <;> exact hs
    · have himport : (handleProto p).Triple p (Released p)
          (importImage (hash image) image latest) fun _ => Released p := by
        refine Triple.check_same (released_sys _ rfl) (fun _ hs => hs) ?_
        refine Triple.check_same (released_sys _ rfl) (fun _ hs => hs) ?_
        refine Triple.check_same (released_sys _ rfl) (fun _ hs => hs) ?_
        refine (dbDo_has _).thenRet fun r => ?_
        cases r <;> exact ⟨_, rfl⟩
      refine himport.bind fun r => (released_sys (.closeImage _) rfl).bind fun _ => ?_
      exact Triple.ret fun s hs => by cases r <;> exact hs
  exact hwrite.either (fun _ _ hs => hs) fun _ hs => hs

theorem saveImage_released (fetched : Fetched) :
    (handleProto p).Triple p (Released p) (saveImage hash f a fetched)
      (Result (Released p) fun _ s => Released p s ∧ True) := by
  refine saveImage_triple (A := Released p) (B := fun _ => Released p)
    (released_sys _ rfl) ?_ (fun _ => released_sys _ rfl) (fun row _ => dbDo_has _)
    (released_sys _ rfl) fun _ => ?_
  · refine (writeACI_released fetched.file a.latest).post fun r s hs => ?_
    cases r <;> exact hs
  · exact (released_sys .stored rfl).post fun _ _ hs => ⟨hs, trivial⟩

/-- `fetchImageFrom` does not panic, and leaves the `DB` struct as it was. -/
theorem fetchImageFrom_released {b : Bool} (hlook : b = true → LooksUp f a) :
    ((handleProto p).sub (reply_sub_faultless b p a.aciURL)).Triple p (Released p)
      (fetchImageFrom hash f a) (Result (Released p) fun _ s => Released p s ∧ True) := by
  have hcalm : Calm ((handleProto p).sub (reply_sub_faultless b p a.aciURL)) p (Released p) := by
    refine ⟨fun o ho => (released_sys o ?_).sub _, fun name signed =>
      (released_sys (.checkSignature name signed) rfl).sub _⟩
    cases o <;> first | rfl | cases ho
  exact (Answers.of_replying hcalm).fetchImageFrom (K := fun _ _ => True)
    (fun _ _ _ _ _ _ _ _ => trivial) (fun fetched _ => (saveImage_released fetched).sub _)
    (fun row key => (released_sys (.returned f.ks row key) rfl).sub _)
    (fun _ => ((dbDo_has _).sub _).post fun _ _ hs => ⟨hs, fun _ _ _ _ => trivial⟩)
    fun hb hnot => absurd (hlook hb) hnot

end released

/-- **When `fetchImageFrom` returns keys that are not empty and that the store knows**: exactly if
the server does not reply 304 to the request for the image, or the row of the URL was looked up and
found; and otherwise it may also panic. This is for any store in which the rows point to images,
with any flags and for any URL, if the database does not fail. -/
theorem key_stored_iff (hash : Image → Key) (hhash : ∀ image, hash image ≠ []) (f : Fetcher)
    (a : Args) (p : Pid) (c : Core) (d : Database) (hhandle : c.handle p = ⟨false, false⟩)
    (hpanicked : p ∉ c.panicked) (hrows : Referenced d) (hkeys : [] ∉ d.keys) (b : Bool)
    (s' : DbState Core Database) (y : StoreProg (Except FetchErr Key))
    (hrun : Relation.ReflTransGen (Turn (replyMachine b p a.aciURL) nobody p)
      (initial c d, fetchImageFrom hash f a) (s', y)) :
    (p ∈ s'.core.panicked → ¬ (b = true → RowFound f a d)) ∧
      ∀ key, y = .ret (.ok key) →
        (key ≠ [] ∧ key ∈ s'.db.keys ↔ (b = true → RowFound f a d)) := by
  have hout : Store.Out p (initial c d) := ⟨rfl, Bool.noConfusion, trivial⟩
  have hreleased : Released p (initial c d) := ⟨hhandle, by simp [initial]⟩
  refine ⟨fun hpanic hfound => ?_, ?_⟩
  · have hlook : b = true → LooksUp f a := fun hb => (hfound hb).1
    exact ((fetchImageFrom_released hlook _ hreleased).alone hpanicked hrun).1 hpanic
  · rintro key rfl
    obtain ⟨hinv, hkey, -⟩ := (fetchImageFrom_stored hhash _ hout).alone
      ⟨⟨⟨hrows, hkeys⟩, fun _ => rfl⟩, fun _ _ h => nomatch h⟩ hrun
    have hexp : Expected b f a d key s'.db := hkey.2
    refine ⟨fun hgood => ?_, fun hfound => ?_⟩
    · by_contra hnot
      exact hgood.1 (hexp.2 hnot)
    · have hmem := hexp.1 hfound
      exact ⟨fun hempty => hinv.1.1.2 (hempty ▸ hmem), hmem⟩

def filledHash (image : Image) : Key := 's' :: image.contents

theorem key_stored_fetched :
    ∃ s' key, Relation.ReflTransGen (Turn (replyMachine false 0 exampleArgs.aciURL) nobody 0)
      (initial Core.empty (newDatabase 2), fetchImageFrom filledHash insecureFetcher exampleArgs)
      (s', .ret (.ok key)) ∧ 0 ∉ s'.core.panicked ∧ key ≠ [] ∧ key ∈ s'.db.keys := by
  obtain ⟨s', y, hrun, hend⟩ := advance_exists (M := replyMachine false 0 exampleArgs.aciURL)
    (E := nobody) (p := 0) exampleOutside.answer 80
    (x := fetchImageFrom filledHash insecureFetcher exampleArgs)
    (s := initial Core.empty (newDatabase 2))
    (fun _ y => y.result = some (.ok (filledHash exampleImage))) (by decide)
  obtain rfl := Prog.result_eq (of_decide_eq_true hend)
  have hkey := key_stored_iff filledHash nofun insecureFetcher exampleArgs 0 Core.empty
    (newDatabase 2) rfl nofun nofun nofun false s' _ hrun
  exact ⟨s', _, hrun, fun hpanic => hkey.1 hpanic nofun, (hkey.2 _ rfl).mpr nofun⟩

def notModified : Outside where
  reply _ _ := some ⟨304, [], [], none⟩

/-- **A 304 that nobody asked for, with `--no-cache`**: no row was looked up, and `fetchImageFrom`
panics. -/
theorem unsolicited_panics :
    ∃ s' y, Relation.ReflTransGen (Turn storeMachine nobody 0)
      (initial Core.empty (newDatabase 2),
        fetchImageFrom filledHash insecureFetcher { exampleArgs with latest := true }) (s', y) ∧
      0 ∈ s'.core.panicked := by
  obtain ⟨s', y, hrun, hend⟩ := advance_exists (M := storeMachine) (E := nobody) (p := 0)
    notModified.answer 4
    (x := fetchImageFrom filledHash insecureFetcher { exampleArgs with latest := true })
    (s := initial Core.empty (newDatabase 2)) (fun s' _ => 0 ∈ s'.core.panicked) (by decide)
  exact ⟨s', y, hrun, of_decide_eq_true hend⟩

end Rkt.Fetch
