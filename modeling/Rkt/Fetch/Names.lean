import Rkt.Fetch.Answers

set_option autoImplicit false

namespace Rkt.Fetch

open Conc Proto DbProto Store Relation

/-- The server replies 304 to a request for the URL only if there is an ETag, and what comes from
docker has the right name. -/
def naming (a : Args) : (o : DbOp Op Stmt) → DbOp.Res coreSig stmtSig o → Bool
  | .base (.httpGet url etag), (r : Option Response) =>
    url = a.aciURL → r.any (·.statusCode = 304) = true → etag ≠ []
  | .base (.convert _), (r : Option File) =>
    r.join.all fun image => a.appName ≠ [] → image.manifest.name = a.appName
  | _, _ => true

/-- The store, while a call with these arguments is answered. -/
def namingMachine (a : Args) : Machine (dbSig coreSig stmtSig) (DbState Core Database) :=
  storeMachine.restrict fun _ o r _ => naming a o r = true

theorem naming_sub (a : Args) : (namingMachine a).Sub (dbMachine coreMachine Stmt.run) :=
  Machine.restrict_sub

/-- From `s`, a call by `p` can come to `s'` with `y` still to run. -/
abbrev Comes (hash : Image → Key) (p : Pid) (f : Fetcher) (a : Args) (s s' : DbState Core Database)
    (y : StoreProg (Except FetchErr Key)) : Prop :=
  ReflTransGen (Turn (namingMachine a) nobody p) (s, fetchImageFrom hash f a) (s', y)

/-- The state after a sequence of calls on a new store, the last one first. A call may also end
with the death of its process. -/
inductive History (hash : Image → Key) : List Args → DbState Core Database → Prop where
  | start : History hash [] (initial Core.empty (newDatabase 2))
  | returned {h : List Args} {s s' : DbState Core Database} (p : Pid) (f : Fetcher) (a : Args)
      {r : Except FetchErr Key} (hs : History hash h s) (hcall : Comes hash p f a s s' (.ret r)) :
      History hash (a :: h) s'
  | died {h : List Args} {s s' : DbState Core Database} (p : Pid) (f : Fetcher) (a : Args)
      {y : StoreProg (Except FetchErr Key)} (hs : History hash h s)
      (hcall : Comes hash p f a s s' y) : History hash (a :: h) (storeMachine.die p s')

def Telling (hash : Image → Key) : Prop :=
  ∀ image image', hash image = hash image' → image.manifest.name = image'.manifest.name

/-- The manifest under the key has the name that the call asks for, if it asks for one. -/
def Bears (a : Args) (key : Key) (c : Core) : Prop :=
  ∃ m, c.imageManifest key = some m ∧ (a.appName ≠ [] → m.name = a.appName)

/-- What is stored under the hash of an image has its name, and every row has the key of an image
that satisfies one of the calls for its URL. -/
structure Named (hash : Image → Key) (h : List Args) (c : Core) (d : Database) : Prop where
  own : ∀ image m, c.imageManifest (hash image) = some m → m.name = image.manifest.name
  rows : ∀ row ∈ d.remote, ∃ b ∈ h, b.aciURL = row.aciURL ∧ Bears b row.blobKey c

/-- No manifest is lost, or replaced by one of another name. -/
def Retains (c c' : Core) : Prop :=
  ∀ key m, c.imageManifest key = some m → ∃ m', c'.imageManifest key = some m' ∧ m'.name = m.name

theorem Retains.refl (c : Core) : Retains c c := fun _ m hm => ⟨m, hm, rfl⟩

theorem Retains.of_eq {c c' : Core} (h : c'.imageManifest = c.imageManifest) : Retains c c' := by
  intro key m hm
  exact ⟨m, h ▸ hm, rfl⟩

theorem Bears.mono {a : Args} {key : Key} {c c' : Core} (h : Bears a key c) (hc : Retains c c') :
    Bears a key c' := by
  obtain ⟨m, hm, hname⟩ := h
  obtain ⟨m', hm', heq⟩ := hc key m hm
  exact ⟨m', hm', fun happ => heq.trans (hname happ)⟩

/-- The protocol of a call, after which the history is `h`. -/
def nameProto (hash : Image → Key) (h : List Args) : DbProto coreMachine Database where
  inv := Named hash h
  guar _ c _ c' _ := Retains c c'
  refl _ c _ := .refl c
  inv_die _ _ _ hi := ⟨hi.own, hi.rows⟩
  guar_die _ _ _ _ := .of_eq rfl

variable {hash : Image → Key} {h : List Args} {p : Pid} {f : Fetcher} {a : Args} {c c' : Core}
  {d d' : Database}

/-- A step that leaves the manifests alone, and adds no row but one for an image that satisfies the
call. -/
theorem Named.step (hi : Named hash h c d) (hm : c'.imageManifest = c.imageManifest)
    (hrows : ∀ row ∈ d'.remote, row ∈ d.remote ∨
      ∃ b ∈ h, b.aciURL = row.aciURL ∧ Bears b row.blobKey c) :
    Named hash h c' d' ∧ Retains c c' := by
  refine ⟨⟨fun image m him => hi.own image m (hm ▸ him), fun row hrow => ?_⟩, .of_eq hm⟩
  have hold : ∃ b ∈ h, b.aciURL = row.aciURL ∧ Bears b row.blobKey c :=
    (hrows row hrow).elim (hi.rows row) id
  obtain ⟨b, hb, hurl, hbears⟩ := hold
  exact ⟨b, hb, hurl, hbears.mono (.of_eq hm)⟩

theorem nameProto_tolerant : Tolerant (nameProto hash h) :=
  fun _ _ _ _ hsame hi => hi.step hsame.imageManifest fun _ hrow => .inl hrow

theorem bears_lasting (key : Key) : (nameProto hash h).Lasting fun c _ => Bears a key c :=
  fun _ _ _ _ _ _ _ hg hbears => hbears.mono hg

theorem bears_steady (key : Key) : Steady (nameProto hash h) p fun c _ => Bears a key c :=
  nameProto_tolerant.steady (bears_lasting key)

def Op.stamps : Op → Bool
  | .writeManifest _ _ | .erase _ _ => true
  | _ => false

theorem stampless_next {o : Op} {r : o.Res} (ho : Op.stamps o = false)
    (hn : next p o r c = some c') : c'.imageManifest = c.imageManifest := by
  cases o with
  | writeManifest key m => cases ho
  | erase store key => cases ho
  | handle | lockImage | shareImage | lockStore | readManifest | parseURL | checkSignature =>
    simp only [next] at hn
    repeat' split at hn
    all_goals first
      | cases hn; rfl
      | cases hn
  | closeImage | newStoreLock | importBlob | returned =>
    cases hn
    split_ifs <;> rfl
  | setHandle | panic | sqlOpen | sqlClose | closeShared | createBackup | aside | now | httpGet
  | openFile | convert | trustKeys | storing | stored | opened | dropped | halted =>
    cases hn
    rfl

section call

variable {A : Core → Database → Prop}

/-- What nobody can spoil survives the operations that touch no manifest. -/
theorem stampless_triple (hA : (nameProto hash h).Lasting A) (o : Op) (ho : Op.stamps o = false) :
    ((nameProto hash h).proto (naming_sub a)).Triple p (Idle p false A) (sys o)
      fun _ => Idle p false A := by
  refine base_triple hA.stable fun c d r c' hi hs hn => ?_
  have hkeep : Named hash h c' d ∧ Retains c c' :=
    hi.step (stampless_next ho hn) fun _ hrow => .inl hrow
  exact ⟨hkeep.1, hkeep.2, hA p c d c' d hi hkeep.1 hkeep.2 hs⟩

theorem true_lasting : (nameProto hash h).Lasting fun _ _ => True :=
  fun _ _ _ _ _ _ _ _ _ => trivial

/-- Writing the manifest of an image under its key. If one is there already then it has the same
name. -/
theorem writeManifest_names (hhash : Telling hash) {image : Image}
    (hN : a.appName ≠ [] → image.manifest.name = a.appName) :
    ((nameProto hash h).proto (naming_sub a)).Triple p (Out p)
      (sys (.writeManifest (hash image) image.manifest)) fun (ok : Bool) =>
        if ok = true then Idle p false (fun c _ => Bears a (hash image) c) else Out p := by
  have hwrite : ((nameProto hash h).proto (naming_sub a)).Triple p (Out p)
      (sys (.writeManifest (hash image) image.manifest))
      fun (ok : Bool) => Idle p false fun c _ => ok = true → Bears a (hash image) c := by
    refine base_triple steady_true.stable fun c d (ok : Bool) c' hi _ hn => ?_
    cases hn
    cases ok with
    | false => exact ⟨hi, .refl c, fun hok => nomatch hok⟩
    | true =>
      have hretains : Retains c { c with
          imageManifest := Function.update c.imageManifest (hash image)
            (some image.manifest) } := by
        intro key m hm
        by_cases hkey : key = hash image
        · subst hkey
          exact ⟨image.manifest, Function.update_self _ _ _, (hi.own image m hm).symm⟩
        · exact ⟨m, (Function.update_of_ne hkey _ _).trans hm, rfl⟩
      refine ⟨⟨fun image' m hm => ?_, fun row hrow => ?_⟩, hretains, fun _ => ?_⟩
      · rcases update_eq_some hm with hold | ⟨hkey, hnew⟩
        · exact hi.own image' m hold
        · cases hnew
          exact (hhash image' image hkey).symm
      · obtain ⟨b, hb, hurl, hbears⟩ := hi.rows row hrow
        exact ⟨b, hb, hurl, hbears.mono hretains⟩
      · exact ⟨image.manifest, Function.update_self _ _ _, hN⟩
  refine hwrite.post fun ok s hs => ?_
  cases ok with
  | false => exact ⟨hs.1, hs.2.1, trivial⟩
  | true => exact ⟨hs.1, hs.2.1, hs.2.2 rfl⟩

/-- A transaction after which there are no rows but old ones and such as may be there. -/
theorem commits_named {α : Type} {fn : TxProg (Except Err α)} {Q : α → Core → Database → Prop}
    (hrows : ∀ r c d w, fn.Runs Stmt.run d (.ok r) w → Named hash h c d → A c d →
      (∀ row ∈ w.remote, row ∈ d.remote ∨
        ∃ b ∈ h, b.aciURL = row.aciURL ∧ Bears b row.blobKey c) ∧ Q r c w ∧ Q r c d) :
    Commits Stmt.run (nameProto hash h) (namingMachine a) p A fn Q where
  commit r s _ w hruns _ _ hi hA := by
    obtain ⟨hnew, hQ, -⟩ := hrows r s.core s.db w hruns hi hA
    exact ⟨(hi.step rfl hnew).1, .refl s.core, hQ⟩
  fail r s _ w hruns _ _ hi hA := (hrows r s.core s.db w hruns hi hA).2.2

theorem import_named {key : Key} {image : Image} {latest : Bool} :
    Commits Stmt.run (nameProto hash h) (namingMachine a) p (fun c _ => Bears a key c)
      (importTx key image latest) fun _ c _ => Bears a key c := by
  refine commits_named fun r c d w hruns _ hA => ⟨fun row hrow => .inl ?_, hA, hA⟩
  rwa [importTx_remote hruns] at hrow

theorem writeRemote_named (ha : a ∈ h) {row : Remote} (hrow : row.aciURL = a.aciURL) :
    Commits Stmt.run (nameProto hash h) (namingMachine a) p (fun c _ => Bears a row.blobKey c)
      (writeRemoteTx row) fun _ c _ => Bears a row.blobKey c := by
  refine commits_named fun r c d w hruns _ hA => ⟨fun row' hrow' => ?_, hA, hA⟩
  rcases writeRemoteTx_remote hruns hrow' with hold | rfl
  · exact .inl hold
  · exact .inr ⟨a, ha, hrow.symm, hA⟩

/-- The row that is found was left by a call for the URL; one that was not found has no ETag. -/
theorem getRemote_named (hsame : ∀ b ∈ h, b.aciURL = a.aciURL → b.appName = a.appName) :
    Commits Stmt.run (nameProto hash h) (namingMachine a) p (fun _ _ => True) (getRemoteTx a.aciURL)
      fun r c _ => r.2 = true ∨ r.1.etag ≠ [] → Bears a r.1.blobKey c := by
  refine commits_named fun r c d w hruns hi _ => ?_
  obtain ⟨row, found⟩ := r
  obtain ⟨rfl, hrow⟩ := getRemoteTx_ok hruns
  have hbears : found = true ∨ row.etag ≠ [] → Bears a row.blobKey c := by
    intro hr
    cases found with
    | true =>
      obtain ⟨b, hb, hurl, m, hm, hname⟩ := hi.rows row hrow.1
      refine ⟨m, hm, ?_⟩
      rwa [hsame b hb (hurl.trans hrow.2)] at hname
    | false =>
      -- the row is the empty one
      have hzero : row = Remote.zero := hrow.1
      subst hzero
      rcases hr with hfound | hetag
      · cases hfound
      · exact absurd rfl hetag
  exact ⟨fun _ hrow => .inl hrow, hbears, hbears⟩

/-- `WriteACI` of an image with the right name. -/
theorem writeACI_names (hhash : Telling hash) {file : File} {latest : Bool}
    (hN : ∀ image, file = some image → a.appName ≠ [] → image.manifest.name = a.appName) :
    ((nameProto hash h).proto (naming_sub a)).Triple p (Out p) (writeACI hash file latest)
      (Result (Out p) fun key => Idle p false fun c _ => Bears a key c) := by
  have hop : ∀ {o : Op}, Op.stamps o = false →
      ((nameProto hash h).proto (naming_sub a)).Triple p (Out p) (sys o) fun _ => Out p :=
    fun ho => stampless_triple true_lasting _ ho
  refine writeACI_parts (J := fun _ => Out p) (hop rfl) (fun image => ?_) fun image himage => ?_
  · exact (hop rfl).post fun ok s hs => by cases ok <;> exact hs
  · -- under the lock of the image
    have himport : ((nameProto hash h).proto (naming_sub a)).Triple p (Out p)
        (importImage (hash image) image latest)
        (Result (Out p) fun key => Idle p false fun c _ => Bears a key c) := by
      refine Triple.check_same (hop rfl) (fun _ hs => hs) ?_
      refine Triple.check_same (hop rfl) (fun _ hs => hs) ?_
      refine Triple.check (writeManifest_names hhash (hN image himage)) (fun _ hs => hs) ?_
      refine Triple.onResult (dbDo_triple nameProto_tolerant (bears_steady _)
        (fun _ => bears_steady _) import_named) (fun _ => ?_) fun e => ?_
      · exact Triple.ret fun s hs => hs
      · exact Triple.ret fun s hs => ⟨hs.1, hs.2.1, trivial⟩
    refine Triple.onResult himport (fun key => ?_) fun e => ?_
    · refine (stampless_triple (bears_lasting key) (.closeImage _) rfl).bind fun _ => ?_
      exact Triple.ret fun s hs => hs
    · exact (hop rfl).bind fun _ => Triple.ret fun s hs => hs

theorem saveImage_names (hhash : Telling hash) (ha : a ∈ h) (fetched : Fetched)
    (hN : ∀ image, fetched.file = some image → a.appName ≠ [] → image.manifest.name = a.appName) :
    ((nameProto hash h).proto (naming_sub a)).Triple p (Out p) (saveImage hash f a fetched)
      (Result (Out p) fun key s => Out p s ∧ Bears a key s.core) := by
  refine saveImage_triple (A := Out p) (B := fun key => Idle p false fun c _ => Bears a key c)
    (stampless_triple true_lasting _ rfl) (writeACI_names hhash hN)
    (fun key => stampless_triple (bears_lasting key) _ rfl) (fun row hrow => ?_)
    (stampless_triple true_lasting _ rfl) fun key => ?_
  · refine (dbDo_triple nameProto_tolerant (bears_steady _) (fun _ => bears_steady _)
      (writeRemote_named ha hrow.2)).post fun r s hs => ?_
    cases r <;> exact hs
  · exact (stampless_triple (bears_lasting key) .stored rfl).post
      fun _ s hs => ⟨⟨hs.1, hs.2.1, trivial⟩, hs.2.2⟩

/-- What is known of the key that is returned: if all calls for the URL had the same app name then
the image has that name. -/
def KeyNamed (h : List Args) (a : Args) (key : Key) (c : Core) : Prop :=
  (∀ b ∈ h, b.aciURL = a.aciURL → b.appName = a.appName) → Bears a key c

theorem fetchImageFrom_names (hhash : Telling hash) (ha : a ∈ h) :
    ((nameProto hash h).proto (naming_sub a)).Triple p (Out p) (fetchImageFrom hash f a)
      (Result (Out p) fun key s => Out p s ∧ KeyNamed h a key s.core) := by
  have hlast : ∀ key, (nameProto hash h).Lasting fun c _ => KeyNamed h a key c :=
    fun key q c d c' d' hi hi' hg hk hsame => (hk hsame).mono hg
  have hcalm : Calm ((nameProto hash h).proto (naming_sub a)) p (Out p) :=
    ⟨fun o ho => quiet_triple nameProto_tolerant steady_true (Op.outward_quiet ho),
      fun name signed => stampless_triple true_lasting (.checkSignature name signed) rfl⟩
  have hanswers : Answers ((nameProto hash h).proto (naming_sub a)) p (Out p) a (· ≠ []) True
      fun image => a.appName ≠ [] → image.manifest.name = a.appName := by
    refine .of_calm hcalm (fun etag r s s' hn res hres => ⟨fun hstatus => ?_, fun _ => trivial⟩)
      (fun _ _ _ _ _ _ _ => trivial) (fun _ url r s s' hn image himage => ?_)
      fun _ image himage => himage
    · have hok := (Machine.restrict_next hn).1
      simp only [naming, decide_eq_true_eq] at hok
      exact hok trivial (by simp [hres, hstatus])
    · have hok := (Machine.restrict_next hn).1
      subst himage
      exact of_decide_eq_true hok
  refine hanswers.fetchImageFrom (fun key => (hlast key).lift) (fun fetched hN => ?_)
    (fun row key => stampless_triple true_lasting (.returned f.ks row key) rfl) (fun _ => ?_)
    fun hne => absurd rfl hne
  · refine (saveImage_names hhash ha fetched hN).post fun r s hs => ?_
    cases r with
    | error e => exact hs
    | ok key => exact ⟨hs.1, fun _ => hs.2⟩
  · -- without the condition on the other calls nothing is known of the row
    have hrow : ∀ r : Remote × Bool, (nameProto hash h).Lasting
        fun c _ => r.2 = true ∨ r.1.etag ≠ [] → KeyNamed h a r.1.blobKey c :=
      fun r q c d c' d' hi hi' hg hk hr => hlast _ q c d c' d' hi hi' hg (hk hr)
    have hget : Commits Stmt.run (nameProto hash h) (namingMachine a) p (fun _ _ => True)
        (getRemoteTx a.aciURL)
        fun r c _ => r.2 = true ∨ r.1.etag ≠ [] → KeyNamed h a r.1.blobKey c := by
      by_cases hsame : ∀ b ∈ h, b.aciURL = a.aciURL → b.appName = a.appName
      · have hnamed : Commits Stmt.run (nameProto hash h) (namingMachine a) p _ _ _ :=
          getRemote_named hsame
        refine ⟨fun r s s' w hruns hw hn hi hA => ?_, fun r s s' w hruns hw hn hi hA hr _ => ?_⟩
        · obtain ⟨hi', hg, hQ⟩ := hnamed.commit r s s' w hruns hw hn hi hA
          exact ⟨hi', hg, fun hr _ => hQ hr⟩
        · exact hnamed.fail r s s' w hruns hw hn hi hA hr
      · refine commits_named fun r c d w hruns _ _ => ?_
        obtain ⟨rfl, -⟩ := getRemoteTx_ok hruns
        exact ⟨fun _ hrow => .inl hrow, fun _ h => absurd h hsame, fun _ h => absurd h hsame⟩
    exact (dbDo_shows nameProto_tolerant hrow hget).post
      fun r s hs => ⟨hs.1, fun row found heq => hs.2 (row, found) heq⟩

end call

/-- Between two calls: the invariant, and no transaction is open. -/
def Between (hash : Image → Key) (h : List Args) (s : DbState Core Database) : Prop :=
  Named hash h s.core s.db ∧ ∀ p, s.work p = none

theorem Named.cons (hi : Named hash h c d) (a : Args) : Named hash (a :: h) c d := by
  refine ⟨hi.own, fun row hrow => ?_⟩
  obtain ⟨b, hb, hbears⟩ := hi.rows row hrow
  exact ⟨b, List.mem_cons_of_mem a hb, hbears⟩

/-- One call. Wherever it has come to, the invariant of the longer history holds, and only the
caller may have a transaction. -/
theorem Between.comes (hhash : Telling hash) {s s' : DbState Core Database}
    {y : StoreProg (Except FetchErr Key)} (hs : Between hash h s)
    (hcall : Comes hash p f a s s' y) :
    Named hash (a :: h) s'.core s'.db ∧ (∀ q, q ≠ p → s'.work q = none) ∧
      ∀ r, y = .ret r → s'.work p = none ∧
        ∀ key, r = .ok key → KeyNamed (a :: h) a key s'.core := by
  have hout : Out p s := ⟨hs.2 p, nofun, trivial⟩
  have hinv : ((nameProto hash (a :: h)).proto (naming_sub a)).inv s := by
    refine ⟨hs.1.cons a, fun q w hq => ?_⟩
    rw [hs.2 q] at hq
    cases hq
  obtain ⟨hinv', hsafe, hguar⟩ :=
    (fetchImageFrom_names hhash List.mem_cons_self s hout).alone hinv hcall
  refine ⟨hinv'.1, fun q hq => ?_, ?_⟩
  · -- the steps of `p` leave the transactions of the others alone
    have hwork : ∀ t, ReflTransGen (((nameProto hash (a :: h)).proto (naming_sub a)).guar p) s t →
        t.work q = s.work q := by
      intro t ht
      induction ht with
      | refl => rfl
      | tail _ hg ih => exact (hg.2 q hq).1.trans ih
    exact (hwork s' hguar).trans (hs.2 q)
  · rintro r rfl
    cases r with
    | error e => exact ⟨hsafe.1, fun key h => nomatch h⟩
    | ok key =>
      refine ⟨hsafe.1.1, fun key' heq => ?_⟩
      cases heq
      exact hsafe.2

/-- **The invariant of every history.** -/
theorem History.between (hhash : Telling hash) {s : DbState Core Database}
    (hs : History hash h s) : Between hash h s := by
  induction hs with
  | start => exact ⟨⟨nofun, nofun⟩, fun _ => rfl⟩
  | returned p f a hs hcall ih =>
    obtain ⟨hnamed, hothers, hret⟩ := ih.comes hhash hcall
    refine ⟨hnamed, fun q => ?_⟩
    by_cases hq : q = p
    · subst hq
      exact (hret _ rfl).1
    · exact hothers q hq
  | @died h s s' p f a y hs hcall ih =>
    obtain ⟨hnamed, hothers, -⟩ := ih.comes hhash hcall
    refine ⟨⟨hnamed.own, hnamed.rows⟩, fun q => ?_⟩
    show Function.update s'.work p none q = none
    by_cases hq : q = p
    · subst hq
      exact Function.update_self _ _ _
    · rw [Function.update_of_ne hq]
      exact hothers q hq

/-- **The key has the right name**: after any calls on a store, if a call with an app name returns a
key, and all earlier calls for the same URL had the same app name, then the manifest under the key
has that name. -/
theorem key_has_name (hash : Image → Key) (hhash : Telling hash) (h : List Args)
    (s s' : DbState Core Database) (hs : History hash h s) (p : Pid) (f : Fetcher) (a : Args)
    (happ : a.appName ≠ []) (hsame : ∀ b ∈ h, b.aciURL = a.aciURL → b.appName = a.appName)
    (key : Key) (hcall : Comes hash p f a s s' (.ret (.ok key))) :
    ∃ m, s'.core.imageManifest key = some m ∧ m.name = a.appName := by
  obtain ⟨-, -, hret⟩ := (hs.between hhash).comes hhash hcall
  have hall : ∀ b ∈ a :: h, b.aciURL = a.aciURL → b.appName = a.appName := by
    intro b hb hurl
    rcases List.mem_cons.mp hb with rfl | hb
    · rfl
    · exact hsame b hb hurl
  obtain ⟨m, hm, hname⟩ := (hret _ rfl).2 key rfl hall
  exact ⟨m, hm, hname happ⟩

def nameHash (image : Image) : Key := image.manifest.name

/-- A call for the URL of the example under the given app name. -/
def appArgs (appName : Str) : Args := { exampleArgs with appName := appName }

theorem two_calls (a b : Args) (f : DbState Core Database → StoreProg (Except FetchErr Key) → Bool)
    (hreplay : ((advance (namingMachine a) exampleOutside.answer 0 80
        (initial Core.empty (newDatabase 2), fetchImageFrom nameHash insecureFetcher a)).bind
      fun c => if c.2.result.isSome then (advance (namingMachine b) exampleOutside.answer 0 80
        (c.1, fetchImageFrom nameHash insecureFetcher b)).map fun c' => f c'.1 c'.2
      else none) = some true) :
    ∃ s s' y, History nameHash [a] s ∧ Comes nameHash 0 insecureFetcher b s s' y ∧
      f s' y = true := by
  obtain ⟨⟨s, x⟩, hfirst, hreplay⟩ := Option.bind_eq_some_iff.mp hreplay
  split_ifs at hreplay with hdone
  obtain ⟨r, hr⟩ := Option.isSome_iff_exists.mp hdone
  obtain rfl := Prog.result_eq hr
  obtain ⟨⟨s', y⟩, hsecond, hf⟩ := Option.map_eq_some_iff.mp hreplay
  exact ⟨s, s', y, .returned 0 insecureFetcher a .start (advance_turns hfirst),
    advance_turns hsecond, hf⟩

theorem key_has_name_again :
    ∃ s s' key m, History nameHash [appArgs "example.com/app".toList] s ∧
      Comes nameHash 0 insecureFetcher (appArgs "example.com/app".toList) s s' (.ret (.ok key)) ∧
      s'.core.imageManifest key = some m ∧ m.name = "example.com/app".toList := by
  obtain ⟨s, s', y, hs, hcall, hend⟩ := two_calls (appArgs "example.com/app".toList)
    (appArgs "example.com/app".toList) (fun _ y => y.result = some (.ok (nameHash exampleImage)))
    (by decide)
  obtain rfl := Prog.result_eq (of_decide_eq_true hend)
  obtain ⟨m, hm, hname⟩ := key_has_name nameHash (fun _ _ h => h) _ s s' hs 0 insecureFetcher
    (appArgs "example.com/app".toList) (by decide)
    (fun b hb _ => congrArg Args.appName (List.mem_singleton.mp hb)) _ hcall
  exact ⟨s, s', _, m, hs, hcall, hm, hname⟩

/-- **A key that was fetched without an app name is returned for one.** The first call is for a
plain URL; the second one finds the row of the first, which is still fresh, and returns the key of
an image that has another name. -/
theorem key_of_other_name :
    ∃ s s' key, History nameHash [exampleArgs] s ∧
      Comes nameHash 0 insecureFetcher (appArgs "example.com/other".toList) s s'
        (.ret (.ok key)) ∧
      s'.core.imageManifest key = some exampleImage.manifest ∧
      exampleImage.manifest.name ≠ "example.com/other".toList := by
  obtain ⟨s, s', y, hs, hcall, hend⟩ := two_calls exampleArgs
    (appArgs "example.com/other".toList)
    (fun s' y => y.result = some (.ok (nameHash exampleImage)) ∧
      s'.core.imageManifest (nameHash exampleImage) = some exampleImage.manifest) (by decide)
  obtain ⟨hres, hm⟩ := of_decide_eq_true hend
  obtain rfl := Prog.result_eq hres
  exact ⟨s, s', _, hs, hcall, hm, by decide⟩

end Rkt.Fetch
