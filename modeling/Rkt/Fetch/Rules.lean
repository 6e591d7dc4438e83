import Rkt.Fetch.Fetch
import Rkt.Store.Rules

set_option autoImplicit false

namespace Rkt.Fetch

open Conc Prog Proto Store

variable {M : Machine (dbSig coreSig stmtSig) (DbState Core Database)} {R : Proto M} {p : Pid}
  {Out : DbState Core Database → Prop} {acc : Key → DbState Core Database → Prop}
  {hash : Image → Key} {α β ε : Type}

/-- If there is a keystore then the image in the file, if there is one, is accepted. -/
def Checked (acc : Key → DbState Core Database → Prop) (hash : Image → Key) (f : Fetcher)
    (file : File) (s : DbState Core Database) : Prop :=
  f.ks = true → ∀ image, file = some image → acc (hash image) s

/-- What is required of the parts of `fetchImageFrom`. -/
structure Parts (R : Proto M) (p : Pid) (Out : DbState Core Database → Prop)
    (acc : Key → DbState Core Database → Prop) (hash : Image → Key) : Prop where
  lasting : ∀ key, R.Lasting (acc key)
  quiet : ∀ o : Op, o.quiet = true → R.Triple p Out (sys o) fun _ => Out
  parseURL : ∀ url, R.Triple p Out (sys (.parseURL url))
    fun r s => Out s ∧ ∀ scheme, r = some scheme → scheme = getScheme url
  checkSignature : ∀ name signed, R.Triple p Out (sys (.checkSignature name signed))
    fun r s => Out s ∧ ∀ image, signed = some image → name = image.manifest.name →
      r = .ok () → acc (hash image) s
  writeACI : ∀ file latest, R.Triple p Out (Store.writeACI hash file latest) fun _ => Out
  removeACI : ∀ key, R.Triple p Out (Store.removeACI key) fun _ => Out
  getRemote : ∀ url, R.Triple p Out (Store.getRemote url)
    fun r s => Out s ∧ ∀ row found, r = .ok (row, found) → row.verified = true → acc row.blobKey s
  saveImage : ∀ f a fetched, R.Triple p (fun s => Out s ∧ Checked acc hash f fetched.file s)
    (Fetch.saveImage hash f a fetched)
    (Result Out fun key s => Out s ∧ (f.ks = true → acc key s))
  returned : ∀ ks row key, R.Triple p
    (fun s => Out s ∧ (ks = true → (∀ row', row = some row' → row'.verified = true) → acc key s))
    (sys (.returned ks row key)) fun _ => Out

/-- Saving an image: `A` holds while `WriteACI` runs, and `B key` while the row is written. -/
theorem saveImage_triple {A0 A Out : DbState Core Database → Prop}
    {B C : Key → DbState Core Database → Prop} {f : Fetcher} {a : Args} {fetched : Fetched}
    (hstoring : R.Triple p A0 (sys (.storing (fetched.file.map hash))) fun _ => A)
    (hwrite : R.Triple p A (Store.writeACI hash fetched.file a.latest) (Result A B))
    (hnow : ∀ key, R.Triple p (B key) (sys .now) fun _ => B key)
    (hrow : ∀ row : Remote, row.verified = f.ks ∧ row.aciURL = a.aciURL →
      R.Triple p (B row.blobKey) (Store.writeRemote row) fun _ => B row.blobKey)
    (hfailed : R.Triple p A (sys .stored) fun _ => Out)
    (hstored : ∀ key, R.Triple p (B key) (sys .stored) fun _ s => Out s ∧ C key s) :
    R.Triple p A0 (saveImage hash f a fetched) (Result Out fun key s => Out s ∧ C key s) := by
  have himage : R.Triple p A (writeImage hash f a fetched)
      (Result (fun s => A s ∨ ∃ key, B key s) B) := by
    refine Triple.onResult hwrite (fun key => ?_) fun e => Triple.ret fun s hs => .inl hs
    refine Triple.ite (fun _ => ?_) fun _ => Triple.ret fun s hs => hs
    refine (hnow key).bind fun t => ?_
    refine (hrow (newRow f a fetched.cd key t) ⟨rfl, rfl⟩).bind fun r => ?_
    match r with
    | .error e => exact Triple.ret fun s hs => .inr ⟨key, hs⟩
    | .ok () => exact Triple.ret fun s hs => hs
  refine hstoring.bind fun _ => ?_
  refine Triple.onResult himage (fun key => ?_) fun e => ?_
  · exact (hstored key).bind fun _ => Triple.ret fun s hs => hs
  · -- the row may have failed to be written after the image had been
    have hout : R.Triple p (fun s => A s ∨ ∃ key, B key s) (sys .stored) fun _ => Out := by
      rintro s (hs | ⟨key, hs⟩)
      · exact hfailed s hs
      · exact ((hstored key).post fun _ _ hs => hs.1) s hs
    exact hout.bind fun _ => Triple.ret fun s hs => hs

/-- The operations by which `fetch` reaches out of the store. -/
def Op.outward : Op → Bool
  | .aside | .now | .parseURL _ | .httpGet _ _ | .openFile _ | .convert _ | .trustKeys _ => true
  | _ => false

theorem Op.outward_quiet {o : Op} (h : Op.outward o = true) : o.quiet = true := by
  cases o <;> first | rfl | cases h

/-- What is required of the operations that `fetch` performs: they leave `Out` alone. -/
structure Calm (R : Proto M) (p : Pid) (Out : DbState Core Database → Prop) : Prop where
  outward : ∀ o : Op, Op.outward o = true → R.Triple p Out (sys o) fun _ => Out
  checkSignature : ∀ name signed, R.Triple p Out (sys (.checkSignature name signed)) fun _ => Out

/-- A download: a cached image is to be used after a reply with the status 304, and a new one after
one with the status 200. -/
theorem downloadHTTP_triple {url etag : Str} {C G : Prop}
    (hget : R.Triple p Out (sys (.httpGet url etag)) fun r s => Out s ∧ ∀ res, r = some res →
      (res.statusCode = 304 → C) ∧ (res.statusCode = 200 → G))
    (haside : R.Triple p Out (sys .aside) fun _ => Out) : R.Triple p Out (downloadHTTP url etag)
      (Result Out fun got s => Out s ∧ if got.1.useCached then C else G) := by
  refine hget.bind fun r => ?_
  match r with
  | none => exact Triple.ret fun _ hs => hs.1
  | some res =>
    refine Triple.pre (A := fun s => Out s ∧ ((res.statusCode = 304 → C) ∧
      (res.statusCode = 200 → G))) (fun s hs => ⟨hs.1, hs.2 res rfl⟩) (Triple.given fun hres => ?_)
    refine Triple.ite (fun _ => Triple.ret fun _ hs => hs) fun _ => ?_
    refine Triple.ite (fun hstatus => ?_) fun _ => ?_
    · match res.body with
      | none => exact Triple.ret fun _ hs => hs
      | some file =>
        exact Triple.check_same haside (fun _ hs => hs) (Triple.ret fun _ hs => ⟨hs, hres.2 hstatus⟩)
    · refine Triple.ite (fun hstatus => ?_) fun _ => Triple.ret fun _ hs => hs
      exact Triple.ret fun _ hs => ⟨hs, hres.1 hstatus⟩

theorem panic_triple {Q : α → DbState Core Database → Prop}
    (hpanic : R.Triple p Out (sys .panic) fun _ => Out)
    (hhalted : R.Triple p Out (sys .halted) fun _ => Out) : R.Triple p Out Store.panic Q := by
  refine hpanic.bind fun _ => hhalted.bind fun never => ?_
  exact nomatch never

namespace Calm

variable (h : Calm R p Out)

include h

theorem aside {e : ε} {k : StoreProg (Except ε α)} {Q : Except ε α → DbState Core Database → Prop}
    (he : ∀ s, Out s → Q (.error e) s) (hk : R.Triple p Out k Q) :
    R.Triple p Out (check (sys .aside) e k) Q :=
  Triple.check_same (h.outward .aside rfl) he hk

theorem downloadHTTP (url etag : Str) :
    R.Triple p Out (Fetch.downloadHTTP url etag) fun _ => Out := by
  have hget : R.Triple p Out (sys (.httpGet url etag))
      fun r s => Out s ∧ ∀ res, r = some res →
        (res.statusCode = 304 → True) ∧ (res.statusCode = 200 → True) :=
    (h.outward (.httpGet url etag) rfl).post
      fun _ _ hs => ⟨hs, fun _ _ => ⟨fun _ => trivial, fun _ => trivial⟩⟩
  exact (downloadHTTP_triple hget (h.outward .aside rfl)).either (fun _ _ hs => hs.1) fun _ hs => hs

theorem downloadSignatureFile (url : Str) :
    R.Triple p Out (Fetch.downloadSignatureFile url) fun _ => Out := by
  refine (h.downloadHTTP url []).thenRet fun r => ?_
  cases r <;> exact ⟨_, rfl⟩

theorem trustKeys (f : Fetcher) (a : Args) : R.Triple p Out (Fetch.trustKeys f a) fun _ => Out :=
  Triple.ite (fun _ => h.outward (.trustKeys _) rfl) fun _ => Triple.ret fun _ hs => hs

theorem getSignature (f : Fetcher) (a : Args) :
    R.Triple p Out (Fetch.getSignature f a) fun _ => Out := by
  refine Triple.ite (fun _ => ?_) fun _ => Triple.ret fun _ hs => hs
  refine (h.outward (.parseURL _) rfl).bind fun r => ?_
  match r with
  | none => exact Triple.ret fun _ hs => hs
  | some scheme =>
    refine Triple.ite (fun _ => ?_) fun _ => ?_
    · refine (h.outward (.openFile _) rfl).thenRet fun r => ?_
      cases r <;> exact ⟨_, rfl⟩
    · refine h.aside (fun _ hs => hs) ?_
      refine (h.downloadSignatureFile a.ascURL).thenRet fun r => ?_
      match r with
      | .ok () => exact ⟨_, rfl⟩
      | .error e => cases e <;> exact ⟨_, rfl⟩

theorem checkSigner (f : Fetcher) (a : Args) (retry : Bool) :
    R.Triple p Out (Fetch.checkSigner f a retry) fun _ => Out := by
  refine Triple.ite (fun _ => ?_) fun _ => Triple.ret fun _ hs => hs
  refine h.aside (fun _ hs => hs) ?_
  refine (h.checkSignature a.appName none).thenRet fun r => ?_
  match r with
  | .ok () => exact ⟨_, rfl⟩
  | .error e => cases e <;> exact ⟨_, rfl⟩

theorem retryDownload (retry : Bool) (url : Str) :
    R.Triple p Out (Fetch.retryDownload retry url) fun _ => Out :=
  Triple.ite (fun _ => h.downloadSignatureFile url) fun _ => Triple.ret fun _ hs => hs

end Calm

/-- `fetchImageFrom` looks up the row of the URL. -/
def LooksUp (f : Fetcher) (a : Args) : Prop :=
  (f.isLocal ∧ a.scheme ≠ "file".toList) ∨ (a.scheme ≠ "file".toList ∧ ¬ a.latest)

/-- What is known on the way through `fetchImageFrom`: `C` of the ETag, if the server replied 304,
`G` if it replied 200, or the image is a file, `V` of an image that was fetched, `K` of a key that
is about to be returned, with its row if it was looked up, and `L` of a key that has been
returned. -/
structure Course (R : Proto M) (p : Pid) (Out : DbState Core Database → Prop) (hash : Image → Key)
    (f : Fetcher) (a : Args) (C : Str → Prop) (G : Prop)
    (V : Image → DbState Core Database → Prop)
    (K : Option Remote → Key → DbState Core Database → Prop)
    (L : Key → DbState Core Database → Prop) : Prop extends Calm R p Out where
  fetched : ∀ image, R.Lasting (V image)
  known : ∀ row key, R.Lasting (K row key)
  httpGet : ∀ etag, R.Triple p Out (sys (.httpGet a.aciURL etag)) fun r s => Out s ∧
    ∀ res, r = some res → (res.statusCode = 304 → C etag) ∧ (res.statusCode = 200 → G)
  parseURL : R.Triple p Out (sys (.parseURL a.aciURL)) fun r s => Out s ∧
    (r = some "docker".toList → ∀ url, R.Triple p Out (sys (.convert url))
      fun r s => Out s ∧ ∀ image, r = some (some image) → V image s) ∧
    (r = some "file".toList → G)
  signed : G → ∀ image : Image, (a.appName ≠ [] → image.manifest.name = a.appName) → f.ks = true →
    R.Triple p Out (sys (.checkSignature image.manifest.name (some image)))
      (Result Out fun _ s => Out s ∧ V image s)
  unsigned : G → ∀ image : Image, (a.appName ≠ [] → image.manifest.name = a.appName) →
    ¬ f.ks = true → ∀ s, Out s → V image s
  getRemote : LooksUp f a → R.Triple p Out (Store.getRemote a.aciURL) fun r s => Out s ∧
    ∀ row found, r = .ok (row, found) → found = true ∨ C row.etag → K (some row) row.blobKey s
  saveImage : ∀ fetched, R.Triple p
    (fun s => Out s ∧ ∀ image, fetched.file = some image → V image s)
    (Fetch.saveImage hash f a fetched) (Result Out fun key s => Out s ∧ K none key s)
  returned : ∀ row key, R.Triple p (fun s => Out s ∧ K row key s) (sys (.returned f.ks row key))
    fun _ s => Out s ∧ L key s
  panic : C [] → ¬ LooksUp f a → R.Triple p Out (Store.panic : StoreProg (Except FetchErr Key))
    (Result Out fun key s => Out s ∧ L key s)

namespace Course

variable {f : Fetcher} {a : Args} {C : Str → Prop} {G : Prop}
  {V : Image → DbState Core Database → Prop}
  {K : Option Remote → Key → DbState Core Database → Prop} {L : Key → DbState Core Database → Prop}
  (h : Course R p Out hash f a C G V K L)

include h

theorem getACI (scheme etag : Str) (hfile : scheme = "file".toList → G) :
    R.Triple p Out (Fetch.getACI a scheme etag) (Result Out fun fetched s => Out s ∧
      if fetched.cd.any (·.useCached) then C etag else G) := by
  refine Triple.ite (fun hscheme => ?_) fun _ => ?_
  · refine (h.outward (.openFile _) rfl).bind fun file => ?_
    match file with
    | none => exact Triple.ret fun _ hs => hs
    | some file => exact Triple.ret fun _ hs => ⟨hs, hfile hscheme⟩
  · refine h.aside (fun _ hs => hs) ?_
    refine Triple.onResult (downloadHTTP_triple (h.httpGet etag) (h.outward .aside rfl))
      (fun got => ?_) fun _ => Triple.ret fun _ hs => hs
    exact Triple.ret fun _ hs => hs

theorem verify (hG : G) (file : File) : R.Triple p Out (Fetch.verify f a file)
      (Result Out fun _ s => Out s ∧ ∀ image, file = some image → V image s) := by
  refine h.aside (fun _ hs => hs) ?_
  cases file with
  | none => exact Triple.ret fun _ hs => hs
  | some image =>
    refine Triple.ite (fun _ => Triple.ret fun _ hs => hs) fun hname => ?_
    have happ : a.appName ≠ [] → image.manifest.name = a.appName := fun hne => by
      by_contra hdiff
      exact hname ⟨hne, hdiff⟩
    -- what is known of the image is kept to the end
    have hend : R.Triple p (fun s => Out s ∧ V image s)
        (check (sys .aside) FetchErr.seekingACI (return .ok ()))
        (Result Out fun _ s => Out s ∧ ∀ image', some image = some image' → V image' s) := by
      refine Triple.check_same (Triple.frame (h.fetched image) (h.outward .aside rfl))
        (fun _ hs => hs.1) (Triple.ret fun s hs => ⟨hs.1, fun image' heq => ?_⟩)
      cases heq
      exact hs.2
    refine Triple.ite (fun hks => ?_) fun hks => ?_
    · refine h.aside (fun _ hs => hs) (h.aside (fun _ hs => hs) ?_)
      exact Triple.onResult (h.signed hG image happ hks) (fun _ => hend)
        fun _ => Triple.ret fun _ hs => hs
    · exact hend.pre fun s hs => ⟨hs, h.unsigned hG image happ hks s hs⟩

theorem verifyFetched (hG : G) (retry : Bool) (fetched : Fetched) :
    R.Triple p Out (Fetch.verifyFetched f a retry fetched) (Result Out fun fetched' s =>
      Out s ∧ fetched' = fetched ∧ ∀ image, fetched.file = some image → V image s) := by
  refine (h.retryDownload retry a.ascURL).bind fun r => ?_
  match r with
  | .error e => exact Triple.ret fun _ hs => hs
  | .ok () =>
    exact Triple.onResult (h.verify hG fetched.file)
      (fun _ => Triple.ret fun _ hs => ⟨hs.1, rfl, hs.2⟩) fun _ => Triple.ret fun _ hs => hs

/-- What `fetch` hands back: the cached image is to be used only if `C` holds of the ETag, and `V`
holds of a new one. -/
theorem fetch (etag : Str) :
    R.Triple p Out (Fetch.fetch f a etag) (Result Out fun fetched s => Out s ∧
      (fetched.cd.any (·.useCached) = true → C etag) ∧
      (¬ fetched.cd.any (·.useCached) = true → ∀ image, fetched.file = some image →
        V image s)) := by
  refine h.parseURL.bind fun r => ?_
  match r with
  | none => exact Triple.ret fun _ hs => hs.1
  | some scheme =>
    refine Triple.given fun hscheme => Triple.ite (fun hdocker => ?_) fun _ => ?_
    · refine h.aside (fun _ hs => hs) (h.aside (fun _ hs => hs) ?_)
      refine (hscheme.1 (congrArg some hdocker) _).bind fun file => ?_
      match file with
      | none => exact Triple.ret fun _ hs => hs.1
      | some file =>
        refine Triple.ret fun s hs => ⟨hs.1, (fun hcached => nomatch hcached), ?_⟩
        exact fun _ image himage => hs.2 image (congrArg some himage)
    · refine (h.trustKeys f a).bind fun _ => ?_
      refine (h.getSignature f a).bind fun r => ?_
      match r with
      | .error e => exact Triple.ret fun _ hs => hs
      | .ok retry =>
        refine (h.checkSigner f a retry).bind fun r => ?_
        match r with
        | .error e => exact Triple.ret fun _ hs => hs
        | .ok () =>
          refine Triple.onResult (h.getACI scheme etag fun hfile => hscheme.2 (congrArg some hfile))
            (fun fetched => ?_) fun _ => Triple.ret fun _ hs => hs
          refine Triple.given fun hreply => Triple.ite (fun hcached => ?_) fun hcached => ?_
          · rw [if_pos hcached] at hreply
            exact Triple.ret fun s hs => ⟨hs, fun _ => hreply, fun hnot => absurd hcached hnot⟩
          · rw [if_neg hcached] at hreply
            refine (h.verifyFetched hreply retry fetched).post fun r s hs => ?_
            match r, hs with
            | .error e, hs => exact hs
            | .ok _, ⟨hout, rfl, hV⟩ => exact ⟨hout, fun hyes => absurd hyes hcached, fun _ => hV⟩

theorem returnKey (row : Option Remote) (key : Key) :
    R.Triple p (fun s => Out s ∧ K row key s) (Fetch.returnKey f row key)
      (Result Out fun key s => Out s ∧ L key s) :=
  (h.returned row key).bind fun _ => Triple.ret fun _ hs => hs

theorem storeImage (fetched : Fetched) :
    R.Triple p (fun s => Out s ∧ ∀ image, fetched.file = some image → V image s)
      (Fetch.storeImage hash f a fetched) (Result Out fun key s => Out s ∧ L key s) :=
  Triple.onResult (h.saveImage fetched) (fun key => h.returnKey none key)
    fun _ => Triple.ret fun _ hs => hs

/-- The part after the row has been looked up, if it has. -/
theorem fetchNew (rem : Option Remote) (hrem : rem = none → ¬ LooksUp f a) :
    R.Triple p (fun s => Out s ∧ ∀ row, rem = some row → C row.etag → K rem row.blobKey s)
      (Fetch.fetchNew hash f a rem) (Result Out fun key s => Out s ∧ L key s) := by
  have hrow : R.Lasting fun s => ∀ row, rem = some row → C row.etag → K rem row.blobKey s :=
    fun q s s' hi hi' hg hs row heq hC => h.known _ _ q s s' hi hi' hg (hs row heq hC)
  have hfetch := Triple.frame hrow (h.fetch ((rem.map (·.etag)).getD []))
  refine hfetch.bind fun r => ?_
  cases r with
  | error e => exact Triple.ret fun _ hs => hs.1
  | ok fetched =>
    refine Triple.ite (fun hcached => ?_) fun hcached => ?_
    · cases rem with
      | none =>
        exact Triple.pre (A := fun s => Out s ∧ C []) (fun _ hs => ⟨hs.1.1, hs.1.2.1 hcached⟩)
          (Triple.given fun hC => h.panic hC (hrem rfl))
      | some row =>
        exact (h.returnKey (some row) row.blobKey).pre
          fun _ hs => ⟨hs.1.1, hs.2 row rfl (hs.1.2.1 hcached)⟩
    · exact (h.storeImage fetched).pre fun _ hs => ⟨hs.1.1, hs.1.2.2 hcached⟩

/-- **The way through `fetchImageFrom`.** -/
theorem fetchImageFrom :
    R.Triple p Out (Fetch.fetchImageFrom hash f a) (Result Out fun key s => Out s ∧ L key s) := by
  refine Triple.ite (fun _ => Triple.ret fun _ hs => hs) fun _ => ?_
  refine Triple.ite (fun hlook => ?_) fun hlook => ?_
  · refine (h.getRemote hlook).bind fun r => ?_
    match r with
    | .error e => exact Triple.ret fun _ hs => hs.1
    | .ok (row, found) =>
      have hnew : R.Triple p (fun s => Out s ∧ (C row.etag → K (some row) row.blobKey s))
          (Fetch.fetchNew hash f a (some row)) (Result Out fun key s => Out s ∧ L key s) := by
        refine (h.fetchNew (some row) nofun).pre fun s hs => ⟨hs.1, fun row' heq => ?_⟩
        cases heq
        exact hs.2
      refine Triple.ite (fun hfound => ?_) fun _ => ?_
      · refine Triple.pre (A := fun s => Out s ∧ K (some row) row.blobKey s)
          (fun s hs => ⟨hs.1, hs.2 row found rfl (.inl hfound)⟩) ?_
        refine Triple.ite (fun _ => h.returnKey _ _) fun _ => ?_
        refine (Triple.frame (h.known _ _) (h.outward .now rfl)).bind fun now => ?_
        refine Triple.ite (fun _ => h.returnKey _ _) fun _ => ?_
        exact hnew.pre fun s hs => ⟨hs.1, fun _ => hs.2⟩
      · refine Triple.ite (fun _ => Triple.ret fun _ hs => hs.1) fun _ => ?_
        exact hnew.pre fun s hs => ⟨hs.1, fun hC => hs.2 row found rfl (.inr hC)⟩
  · exact (h.fetchNew none fun _ => hlook).pre fun s hs => ⟨hs, fun _ heq => nomatch heq⟩

end Course

namespace Parts

variable (h : Parts R p Out acc hash)

include h

theorem calm : Calm R p Out :=
  ⟨fun o ho => h.quiet o (Op.outward_quiet ho),
    fun name signed => (h.checkSignature name signed).post fun _ _ hs => hs.1⟩

/-- If a call has a keystore then its image does not come from docker; or it does not matter. -/
def NoDocker (acc : Key → DbState Core Database → Prop) (f : Fetcher) (a : Args) : Prop :=
  (f.ks = true → getScheme a.aciURL ≠ "docker".toList) ∨ ∀ key s, acc key s

/-- All that a call without docker has to know is that the image is accepted, if there is a
keystore. -/
theorem course {f : Fetcher} {a : Args} (hnd : NoDocker acc f a) :
    Course R p Out hash f a (fun _ => True) True (fun image s => f.ks = true → acc (hash image) s)
      (fun row key s => f.ks = true → (∀ row', row = some row' → row'.verified = true) → acc key s)
      fun _ _ => True where
  toCalm := h.calm
  fetched image q s s' hi hi' hg hs hks := h.lasting _ q s s' hi hi' hg (hs hks)
  known _ _ q s s' hi hi' hg hs hks hv := h.lasting _ q s s' hi hi' hg (hs hks hv)
  httpGet etag := (h.quiet (.httpGet _ _) rfl).post
    fun _ _ hs => ⟨hs, fun _ _ => ⟨fun _ => trivial, fun _ => trivial⟩⟩
  parseURL := by
    refine (h.parseURL a.aciURL).post fun r s hs => ⟨hs.1, fun hdocker url => ?_, fun _ => trivial⟩
    refine (h.quiet (.convert url) rfl).post fun _ s' hs' => ⟨hs', fun image _ hks => ?_⟩
    rcases hnd with hnd | hall
    · exact absurd (hs.2 _ hdocker).symm (hnd hks)
    · exact hall _ s'
  signed _ image _ _ := by
    refine (h.checkSignature image.manifest.name (some image)).post fun r s hs => ?_
    match r with
    | .error e => exact hs.1
    | .ok () => exact ⟨hs.1, fun _ => hs.2 image rfl rfl rfl⟩
  unsigned _ _ _ hks _ _ hks' := absurd hks' hks
  getRemote _ := (h.getRemote a.aciURL).post
    fun r s hs => ⟨hs.1, fun row found heq _ _ hv => hs.2 row found heq (hv row rfl)⟩
  saveImage fetched := by
    refine ((h.saveImage f a fetched).pre fun s hs => ?_).post fun r s hs => ?_
    · exact ⟨hs.1, fun hks image himage => hs.2 image himage hks⟩
    · match r with
      | .error e => exact hs
      | .ok key => exact ⟨hs.1, fun hks _ => hs.2 hks⟩
  returned row key := (h.returned f.ks row key).post fun _ _ hs => ⟨hs, trivial⟩
  panic _ _ := panic_triple (h.quiet .panic rfl) (h.quiet .halted rfl)

/-- A call with a keystore never gets its image from docker: the URL is no docker URL, or the
call is refused. -/
def Refused (f : Fetcher) (a : Args) : Prop :=
  f.ks = true → getScheme a.aciURL = "docker".toList →
    f.insecureSkipVerify = false ∧ a.scheme = "docker".toList

theorem fetchImageFrom {f : Fetcher} {a : Args} (href : Refused f a ∨ ∀ key s, acc key s) :
    R.Triple p Out (Fetch.fetchImageFrom hash f a) fun _ => Out := by
  by_cases hrefused : f.insecureSkipVerify = false ∧ a.scheme = "docker".toList
  · simp only [Fetch.fetchImageFrom]
    rw [if_pos (by simpa using hrefused)]
    exact Triple.ret fun _ hs => hs
  · have hnd : NoDocker acc f a := href.imp_left fun href hks hdocker =>
      hrefused (href hks hdocker)
    exact (h.course hnd).fetchImageFrom.either (fun _ _ hs => hs.1) fun _ hs => hs

end Parts

section tolerant

open DbProto

variable {P : DbProto coreMachine Database} {run : (o : Stmt) → o.Res → Database → Option Database}
  {hM : M.Sub (dbMachine coreMachine run)}

theorem parseURL_triple (hP : Tolerant P) (url : Str) :
    (P.proto hM).Triple p (Store.Out p) (sys (.parseURL url))
      fun r s => Store.Out p s ∧ ∀ scheme, r = some scheme → scheme = getScheme url := by
  have hparse : (P.proto hM).Triple p (Store.Out p) (sys (.parseURL url))
      fun r => Idle p false fun _ _ => ∀ scheme, r = some scheme → scheme = getScheme url := by
    refine base_triple steady_true.stable fun c d r c' hi _ hn => ?_
    have ⟨hi', hg⟩ := hP p c c' d (quiet_next (p := p) (o := .parseURL url) rfl hn) hi
    refine ⟨hi', hg, fun scheme hr => ?_⟩
    subst hr
    by_contra hne
    simp [coreMachine, next, hne] at hn
  exact hparse.post fun r s hs => ⟨⟨hs.1, hs.2.1, trivial⟩, hs.2.2⟩

/-- For a protocol that does not look at private things, the parts of `fetchImageFrom` are those
that change the store, and the two records. -/
theorem Parts.of_tolerant {acc : Key → Core → Database → Prop} (hP : Tolerant P)
    (hlast : ∀ key, P.Lasting (acc key))
    (hwrite : ∀ file latest, (P.proto hM).Triple p (Store.Out p)
      (Store.writeACI hash file latest) fun _ => Store.Out p)
    (hremove : ∀ key, (P.proto hM).Triple p (Store.Out p) (Store.removeACI key)
      fun _ => Store.Out p)
    (hget : ∀ url, Commits run P M p (fun _ _ => True) (getRemoteTx url)
      fun r c d => r.1.verified = true → acc r.1.blobKey c d)
    (hcheck : ∀ name image c d, P.inv c d →
      P.inv { c with accepted := (name, image) :: c.accepted } d ∧
      P.guar p c d { c with accepted := (name, image) :: c.accepted } d ∧
      (name = image.manifest.name →
        acc (hash image) { c with accepted := (name, image) :: c.accepted } d))
    (hsave : ∀ f a fetched, (P.proto hM).Triple p
      (fun s => Store.Out p s ∧ Checked (fun key s => acc key s.core s.db) hash f fetched.file s)
      (Fetch.saveImage hash f a fetched)
      (Result (Store.Out p) fun key s => Store.Out p s ∧ (f.ks = true → acc key s.core s.db)))
    (hreturned : ∀ row key s s', M.next p (.base (.returned true row key)) () s = some s' →
      P.inv s.core s.db → ((∀ row', row = some row' → row'.verified = true) →
        acc key s.core s.db) →
      P.inv { s.core with returned := key :: s.core.returned } s.db ∧
      P.guar p s.core s.db { s.core with returned := key :: s.core.returned } s.db) :
    Parts (P.proto hM) p (Store.Out p) (fun key s => acc key s.core s.db) hash where
  lasting key := (hlast key).lift
  quiet o ho := quiet_triple hP steady_true ho
  parseURL := parseURL_triple hP
  checkSignature name signed := by
    have hrun : (P.proto hM).Triple p (Store.Out p) (sys (.checkSignature name signed))
        fun r => Idle p false fun c d => ∀ image, signed = some image →
          name = image.manifest.name → r = .ok () → acc (hash image) c d := by
      refine base_triple steady_true.stable fun c d r c' hi _ hn => ?_
      match signed, r, hn with
      | some image, .ok (), hn =>
        cases hn
        obtain ⟨hi', hg, hacc⟩ := hcheck name image c d hi
        refine ⟨hi', hg, fun image' heq hname _ => ?_⟩
        cases heq
        exact hacc hname
      | some image, .error e, hn =>
        cases hn
        exact ⟨hi, P.refl _ _ _, fun _ _ _ h => nomatch h⟩
      | none, _, hn =>
        cases hn
        exact ⟨hi, P.refl _ _ _, fun _ h => nomatch h⟩
    exact hrun.post fun r s hs => ⟨⟨hs.1, hs.2.1, trivial⟩, hs.2.2⟩
  writeACI := hwrite
  removeACI := hremove
  getRemote url := by
    have hrow : ∀ r : Remote × Bool,
        P.Lasting fun c d => r.1.verified = true → acc r.1.blobKey c d :=
      fun r q c d c' d' hi hi' hg h hv => hlast _ q c d c' d' hi hi' hg (h hv)
    exact (dbDo_shows hP hrow (hget url)).post
      fun r s hs => ⟨hs.1, fun row found heq => hs.2 (row, found) heq⟩
  saveImage := hsave
  returned ks row key := by
    cases ks with
    | false =>
      refine Triple.pre (A := Store.Out p) (fun s hs => hs.1)
        (base_triple steady_true.stable fun c d r c' hi _ hn => ?_)
      cases hn
      exact ⟨hi, P.refl _ _ _, trivial⟩
    | true =>
      have hacc : P.Lasting fun c d =>
          (∀ row', row = some row' → row'.verified = true) → acc key c d :=
        fun q c d c' d' hi hi' hg h hv => hlast _ q c d c' d' hi hi' hg (h hv)
      refine Triple.pre (fun s hs => ⟨hs.1.1, hs.1.2.1, hs.2 rfl⟩)
        (base_triple_of hacc.stable fun s s' c' r hM' hi hs hn => ?_)
      cases hn
      obtain ⟨hi', hg⟩ := hreturned row key s s' hM' hi hs
      exact ⟨hi', hg, trivial⟩

/-- The operations of `fetchImageFrom` that only record something. -/
def Op.record : Op → Bool
  | .checkSignature _ _ | .returned _ _ _ | .storing _ | .stored => true
  | _ => false

/-- A step of `p` that only records something; what the others are storing stays recorded. -/
structure Recorded (p : Pid) (c c' : Core) : Prop where
  blob : c'.blob = c.blob
  imageManifest : c'.imageManifest = c.imageManifest
  imageLock : c'.imageLock = c.imageLock
  users : c'.users = c.users
  opened : c'.opened = c.opened
  storing : ∀ x ∈ c.storing, x.1 ≠ p → x ∈ c'.storing

theorem record_next {o : Op} {r : o.Res} {c c' : Core} (ho : Op.record o = true)
    (hn : next p o r c = some c') : Recorded p c c' := by
  cases o with
  | checkSignature name signed =>
    simp only [next] at hn
    split at hn <;> cases hn <;> exact ⟨rfl, rfl, rfl, rfl, rfl, fun _ hx _ => hx⟩
  | returned ks row key =>
    cases hn
    split <;> exact ⟨rfl, rfl, rfl, rfl, rfl, fun _ hx _ => hx⟩
  | storing key =>
    cases hn
    exact ⟨rfl, rfl, rfl, rfl, rfl, fun _ hx _ => List.mem_append_right _ hx⟩
  | stored =>
    cases hn
    refine ⟨rfl, rfl, rfl, rfl, rfl, fun x hx hne => ?_⟩
    exact List.mem_filter.mpr ⟨hx, by simpa using hne⟩
  | _ => cases ho

theorem saveImage_out (hP : Tolerant P) (hrecord : ∀ o, Op.record o = true →
      (P.proto hM).Triple p (Store.Out p) (sys o) fun _ => Store.Out p)
    (hwrite : ∀ file latest, (P.proto hM).Triple p (Store.Out p)
      (Store.writeACI hash file latest) fun _ => Store.Out p)
    (hrow : ∀ row, (P.proto hM).Triple p (Store.Out p) (Store.writeRemote row)
      fun _ => Store.Out p) (f : Fetcher) (a : Args) (fetched : Fetched) :
    (P.proto hM).Triple p (Store.Out p) (saveImage hash f a fetched) fun _ => Store.Out p := by
  have hsave : (P.proto hM).Triple p (Store.Out p) (saveImage hash f a fetched)
      (Result (Store.Out p) fun _ s => Store.Out p s ∧ True) := by
    refine saveImage_triple (A := Store.Out p) (B := fun _ => Store.Out p) (hrecord _ rfl) ?_
      (fun _ => quiet_triple hP steady_true rfl) (fun row _ => hrow row) (hrecord _ rfl) fun _ => ?_
    · exact (hwrite fetched.file a.latest).post fun r s hs => by cases r <;> exact hs
    · exact (hrecord _ rfl).post fun _ _ hs => ⟨hs, trivial⟩
  exact hsave.either (fun _ _ hs => hs.1) fun _ hs => hs

theorem Parts.plain (hP : Tolerant P) (hrecord : ∀ o, Op.record o = true →
      (P.proto hM).Triple p (Store.Out p) (sys o) fun _ => Store.Out p)
    (hwrite : ∀ file latest, (P.proto hM).Triple p (Store.Out p)
      (Store.writeACI hash file latest) fun _ => Store.Out p)
    (hremove : ∀ key, (P.proto hM).Triple p (Store.Out p) (Store.removeACI key)
      fun _ => Store.Out p) (hget : ∀ url, (P.proto hM).Triple p (Store.Out p) (Store.getRemote url)
      fun _ => Store.Out p) (hsave : ∀ f a fetched, (P.proto hM).Triple p (Store.Out p)
      (Fetch.saveImage hash f a fetched) fun _ => Store.Out p) :
    Parts (P.proto hM) p (Store.Out p) (fun _ _ => True) hash where
  lasting _ _ _ _ _ _ _ _ := trivial
  quiet o ho := quiet_triple hP steady_true ho
  parseURL := parseURL_triple hP
  checkSignature name signed :=
    (hrecord (.checkSignature name signed) rfl).post fun _ _ hs => ⟨hs, fun _ _ _ _ => trivial⟩
  writeACI := hwrite
  removeACI := hremove
  getRemote url := (hget url).post fun _ _ hs => ⟨hs, fun _ _ _ _ => trivial⟩
  saveImage f a fetched := by
    refine ((hsave f a fetched).pre fun s hs => hs.1).post fun r s hs => ?_
    cases r with
    | ok key => exact ⟨hs, fun _ => trivial⟩
    | error e => exact hs
  returned ks row key := (hrecord (.returned ks row key) rfl).pre fun s hs => hs.1

end tolerant

/-- Every call of the script with a keystore is refused if its image would come from docker. -/
def Script.Refused : Script → Prop
  | .done => True
  | .call c k => (match c with
      | .fetchImageFrom f a => Parts.Refused f a
      | _ => True) ∧ ∀ r, (k r).Refused

/-- **Every process stays within the protocol.** -/
theorem Parts.script (h : Parts R p Out acc hash) {sc : Script}
    (href : sc.Refused ∨ ∀ key s, acc key s) : R.Triple p Out (sc.prog hash) fun _ => Out := by
  induction sc with
  | done => exact Triple.ret fun _ hs => hs
  | call c k ih =>
    have hcall : R.Triple p Out (c.prog hash) fun _ => Out := by
      cases c with
      | fetchImageFrom f a => exact h.fetchImageFrom (href.imp_left And.left)
      | writeACI file latest => exact h.writeACI file latest
      | removeACI key => exact h.removeACI key
    exact hcall.bind fun r => ih r (href.imp_left fun href => href.2 r)

/-- **All processes together.** -/
theorem start_ok {P : DbProto coreMachine Database}
    {run : (o : Stmt) → o.Res → Database → Option Database}
    {hM : M.Sub (dbMachine coreMachine run)} {scripts : Pid → Script}
    (hinv : P.inv Core.empty (newDatabase 2)) (h : ∀ p, Parts (P.proto hM) p (Store.Out p) acc hash)
    (href : (∀ p, (scripts p).Refused) ∨ ∀ key s, acc key s) :
    (P.proto hM).Ok (start hash scripts) := by
  refine ⟨⟨hinv, fun p w hw => ?_⟩, fun p => ?_⟩
  · cases hw
  · refine ((h p).script (href.imp_left fun href => href p)).post (fun _ _ _ => trivial) _
      ⟨rfl, ?_, trivial⟩
    simp

end Rkt.Fetch
