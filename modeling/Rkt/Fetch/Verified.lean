import Rkt.Fetch.Rules
import Rkt.Store.Tx

set_option autoImplicit false

namespace Rkt.Fetch

open Conc Proto DbProto Store

/-- A fetch with a keystore takes a key only from a row that such a fetch has written. -/
def trusting : DbOp Op Stmt → Bool
  | .base (.returned true (some row) _) => row.verified
  | _ => true

/-- The store, as long as rows written without a keystore only serve fetches without one. -/
def trustingMachine : Machine (dbSig coreSig stmtSig) (DbState Core Database) :=
  storeMachine.restrict fun _ o _ _ => trusting o = true

theorem trusting_sub : trustingMachine.Sub storeMachine := Machine.restrict_sub

/-- The signature of an image with this key has been accepted, for the name in its manifest. -/
def Accepted (hash : Image → Key) (key : Key) (c : Core) (_ : Database) : Prop :=
  ∃ image, hash image = key ∧ (image.manifest.name, image) ∈ c.accepted

/-- The rows that claim to be verified are, the keys that have been returned are, and images are
stored under their own keys. -/
structure Verified (hash : Image → Key) (c : Core) (d : Database) : Prop where
  rows : ∀ row ∈ d.remote, row.verified = true → Accepted hash row.blobKey c d
  returned : ∀ key ∈ c.returned, Accepted hash key c d
  blobs : ∀ key image, c.blob key = some image → hash image = key

variable {hash : Image → Key} {p : Pid} {c c' : Core} {d d' : Database}

theorem Accepted.mono {key : Key} (h : Accepted hash key c d) (hsub : c.accepted ⊆ c'.accepted) :
    Accepted hash key c' d' :=
  let ⟨image, hkey, hmem⟩ := h
  ⟨image, hkey, hsub hmem⟩

theorem Verified.setDB {w : Database} (h : Verified hash c d) (hrows : ∀ row ∈ w.remote,
      row ∈ d.remote ∨ (row.verified = true → Accepted hash row.blobKey c d)) :
    Verified hash c w where
  rows row hrow hv := (hrows row hrow).elim (fun hold => h.rows row hold hv) fun hnew => hnew hv
  returned := h.returned
  blobs := h.blobs

def verifyProto (hash : Image → Key) : DbProto coreMachine Database where
  inv := Verified hash
  guar _ c _ c' _ := c.accepted ⊆ c'.accepted
  refl _ _ _ := List.Subset.refl _
  inv_die _ _ _ h := ⟨h.rows, h.returned, h.blobs⟩
  guar_die _ _ _ _ := List.Subset.refl _

theorem verifyProto_indifferent : Indifferent hash (verifyProto hash) := by
  intro p c c' d h hi
  have hsub : c.accepted ⊆ c'.accepted := by rw [h.accepted]; exact List.Subset.refl _
  refine ⟨⟨fun row hrow hv => (hi.rows row hrow hv).mono hsub, fun key hkey => ?_,
    fun key image himage => ?_⟩, hsub⟩
  · rw [h.returned] at hkey
    exact (hi.returned key hkey).mono hsub
  · exact (h.blob key image himage).elim (hi.blobs key image) fun hnew => hnew

theorem accepted_lasting (key : Key) : (verifyProto hash).Lasting (Accepted hash key) :=
  fun _ _ _ _ _ _ _ hg h => h.mono hg

theorem import_commits_verify (key : Key) (image : Image) (latest : Bool) :
    Commits Stmt.run (verifyProto hash) trustingMachine p (fun _ _ => True)
      (importTx key image latest) fun _ _ _ => True where
  commit _ _ _ _ hruns _ _ hi _ := by
    refine ⟨hi.setDB fun row hrow => .inl ?_, List.Subset.refl _, trivial⟩
    rwa [importTx_remote hruns] at hrow
  fail _ _ _ _ _ _ _ _ _ := trivial

theorem remove_commits_verify (key : Key) :
    Commits Stmt.run (verifyProto hash) trustingMachine p (fun _ _ => True) (removeTx key)
      fun _ _ _ => True where
  commit _ _ _ _ hruns _ _ hi _ := by
    refine ⟨hi.setDB fun row hrow => .inl ?_, List.Subset.refl _, trivial⟩
    rw [(removeTx_ok hruns).2] at hrow
    exact (List.mem_filter.mp hrow).1
  fail _ _ _ _ _ _ _ _ _ := trivial

theorem getRemote_accepted {url : Str} {r : Remote × Bool} {w : Database}
    (h : (getRemoteTx url).Runs Stmt.run d (.ok r) w) (hi : Verified hash c d)
    (hv : r.1.verified = true) : Accepted hash r.1.blobKey c d := by
  obtain ⟨-, hrow⟩ := getRemoteTx_ok h
  cases hfound : r.2 with
  | true =>
    rw [hfound, if_pos rfl] at hrow
    exact hi.rows r.1 hrow.1 hv
  | false =>
    rw [hfound, if_neg Bool.false_ne_true] at hrow
    rw [hrow.1] at hv
    cases hv

theorem getRemote_commits_verify (url : Str) :
    Commits Stmt.run (verifyProto hash) trustingMachine p (fun _ _ => True) (getRemoteTx url)
      fun r c d => r.1.verified = true → Accepted hash r.1.blobKey c d where
  commit _ _ _ _ hruns _ _ hi _ := by
    rw [(getRemoteTx_ok hruns).1]
    exact ⟨hi, List.Subset.refl _, getRemote_accepted hruns hi⟩
  fail _ _ _ _ hruns _ _ hi _ := getRemote_accepted hruns hi

/-- `WriteRemote`, with an image that is accepted if the row is to say so. -/
theorem writeRemote_commits_verify (row : Remote) :
    Commits Stmt.run (verifyProto hash) trustingMachine p
      (fun c d => row.verified = true → Accepted hash row.blobKey c d) (writeRemoteTx row)
      fun _ c d => row.verified = true → Accepted hash row.blobKey c d where
  commit _ _ _ _ hruns _ _ hi hA := by
    refine ⟨hi.setDB fun row' hrow => ?_, List.Subset.refl _, hA⟩
    rcases writeRemoteTx_remote hruns hrow with hold | rfl
    · exact .inl hold
    · exact .inr hA
  fail _ _ _ _ _ _ _ _ hA := hA

theorem storing_verify {A : Core → Database → Prop} (hA : (verifyProto hash).Lasting A)
    {o : Op} (ho : o = .stored ∨ ∃ key, o = .storing key) :
    ((verifyProto hash).proto trusting_sub).Triple p (Idle p false A) (sys o)
      fun _ => Idle p false A := by
  refine base_triple hA.stable fun c d r c' hi h hn => ?_
  have hi' : Verified hash c' d ∧ c'.accepted = c.accepted := by
    rcases ho with rfl | ⟨key, rfl⟩
    · cases hn
      exact ⟨⟨hi.rows, hi.returned, hi.blobs⟩, rfl⟩
    · cases hn
      exact ⟨⟨hi.rows, hi.returned, hi.blobs⟩, rfl⟩
  have hg : c.accepted ⊆ c'.accepted := by rw [hi'.2]; exact List.Subset.refl _
  exact ⟨hi'.1, hg, hA p c d c' d hi hi'.1 hg h⟩

theorem saveImage_verify (f : Fetcher) (a : Args) (fetched : Fetched) :
    ((verifyProto hash).proto trusting_sub).Triple p (fun s => Out p s ∧
        Checked (fun key s => Accepted hash key s.core s.db) hash f fetched.file s)
      (saveImage hash f a fetched)
      (Result (Out p) fun key s => Out p s ∧ (f.ks = true → Accepted hash key s.core s.db)) := by
  have hchecked : (verifyProto hash).Lasting fun c d =>
      f.ks = true → ∀ image, fetched.file = some image → Accepted hash (hash image) c d :=
    fun q c d c' d' hi hi' hg h hks image himage => (h hks image himage).mono hg
  have hkey : ∀ key, (verifyProto hash).Lasting fun c d => f.ks = true → Accepted hash key c d :=
    fun key q c d c' d' hi hi' hg h hks => (h hks).mono hg
  refine saveImage_triple
    (A := Idle p false fun c d =>
      f.ks = true → ∀ image, fetched.file = some image → Accepted hash (hash image) c d)
    (B := fun key => Idle p false fun c d => f.ks = true → Accepted hash key c d)
    ?_ ?_ (fun key => ?_) (fun row hrow => ?_) ?_ fun key => ?_
  · exact (storing_verify hchecked (.inr ⟨_, rfl⟩)).pre fun s hs => ⟨hs.1.1, hs.1.2.1, hs.2⟩
  · have hblind : ∀ _ : Key, Blind hash (verifyProto hash) p fun c d =>
        f.ks = true → ∀ image, fetched.file = some image → Accepted hash (hash image) c d :=
      fun _ => verifyProto_indifferent.blind hchecked
    refine (writeACI_triple verifyProto_indifferent (hblind []) hblind fetched.file a.latest
      fun image himage => ?_).post fun r s hs => ?_
    · -- the transaction changes nothing that matters
      exact ⟨fun a s s' w hruns hw hn hi hA =>
        have ⟨hi', hg, _⟩ :=
          (import_commits_verify _ image _).commit a s s' w hruns hw hn hi trivial
        ⟨hi', hg, hchecked p _ _ _ _ hi hi' hg hA⟩, fun _ _ _ _ _ _ _ _ hA => hA⟩
    · cases r with
      | error e => exact hs
      | ok key =>
        obtain ⟨⟨hw, hown, hs⟩, image, himage, rfl⟩ := hs
        exact ⟨hw, hown, fun hks => hs hks image himage⟩
  · exact quiet_triple verifyProto_indifferent.tolerant
      (verifyProto_indifferent.blind (hkey key)).steady rfl
  · have hsteady := (verifyProto_indifferent.blind (p := p) (hkey row.blobKey)).steady
    rw [← hrow.1] at hsteady ⊢
    refine (dbDo_triple verifyProto_indifferent.tolerant hsteady (fun _ => hsteady)
      (writeRemote_commits_verify row)).post fun r s hs => ?_
    cases r <;> exact hs
  · exact (storing_verify hchecked (.inl rfl)).post fun _ s hs => ⟨hs.1, hs.2.1, trivial⟩
  · exact (storing_verify (hkey key) (.inl rfl)).post fun _ s hs =>
      ⟨⟨hs.1, hs.2.1, trivial⟩, hs.2.2⟩

theorem parts_verify : Parts ((verifyProto hash).proto trusting_sub) p (Out p)
    (fun key s => Accepted hash key s.core s.db) hash := by
  have hP : Indifferent hash (verifyProto hash) := verifyProto_indifferent
  refine Parts.of_tolerant hP.tolerant accepted_lasting
    (fun file latest => out_writeACI hP file latest fun key image =>
      import_commits_verify key image latest)
    (fun key => removeACI_triple hP key (remove_commits_verify key)) getRemote_commits_verify
    (fun name image c d hi => ?_) saveImage_verify fun row key s s' hn hi hacc => ?_
  · have hsub : c.accepted ⊆ (name, image) :: c.accepted := List.subset_cons_self _ _
    refine ⟨⟨fun row hrow hv => (hi.rows row hrow hv).mono hsub,
      fun key hkey => (hi.returned key hkey).mono hsub, hi.blobs⟩, hsub, fun hname => ?_⟩
    exact ⟨image, rfl, hname ▸ List.mem_cons_self⟩
  · -- the machine lets only verified rows be used
    have hverified : ∀ row', row = some row' → row'.verified = true := by
      intro row' hrow
      have hok := (Machine.restrict_next hn).1
      rwa [hrow] at hok
    refine ⟨⟨hi.rows, fun key' hkey => ?_, hi.blobs⟩, List.Subset.refl _⟩
    rcases List.mem_cons.mp hkey with rfl | hold
    · exact hacc hverified
    · exact hi.returned key' hold

/-- **Every key returned by a fetch with a keystore is that of an image whose signature has been
accepted**, and what is stored under the key has the same hash; in every run in which such
fetches only take keys from rows that such fetches have written, and for all processes that do
not pass a docker URL under another scheme. -/
theorem returned_keys_accepted (hash : Image → Key) (scripts : Pid → Script)
    (href : ∀ p, (scripts p).Refused)
    {c : Config (dbSig coreSig stmtSig) (DbState Core Database)}
    (h : Reach trustingMachine (start hash scripts) c) {key : Key}
    (hkey : key ∈ c.shared.core.returned) :
    ∃ image, hash image = key ∧ (image.manifest.name, image) ∈ c.shared.core.accepted ∧
      ∀ stored, c.shared.core.blob key = some stored → hash stored = hash image := by
  have hempty : Verified hash Core.empty (newDatabase 2) :=
    ⟨by simp [newDatabase], by simp [Core.empty], by simp [Core.empty]⟩
  have hok : ((verifyProto hash).proto trusting_sub).Ok (start hash scripts) :=
    start_ok hempty (fun _ => parts_verify) (.inl href)
  have hinv : Verified hash c.shared.core c.shared.db := (hok.reach h).1.1
  obtain ⟨image, rfl, hmem⟩ := hinv.returned key hkey
  exact ⟨image, rfl, hmem, fun stored hstored => hinv.blobs _ stored hstored⟩

def fetchTwice (first second : Fetcher) : Pid → Script
  | 0 => .call (.fetchImageFrom first exampleArgs) fun _ =>
    .call (.fetchImageFrom second exampleArgs) fun _ => .done
  | _ => .done

theorem fetchTwice_refused (first second : Fetcher) (p : Pid) :
    (fetchTwice first second p).Refused := by
  have hurl : ∀ f, Parts.Refused f exampleArgs :=
    fun f _ hdocker => absurd hdocker (by decide)
  match p with
  | 0 => exact ⟨hurl first, fun _ => ⟨hurl second, fun _ => trivial⟩⟩
  | _ + 1 => trivial

theorem returned_keys_accepted_twice :
    ∃ c, Reach trustingMachine (start exampleHash (fetchTwice secureFetcher secureFetcher)) c ∧
      c.shared.core.returned.length = 2 ∧ ∀ key ∈ c.shared.core.returned,
        ∃ image, exampleHash image = key ∧
          (image.manifest.name, image) ∈ c.shared.core.accepted ∧
          ∀ stored, c.shared.core.blob key = some stored →
            exampleHash stored = exampleHash image := by
  obtain ⟨c, hc, hlen⟩ := follow_exists (M := trustingMachine) exampleOutside.answer [.run 0 120]
    (c := start exampleHash (fetchTwice secureFetcher secureFetcher))
    (fun c => c.shared.core.returned.length = 2) (by decide)
  exact ⟨c, hc, by simpa using hlen, fun key hkey =>
    returned_keys_accepted _ _ (fetchTwice_refused _ _) hc hkey⟩

/-- **A row that was written without a keystore serves a fetch with one.** The first fetch skips
the verification; the second one finds the row of the first, which is fresh, and returns its
key. No signature has been checked. -/
theorem unverified_row_reused :
    ∃ c, Reach storeMachine (start exampleHash (fetchTwice insecureFetcher secureFetcher)) c ∧
      ∃ key ∈ c.shared.core.returned, ¬ ∃ image, exampleHash image = key ∧
        (image.manifest.name, image) ∈ c.shared.core.accepted := by
  obtain ⟨c, hc, hend⟩ := follow_exists (M := storeMachine) exampleOutside.answer [.run 0 120]
    (c := start exampleHash (fetchTwice insecureFetcher secureFetcher))
    (fun c => c.shared.core.returned = [exampleHash exampleImage] ∧ c.shared.core.accepted = [])
    (by decide)
  obtain ⟨hreturned, haccepted⟩ := of_decide_eq_true hend
  refine ⟨c, hc, exampleHash exampleImage, by simp [hreturned], ?_⟩
  rintro ⟨image, -, hmem⟩
  rw [haccepted] at hmem
  cases hmem

end Rkt.Fetch
