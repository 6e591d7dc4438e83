import Rkt.Fetch.Rules
import Rkt.Store.Tx

set_option autoImplicit false

namespace Rkt.Fetch

open Conc Proto DbProto Store

/-- Every row of a URL points to an image that the database knows. -/
def Referenced (d : Database) : Prop := ∀ row ∈ d.remote, row.blobKey ∈ d.keys

instance (d : Database) : Decidable (Referenced d) :=
  inferInstanceAs (Decidable (∀ row ∈ d.remote, row.blobKey ∈ d.keys))

/-- A commit that takes effect does not drop an image that another process is storing for a
fetch, and one that fails is not the one that would add the image that `p` itself is
storing. -/
def sparing (p : Pid) :
    (o : DbOp Op Stmt) → DbOp.Res coreSig stmtSig o → DbState Core Database → Bool
  | .commit, (r : Bool), s =>
    match s.work p with
    | none => true
    | some w =>
      if r then
        s.core.storing.all fun x => x.1 ≠ p → x.2 ∈ s.db.keys → x.2 ∈ w.keys
      else
        s.core.storing.all fun x => x.1 = p → x.2 ∈ w.keys → x.2 ∈ s.db.keys
  | _, _, _ => true

/-- The store, as long as its commits spare the images that are being stored. -/
def sparingMachine : Machine (dbSig coreSig stmtSig) (DbState Core Database) :=
  storeMachine.restrict fun p o r s => sparing p o r s = true

theorem sparing_sub : sparingMachine.Sub storeMachine := Machine.restrict_sub

section commits

variable {p : Pid} {s s' : DbState Core Database} {w : Database}

theorem sparing_commit (hw : s.work p = some w)
    (h : sparingMachine.next p .commit true s = some s') {x : Pid × Key}
    (hx : x ∈ s.core.storing) (hp : x.1 ≠ p) (hk : x.2 ∈ s.db.keys) : x.2 ∈ w.keys := by
  have hok := (Machine.restrict_next h).1
  simp only [sparing, hw, if_true, List.all_eq_true, decide_eq_true_eq] at hok
  exact hok x hx hp hk

theorem sparing_fail (hw : s.work p = some w)
    (h : sparingMachine.next p .commit false s = some s') {key : Key}
    (hx : (p, key) ∈ s.core.storing) (hk : key ∈ w.keys) : key ∈ s.db.keys := by
  have hok := (Machine.restrict_next h).1
  simp only [sparing, hw, Bool.false_eq_true, if_false, List.all_eq_true,
    decide_eq_true_eq] at hok
  exact hok (p, key) hx rfl hk

end commits

/-- Every row points to an image, and nobody drops an image that another one is storing. -/
def refProto : DbProto coreMachine Database where
  inv _ d := Referenced d
  guar q c d c' d' := ∀ x ∈ c.storing, x.1 ≠ q → x ∈ c'.storing ∧ (x.2 ∈ d.keys → x.2 ∈ d'.keys)
  refl _ _ _ x hx _ := ⟨hx, fun h => h⟩
  inv_die _ _ _ h := h
  guar_die _ _ _ _ _ hx hne := ⟨List.mem_filter.mpr ⟨hx, by simpa using hne⟩, fun h => h⟩

theorem refProto_indifferent (hash : Image → Key) : Indifferent hash refProto :=
  fun _ _ _ _ h hi => ⟨hi, fun _ hx _ => ⟨h.storing ▸ hx, fun hk => hk⟩⟩

/-- `p` is storing the image in the file, if there is one. -/
def Storing (hash : Image → Key) (p : Pid) (file : File) (c : Core) (_ : Database) : Prop :=
  ∀ image, file = some image → (p, hash image) ∈ c.storing

/-- `p` is storing an image, and the database knows it. -/
def Held (p : Pid) (key : Key) (c : Core) (d : Database) : Prop :=
  (p, key) ∈ c.storing ∧ key ∈ d.keys

theorem storing_blind (hash : Image → Key) (p : Pid) (file : File) :
    Blind hash refProto p (Storing hash p file) where
  stable _ _ _ _ _ hq _ _ hg h image himage := (hg _ (h image himage) (Ne.symm hq)).1
  alike _ _ _ halike _ h image himage := halike.storing ▸ h image himage

theorem held_blind (hash : Image → Key) (p : Pid) (key : Key) :
    Blind hash refProto p (Held p key) where
  stable _ _ _ _ _ hq _ _ hg h :=
    have ⟨hx, hk⟩ := hg _ h.1 (Ne.symm hq)
    ⟨hx, hk h.2⟩
  alike _ _ _ halike _ h := ⟨halike.storing ▸ h.1, h.2⟩

variable {p : Pid} {hash : Image → Key}

theorem import_keeps {key : Key} {image : Image} {latest : Bool} {c : Core} {d w : Database}
    (h : (importTx key image latest).Runs Stmt.run d (.ok ()) w) (hi : Referenced d) :
    Referenced w ∧ refProto.guar p c d c w := by
  refine ⟨fun row hrow => ?_, fun x hx _ => ⟨hx, fun hk => (importTx_keys h _).mpr (.inr hk)⟩⟩
  rw [importTx_remote h] at hrow
  exact (importTx_keys h _).mpr (.inr (hi row hrow))

/-- `WriteACI` outside of a fetch. -/
theorem import_commits (key : Key) (image : Image) (latest : Bool) :
    Commits Stmt.run refProto sparingMachine p (fun _ _ => True) (importTx key image latest)
      fun _ _ _ => True where
  commit _ _ _ _ hruns _ _ hi _ :=
    have ⟨hi', hg⟩ := import_keeps hruns hi
    ⟨hi', hg, trivial⟩
  fail _ _ _ _ _ _ _ _ _ := trivial

/-- `WriteACI` in a fetch: the image is known afterwards. -/
theorem import_commits_held {image : Image} {latest : Bool} :
    Commits Stmt.run refProto sparingMachine p (Storing hash p (some image))
      (importTx (hash image) image latest) fun _ => Held p (hash image) where
  commit _ _ _ _ hruns _ _ hi hA :=
    have ⟨hi', hg⟩ := import_keeps hruns hi
    ⟨hi', hg, hA image rfl, (importTx_keys hruns _).mpr (.inl rfl)⟩
  fail _ _ _ _ hruns hw hn _ hA :=
    ⟨hA image rfl, sparing_fail hw hn (hA image rfl) ((importTx_keys hruns _).mpr (.inl rfl))⟩

/-- `RemoveACI` removes the rows that point to the image along with it. -/
theorem remove_commits (key : Key) :
    Commits Stmt.run refProto sparingMachine p (fun _ _ => True) (removeTx key)
      fun _ _ _ => True where
  commit _ s s' w hruns hw hn hi _ := by
    refine ⟨fun row hrow => ?_, fun x hx hne => ⟨hx, sparing_commit hw hn hx hne⟩, trivial⟩
    have hrow' : row ∈ s.db.remote.filter (·.blobKey ≠ key) := by
      rwa [(removeTx_ok hruns).2] at hrow
    obtain ⟨hmem, hne⟩ := List.mem_filter.mp hrow'
    exact (removeTx_keys hruns _).mpr ⟨by simpa using hne, hi row hmem⟩
  fail _ _ _ _ _ _ _ _ _ := trivial

theorem getRemote_commits (url : Str) :
    Commits Stmt.run refProto sparingMachine p (fun _ _ => True) (getRemoteTx url)
      fun _ _ _ => True where
  commit _ _ _ _ hruns _ _ hi _ := by
    rw [(getRemoteTx_ok hruns).1]
    exact ⟨hi, refProto.refl _ _ _, trivial⟩
  fail _ _ _ _ _ _ _ _ _ := trivial

/-- `WriteRemote`, while the image is known and stays known. -/
theorem writeRemote_commits (row : Remote) :
    Commits Stmt.run refProto sparingMachine p (Held p row.blobKey) (writeRemoteTx row)
      fun _ => Held p row.blobKey where
  commit _ s _ w hruns _ _ hi hA := by
    have hkeys : w.keys = s.db.keys := writeRemoteTx_keys hruns
    refine ⟨fun row' hrow => ?_, fun x hx _ => ⟨hx, fun hk => hkeys ▸ hk⟩, hA.1, hkeys ▸ hA.2⟩
    rw [hkeys]
    rcases writeRemoteTx_remote hruns hrow with hold | rfl
    · exact hi row' hold
    · exact hA.2
  fail _ _ _ _ _ _ _ _ hA := hA

theorem record_ref {A : Core → Database → Prop} (hA : refProto.Stable p A) {o : Op}
    (ho : Op.record o = true) :
    (refProto.proto sparing_sub).Triple p (Idle p false A) (sys o) fun _ => Out p := by
  refine base_triple hA fun c d r c' hi _ hn => ⟨hi, fun x hx hne => ?_, trivial⟩
  exact ⟨(record_next ho hn).storing x hx hne, fun h => h⟩

theorem saveImage_ref (f : Fetcher) (a : Args) (fetched : Fetched) :
    (refProto.proto sparing_sub).Triple p (Out p) (saveImage hash f a fetched) fun _ => Out p := by
  have hP := refProto_indifferent hash
  have hsave : (refProto.proto sparing_sub).Triple p (Out p) (saveImage hash f a fetched)
      (Result (Out p) fun _ s => Out p s ∧ True) := by
    refine saveImage_triple (A := Idle p false (Storing hash p fetched.file))
      (B := fun key => Idle p false (Held p key)) ?_ ?_ (fun key => ?_) (fun row _ => ?_)
      (record_ref (storing_blind hash p fetched.file).stable rfl) fun key => ?_
    · refine base_triple steady_true.stable fun c d r c' hi _ hn => ?_
      cases hn
      refine ⟨hi, fun x hx _ => ⟨List.mem_append_right _ hx, fun h => h⟩, fun image himage => ?_⟩
      simp [himage]
    · refine (writeACI_triple hP (storing_blind hash p fetched.file) (held_blind hash p)
        fetched.file a.latest fun image himage => ?_).post fun r s hs => ?_
      · rw [himage]
        exact import_commits_held
      · cases r with
        | ok key => exact hs.1
        | error e => exact hs
    · exact quiet_triple hP.tolerant (held_blind hash p key).steady rfl
    · refine (dbDo_triple hP.tolerant (held_blind hash p row.blobKey).steady
        (fun _ => (held_blind hash p row.blobKey).steady)
        (writeRemote_commits row)).post fun r s hs => ?_
      cases r <;> exact hs
    · exact (record_ref (held_blind hash p key).stable rfl).post fun _ _ hs => ⟨hs, trivial⟩
  exact hsave.either (fun _ _ hs => hs.1) fun _ hs => hs

theorem parts_ref (hash : Image → Key) :
    Parts (refProto.proto sparing_sub) p (Out p) (fun _ _ => True) hash := by
  have hP := refProto_indifferent hash
  exact Parts.plain hP.tolerant (fun _ => record_ref steady_true.stable)
    (fun file latest => out_writeACI hP file latest fun key image =>
      import_commits key image latest)
    (fun key => removeACI_triple hP key (remove_commits key))
    (fun url => out_dbDo hP.tolerant (getRemote_commits url)) saveImage_ref

/-- **Every row of a URL points to an image**, in every run in which no image is removed while a
fetch is storing it, and in which no commit fails by which a fetch adds its image. -/
theorem remote_rows_referenced (hash : Image → Key) (scripts : Pid → Script)
    {c : Config (dbSig coreSig stmtSig) (DbState Core Database)}
    (h : Reach sparingMachine (start hash scripts) c) : Referenced c.shared.db :=
  have hok : (refProto.proto sparing_sub).Ok (start hash scripts) :=
    start_ok (fun row hrow => by cases hrow) (fun _ => parts_ref hash) (.inr fun _ _ => trivial)
  (hok.reach h).1.1

/-- Process 0 fetches an image, and process 1 removes it. -/
def fetchAndRemove : Pid → Script
  | 0 => .call (.fetchImageFrom insecureFetcher exampleArgs) fun _ => .done
  | 1 => .call (.removeACI (exampleHash exampleImage)) fun _ => .done
  | _ => .done

theorem remote_rows_referenced_fetched :
    ∃ c, Reach sparingMachine (start exampleHash fetchAndRemove) c ∧
      c.shared.db.remote.length = 1 ∧ Referenced c.shared.db := by
  obtain ⟨c, hc, hrows⟩ := follow_exists (M := sparingMachine) exampleOutside.answer [.run 0 80]
    (c := start exampleHash fetchAndRemove)
    (fun c => c.shared.db.remote.length = 1) (by decide)
  exact ⟨c, hc, by simpa using hrows, remote_rows_referenced _ _ hc⟩

/-- **`RemoveACI` between the two transactions of a fetch.** Nothing fails; process 0 has written
its image, process 1 removes it, and process 0 writes a row that points to nothing. -/
theorem remove_between_transactions :
    ∃ c, Reach storeMachine (start exampleHash fetchAndRemove) c ∧ ¬ Referenced c.shared.db := by
  obtain ⟨c, hc, hrows⟩ := follow_exists (M := storeMachine) exampleOutside.answer
    [.run 0 45, .run 1 40, .run 0 40] (c := start exampleHash fetchAndRemove)
    (fun c => ¬ Referenced c.shared.db) (by decide)
  exact ⟨c, hc, by simpa using hrows⟩

end Rkt.Fetch
