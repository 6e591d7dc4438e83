import Rkt.Fetch.Rules
import Rkt.Store.Tx

set_option autoImplicit false

namespace Rkt.Fetch

open Conc Prog Proto DbProto Store

/-- A commit that fails is none that would remove an image. -/
def reliable (p : Pid) :
    (o : DbOp Op Stmt) → DbOp.Res coreSig stmtSig o → DbState Core Database → Bool
  | .commit, (r : Bool), s =>
    match s.work p with
    | none => true
    | some w => r || s.db.keys.all (· ∈ w.keys)
  | _, _, _ => true

/-- The store, as long as images are removed reliably. -/
def reliableMachine : Machine (dbSig coreSig stmtSig) (DbState Core Database) :=
  storeMachine.restrict fun p o r s => reliable p o r s = true

theorem reliable_sub : reliableMachine.Sub storeMachine := Machine.restrict_sub

theorem reliable_fail {p : Pid} {s s' : DbState Core Database} {w : Database}
    (hw : s.work p = some w) (h : reliableMachine.next p .commit false s = some s') {key : Key}
    (hk : key ∈ s.db.keys) : key ∈ w.keys := by
  have hok := (Machine.restrict_next h).1
  simp only [reliable, hw, Bool.false_or, List.all_eq_true, decide_eq_true_eq] at hok
  exact hok key hk

/-- Every image in the database has its entries, and one row. -/
structure HasEntries (c : Core) (d : Database) : Prop where
  blob : ∀ key ∈ d.keys, c.blob key ≠ none
  imageManifest : ∀ key ∈ d.keys, c.imageManifest key ≠ none
  nodup : d.keys.Nodup

structure Untouched (key : Key) (c : Core) (d : Database) (c' : Core) (d' : Database) : Prop where
  imageLock : c'.imageLock key = c.imageLock key
  blob : c'.blob key = c.blob key
  imageManifest : c'.imageManifest key = c.imageManifest key
  row : key ∈ d'.keys ↔ key ∈ d.keys

theorem Untouched.refl (key : Key) (c : Core) (d : Database) : Untouched key c d c d :=
  ⟨rfl, rfl, rfl, Iff.rfl⟩

/-- The images that are locked by others are not touched. -/
def entryProto : DbProto coreMachine Database where
  inv := HasEntries
  guar q c d c' d' := ∀ key p, p ≠ q → c.imageLock key = some p → Untouched key c d c' d'
  refl _ c d key _ _ _ := .refl key c d
  inv_die _ _ _ h := ⟨h.blob, h.imageManifest, h.nodup⟩
  guar_die q c d _ key p hp hl := by
    refine ⟨?_, rfl, rfl, Iff.rfl⟩
    show (if c.imageLock key = some q then none else c.imageLock key) = c.imageLock key
    rw [hl, if_neg]
    simpa using hp

/-- A step that touches one image, which no other process has locked. -/
theorem guar_of_untouched {p : Pid} {key : Key} {c c' : Core} {d d' : Database}
    (hfree : ∀ q, c.imageLock key = some q → q = p)
    (h : ∀ k, k ≠ key → Untouched k c d c' d') : entryProto.guar p c d c' d' := by
  intro k q hq hl
  refine h k fun hk => hq ?_
  subst hk
  exact hfree q hl

theorem entryProto_same {p : Pid} {c c' : Core} {d d' : Database} (hl : c'.imageLock = c.imageLock)
    (hb : c'.blob = c.blob) (hm : c'.imageManifest = c.imageManifest) (hk : d'.keys = d.keys)
    (hi : HasEntries c d) : HasEntries c' d' ∧ entryProto.guar p c d c' d' := by
  refine ⟨⟨?_, ?_, ?_⟩, fun key q _ _ => ⟨by rw [hl], by rw [hb], by rw [hm], by rw [hk]⟩⟩
  · rw [hb, hk]
    exact hi.blob
  · rw [hm, hk]
    exact hi.imageManifest
  · rw [hk]
    exact hi.nodup

theorem entryProto_tolerant : Tolerant entryProto :=
  fun _ _ _ _ h hi => entryProto_same h.imageLock h.blob h.imageManifest rfl hi

/-- `p` has locked the image of this key, and `B` holds of its entries and of whether there is a
row. -/
def Under (p : Pid) (key : Key) (B : Option Image → Option Manifest → Prop → Prop) (c : Core)
    (d : Database) : Prop :=
  c.imageLock key = some p ∧ B (c.blob key) (c.imageManifest key) (key ∈ d.keys)

variable {p : Pid} {key : Key} {B : Option Image → Option Manifest → Prop → Prop}
  {c c' : Core} {d d' : Database}

theorem Under.untouched (h : Under p key B c d) (hu : Untouched key c d c' d') :
    Under p key B c' d' := by
  unfold Under
  rw [hu.imageLock, hu.blob, hu.imageManifest, hu.row]
  exact h

theorem Under.free (h : Under p key B c d) (q : Pid) (hq : c.imageLock key = some q) : q = p := by
  rw [h.1] at hq
  exact (Option.some.inj hq).symm

theorem under_steady : Steady entryProto p (Under p key B) where
  stable q c d c' d' hq _ _ hg h := h.untouched (hg key p (Ne.symm hq) h.1)
  blind c c' d hsame _ h :=
    h.untouched ⟨by rw [hsame.imageLock], by rw [hsame.blob], by rw [hsame.imageManifest], Iff.rfl⟩

abbrev Locked (p : Pid) (key : Key) : Core → Database → Prop := Under p key fun _ _ _ => True

theorem Under.locked (h : Under p key B c d) : Locked p key c d := ⟨h.1, trivial⟩

theorem forget_under {s : DbState Core Database} (h : Idle p false (Under p key B) s) :
    Idle p false (Locked p key) s := ⟨h.1, h.2.1, h.2.2.locked⟩

theorem under_op {o : Op} {Q : o.Res → Core → Database → Prop}
    (h : ∀ c d r c', HasEntries c d → Under p key B c d → next p o r c = some c' →
      (∀ k, k ≠ key → Untouched k c d c' d) ∧ HasEntries c' d ∧ Q r c' d) :
    (entryProto.proto reliable_sub).Triple p (Idle p false (Under p key B)) (sys o)
      fun r => Idle p false (Q r) :=
  base_triple under_steady.stable fun c d r c' hi hA hn =>
    have ⟨hu, hi', hQ⟩ := h c d r c' hi hA hn
    ⟨hi', guar_of_untouched hA.free hu, hQ⟩

/-- An entry is replaced, by another one or, if nobody needs it, by none. -/
theorem update_ne_none {β : Type} {f : Key → Option β} {v : Option β} {k : Key}
    (hf : f k ≠ none) (hv : k = key → v ≠ none) : Function.update f key v k ≠ none := by
  by_cases hk : k = key
  · subst hk
    rw [Function.update_self]
    exact hv rfl
  · rwa [Function.update_of_ne hk]

theorem HasEntries.setBlob {v : Option Image} (h : HasEntries c d) (hv : key ∈ d.keys → v ≠ none) :
    HasEntries { c with blob := Function.update c.blob key v } d :=
  ⟨fun k hk => update_ne_none (h.blob k hk) fun heq => hv (heq ▸ hk), h.imageManifest, h.nodup⟩

theorem HasEntries.setManifest {v : Option Manifest} (h : HasEntries c d)
    (hv : key ∈ d.keys → v ≠ none) :
    HasEntries { c with imageManifest := Function.update c.imageManifest key v } d :=
  ⟨h.blob, fun k hk => update_ne_none (h.imageManifest k hk) fun heq => hv (heq ▸ hk), h.nodup⟩

theorem untouched_setBlob {v : Option Image} {k : Key} (hk : k ≠ key) :
    Untouched k c d { c with blob := Function.update c.blob key v } d :=
  ⟨rfl, Function.update_of_ne hk _ _, rfl, Iff.rfl⟩

theorem untouched_setManifest {v : Option Manifest} {k : Key} (hk : k ≠ key) :
    Untouched k c d { c with imageManifest := Function.update c.imageManifest key v } d :=
  ⟨rfl, rfl, Function.update_of_ne hk _ _, Iff.rfl⟩

theorem lockImage_triple (key : Key) :
    (entryProto.proto reliable_sub).Triple p (Out p) (sys (.lockImage key))
      fun (ok : Bool) => Idle p false (if ok = true then Locked p key else fun _ _ => True) := by
  refine base_triple steady_true.stable fun c d ok c' hi _ hn => ?_
  cases ok with
  | false =>
    cases hn
    exact ⟨hi, entryProto.refl _ _ _, trivial⟩
  | true =>
    obtain ⟨hfree, rfl⟩ := lockImage_next hn
    have hnobody : ∀ q, c.imageLock key = some q → q = p := by
      intro q hq
      rw [hfree] at hq
      cases hq
    exact ⟨⟨hi.blob, hi.imageManifest, hi.nodup⟩, guar_of_untouched hnobody fun k hk =>
      ⟨Function.update_of_ne hk _ _, rfl, rfl, Iff.rfl⟩, Function.update_self _ _ _, trivial⟩

theorem closeImage_triple : (entryProto.proto reliable_sub).Triple p (Idle p false (Locked p key))
      (sys (.closeImage key)) fun _ => Out p := by
  refine base_triple under_steady.stable fun c d r c' hi hA hn => ?_
  have hc' : c' = { c with imageLock := Function.update c.imageLock key none } := by
    simpa [coreMachine, next, hA.1] using hn.symm
  subst hc'
  exact ⟨⟨hi.blob, hi.imageManifest, hi.nodup⟩, guar_of_untouched hA.free fun k hk =>
    ⟨Function.update_of_ne hk _ _, rfl, rfl, Iff.rfl⟩, trivial⟩

theorem importBlob_triple (image : Image) :
    (entryProto.proto reliable_sub).Triple p (Idle p false (Locked p key))
      (sys (.importBlob key image)) fun (ok : Bool) => Idle p false
        (if ok = true then Under p key fun b _ _ => b ≠ none else Locked p key) := by
  refine under_op (o := .importBlob key image) fun c d (ok : Bool) c' hi hA hn => ?_
  cases hn
  cases ok with
  | false => exact ⟨fun k _ => .refl k c d, hi, hA⟩
  | true => exact ⟨fun k hk => untouched_setBlob hk, hi.setBlob fun _ => by simp, hA.1, by simp⟩

theorem writeManifest_triple (manifest : Manifest) :
    (entryProto.proto reliable_sub).Triple p (Idle p false (Under p key fun b _ _ => b ≠ none))
      (sys (.writeManifest key manifest)) fun (ok : Bool) => Idle p false
        (if ok = true then Under p key fun b m _ => b ≠ none ∧ m ≠ none else Locked p key) := by
  refine under_op (o := .writeManifest key manifest) fun c d (ok : Bool) c' hi hA hn => ?_
  cases hn
  cases ok with
  | false => exact ⟨fun k _ => .refl k c d, hi, hA.locked⟩
  | true =>
    exact ⟨fun k hk => untouched_setManifest hk, hi.setManifest fun _ => by simp, hA.1, hA.2,
      by simp⟩

theorem import_commits_entry (image : Image) (latest : Bool) :
    Commits Stmt.run entryProto reliableMachine p (Under p key fun b m _ => b ≠ none ∧ m ≠ none)
      (importTx key image latest) fun _ => Locked p key where
  commit _ s _ w hruns _ _ hi hA := by
    have hkeys : ∀ k, k ∈ w.keys ↔ k = key ∨ k ∈ s.db.keys := importTx_keys hruns
    refine ⟨⟨fun k hk => ?_, fun k hk => ?_, importTx_nodup hruns hi.nodup⟩,
      guar_of_untouched hA.free fun k hk => ⟨rfl, rfl, rfl, ?_⟩, hA.locked⟩
    · rcases (hkeys k).mp hk with rfl | hold
      · exact hA.2.1
      · exact hi.blob k hold
    · rcases (hkeys k).mp hk with rfl | hold
      · exact hA.2.2
      · exact hi.imageManifest k hold
    · rw [hkeys, or_iff_right hk]
  fail _ _ _ _ _ _ _ _ hA := hA.locked

/-- An operation under the lock that may fail, and what follows if it does not. -/
theorem check_under {A A' E : Core → Database → Prop} {α : Type} {x : StoreProg Bool} {e : Err}
    {k : StoreProg (Except Err α)} {Q : α → DbState Core Database → Prop}
    (hx : (entryProto.proto reliable_sub).Triple p (Idle p false A) x
      fun ok => Idle p false (if ok = true then A' else E))
    (hk : (entryProto.proto reliable_sub).Triple p (Idle p false A') k
      (Result (Idle p false E) Q)) :
    (entryProto.proto reliable_sub).Triple p (Idle p false A) (check x e k)
      (Result (Idle p false E) Q) :=
  .check (hx.post fun ok s hs => by cases ok <;> exact hs) (fun _ hs => hs) hk

theorem importImage_entry (image : Image) (latest : Bool) :
    (entryProto.proto reliable_sub).Triple p (Idle p false (Locked p key))
      (importImage key image latest) fun _ => Idle p false (Locked p key) := by
  have himport : (entryProto.proto reliable_sub).Triple p (Idle p false (Locked p key))
      (importImage key image latest)
      (Result (Idle p false (Locked p key)) fun _ => Idle p false (Locked p key)) := by
    refine check_under (importBlob_triple image) ?_
    refine Triple.check_same (quiet_triple (o := .aside) entryProto_tolerant under_steady rfl)
      (fun s hs => forget_under hs) ?_
    refine check_under (writeManifest_triple image.manifest) ?_
    refine Triple.onResult (dbDo_triple entryProto_tolerant under_steady (fun _ => under_steady)
      (import_commits_entry image latest)) (fun _ => ?_) fun e => ?_
    · exact Triple.ret fun s hs => hs
    · exact Triple.ret fun s hs => forget_under hs
  exact himport.post fun r s hs => by cases r <;> exact hs

theorem writeACI_entry (hash : Image → Key) (file : File) (latest : Bool) :
    (entryProto.proto reliable_sub).Triple p (Out p) (writeACI hash file latest)
      fun _ => Out p := by
  have hwrite : (entryProto.proto reliable_sub).Triple p (Out p) (writeACI hash file latest)
      (Result (Out p) fun _ => Out p) := by
    refine writeACI_parts (J := fun image => Idle p false (Locked p (hash image)))
      (quiet_triple (o := .aside) entryProto_tolerant steady_true rfl) (fun image => ?_)
      fun image _ => ?_
    · exact (lockImage_triple (hash image)).post fun ok s hs => by cases ok <;> exact hs
    · refine (importImage_entry image latest).bind fun r => ?_
      refine closeImage_triple.bind fun _ => Triple.ret fun s hs => ?_
      cases r <;> exact hs
  exact hwrite.either (fun _ _ hs => hs) fun _ hs => hs

/-- The row is gone afterwards; if the commit fails then it is there, but then the commit does
not fail. -/
theorem remove_commits_entry :
    Commits Stmt.run entryProto reliableMachine p (Locked p key) (removeTx key)
      fun _ => Under p key fun _ _ row => ¬ row where
  commit _ s _ w hruns _ _ hi hA := by
    have hkeys : ∀ k, k ∈ w.keys ↔ k ≠ key ∧ k ∈ s.db.keys := removeTx_keys hruns
    refine ⟨⟨fun k hk => hi.blob k ((hkeys k).mp hk).2,
      fun k hk => hi.imageManifest k ((hkeys k).mp hk).2, removeTx_nodup hruns hi.nodup⟩,
      guar_of_untouched hA.free fun k hk => ⟨rfl, rfl, rfl, ?_⟩, hA.1, fun hmem => ?_⟩
    · rw [hkeys, and_iff_right hk]
    · exact ((hkeys key).mp hmem).1 rfl
  fail _ s s' w hruns hw hn _ _ := by
    have hmem : key ∈ w.keys := reliable_fail hw hn (removeTx_ok hruns).1
    exact absurd rfl ((removeTx_keys hruns key).mp hmem).1

theorem erase_entry (store : DiskvStore) :
    (entryProto.proto reliable_sub).Triple p (Idle p false (Under p key fun _ _ row => ¬ row))
      (sys (.erase store key)) fun _ => Idle p false (Under p key fun _ _ row => ¬ row) := by
  refine under_op (o := .erase store key) fun c d (ok : Bool) c' hi hA hn => ?_
  cases ok with
  | false =>
    cases hn
    exact ⟨fun k _ => .refl k c d, hi, hA⟩
  | true =>
    rcases Core.erase_eq hn with rfl | rfl
    · exact ⟨fun k hk => untouched_setBlob hk, hi.setBlob fun hk => absurd hk hA.2, hA⟩
    · exact ⟨fun k hk => untouched_setManifest hk, hi.setManifest fun hk => absurd hk hA.2, hA⟩

theorem eraseAll_entry (stores : List DiskvStore) :
    (entryProto.proto reliable_sub).Triple p (Idle p false (Under p key fun _ _ row => ¬ row))
      (eraseAll key stores) fun _ => Idle p false (Locked p key) := by
  induction stores with
  | nil => exact Triple.ret fun s hs => forget_under hs
  | cons store stores ih => exact (erase_entry store).bind fun ok => ih.thenRet fun _ => ⟨_, rfl⟩

theorem removeACI_entry (key : Key) :
    (entryProto.proto reliable_sub).Triple p (Out p) (removeACI key) fun _ => Out p := by
  have hremove : (entryProto.proto reliable_sub).Triple p (Idle p false (Locked p key))
      (removeImage key) fun _ => Idle p false (Locked p key) := by
    refine Triple.onResult (dbDo_triple entryProto_tolerant under_steady (fun _ => under_steady)
      remove_commits_entry) (fun _ => ?_) fun e => Triple.ret fun s hs => hs
    exact (eraseAll_entry _).thenRet fun _ => ⟨_, rfl⟩
  have hlocked : (entryProto.proto reliable_sub).Triple p (Out p) (removeACI key)
      (Result (Out p) fun _ => Out p) := by
    refine check_under (lockImage_triple key) ?_
    refine hremove.bind fun r => ?_
    refine closeImage_triple.bind fun _ => Triple.ret fun s hs => ?_
    cases r <;> exact hs
  exact hlocked.post fun r s hs => by cases r <;> exact hs

theorem commits_of_keys {α : Type} {fn : TxProg (Except Err α)}
    (h : ∀ a d w, fn.Runs Stmt.run d (.ok a) w → w.keys = d.keys) :
    Commits Stmt.run entryProto reliableMachine p (fun _ _ => True) fn fun _ _ _ => True where
  commit a _ _ _ hruns _ _ hi _ :=
    have ⟨hi', hg⟩ := entryProto_same rfl rfl rfl (h a _ _ hruns) hi
    ⟨hi', hg, trivial⟩
  fail _ _ _ _ _ _ _ _ _ := trivial

theorem record_entry {o : Op} (ho : Op.record o = true) :
    (entryProto.proto reliable_sub).Triple p (Out p) (sys o) fun _ => Out p := by
  refine base_triple steady_true.stable fun c d r c' hi _ hn => ?_
  have hrec : Recorded p c c' := record_next ho hn
  obtain ⟨hi', hg⟩ := entryProto_same (p := p) hrec.imageLock hrec.blob hrec.imageManifest rfl hi
  exact ⟨hi', hg, trivial⟩

theorem parts_entry (hash : Image → Key) :
    Parts (entryProto.proto reliable_sub) p (Out p) (fun _ _ => True) hash := by
  refine Parts.plain entryProto_tolerant (fun _ => record_entry) (writeACI_entry hash)
    removeACI_entry (fun url => ?_) (saveImage_out entryProto_tolerant (fun _ => record_entry)
      (writeACI_entry hash) fun row => ?_)
  · refine out_dbDo entryProto_tolerant (commits_of_keys fun r d w hruns => ?_)
    rw [(getRemoteTx_ok hruns).1]
  · exact out_dbDo entryProto_tolerant (commits_of_keys fun _ _ _ => writeRemoteTx_keys)

/-- **Every row of an image has both entries, and no two rows have the same key**, in every run
in which no commit fails that would remove an image. -/
theorem rows_have_entries (hash : Image → Key) (scripts : Pid → Script)
    {c : Config (dbSig coreSig stmtSig) (DbState Core Database)}
    (h : Reach reliableMachine (start hash scripts) c) :
    (∀ row ∈ c.shared.db.aciinfo, c.shared.core.blob row.blobKey ≠ none ∧
      c.shared.core.imageManifest row.blobKey ≠ none) ∧
    (c.shared.db.aciinfo.map (·.blobKey)).Nodup := by
  have hempty : HasEntries Core.empty (newDatabase 2) :=
    ⟨by simp [newDatabase, Database.keys], by simp [newDatabase, Database.keys], List.nodup_nil⟩
  have hok : (entryProto.proto reliable_sub).Ok (start hash scripts) :=
    start_ok hempty (fun _ => parts_entry hash) (.inr fun _ _ => trivial)
  have hinv : HasEntries c.shared.core c.shared.db := (hok.reach h).1.1
  refine ⟨fun row hrow => ?_, hinv.nodup⟩
  have hkey : row.blobKey ∈ c.shared.db.keys := List.mem_map_of_mem hrow
  exact ⟨hinv.blob _ hkey, hinv.imageManifest _ hkey⟩

/-- Processes 0 and 1 import an image, and process 2 removes it. -/
def importTwiceAndRemove : Pid → Script
  | 0 | 1 => .call (.writeACI (some exampleImage) false) fun _ => .done
  | 2 => .call (.removeACI (exampleHash exampleImage)) fun _ => .done
  | _ => .done

theorem rows_have_entries_imported :
    ∃ c, Reach reliableMachine (start exampleHash importTwiceAndRemove) c ∧
      c.shared.db.aciinfo.length = 1 ∧
      (∀ row ∈ c.shared.db.aciinfo, c.shared.core.blob row.blobKey ≠ none ∧
        c.shared.core.imageManifest row.blobKey ≠ none) ∧
      (c.shared.db.aciinfo.map (·.blobKey)).Nodup := by
  obtain ⟨c, hc, hrows⟩ := follow_exists (M := reliableMachine) exampleOutside.answer
    [.run 0 40, .run 1 40] (c := start exampleHash importTwiceAndRemove)
    (fun c => c.shared.db.aciinfo.length = 1) (by decide)
  exact ⟨c, hc, by simpa using hrows, rows_have_entries _ _ hc⟩

/-- **A commit of `RemoveACI` fails.** Process 0 has imported an image; process 2 removes it. The
commit fails and says so, but `DoTx` returns no error, and the entries are erased. -/
theorem failed_removal_erases :
    ∃ c, Reach storeMachine (start exampleHash importTwiceAndRemove) c ∧
      ∃ row ∈ c.shared.db.aciinfo, c.shared.core.blob row.blobKey = none ∧
        c.shared.core.imageManifest row.blobKey = none := by
  obtain ⟨c, hc, hrows⟩ := follow_exists (M := storeMachine)
    (Outside.answer { commitFails := fun p => p = 2 }) [.run 0 40, .run 2 40]
    (c := start exampleHash importTwiceAndRemove)
    (fun c => c.shared.db.aciinfo.any fun row => c.shared.core.blob row.blobKey = none ∧
      c.shared.core.imageManifest row.blobKey = none) (by decide)
  obtain ⟨row, hrow, hnone⟩ := List.any_eq_true.mp hrows
  exact ⟨c, hc, row, hrow, of_decide_eq_true hnone⟩

end Rkt.Fetch
