import Rkt.Store.Lookup

set_option autoImplicit false

namespace Rkt.Store

open Conc Proto DbProto

theorem cut_eq (key : Str) : cut key = key.take lenKey := by
  unfold cut
  split
  · rfl
  · exact (List.take_of_length_le (by omega)).symm

variable {K : Key} {key : Str} {d : Database}

theorem onlyKey_ok_iff {rows : List ACIInfo} :
    onlyKey key rows = .ok K ↔ ∃ row, rows = [row] ∧ row.blobKey = K := by
  rcases rows with _ | ⟨a, _ | ⟨b, rows⟩⟩
  · simp [onlyKey]
  · simp [onlyKey]
  · simp [onlyKey]

/-- `K` is the only key in the database that begins with `key`. -/
def Only (d : Database) (key : Str) (K : Key) : Prop :=
  K ∈ d.keys ∧ key <+: K ∧ ∀ K' ∈ d.keys, key <+: K' → K' = K

theorem mem_filter_start {start : Str} {row : ACIInfo} :
    row ∈ d.aciinfo.filter (start.isPrefixOf ·.blobKey) ↔
      row ∈ d.aciinfo ∧ start <+: row.blobKey := by
  rw [List.mem_filter, List.isPrefixOf_iff_prefix]

theorem resolve_ok_iff (hnodup : d.keys.Nodup)
    (hstart : hashPrefix <+: key) (hlen : minlenKey ≤ key.length) :
    resolve d key = .ok K ↔ Only d (key.take lenKey) K := by
  have hgo : resolve d key = onlyKey (key.take lenKey)
      (d.aciinfo.filter ((key.take lenKey).isPrefixOf ·.blobKey)) := by
    have hstart' : hashPrefix.isPrefixOf key = true := List.isPrefixOf_iff_prefix.mpr hstart
    rw [resolve, hstart', if_neg (by simp), if_neg (by omega), cut_eq]
  rw [hgo, onlyKey_ok_iff]
  generalize key.take lenKey = start
  have hmem : ∀ row, row ∈ d.aciinfo.filter (start.isPrefixOf ·.blobKey) ↔
      row ∈ d.aciinfo ∧ start <+: row.blobKey := fun _ => mem_filter_start
  -- no two of the rows have the same key
  have hrows : ((d.aciinfo.filter (start.isPrefixOf ·.blobKey)).map (·.blobKey)).Nodup :=
    hnodup.sublist (List.filter_sublist.map _)
  generalize d.aciinfo.filter (start.isPrefixOf ·.blobKey) = rows at hmem hrows
  constructor
  · rintro ⟨row, rfl, rfl⟩
    obtain ⟨hrow, hpre⟩ := (hmem row).mp List.mem_cons_self
    refine ⟨List.mem_map_of_mem hrow, hpre, fun K' hK' hpre' => ?_⟩
    obtain ⟨row', hrow', rfl⟩ := List.mem_map.mp hK'
    rw [List.mem_singleton.mp ((hmem row').mpr ⟨hrow', hpre'⟩)]
  · rintro ⟨hK, hpre, honly⟩
    have heq : ∀ row ∈ rows, row.blobKey = K := by
      intro row hrow
      obtain ⟨hrow, hpre⟩ := (hmem row).mp hrow
      exact honly _ (List.mem_map_of_mem hrow) hpre
    obtain ⟨row, hrow, rfl⟩ := List.mem_map.mp hK
    have hin := (hmem row).mpr ⟨hrow, hpre⟩
    rcases rows with _ | ⟨a, _ | ⟨b, rows⟩⟩
    · cases hin
    · exact ⟨a, rfl, heq a List.mem_cons_self⟩
    · -- two rows would have the same key
      have hab : a.blobKey = b.blobKey := by
        rw [heq a (by simp), heq b (by simp)]
      simp [hab] at hrows

/-- Each key is that of an image, and is in one row. -/
structure Keyed (hash : Image → Key) (d : Database) : Prop where
  nodup : d.keys.Nodup
  hashes : ∀ key ∈ d.keys, ∃ image, hash image = key

/-- A string that is as long as a key resolves to the key that it begins with, if at all. -/
theorem Keyed.resolve_iff {sum : Image → Digest}
    (h : Keyed (fun image => keyToString (sum image)) d) (hstart : hashPrefix <+: key)
    (hlen : lenKey ≤ key.length) : resolve d key = .ok K ↔ K = key.take lenKey ∧ K ∈ d.keys := by
  have hlength : ∀ K ∈ d.keys, K.length = (key.take lenKey).length := by
    intro K hK
    obtain ⟨image, rfl⟩ := h.hashes K hK
    rw [keyToString_length, List.length_take, Nat.min_eq_left hlen]
  have hmin : minlenKey ≤ key.length := le_trans (by decide) hlen
  rw [resolve_ok_iff h.nodup hstart hmin]
  constructor
  · rintro ⟨hK, hpre, -⟩
    exact ⟨(hpre.eq_of_length (hlength K hK).symm).symm, hK⟩
  · rintro ⟨rfl, hK⟩
    refine ⟨hK, List.prefix_rfl, fun K' hK' hpre => ?_⟩
    exact (hpre.eq_of_length (hlength K' hK').symm).symm

theorem Keyed.resolve_key {sum : Image → Digest}
    (h : Keyed (fun image => keyToString (sum image)) d) {image : Image} :
    resolve d (keyToString (sum image)) = .ok K ↔ K = keyToString (sum image) ∧ K ∈ d.keys := by
  have hlen := keyToString_length (sum image)
  rw [h.resolve_iff (hashPrefix_prefix_key _) hlen.ge, List.take_of_length_le hlen.le]

/-- Nothing is asked of the processes but to keep it. -/
def keyProto (hash : Image → Key) : DbProto coreMachine Database where
  inv _ d := Keyed hash d
  guar _ _ _ _ _ := True
  refl _ _ _ := trivial
  inv_die _ _ _ h := h
  guar_die _ _ _ _ := trivial

section keys

variable {hash : Image → Key} {p : Pid}

theorem keyProto_indifferent : Indifferent hash (keyProto hash) :=
  fun _ _ _ _ _ h => ⟨h, trivial⟩

theorem import_keyed (image : Image) (latest : Bool) :
    Commits Stmt.run (keyProto hash) storeMachine p (fun _ _ => True)
      (importTx (hash image) image latest) fun _ _ _ => True where
  commit _ _ _ _ hruns _ _ hi _ := by
    refine ⟨⟨importTx_nodup hruns hi.nodup, fun key hkey => ?_⟩, trivial, trivial⟩
    rcases (importTx_keys hruns key).mp hkey with rfl | hold
    · exact ⟨image, rfl⟩
    · exact hi.hashes key hold
  fail _ _ _ _ _ _ _ _ _ := trivial

theorem remove_keyed (key : Key) :
    Commits Stmt.run (keyProto hash) storeMachine p (fun _ _ => True) (removeTx key)
      fun _ _ _ => True where
  commit _ _ _ _ hruns _ _ hi _ :=
    ⟨⟨removeTx_nodup hruns hi.nodup, fun k hk => hi.hashes k ((removeTx_keys hruns k).mp hk).2⟩,
      trivial, trivial⟩
  fail _ _ _ _ _ _ _ _ _ := trivial

/-- The calls that change the set of stored images. -/
inductive Change where
  | writeACI (file : File) (latest : Bool)
  | removeACI (key : Key)

def Change.Res : Change → Type
  | .writeACI _ _ => Except Err Key
  | .removeACI _ => Except Err Unit

def Change.prog (hash : Image → Key) : (i : Change) → StoreProg i.Res
  | .writeACI file latest => Store.writeACI hash file latest
  | .removeACI key => Store.removeACI key

theorem change_keyed (i : Change) :
    ((keyProto hash).proto (.refl storeMachine)).Triple p (Out p) (i.prog hash) fun _ => Out p := by
  cases i with
  | writeACI file latest =>
    exact (writeACI_triple keyProto_indifferent blind_true (fun _ => blind_true) file latest
      fun image _ => import_keyed image latest).either (fun _ _ hs => hs.1) fun _ hs => hs
  | removeACI key => exact removeACI_triple keyProto_indifferent key (remove_keyed key)

/-- A store that is reached from an empty one by such calls, in any interleaving and whatever
fails. -/
def Reached (hash : Image → Key) (c : Config (dbSig coreSig stmtSig) (DbState Core Database)) :
    Prop :=
  ∃ c₀ : Config (dbSig coreSig stmtSig) (DbState Core Database),
    c₀.shared.db.aciinfo = [] ∧ (∀ q, c₀.shared.work q = none) ∧
    (∀ q, MakesCalls (Change.prog hash) (c₀.procs q)) ∧ Reach storeMachine c₀ c

variable {c : Config (dbSig coreSig stmtSig) (DbState Core Database)}

theorem Reached.inv (h : Reached hash c) :
    ((keyProto hash).proto (.refl storeMachine)).inv c.shared := by
  obtain ⟨c₀, hempty, hidle, hcalls, hreach⟩ := h
  have hkeys : c₀.shared.db.keys = [] := by rw [Database.keys, hempty, List.map_nil]
  have hok : ((keyProto hash).proto (.refl storeMachine)).Ok c₀ := by
    refine ⟨⟨⟨?_, ?_⟩, fun q w hw => ?_⟩, fun q => ?_⟩
    · rw [hkeys]
      exact List.nodup_nil
    · rw [hkeys]
      exact fun key hkey => absurd hkey List.not_mem_nil
    · rw [hidle q] at hw
      cases hw
    · exact ((hcalls q).triple change_keyed).post (fun _ _ _ => trivial) _
        ⟨hidle q, by simp, trivial⟩
  exact (hok.reach hreach).1

end keys

/-- **What a string stands for.** In every store that is reached by `WriteACI` and `RemoveACI`, a
string that is long enough resolves to `K` if and only if `K` is the only stored key that begins
with it, after it was cut. So the key of a stored image, and the whole sum, resolve to that key.
A query for a beginning lists exactly the rows whose keys have it. -/
theorem resolveKey_iff (sum : Image → Digest)
    (c : Config (dbSig coreSig stmtSig) (DbState Core Database))
    (hc : Reached (fun image => keyToString (sum image)) c) (p : Pid)
    (howner : c.shared.owner = none) (hclosed : c.shared.core.handle p = ⟨false, false⟩) :
    (∀ key, hashPrefix <+: key → minlenKey ≤ key.length →
      (∃ r s', (resolveKey key).Runs ((sureMachine p).next p) c.shared r s') ∧
      ∀ r s', (resolveKey key).Runs ((sureMachine p).next p) c.shared r s' →
        ∀ K, r = .ok K ↔ Only c.shared.db (key.take lenKey) K) ∧
    (∀ image, keyToString (sum image) ∈ c.shared.db.keys →
      ∀ key ∈ [keyToString (sum image), (sum image).text], ∀ r s',
        (resolveKey key).Runs ((sureMachine p).next p) c.shared r s' →
        r = .ok (keyToString (sum image))) ∧
    ∀ start rows w, (getACIInfosWithKeyPrefix start).Runs Stmt.run c.shared.db (.ok rows) w →
      rows.Perm (c.shared.db.aciinfo.filter fun row => start <+: row.blobKey) := by
  obtain ⟨hkeys, hwork⟩ := hc.inv
  have hs : Rests p c.shared := by
    refine ⟨⟨howner, hclosed⟩, fun q => Option.eq_none_iff_forall_ne_some.mpr fun w hw => ?_⟩
    rw [hwork q w hw] at howner
    cases howner
  refine ⟨fun key hstart hlen => ⟨?_, fun r s' hrun K => ?_⟩, fun image himage key hkey r s' hrun =>
    ?_, fun start rows w hrun => ?_⟩
  · obtain ⟨r, s', hrun, -⟩ := resolveKey_can (L := fun _ => True) key c.shared ⟨hs, trivial⟩
    exact ⟨r, s', hrun⟩
  · rw [resolveKey_alone hs hrun]
    exact resolve_ok_iff hkeys.nodup hstart hlen
  · rw [resolveKey_alone hs hrun]
    rcases List.mem_pair.mp hkey with rfl | rfl
    · exact hkeys.resolve_key.mpr ⟨rfl, himage⟩
    · have hlen : lenKey ≤ (sum image).text.length := by
        rw [Digest.text_length]
        decide
      exact (hkeys.resolve_iff (hashPrefix_prefix_text _) hlen).mpr ⟨rfl, himage⟩
  · have hrows := (getACIInfosWithKeyPrefix_ok hrun).1
    simpa only [← List.isPrefixOf_iff_prefix, Bool.decide_eq_true] using hrows

def appImage : Image := ⟨⟨"example.com/app".toList, []⟩, "app".toList⟩

/-- The sum that consists of one byte only. -/
@[irreducible]
def byteDigest (b : UInt8) : Digest := ⟨List.replicate lenHash b, List.length_replicate⟩

def storing : Config (dbSig coreSig stmtSig) (DbState Core Database) where
  shared := initial Core.empty ⟨some [], [], []⟩
  procs
    | 0 => do
      let _ ← Change.prog (fun _ => keyToString (byteDigest 0)) (.writeACI (some appImage) true)
      return ()
    | _ => return ()

theorem storing_calls (q : Pid) :
    MakesCalls (Change.prog fun _ => keyToString (byteDigest 0)) (storing.procs q) := by
  rcases q with _ | q
  · exact .call (Change.writeACI (some appImage) true) _ fun _ => .done
  · exact .done

theorem resolveKey_iff_stored :
    ∃ c, Reached (fun _ => keyToString (byteDigest 0)) c ∧
      keyToString (byteDigest 0) ∈ c.shared.db.keys ∧
      ∃ s', (resolveKey (byteDigest 0).text).Runs ((sureMachine 1).next 1) c.shared
        (.ok (keyToString (byteDigest 0))) s' := by
  let outside : Outside := {}
  obtain ⟨c, hreach, hc⟩ := follow_exists (M := storeMachine) outside.answer [.run 0 40]
    (c := storing) (fun c => c.shared.owner = none ∧ c.shared.core.handle 1 = ⟨false, false⟩ ∧
      keyToString (byteDigest 0) ∈ c.shared.db.keys) (by decide +kernel)
  obtain ⟨howner, hclosed, hmem⟩ := of_decide_eq_true hc
  have hreached : Reached (fun _ => keyToString (byteDigest 0)) c :=
    ⟨storing, rfl, fun _ => rfl, storing_calls, hreach⟩
  obtain ⟨hall, hsum, -⟩ := resolveKey_iff (fun _ => byteDigest 0) c hreached 1 howner hclosed
  have hlen : minlenKey ≤ (byteDigest 0).text.length := by
    rw [Digest.text_length]
    decide
  obtain ⟨⟨r, s', hrun⟩, -⟩ := hall (byteDigest 0).text (hashPrefix_prefix_text _) hlen
  obtain rfl := hsum appImage hmem (byteDigest 0).text (by simp) r s' hrun
  exact ⟨c, hreached, hmem, s', hrun⟩

end Rkt.Store
