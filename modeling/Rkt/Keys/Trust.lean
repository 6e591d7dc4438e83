import Rkt.Keys.Walk

set_option autoImplicit false

namespace Rkt.Keys

open Path Result

def Alpha (c : Str) : Prop := ∃ a t, c = a :: t ∧ alphanumeric a = true

theorem not_special_of_alphanumeric {a : Char} (h : alphanumeric a = true) : special a = false := by
  by_contra hs
  simp only [special, Bool.or_eq_true, decide_eq_true_eq, Bool.not_eq_false] at hs
  rcases hs with (((rfl | rfl) | rfl) | rfl) | rfl <;> revert h <;> decide

theorem Alpha.plain {c : Str} (h : Alpha c) (hslash : '/' ∉ c) : Plain c := by
  obtain ⟨a, t, rfl, ha⟩ := h
  have hdot : a ≠ '.' := by
    rintro rfl
    revert ha
    decide
  exact ⟨by simp, by simp [hdot], by simp [hdot], hslash⟩

variable {s : Str} {es : Entries} {name : Str}

/-- Every component of a valid identifier begins with a letter or digit. -/
theorem alpha_split : ∀ {edge : Bool}, matchIdentifier edge s = true →
    (edge = true → Alpha ((split s).head (split_ne_nil s))) ∧ ∀ c ∈ (split s).tail, Alpha c := by
  induction s with
  | nil =>
    intro edge h
    refine ⟨fun he => ?_, by simp [split]⟩
    subst he
    cases h
  | cons a s ih =>
    intro edge h
    unfold matchIdentifier at h
    by_cases hslash : a = '/'
    · -- the separator: what follows is a component of its own
      subst hslash
      have hs : (!edge && matchIdentifier true s) = true := h
      obtain ⟨he, hs⟩ := Bool.and_eq_true_iff.mp hs
      obtain ⟨hhead, htail⟩ := ih hs
      refine ⟨fun he' => by simp [he'] at he, fun c hc => ?_⟩
      have hc' : c ∈ split s := by simpa [split] using hc
      rw [← List.cons_head_tail (split_ne_nil s)] at hc'
      rcases List.mem_cons.mp hc' with rfl | hc'
      · exact hhead rfl
      · exact htail c hc'
    · obtain ⟨w, ws, hw⟩ := List.exists_cons_of_ne_nil (split_ne_nil s)
      have hsplit : split (a :: s) = (a :: w) :: ws := by simp [split, hslash, hw]
      simp only [hsplit, List.head_cons, List.tail_cons]
      by_cases ha : alphanumeric a = true
      · rw [if_pos ha] at h
        have htail := (ih h).2
        rw [hw] at htail
        exact ⟨fun _ => ⟨a, w, rfl, ha⟩, htail⟩
      · rw [if_neg ha] at h
        simp only [Bool.and_eq_true, Bool.not_eq_true'] at h
        obtain ⟨⟨-, he⟩, hs⟩ := h
        have htail := (ih hs).2
        rw [hw] at htail
        exact ⟨fun he' => by simp [he'] at he, htail⟩

theorem plain_of_valid {s c : Str} (h : validACIdentifier s = true) (hc : c ∈ split s) :
    Plain c := by
  obtain ⟨hhead, htail⟩ := alpha_split h
  refine Alpha.plain ?_ (slash_notMem_of_mem_split hc)
  rw [← List.cons_head_tail (split_ne_nil s)] at hc
  rcases List.mem_cons.mp hc with rfl | hc
  · exact hhead rfl
  · exact htail c hc

theorem plain_keyPath {pfx fp : Str} (hpfx : validACIdentifier pfx = true) (hfp : Plain fp) :
    ∀ name ∈ split pfx ++ [fp], Plain name :=
  List.forall_mem_append.mpr ⟨fun _ => plain_of_valid hpfx, List.forall_mem_singleton.mpr hfp⟩

theorem matchIdentifier_chars : ∀ {edge : Bool}, matchIdentifier edge s = true →
    s.all (fun c => alphanumeric c || special c) = true ∧ s.getLast?.any special = false ∧
      (edge = true → s ≠ [] ∧ s.head?.any special = false) := by
  induction s with
  | nil =>
    intro edge h
    refine ⟨rfl, rfl, fun he => ?_⟩
    subst he
    cases h
  | cons a s ih =>
    intro edge h
    unfold matchIdentifier at h
    by_cases ha : alphanumeric a = true
    · rw [if_pos ha] at h
      obtain ⟨hall, hlast, -⟩ := ih h
      refine ⟨by simp [ha, hall], ?_, fun _ => ⟨by simp, ?_⟩⟩
      · cases s with
        | nil => simp [not_special_of_alphanumeric ha]
        | cons b s => simpa [List.getLast?_cons_cons] using hlast
      · simp [not_special_of_alphanumeric ha]
    · rw [if_neg ha] at h
      simp only [Bool.and_eq_true, Bool.not_eq_true'] at h
      obtain ⟨⟨hsp, he⟩, hs⟩ := h
      obtain ⟨hall, hlast, hne⟩ := ih hs
      refine ⟨by simp [hsp, hall], ?_, fun he' => by simp [he'] at he⟩
      cases s with
      | nil => exact absurd rfl (hne rfl).1
      | cons b s => simpa [List.getLast?_cons_cons] using hlast

/-- What the regular expression accepts passes the check of `NewACIdentifier`. -/
theorem assertValid_of_valid (h : validACIdentifier s = true) : assertValid s = true := by
  obtain ⟨hall, hlast, hfirst⟩ := matchIdentifier_chars h
  obtain ⟨hne, hhead⟩ := hfirst rfl
  unfold assertValid
  rw [hall, hlast, hhead]
  simp [hne]

mutual

/-- Every file below the node is a key file under its own fingerprint: there are no masks, and
nothing makes the walk fail. -/
def Node.KeysOnly (name : Str) : Node → Prop
  | .file c => c = .key name
  | .dir es => es.KeysOnly

def Entries.KeysOnly : Entries → Prop
  | .nil => True
  | .cons name n rest => n.KeysOnly name ∧ rest.KeysOnly

end

def Node.RootKeys : Node → Prop
  | .file _ => False
  | .dir es => es.KeysOnly

def Entries.DirsOnly : Entries → Prop
  | .nil => True
  | .cons _ n rest => (∃ es, n = .dir es) ∧ rest.DirsOnly

/-- A `prefix.d` without masks: the keys are stored under prefixes. -/
def Node.PrefixKeys : Node → Prop
  | .file _ => False
  | .dir es => es.KeysOnly ∧ es.DirsOnly

namespace Keystore

variable (ks : Keystore)

/-- The keystore has no masks, and every key file is in its place. -/
structure NoMasks : Prop where
  systemRoot : ∀ n, ks.systemRoot = some n → n.RootKeys
  localRoot : ∀ n, ks.localRoot = some n → n.RootKeys
  systemPrefix : ∀ n, ks.systemPrefix = some n → n.PrefixKeys
  localPrefix : ∀ n, ks.localPrefix = some n → n.PrefixKeys

/-- The key is stored in one of the two `root.d` directories. -/
def InRoot (fp : Str) : Prop :=
  ∃ n, (ks.systemRoot = some n ∨ ks.localRoot = some n) ∧ n.Has (.key fp) [fp]

/-- The key is stored under the prefix with components `Q`, in one of the two `prefix.d`
directories. -/
def Stored (Q : List Str) (fp : Str) : Prop :=
  ∃ n, (ks.systemPrefix = some n ∨ ks.localPrefix = some n) ∧ n.Has (.key fp) (Q ++ [fp])

end Keystore

mutual

theorem Node.keysOnly_iff (name : Str) (n : Node) : n.KeysOnly name ↔
    ∀ c ns, n.Has c ns → c = .key ((name :: ns).getLast (List.cons_ne_nil _ _)) := by
  cases n with
  | file c =>
    constructor
    · intro h c' ns hhas
      cases ns with
      | nil => exact hhas.symm.trans h
      | cons x ns => exact hhas.elim
    · exact fun h => h c [] rfl
  | dir es =>
    show es.KeysOnly ↔ _
    rw [Entries.keysOnly_iff es]
    constructor
    · intro h c ns hhas
      cases ns with
      | nil => exact hhas.elim
      | cons x ns =>
        rw [List.getLast_cons (List.cons_ne_nil _ _)]
        exact h c x ns hhas
    · intro h c x ns hhas
      have hlast := h c (x :: ns) hhas
      rwa [List.getLast_cons (List.cons_ne_nil _ _)] at hlast

theorem Entries.keysOnly_iff (es : Entries) : es.KeysOnly ↔
    ∀ c x ns, es.Has c x ns → c = .key ((x :: ns).getLast (List.cons_ne_nil _ _)) := by
  cases es with
  | nil => exact iff_of_true trivial fun _ _ _ h => h.elim
  | cons name n rest =>
    show n.KeysOnly name ∧ rest.KeysOnly ↔ _
    rw [Node.keysOnly_iff name n, Entries.keysOnly_iff rest]
    constructor
    · rintro ⟨hn, hrest⟩ c x ns (⟨rfl, hhas⟩ | hhas)
      · exact hn c ns hhas
      · exact hrest c x ns hhas
    · intro h
      exact ⟨fun c ns hhas => h c name ns (.inl ⟨rfl, hhas⟩),
        fun c x ns hhas => h c x ns (.inr hhas)⟩

end

theorem Entries.dirsOnly_iff (es : Entries) : es.DirsOnly ↔ ∀ c x, ¬ es.Has c x [] := by
  induction es using Entries.ind with
  | nil => exact iff_of_true trivial fun _ _ h => h
  | cons name n rest ih =>
    show (∃ es, n = .dir es) ∧ rest.DirsOnly ↔ _
    rw [ih]
    constructor
    · rintro ⟨⟨es, rfl⟩, hrest⟩ c x (⟨-, hhas⟩ | hhas)
      · exact hhas
      · exact hrest c x hhas
    · intro h
      refine ⟨?_, fun c x hhas => h c x (.inr hhas)⟩
      cases n with
      | file c => exact absurd (.inl ⟨rfl, rfl⟩) (h c name)
      | dir es => exact ⟨es, rfl⟩

theorem Node.prefixKeys_iff {n : Node} : n.PrefixKeys ↔
    ∀ c path, n.Has c path → ∃ Q fp, Q ≠ [] ∧ path = Q ++ [fp] ∧ c = .key fp := by
  cases n with
  | file c =>
    refine iff_of_false id fun h => ?_
    obtain ⟨Q, fp, -, hpath, -⟩ := h c [] rfl
    exact absurd hpath (by simp)
  | dir es =>
    show es.KeysOnly ∧ es.DirsOnly ↔ _
    rw [Entries.keysOnly_iff, Entries.dirsOnly_iff]
    constructor
    · rintro ⟨hkeys, hdirs⟩ c path hhas
      cases path with
      | nil => exact hhas.elim
      | cons x ns =>
        have hns : ns ≠ [] := by
          rintro rfl
          exact hdirs c x hhas
        refine ⟨x :: ns.dropLast, ns.getLast hns, List.cons_ne_nil _ _, ?_, ?_⟩
        · rw [List.cons_append, List.dropLast_append_getLast]
        · rw [hkeys c x ns hhas, List.getLast_cons hns]
    · intro h
      constructor
      · intro c x ns hhas
        obtain ⟨Q, fp, -, hpath, rfl⟩ := h c (x :: ns) hhas
        simp only [hpath, List.getLast_append_singleton]
      · intro c x hhas
        obtain ⟨Q, fp, hQ, hpath, -⟩ := h c [x] hhas
        cases Q with
        | nil => exact hQ rfl
        | cons q Q => exact absurd hpath (by simp)

theorem Node.RootKeys.has {n : Node} {c : Content} {path : List Str} (hn : n.RootKeys)
    (hhas : n.Has c path) : ∃ Q fp, path = Q ++ [fp] ∧ c = .key fp := by
  cases n with
  | file c => exact hn.elim
  | dir es =>
    cases path with
    | nil => exact hhas.elim
    | cons x ns =>
      refine ⟨(x :: ns).dropLast, (x :: ns).getLast (List.cons_ne_nil _ _), ?_, ?_⟩
      · rw [List.dropLast_append_getLast]
      · exact (Entries.keysOnly_iff es).mp hn c x ns hhas

/-- Every file of the keystore is a key under its own fingerprint, or a mask. -/
structure Keystore.TokensOnly (ks : Keystore) : Prop where
  systemRoot : TokensAt true ks.systemRoot
  localRoot : TokensAt true ks.localRoot
  systemPrefix : TokensAt false ks.systemPrefix
  localPrefix : TokensAt false ks.localPrefix

/-- **What `loadKeyring` does** for such a keystore and a valid image name: it walks over the four
places, one after the other. -/
theorem loadKeyring_walked {ks : Keystore} (hks : ks.TokensOnly) {id : Str}
    (hid : validACIdentifier id = true) : ∃ keys, loadKeyring ks id = .ok keys ∧
      ∃ k1 k2 k3, Walked (· < ·) ∅ k1 (RootFile ks.systemRoot) ∧
        Walked (· < ·) k1 k2 (RootFile ks.localRoot) ∧
        Walked (· < ·) k2 k3 (PrefixFile (split id) ks.systemPrefix) ∧
        Walked (· < ·) k3 keys (PrefixFile (split id) ks.localPrefix) := by
  have hslash : ∀ c ∈ split id, '/' ∉ c := fun c hc => (plain_of_valid hid hc).slash
  have hclean : ∀ base : List Str, (∀ c ∈ base, Plain c) →
      clean (base ++ split id) = base ++ split id := fun base hbase =>
    clean_of_plain (List.forall_mem_append.mpr ⟨hbase, fun _ => plain_of_valid hid⟩)
  have hload : loadKeyring ks id = walkPaths ks (split id) := if_pos (assertValid_of_valid hid)
  rw [hload]
  unfold walkPaths
  rw [hclean _ ks.systemPrefixPath_plain, hclean _ ks.localPrefixPath_plain]
  obtain ⟨r, rs, hr⟩ := List.exists_cons_of_ne_nil (split_ne_nil id)
  rw [hr] at hslash ⊢
  obtain ⟨k1, h1, w1⟩ := walkRoot_root ks.systemRoot_wf hks.systemRoot
    ks.config.systemRootPath ∅
  obtain ⟨k2, h2, w2⟩ := walkRoot_root ks.localRoot_wf hks.localRoot ks.config.localRootPath k1
  obtain ⟨k3, h3, w3⟩ := walkRoot_prefix ks.systemPrefix_wf hks.systemPrefix
    ks.config.systemPrefixPath r rs hslash k2
  obtain ⟨k4, h4, w4⟩ := walkRoot_prefix ks.localPrefix_wf hks.localPrefix
    ks.config.localPrefixPath r rs hslash k3
  refine ⟨k4, ?_, k1, k2, k3, w1, w2, w3, w4⟩
  exact bind_eq_ok.mpr ⟨k1, h1, bind_eq_ok.mpr ⟨k2, h2, bind_eq_ok.mpr ⟨k3, h3, h4⟩⟩⟩

section

variable {n : Option Node}

theorem tokensAt_root (hn : ∀ n', n = some n' → n'.RootKeys) :
    TokensAt true n ∧ ∀ fp P, ¬ HasAt n (token fp false) P := by
  constructor
  · rintro c path ⟨n', rfl, hhas⟩
    obtain ⟨Q, fp, hpath, hc⟩ := (hn n' rfl).has hhas
    exact ⟨Q, fp, true, nofun, hpath, hc⟩
  · rintro fp P ⟨n', rfl, hhas⟩
    obtain ⟨Q, x, -, hc⟩ := (hn n' rfl).has hhas
    cases hc

theorem tokensAt_start (hn : ∀ n', n = some n' → n'.PrefixKeys) :
    TokensAt false n ∧ ∀ fp P, ¬ HasAt n (token fp false) P := by
  constructor
  · rintro c path ⟨n', rfl, hhas⟩
    obtain ⟨Q, fp, hQ, hpath, hc⟩ := Node.prefixKeys_iff.mp (hn n' rfl) c path hhas
    exact ⟨Q, fp, true, fun _ => hQ, hpath, hc⟩
  · rintro fp P ⟨n', rfl, hhas⟩
    obtain ⟨Q, x, -, -, hc⟩ := Node.prefixKeys_iff.mp (hn n' rfl) _ _ hhas
    cases hc

end

/-- **What `loadKeyring` computes**, for a keystore without masks and a valid image name: the
keys in a `root.d`, and the keys stored under a string prefix of the name that begins with its
first component. -/
theorem loadKeyring_eq {ks : Keystore} (hks : ks.NoMasks) {id : Str}
    (hid : validACIdentifier id = true) : ∃ keys, loadKeyring ks id = .ok keys ∧
      ∀ fp, fp ∈ keys ↔ ks.InRoot fp ∨ ∃ Q, Q.head? = (split id).head? ∧
        StringPrefix Q (split id) ∧ ks.Stored Q fp := by
  obtain ⟨keys, hload, k1, k2, k3, w1, w2, w3, w4⟩ := loadKeyring_walked
    ⟨(tokensAt_root hks.systemRoot).1, (tokensAt_root hks.localRoot).1,
      (tokensAt_start hks.systemPrefix).1, (tokensAt_start hks.localPrefix).1⟩ hid
  refine ⟨keys, hload, fun fp => ?_⟩
  rw [w4.of_no_false fun P ⟨_, _, _, h⟩ => (tokensAt_start hks.localPrefix).2 fp P h,
    w3.of_no_false fun P ⟨_, _, _, h⟩ => (tokensAt_start hks.systemPrefix).2 fp P h,
    w2.of_no_false fun P h => (tokensAt_root hks.localRoot).2 fp P h.2,
    w1.of_no_false fun P h => (tokensAt_root hks.systemRoot).2 fp P h.2]
  constructor
  · rintro ((((h | ⟨P, rfl, n, hn, h⟩) | ⟨P, rfl, n, hn, h⟩) |
      ⟨P, Q, hQ, rfl, n, hn, h⟩) | ⟨P, Q, hQ, rfl, n, hn, h⟩)
    · exact absurd h (Finset.notMem_empty fp)
    · exact .inl ⟨n, .inl hn, h⟩
    · exact .inl ⟨n, .inr hn, h⟩
    · exact .inr ⟨Q, hQ.1, hQ.2, n, .inl hn, h⟩
    · exact .inr ⟨Q, hQ.1, hQ.2, n, .inr hn, h⟩
  · rintro (⟨n, hn | hn, h⟩ | ⟨Q, hQ, hpre, n, hn | hn, h⟩)
    · exact .inl (.inl (.inl (.inr ⟨_, rfl, n, hn, h⟩)))
    · exact .inl (.inl (.inr ⟨_, rfl, n, hn, h⟩))
    · exact .inl (.inr ⟨_, Q, ⟨hQ, hpre⟩, rfl, n, hn, h⟩)
    · exact .inr ⟨_, Q, ⟨hQ, hpre⟩, rfl, n, hn, h⟩

/-- The prefix leads into the keyring although it is not one of the name's components: it has
the name's first component, but its last one is only the beginning of the component there. -/
def FalsePrefix (Q comps : List Str) : Prop :=
  Q.head? = comps.head? ∧ StringPrefix Q comps ∧ ¬ Q <+: comps

/-- The key is trusted for the name with the given components: it is in a `root.d` or stored
under a prefix of the components. -/
def Keystore.Trusts (ks : Keystore) (comps : List Str) (fp : Str) : Prop :=
  ks.InRoot fp ∨ ∃ Q, Q ≠ [] ∧ Q <+: comps ∧ ks.Stored Q fp

/-- **When trust goes by components.** For a keystore without masks and a valid image name the
keyring is loaded, and it consists of the keys that are trusted for the components of the name
if and only if every key that is stored under a false prefix of the name is trusted for it
anyway. -/
theorem trust_by_components_iff (ks : Keystore) (hks : ks.NoMasks) (id : Str)
    (hid : validACIdentifier id = true) : ∃ keys, loadKeyring ks id = .ok keys ∧
      ((∀ fp, fp ∈ keys ↔ ks.Trusts (split id) fp) ↔
        ∀ fp Q, ks.Stored Q fp → FalsePrefix Q (split id) → ks.Trusts (split id) fp) := by
  obtain ⟨keys, hk, hmem⟩ := loadKeyring_eq hks hid
  refine ⟨keys, hk, ?_⟩
  -- the trusted keys are always loaded
  have hsub : ∀ fp, ks.Trusts (split id) fp → fp ∈ keys := by
    rintro fp (h | ⟨Q, hne, hpre, h⟩)
    · exact (hmem fp).mpr (.inl h)
    · refine (hmem fp).mpr (.inr ⟨Q, ?_, StringPrefix.of_prefix hpre, h⟩)
      obtain ⟨rest, hrest⟩ := hpre
      rw [← hrest]
      cases Q with
      | nil => exact absurd rfl hne
      | cons q Q => rfl
  constructor
  · intro h fp Q hstored hfalse
    exact (h fp).mp ((hmem fp).mpr (.inr ⟨Q, hfalse.1, hfalse.2.1, hstored⟩))
  · intro h fp
    refine ⟨fun hfp => ?_, hsub fp⟩
    rcases (hmem fp).mp hfp with hroot | ⟨Q, hhead, hpre, hstored⟩
    · exact .inl hroot
    · by_cases hQ : Q <+: split id
      · refine .inr ⟨Q, ?_, hQ, hstored⟩
        rintro rfl
        obtain ⟨r, rs, hr⟩ := List.exists_cons_of_ne_nil (split_ne_nil id)
        rw [hr] at hhead
        cases hhead
      · exact h fp Q hstored ⟨hhead, hpre, hQ⟩

/-- A keystore with one key, stored locally for the prefix `example.com/foo`. -/
def fooKeystore : Keystore where
  config :=
    { localRootPath := ["etc".toList, "rkt".toList, "trustedkeys".toList, "root.d".toList]
      localPrefixPath := ["etc".toList, "rkt".toList, "trustedkeys".toList, "prefix.d".toList]
      systemRootPath := ["usr".toList, "lib".toList, "rkt".toList, "trustedkeys".toList,
        "root.d".toList]
      systemPrefixPath := ["usr".toList, "lib".toList, "rkt".toList, "trustedkeys".toList,
        "prefix.d".toList] }
  localRoot := none
  localPrefix := some (.dir (.cons "example.com".toList (.dir (.cons "foo".toList
    (.dir (.cons "8b86de38".toList (.file (.key "8b86de38".toList)) .nil)) .nil)) .nil))
  systemRoot := none
  systemPrefix := none
  localPrefixPath_plain := by decide
  systemPrefixPath_plain := by decide
  localRoot_wf := rfl
  localPrefix_wf := by decide
  systemRoot_wf := rfl
  systemPrefix_wf := rfl

theorem fooKeystore_noMasks : fooKeystore.NoMasks where
  systemRoot n h := by cases h
  localRoot n h := by cases h
  systemPrefix n h := by cases h
  localPrefix n h := by
    cases h
    exact ⟨⟨⟨⟨rfl, trivial⟩, trivial⟩, trivial⟩, ⟨_, rfl⟩, trivial⟩

theorem fooKeystore_stored {fp : Str} {Q : List Str} (h : fooKeystore.Stored Q fp) :
    Q = ["example.com".toList, "foo".toList] := by
  obtain ⟨n, hn | hn, h⟩ := h
  · cases hn
  · cases hn
    match Q with
    | [] => simp [Node.Has, Entries.Has] at h
    | [_] => simp [Node.Has, Entries.Has] at h
    | [_, _] =>
      simp only [List.cons_append, List.nil_append, Node.Has, Entries.Has, or_false] at h
      rw [← h.1, ← h.2.1]
    | [_, _, _] => simp [Node.Has, Entries.Has] at h
    | _ :: _ :: _ :: _ :: _ => simp [Node.Has, Entries.Has] at h

/-- Below `example.com/foo` the keyring is as it should be. -/
theorem trust_by_components_foo_bar :
    ∃ keys, loadKeyring fooKeystore "example.com/foo/bar".toList = .ok keys ∧
      ∀ fp, fp ∈ keys ↔ fooKeystore.Trusts (split "example.com/foo/bar".toList) fp := by
  obtain ⟨keys, hk, hiff⟩ := trust_by_components_iff fooKeystore fooKeystore_noMasks
    "example.com/foo/bar".toList (by decide)
  refine ⟨keys, hk, hiff.mpr fun fp Q hQ hfalse => absurd ?_ hfalse.2.2⟩
  rw [fooKeystore_stored hQ]
  decide

/-- **The key for `example.com/foo` verifies `example.com/foobar`**: the directory `foo` is
entered, since its path is a string prefix of the path of `foobar`. -/
theorem foo_trusted_for_foobar :
    fooKeystore.NoMasks ∧ validACIdentifier "example.com/foobar".toList = true ∧
      fooKeystore.Stored ["example.com".toList, "foo".toList] "8b86de38".toList ∧
      loadKeyring fooKeystore "example.com/foobar".toList = .ok {"8b86de38".toList} ∧
      ¬ fooKeystore.Trusts (split "example.com/foobar".toList) "8b86de38".toList := by
  refine ⟨fooKeystore_noMasks, by decide, ⟨_, .inr rfl, ?_⟩, by decide, ?_⟩
  · exact .inl ⟨rfl, .inl ⟨rfl, .inl ⟨rfl, rfl⟩⟩⟩
  · rintro (⟨n, hn | hn, -⟩ | ⟨Q, -, hpre, hstored⟩)
    · cases hn
    · cases hn
    · rw [fooKeystore_stored hstored] at hpre
      exact absurd hpre (by decide)

end Rkt.Keys
