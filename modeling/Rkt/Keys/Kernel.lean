import Mathlib.Data.List.TakeWhile
import Rkt.Keys.Levels

set_option autoImplicit false

namespace Rkt.Keys

open Path Result

namespace Kernel

/-- `SystemKeyring` and `LocalKeyring`. -/
inductive Namespace where
  | system
  | own
  deriving DecidableEq, Repr

inductive KeyData where
  | dummy
  | text (c : Content)
  deriving DecidableEq, Repr

structure KeyDesc where
  description : Str
  data : KeyData
  deriving DecidableEq, Repr

/-- The keyrings by namespace and prefix, if they exist. The one for all images has the prefix
`""`. -/
abbrev Keyrings := Namespace → Str → Option (List KeyDesc)

def setKeyring (kr : Keyrings) (pfx : Str) (keys : List KeyDesc) : Keyrings :=
  fun ns p => if ns = .own ∧ p = pfx then some keys else kr ns p

/-- `DeleteTrustedKeyPrefix`: the first key with the description is unlinked. -/
def deleteTrustedKeyPrefix (kr : Keyrings) (pfx fp : Str) : Keyrings :=
  match kr .own pfx with
  | none => kr
  | some keys => setKeyring kr pfx (keys.eraseP (·.description = fp))

/-- `newKeyring`, if there is none. -/
def ensureKeyring (kr : Keyrings) (pfx : Str) : Keyrings :=
  match kr .own pfx with
  | none => setKeyring kr pfx []
  | some _ => kr

/-- `AddKey` and `Link`. -/
def linkKey (kr : Keyrings) (pfx : Str) (key : KeyDesc) : Keyrings :=
  setKeyring kr pfx ((kr .own pfx).getD [] ++ [key])

/-- What `storeTrustedKey` and `MaskTrustedKeySystemPrefix` have in common. -/
def addKey (kr : Keyrings) (pfx : Str) (key : KeyDesc) : Keyrings :=
  linkKey (deleteTrustedKeyPrefix (ensureKeyring kr pfx) pfx key.description) pfx key

/-- `storeTrustedKey`, for a key with the given fingerprint. -/
def storeTrustedKey (kr : Keyrings) (pfx fp : Str) : Keyrings :=
  addKey kr pfx ⟨fp, .text (.key fp)⟩

def maskTrustedKeySystemPrefix (kr : Keyrings) (pfx fp : Str) : Keyrings :=
  addKey kr pfx ⟨fp, .dummy⟩

def apply (kr : Keyrings) : KeyOp → Keyrings
  | .storeTrustedKeyPrefix pfx fp => storeTrustedKey kr pfx fp
  | .storeTrustedKeyRoot fp => storeTrustedKey kr [] fp
  | .maskTrustedKeySystemPrefix pfx fp => maskTrustedKeySystemPrefix kr pfx fp
  | .maskTrustedKeySystemRoot fp => maskTrustedKeySystemPrefix kr [] fp

def run (kr : Keyrings) (ops : List KeyOp) : Keyrings := ops.foldl apply kr

def cutLast (pfx : Str) : Str := ((pfx.reverse.dropWhile (· ≠ '/')).drop 1).reverse

/-- The prefixes that the loop of `readKeysByNamespace` takes, in at most so many more rounds. -/
def rounds : Nat → Str → List Str
  | 0, pfx => [pfx]
  | n + 1, pfx => pfx :: if pfx = [] then [] else rounds n (cutLast pfx)

def parents (pfx : Str) : List Str := rounds pfx.length pfx

def readKeysByNamespace (kr : Keyrings) (ns : Namespace) (pfx : Str) : List KeyDesc :=
  (parents pfx).flatMap fun p => (kr ns p).getD []

def readKeys (kr : Keyrings) (pfx : Str) : List KeyDesc :=
  readKeysByNamespace kr .system pfx ++ readKeysByNamespace kr .own pfx

/-- `entityFromData`: the key in a text, whose fingerprint must be the description. -/
def entityFromData (fingerprint : Str) : Content → Except Err Str
  | .key fp => if fp = fingerprint then .ok fp else .error (.mismatch fingerprint fp)
  | _ => .error .keyRing

/-- What the loop of `loadKeyring` does with a key. -/
def visitKey (key : KeyDesc) (trustedKeys : Finset Str) : Except Err (Finset Str) :=
  match key.data with
  | .dummy => .ok (trustedKeys.erase key.description)
  | .text c => do
    let entity ← entityFromData key.description c
    return insert entity trustedKeys

def loadKeys : List KeyDesc → Finset Str → Except Err (Finset Str)
  | [], trustedKeys => .ok trustedKeys
  | key :: keys, trustedKeys => do
    let trustedKeys ← visitKey key trustedKeys
    loadKeys keys trustedKeys

def loadKeyring (kr : Keyrings) (pfx : Str) : Except Err (Finset Str) :=
  loadKeys (readKeys kr pfx) ∅

variable {c : Str} {id : Str} {kr : Keyrings} {L : Levels}

def levelOf (pfx : Str) : List Str := if pfx = [] then [] else split pfx

theorem levelOf_injective {p q : Str} (h : levelOf p = levelOf q) : p = q := by
  unfold levelOf at h
  split_ifs at h with hp hq hq
  · rw [hp, hq]
  · exact absurd h.symm (split_ne_nil q)
  · exact absurd h (split_ne_nil p)
  · exact split_injective h

def entry (fp : Str) : Bool → KeyDesc
  | true => ⟨fp, .text (.key fp)⟩
  | false => ⟨fp, .dummy⟩

theorem entry_description (fp : Str) (b : Bool) : (entry fp b).description = fp := by
  cases b <;> rfl

theorem entry_inj {fp fp' : Str} {b b' : Bool} (h : entry fp b = entry fp' b') :
    fp = fp' ∧ b = b' := by
  cases b <;> cases b' <;> simp_all [entry]

structure ShowsKeys (keys : List KeyDesc) (f : Str → Option Bool) : Prop where
  nodup : (keys.map KeyDesc.description).Nodup
  mem : ∀ key, key ∈ keys ↔ ∃ fp b, key = entry fp b ∧ f fp = some b

structure Shows (kr : Keyrings) (L : Levels) : Prop where
  system : ∀ pfx, ShowsKeys ((kr .system pfx).getD []) (L.sysAt (levelOf pfx))
  own : ∀ pfx, ShowsKeys ((kr .own pfx).getD []) (L.own (levelOf pfx))

/-- In a keyring without duplicates, no key with the description is left. -/
theorem eraseP_eq_filter {keys : List KeyDesc} (h : (keys.map KeyDesc.description).Nodup)
    (fp : Str) : keys.eraseP (·.description = fp) = keys.filter (·.description ≠ fp) := by
  induction keys with
  | nil => rfl
  | cons key keys ih =>
    rw [List.map_cons, List.nodup_cons] at h
    by_cases hkey : key.description = fp
    · have hrest : keys.filter (·.description ≠ fp) = keys := by
        rw [List.filter_eq_self]
        intro x hx
        have hne : x.description ≠ fp := by
          intro hfp
          exact h.1 (List.mem_map.mpr ⟨x, hx, hfp.trans hkey.symm⟩)
        simpa using hne
      rw [List.eraseP_cons_of_pos (by simpa using hkey),
        List.filter_cons_of_neg (by simpa using hkey), hrest]
    · rw [List.eraseP_cons_of_neg (by simpa using hkey),
        List.filter_cons_of_pos (by simpa using hkey), ih h.2]

theorem ShowsKeys.replace {keys : List KeyDesc} {f : Str → Option Bool} (h : ShowsKeys keys f)
    (fp : Str) (b : Bool) : ShowsKeys (keys.eraseP (·.description = fp) ++ [entry fp b])
      fun x => if x = fp then some b else f x := by
  rw [eraseP_eq_filter h.nodup]
  have hfilter : ∀ key ∈ keys.filter (·.description ≠ fp), key.description ≠ fp := by
    intro key hkey
    simpa using (List.mem_filter.mp hkey).2
  constructor
  · rw [List.map_append, List.nodup_append]
    refine ⟨h.nodup.sublist (List.filter_sublist.map _), by simp, ?_⟩
    intro x hx y hy hxy
    obtain ⟨key, hkey, rfl⟩ := List.mem_map.mp hx
    have hy' : y = fp := by simpa [entry_description] using hy
    exact hfilter key hkey (hxy.trans hy')
  · intro key
    rw [List.mem_append, List.mem_singleton]
    constructor
    · rintro (hkey | rfl)
      · obtain ⟨x, b', rfl, hf⟩ := (h.mem key).mp (List.mem_filter.mp hkey).1
        have hne := hfilter _ hkey
        rw [entry_description] at hne
        exact ⟨x, b', rfl, by rw [if_neg hne, hf]⟩
      · exact ⟨fp, b, rfl, if_pos rfl⟩
    · rintro ⟨x, b', rfl, hf⟩
      by_cases hx : x = fp
      · rw [if_pos hx, Option.some.injEq] at hf
        rw [hx, hf]
        exact Or.inr rfl
      · rw [if_neg hx] at hf
        refine Or.inl (List.mem_filter.mpr ⟨(h.mem _).mpr ⟨x, b', rfl, hf⟩, ?_⟩)
        simpa [entry_description] using hx

theorem addKey_eq (kr : Keyrings) (pfx : Str) (key : KeyDesc) :
    addKey kr pfx key = setKeyring kr pfx
      (((kr .own pfx).getD []).eraseP (·.description = key.description) ++ [key]) := by
  funext ns p
  by_cases hp : ns = .own ∧ p = pfx
  · cases hkr : kr .own pfx <;>
      simp [addKey, linkKey, deleteTrustedKeyPrefix, ensureKeyring, setKeyring, hkr, hp]
  · cases hkr : kr .own pfx <;>
      simp [addKey, linkKey, deleteTrustedKeyPrefix, ensureKeyring, setKeyring, hkr, hp]

theorem Shows.addKey (h : Shows kr L) (pfx fp : Str) (b : Bool) :
    Shows (addKey kr pfx (entry fp b))
      { L with own := updateAt L.own (levelOf pfx) fp b } := by
  rw [addKey_eq, entry_description]
  constructor
  · intro p
    exact h.system p
  · intro p
    by_cases hp : p = pfx
    · -- the keyring that is written to
      subst hp
      have hset := (h.own p).replace fp b
      have hlevel : updateAt L.own (levelOf p) fp b (levelOf p) =
          fun x => if x = fp then some b else L.own (levelOf p) x := by
        funext x
        simp [updateAt]
      simp only [setKeyring, and_self, if_true, Option.getD_some, hlevel]
      exact hset
    · -- another keyring stands for another level
      have hlevel : updateAt L.own (levelOf pfx) fp b (levelOf p) = L.own (levelOf p) := by
        funext x
        exact updateAt_of_ne fun hx => hp (levelOf_injective hx.1)
      simp only [setKeyring, hp, and_false, if_false, hlevel]
      exact h.own p

theorem levelOf_of_valid {pfx : Str} (h : validACIdentifier pfx = true) :
    levelOf pfx = split pfx := by
  have hne : pfx ≠ [] := by
    rintro rfl
    exact absurd h (by decide)
  exact if_neg hne

/-- **An operation on the keyrings does what it does to the levels.** -/
theorem Shows.apply {op : KeyOp} (h : Shows kr L)
    (hop : op.valid = true) : Shows (apply kr op) (L.apply op) := by
  cases op with
  | storeTrustedKeyPrefix pfx fp =>
    have hpfx := levelOf_of_valid (Bool.and_eq_true_iff.mp hop).1
    have hadd := h.addKey pfx fp true
    rw [hpfx] at hadd
    exact hadd
  | storeTrustedKeyRoot fp => exact h.addKey [] fp true
  | maskTrustedKeySystemPrefix pfx fp =>
    have hpfx := levelOf_of_valid (Bool.and_eq_true_iff.mp hop).1
    have hadd := h.addKey pfx fp false
    rw [hpfx] at hadd
    exact hadd
  | maskTrustedKeySystemRoot fp => exact h.addKey [] fp false

theorem Shows.run {ops : List KeyOp} (h : Shows kr L)
    (hops : ∀ op ∈ ops, op.valid = true) : Shows (run kr ops) (L.run ops) := by
  induction ops generalizing kr L with
  | nil => exact h
  | cons op ops ih =>
    have hstep := h.apply (hops op List.mem_cons_self)
    exact ih hstep fun x hx => hops x (List.mem_cons_of_mem _ hx)

theorem visitKey_entry (fp : Str) (b : Bool) (keys : Finset Str) :
    visitKey (entry fp b) keys = visitFile fp (token fp b) keys := by
  cases b <;> simp [visitKey, entry, visitFile, token, entityFromData, entityFromFile]

/-- The events of a list of keys, in order. -/
theorem loadKeys_after {l : List KeyDesc} (h : ∀ key ∈ l, ∃ fp b, key = entry fp b)
    (keys : Finset Str) : ∃ keys', loadKeys l keys = .ok keys' ∧ ∀ fp, ∃ ev : List Bool,
      (fp ∈ keys' ↔ after (fp ∈ keys) ev) ∧ ∀ b, b ∈ ev ↔ entry fp b ∈ l := by
  induction l generalizing keys with
  | nil => exact ⟨keys, rfl, fun fp => ⟨[], Iff.rfl, fun b => by simp⟩⟩
  | cons key l ih =>
    obtain ⟨x, b0, rfl⟩ := h key List.mem_cons_self
    obtain ⟨k1, hvisit⟩ := walk_tokens [] [] x (.file (token x b0)) keys fun c ns hhas => by
      cases ns with
      | nil => exact ⟨b0, hhas.symm⟩
      | cons _ _ => exact hhas.elim
    obtain ⟨k2, hload, hrest⟩ := ih (fun key hkey => h key (List.mem_cons_of_mem _ hkey)) k1
    refine ⟨k2, ?_, fun fp => ?_⟩
    · rw [loadKeys, visitKey_entry]
      exact bind_eq_ok.mpr ⟨k1, hvisit, hload⟩
    · obtain ⟨ev, hev, hmem⟩ := hrest fp
      refine ⟨fileEvents fp x (token x b0) ++ ev, ?_, fun b => ?_⟩
      · rw [hev, after_append]
        exact after_congr (visitFile_mem hvisit fp) ev
      · rw [List.mem_append, List.mem_cons, hmem, mem_fileEvents]
        refine or_congr ⟨?_, fun hentry => ?_⟩ Iff.rfl
        · rintro ⟨rfl, htoken⟩
          rw [token_inj htoken]
        · obtain ⟨rfl, rfl⟩ := entry_inj hentry
          exact ⟨rfl, rfl⟩

/-- A keyring has at most one entry for a key. -/
theorem ShowsKeys.load {l : List KeyDesc} {f : Str → Option Bool} (h : ShowsKeys l f)
    (keys : Finset Str) : ∃ keys', loadKeys l keys = .ok keys' ∧
      ∀ fp, fp ∈ keys' ↔ after (fp ∈ keys) (f fp).toList := by
  obtain ⟨keys', hload, hev⟩ := loadKeys_after (fun key hkey => by
    obtain ⟨fp, b, hentry, -⟩ := (h.mem key).mp hkey
    exact ⟨fp, b, hentry⟩) keys
  refine ⟨keys', hload, fun fp => ?_⟩
  obtain ⟨ev, hkeys, hmem⟩ := hev fp
  have hf : ∀ b, b ∈ ev ↔ f fp = some b := by
    intro b
    rw [hmem, h.mem]
    constructor
    · rintro ⟨x, b', hentry, hf⟩
      obtain ⟨rfl, rfl⟩ := entry_inj hentry
      exact hf
    · exact fun hf => ⟨fp, b, rfl, hf⟩
  rw [hkeys]
  unfold after
  cases hlast : ev.getLast? with
  | none =>
    have hnone : f fp = none := by
      rw [Option.eq_none_iff_forall_ne_some]
      intro b hb
      rw [List.getLast?_eq_none_iff.mp hlast] at hf
      exact absurd ((hf b).mpr hb) List.not_mem_nil
    simp [hnone]
  | some b => simp [(hf b).mp (List.mem_of_getLast? hlast)]

end Kernel

end Rkt.Keys
