import Rkt.Keys.Write

set_option autoImplicit false

namespace Rkt.Keys

open Path Result

/-- What there is for each level: a prefix, by components, or `[]` for all images. -/
structure Levels where
  /-- The system has the key. -/
  sys : List Str → Str → Bool
  /-- The key is stored locally (`some true`), or masked (`some false`). -/
  own : List Str → Str → Option Bool

def Levels.sysAt (L : Levels) (P : List Str) (fp : Str) : Option Bool :=
  if L.sys P fp then some true else none

inductive KeyOp where
  | storeTrustedKeyPrefix (pfx fp : Str)
  | storeTrustedKeyRoot (fp : Str)
  | maskTrustedKeySystemPrefix (pfx fp : Str)
  | maskTrustedKeySystemRoot (fp : Str)
  deriving DecidableEq, Repr

namespace KeyOp

/-- The prefix is a valid identifier, and the fingerprint can be the name of a file. -/
def valid : KeyOp → Bool
  | storeTrustedKeyPrefix pfx fp | maskTrustedKeySystemPrefix pfx fp =>
    validACIdentifier pfx && decide (Plain fp)
  | storeTrustedKeyRoot fp | maskTrustedKeySystemRoot fp => decide (Plain fp)

def level : KeyOp → List Str
  | storeTrustedKeyPrefix pfx _ | maskTrustedKeySystemPrefix pfx _ => split pfx
  | storeTrustedKeyRoot _ | maskTrustedKeySystemRoot _ => []

def fingerprint : KeyOp → Str
  | storeTrustedKeyPrefix _ fp | maskTrustedKeySystemPrefix _ fp => fp
  | storeTrustedKeyRoot fp | maskTrustedKeySystemRoot fp => fp

def stores : KeyOp → Bool
  | storeTrustedKeyPrefix _ _ | storeTrustedKeyRoot _ => true
  | maskTrustedKeySystemPrefix _ _ | maskTrustedKeySystemRoot _ => false

end KeyOp

def updateAt (f : List Str → Str → Option Bool) (P : List Str) (fp : Str) (b : Bool) :
    List Str → Str → Option Bool :=
  fun Q x => if Q = P ∧ x = fp then some b else f Q x

theorem updateAt_self (f : List Str → Str → Option Bool) (P : List Str) (fp : Str) (b : Bool) :
    updateAt f P fp b P fp = some b := if_pos ⟨rfl, rfl⟩

variable {f : List Str → Str → Option Bool} {b : Bool} {n : Option Node} {root : Bool}

theorem updateAt_of_ne {P Q : List Str} {fp x : Str}
    (h : ¬ (Q = P ∧ x = fp)) : updateAt f P fp b Q x = f Q x := if_neg h

def Levels.apply (L : Levels) (op : KeyOp) : Levels :=
  { L with own := updateAt L.own op.level op.fingerprint op.stores }

def Levels.run (L : Levels) (ops : List KeyOp) : Levels := ops.foldl Levels.apply L

namespace Keystore

variable (ks : Keystore)

def setLocalRoot (n : Node) : Option Keystore :=
  if h : n.wf = true then some { ks with localRoot := some n, localRoot_wf := h } else none

def setLocalPrefix (n : Node) : Option Keystore :=
  if h : n.wf = true then some { ks with localPrefix := some n, localPrefix_wf := h } else none

def relPath (pfx fp : Str) : Option (List Str) :=
  let path := clean (ks.config.localPrefixPath ++ split pfx ++ [fp])
  if ks.config.localPrefixPath.isPrefixOf path then
    some (path.drop ks.config.localPrefixPath.length)
  else none

/-- Write a file below `LocalPrefixPath`. `NewACIdentifier` checks the prefix. -/
def writePrefix (mkdir : Bool) (n : Node) (pfx fp : Str) (c : Content) : Option Keystore :=
  if assertValid pfx then
    (ks.relPath pfx fp).bind fun path => (n.put mkdir c path).bind ks.setLocalPrefix
  else none

/-- `StoreTrustedKeyPrefix`, for a key with the given fingerprint. The directories are made. -/
def storeTrustedKeyPrefix (pfx fp : Str) : Option Keystore :=
  ks.writePrefix true (ks.localPrefix.getD (.dir .nil)) pfx fp (.key fp)

def storeTrustedKeyRoot (fp : Str) : Option Keystore :=
  ((ks.localRoot.getD (.dir .nil)).put true (.key fp) [fp]).bind ks.setLocalRoot

/-- `MaskTrustedKeySystemPrefix`. No directory is made. -/
def maskTrustedKeySystemPrefix (pfx fp : Str) : Option Keystore :=
  ks.localPrefix.bind fun n => ks.writePrefix false n pfx fp .empty

def maskTrustedKeySystemRoot (fp : Str) : Option Keystore :=
  ks.localRoot.bind fun n => (n.put false .empty [fp]).bind ks.setLocalRoot

def apply : KeyOp → Option Keystore
  | .storeTrustedKeyPrefix pfx fp => ks.storeTrustedKeyPrefix pfx fp
  | .storeTrustedKeyRoot fp => ks.storeTrustedKeyRoot fp
  | .maskTrustedKeySystemPrefix pfx fp => ks.maskTrustedKeySystemPrefix pfx fp
  | .maskTrustedKeySystemRoot fp => ks.maskTrustedKeySystemRoot fp

/-- An operation that fails leaves the files as they are. -/
def step (op : KeyOp) : Keystore := (ks.apply op).getD ks

def run (ops : List KeyOp) : Keystore := ops.foldl step ks

/-- The operations that do not fail. -/
def accepted : Keystore → List KeyOp → List KeyOp
  | _, [] => []
  | ks, op :: ops =>
    if (ks.apply op).isSome then op :: (ks.step op).accepted ops else (ks.step op).accepted ops

end Keystore

/-- The files in a place are those of the levels: of all but `[]`, or, for a `root.d`, of `[]`
only. -/
def ShowsAt (root : Bool) (n : Option Node) (f : List Str → Str → Option Bool) : Prop :=
  ∀ c path, HasAt n c path ↔
    ∃ P fp b, (root = true ↔ P = []) ∧ path = P ++ [fp] ∧ c = token fp b ∧ f P fp = some b

structure Keystore.Shows (ks : Keystore) (L : Levels) : Prop where
  systemRoot : ShowsAt true ks.systemRoot L.sysAt
  localRoot : ShowsAt true ks.localRoot L.own
  systemPrefix : ShowsAt false ks.systemPrefix L.sysAt
  localPrefix : ShowsAt false ks.localPrefix L.own

theorem ShowsAt.congr {f g : List Str → Str → Option Bool}
    (h : ShowsAt root n f) (hfg : ∀ P fp, (root = true ↔ P = []) → f P fp = g P fp) :
    ShowsAt root n g := by
  intro c path
  rw [h c path]
  refine exists_congr fun P => exists_congr fun fp => exists_congr fun b => ?_
  refine and_congr_right fun hP => ?_
  rw [hfg P fp hP]

theorem ShowsAt.put
    (h : ShowsAt root n f) {n0 n' : Node} (hn0 : ∀ c path, n0.Has c path ↔ HasAt n c path)
    {P : List Str} {fp : Str} (hP : root = true ↔ P = [])
    (hput : Node.Puts (token fp b) (P ++ [fp]) n0 n') :
    ShowsAt root (some n') (updateAt f P fp b) := by
  intro c path
  have hhas : HasAt (some n') c path ↔
      if path = P ++ [fp] then c = token fp b else HasAt n c path := by
    rw [← hn0, ← hput.2]
    exact ⟨fun ⟨_, heq, hc⟩ => Option.some.inj heq ▸ hc, fun hc => ⟨n', rfl, hc⟩⟩
  rw [hhas]
  constructor
  · split_ifs with hpath
    · rintro rfl
      exact ⟨P, fp, b, hP, hpath, rfl, updateAt_self f P fp b⟩
    · intro hold
      obtain ⟨Q, x, b', hQ, rfl, hc, hf⟩ := (h c path).mp hold
      have hne : ¬ (Q = P ∧ x = fp) := by
        rintro ⟨rfl, rfl⟩
        exact hpath rfl
      exact ⟨Q, x, b', hQ, rfl, hc, (updateAt_of_ne hne).trans hf⟩
  · rintro ⟨Q, x, b', hQ, rfl, rfl, hf⟩
    by_cases heq : Q = P ∧ x = fp
    · obtain ⟨rfl, rfl⟩ := heq
      rw [updateAt_self] at hf
      rw [if_pos rfl, Option.some.inj hf]
    · rw [updateAt_of_ne heq] at hf
      have hpath : Q ++ [x] ≠ P ++ [fp] := by
        intro hsame
        obtain ⟨hQP, hx⟩ := List.append_inj' hsame rfl
        exact heq ⟨hQP, List.cons.inj hx |>.1⟩
      rw [if_neg hpath]
      exact (h _ _).mpr ⟨Q, x, b', hQ, rfl, rfl, hf⟩

theorem has_getD (n : Option Node) (c : Content) (path : List Str) :
    (n.getD (.dir .nil)).Has c path ↔ HasAt n c path := by
  cases n with
  | some n => exact ⟨fun h => ⟨n, rfl, h⟩, fun ⟨_, heq, h⟩ => Option.some.inj heq ▸ h⟩
  | none =>
    constructor
    · intro h
      cases path with
      | nil => exact h.elim
      | cons x ns => exact h.elim
    · rintro ⟨_, hn, -⟩
      cases hn

namespace Keystore

variable {ks ks' : Keystore} {L : Levels}

theorem shows_setLocalRoot {f : List Str → Str → Option Bool} {n : Node} (hks : ks.Shows L)
    (h : ks.setLocalRoot n = some ks') (hroot : ShowsAt true (some n) f)
    (hother : ∀ P fp, P ≠ [] → L.own P fp = f P fp) : ks'.Shows { L with own := f } := by
  unfold setLocalRoot at h
  split at h
  · cases h
    refine ⟨hks.systemRoot, hroot, hks.systemPrefix, hks.localPrefix.congr fun P fp hP => ?_⟩
    exact hother P fp fun hnil => Bool.false_ne_true (hP.mpr hnil)
  · cases h

theorem shows_setLocalPrefix {f : List Str → Str → Option Bool} {n : Node} (hks : ks.Shows L)
    (h : ks.setLocalPrefix n = some ks') (hshows : ShowsAt false (some n) f)
    (hother : ∀ fp, L.own [] fp = f [] fp) : ks'.Shows { L with own := f } := by
  unfold setLocalPrefix at h
  split at h
  · cases h
    refine ⟨hks.systemRoot, hks.localRoot.congr fun P fp hP => ?_, hks.systemPrefix, hshows⟩
    rw [hP.mp rfl]
    exact hother fp
  · cases h

theorem wf_getD (n : Option Node) (h : n.all Node.wf = true) : (n.getD (.dir .nil)).wf = true := by
  cases n with
  | none => rfl
  | some n => exact h

theorem Shows.writeRoot {mkdir b : Bool} {fp : Str} {n0 : Node} (hks : ks.Shows L)
    (hfp : Plain fp) (hwf : n0.wf = true)
    (hn0 : ∀ c path, n0.Has c path ↔ HasAt ks.localRoot c path)
    (h : (n0.put mkdir (token fp b) [fp]).bind ks.setLocalRoot = some ks') :
    ks'.Shows { L with own := updateAt L.own [] fp b } := by
  obtain ⟨n', hput, hset⟩ := Option.bind_eq_some_iff.mp h
  have hputs := Node.puts_of_put hput (fun name hname => List.mem_singleton.mp hname ▸ hfp) hwf
  refine shows_setLocalRoot hks hset (hks.localRoot.put hn0 (by simp) hputs) fun P x hP => ?_
  rw [updateAt_of_ne fun h => hP h.1]

theorem relPath_of_valid {pfx fp : Str} (hpfx : validACIdentifier pfx = true) (hfp : Plain fp) :
    ks.relPath pfx fp = some (split pfx ++ [fp]) := by
  have hplain := List.forall_mem_append.mpr ⟨ks.localPrefixPath_plain, plain_keyPath hpfx hfp⟩
  have hpre : ks.config.localPrefixPath.isPrefixOf
      (ks.config.localPrefixPath ++ (split pfx ++ [fp])) = true :=
    List.isPrefixOf_iff_prefix.mpr (List.prefix_append _ _)
  rw [relPath, List.append_assoc, clean_of_plain hplain, if_pos hpre, List.drop_left]

theorem Shows.writePrefix {mkdir b : Bool} {pfx fp : Str} {n0 : Node} (hks : ks.Shows L)
    (hpfx : validACIdentifier pfx = true) (hfp : Plain fp) (hwf : n0.wf = true)
    (hn0 : ∀ c path, n0.Has c path ↔ HasAt ks.localPrefix c path)
    (h : ks.writePrefix mkdir n0 pfx fp (token fp b) = some ks') :
    ks'.Shows { L with own := updateAt L.own (split pfx) fp b } := by
  rw [Keystore.writePrefix, if_pos (assertValid_of_valid hpfx), relPath_of_valid hpfx hfp,
    Option.bind_some] at h
  obtain ⟨n', hput, hset⟩ := Option.bind_eq_some_iff.mp h
  have hputs := Node.puts_of_put hput (plain_keyPath hpfx hfp) hwf
  have hlevel : false = true ↔ split pfx = [] :=
    ⟨fun hfalse => absurd hfalse Bool.false_ne_true, fun hnil => absurd hnil (split_ne_nil pfx)⟩
  refine shows_setLocalPrefix hks hset (hks.localPrefix.put hn0 hlevel hputs) fun x => ?_
  rw [updateAt_of_ne fun h => split_ne_nil pfx h.1.symm]

/-- **An operation that succeeds does to the files what it does to the levels.** -/
theorem Shows.apply {op : KeyOp} (hks : ks.Shows L) (hop : op.valid = true)
    (h : ks.apply op = some ks') : ks'.Shows (L.apply op) := by
  cases op with
  | storeTrustedKeyPrefix pfx fp =>
    simp only [KeyOp.valid, Bool.and_eq_true, decide_eq_true_eq] at hop
    exact hks.writePrefix hop.1 hop.2 (wf_getD _ ks.localPrefix_wf) (has_getD _) h
  | storeTrustedKeyRoot fp =>
    exact hks.writeRoot (of_decide_eq_true hop) (wf_getD _ ks.localRoot_wf) (has_getD _) h
  | maskTrustedKeySystemPrefix pfx fp =>
    simp only [KeyOp.valid, Bool.and_eq_true, decide_eq_true_eq] at hop
    obtain ⟨n, hn, h⟩ := Option.bind_eq_some_iff.mp h
    have hwf := ks.localPrefix_wf
    rw [hn] at hwf
    refine hks.writePrefix hop.1 hop.2 hwf (fun c path => ?_) h
    rw [hn]
    exact has_getD (some n) c path
  | maskTrustedKeySystemRoot fp =>
    obtain ⟨n, hn, h⟩ := Option.bind_eq_some_iff.mp h
    have hwf := ks.localRoot_wf
    rw [hn] at hwf
    refine hks.writeRoot (of_decide_eq_true hop) hwf (fun c path => ?_) h
    rw [hn]
    exact has_getD (some n) c path

theorem Shows.run {ops : List KeyOp} (hks : ks.Shows L) (hops : ∀ op ∈ ops, op.valid = true) :
    (ks.run ops).Shows (L.run (ks.accepted ops)) := by
  induction ops generalizing ks L with
  | nil => exact hks
  | cons op ops ih =>
    obtain ⟨hop, hrest⟩ := List.forall_mem_cons.mp hops
    unfold accepted
    show (Keystore.run (ks.step op) ops).Shows _
    cases h : ks.apply op with
    | none =>
      rw [step, h]
      exact ih hks hrest
    | some ks1 =>
      rw [step, h]
      exact ih (hks.apply hop h) hrest

end Keystore

theorem ShowsAt.tokens (h : ShowsAt root n f) : TokensAt root n := by
  intro c path hhas
  obtain ⟨P, fp, b, hP, hpath, hc, -⟩ := (h c path).mp hhas
  refine ⟨P, fp, b, fun hroot hnil => ?_, hpath, hc⟩
  rw [hroot] at hP
  exact Bool.false_ne_true (hP.mpr hnil)

namespace Levels

variable (L : Levels) (comps : List Str) (fp : Str)

end Levels

theorem reached_of_prefix {P comps : List Str} (hne : P ≠ []) (h : P <+: comps) :
    Reached P comps := by
  refine ⟨?_, StringPrefix.of_prefix h⟩
  obtain ⟨rest, rfl⟩ := h
  cases P with
  | nil => exact absurd rfl hne
  | cons q P => rfl

end Rkt.Keys
