import Rkt.Conc.Seen
import Rkt.Store.Key
import Rkt.Store.Rules
import Rkt.Store.Tx

set_option autoImplicit false

namespace Rkt.Store

open Conc Prog Proto DbProto

inductive LookupErr where
  /-- `wrong key prefix`. -/
  | wrongStart
  /-- `key too short`. -/
  | tooShort
  /-- `error retrieving ACI Infos: %v`. -/
  | retrievingACIInfos (e : Err)
  /-- `ErrKeyNotFound`. -/
  | notFound
  /-- `ambiguous key: %q`. -/
  | ambiguous (key : Str)
  /-- `error resolving key: %v`. -/
  | resolving (e : LookupErr)
  /-- `error locking image: %v`. -/
  | locking
  /-- `error retrieving image manifest: %v`. -/
  | retrievingManifest
  /-- `error unmarshalling image manifest: %v`. -/
  | unmarshalling
  /-- An error of the first transaction of `GetACI`, handed on as it is. -/
  | listing (e : Err)
  /-- `error getting image manifest: %v`. -/
  | gettingManifest (e : LookupErr)
  /-- `cannot find aci satisfying name: %q and labels: %s in the local store`. -/
  | cannotFind (name : Str) (labels : List (Str × Str))
  deriving DecidableEq, Repr

def getACIInfosWithKeyPrefix (start : Str) : TxProg (Except Err (List ACIInfo)) := do
  match ← stmt (.selectKeyPrefix start) with
  | none => return .error .sql
  | some rows => return .ok rows

def getACIInfosWithAppName (name : Str) : TxProg (Except Err (List ACIInfo)) := do
  match ← stmt (.selectAppName name) with
  | none => return .error .sql
  | some rows => return .ok rows

def cut (key : Str) : Str := if lenKey < key.length then key.take lenKey else key

def onlyKey (key : Str) : List ACIInfo → Except LookupErr Key
  | [] => .error .notFound
  | [row] => .ok row.blobKey
  | _ => .error (.ambiguous key)

/-- `Store.ResolveKey`. -/
def resolveKey (key : Str) : StoreProg (Except LookupErr Key) :=
  if !hashPrefix.isPrefixOf key then return .error .wrongStart
  else if key.length < minlenKey then return .error .tooShort
  else do
    match ← dbDo (getACIInfosWithKeyPrefix (cut key)) with
    | .error e => return .error (.retrievingACIInfos e)
    | .ok rows => return onlyKey (cut key) rows

def readImageManifest (key : Key) : StoreProg (Except LookupErr Manifest) := do
  match ← sys (.readManifest key) with
  | none => return .error .retrievingManifest
  | some manifest => check (sys .aside) .unmarshalling (return .ok manifest)

/-- `Store.GetImageManifest`. -/
def getImageManifest (key : Str) : StoreProg (Except LookupErr Manifest) := do
  match ← resolveKey key with
  | .error e => return .error (.resolving e)
  | .ok key =>
    check (sys (.shareImage key)) .locking do
      let r ← readImageManifest key
      sys (.closeShared key)
      return r

def hasLabels (labels : List (Str × Str)) (manifest : Manifest) : Bool :=
  labels.all fun l => manifest.labels.any fun rl => l.1 = rl.1 ∧ l.2 = rl.2

/-- `labels.Get("version")`. -/
def versionRequested (labels : List (Str × Str)) : Bool := labels.any (·.1 = "version".toList)

/-- Which of the two is the better one: `curaciinfo`, if there is one, or the next row. -/
def prefer (versionRequested : Bool) (cur : Option ACIInfo) (row : ACIInfo) : ACIInfo :=
  match cur with
  | none => row
  | some cur =>
    if !versionRequested && !cur.latest && row.latest then row
    else if !versionRequested && cur.latest && !row.latest then cur
    else if cur.importTime < row.importTime then row
    else cur

def found (name : Str) (labels : List (Str × Str)) : Option ACIInfo → Except LookupErr Key
  | some row => .ok row.blobKey
  | none => .error (.cannotFind name labels)

def getBest (name : Str) (labels : List (Str × Str)) :
    Option ACIInfo → List ACIInfo → StoreProg (Except LookupErr Key)
  | cur, [] => return found name labels cur
  | cur, row :: rows => do
    match ← getImageManifest row.blobKey with
    | .error e => return .error (.gettingManifest e)
    | .ok manifest =>
      if hasLabels labels manifest then
        getBest name labels (some (prefer (versionRequested labels) cur row)) rows
      else getBest name labels cur rows

/-- `Store.GetACI`. -/
def getACI (name : Str) (labels : List (Str × Str)) : StoreProg (Except LookupErr Key) := do
  match ← dbDo (getACIInfosWithAppName name) with
  | .error e => return .error (.listing e)
  | .ok rows => getBest name labels none rows

/-- No operation of a lookup fails without a reason. -/
def flawless : (o : DbOp Op Stmt) → DbOp.Res coreSig stmtSig o → Bool
  | .acquire, (r : Bool) | .begin, (r : Bool) | .base .sqlOpen, (r : Bool)
  | .base .sqlClose, (r : Bool) | .base .aside, (r : Bool) | .base (.shareImage _), (r : Bool) => r
  | .stmt (.selectKeyPrefix _), (r : Option (List ACIInfo))
  | .stmt (.selectAppName _), (r : Option (List ACIInfo)) => r.isSome
  | _, _ => true

abbrev Fine (o : DbOp Op Stmt) (r : DbOp.Res coreSig stmtSig o) : Prop := flawless o r = true

/-- In addition, a manifest that is there can be read. -/
def sure : (o : DbOp Op Stmt) → DbOp.Res coreSig stmtSig o → DbState Core Database → Bool
  | .base (.readManifest key), (r : Option Manifest), s => r = s.core.imageManifest key
  | o, r, _ => flawless o r

/-- The store, as long as nothing fails for `p` without a reason. -/
def sureMachine (p : Pid) : Machine (dbSig coreSig stmtSig) (DbState Core Database) :=
  storeMachine.restrict fun q o r s => q = p → sure o r s = true

theorem flawless_of_sure {o : DbOp Op Stmt} {r : DbOp.Res coreSig stmtSig o}
    {s : DbState Core Database} (h : sure o r s = true) : flawless o r = true := by
  unfold sure at h
  split at h
  · rfl
  · exact h

def resolve (d : Database) (key : Str) : Except LookupErr Key :=
  if !hashPrefix.isPrefixOf key then .error .wrongStart
  else if key.length < minlenKey then .error .tooShort
  else onlyKey (cut key) (d.aciinfo.filter ((cut key).isPrefixOf ·.blobKey))

def manifestIn (c : Core) (key : Key) : Except LookupErr Manifest :=
  match c.imageManifest key with
  | none => .error .retrievingManifest
  | some manifest => .ok manifest

def manifestAt (d : Database) (c : Core) (key : Str) : Except LookupErr Manifest :=
  match resolve d key with
  | .error e => .error (.resolving e)
  | .ok key => manifestIn c key

theorem manifestIn_ok_iff {c : Core} {key : Key} {m : Manifest} :
    manifestIn c key = .ok m ↔ c.imageManifest key = some m := by
  unfold manifestIn
  cases c.imageManifest key with
  | none => simp
  | some m' => simp

theorem manifestAt_ok_iff {d : Database} {c : Core} {key : Str} {m : Manifest} :
    manifestAt d c key = .ok m ↔ ∃ K, resolve d key = .ok K ∧ c.imageManifest K = some m := by
  unfold manifestAt
  cases resolve d key with
  | error e => simp
  | ok K => simp [manifestIn_ok_iff]

/-- What the loop of `GetACI` can return if it looks at states with `H`. -/
inductive Scan (H : DbState Core Database → Prop) (name : Str) (labels : List (Str × Str)) :
    Option ACIInfo → List ACIInfo → Except LookupErr Key → Prop where
  | done {cur : Option ACIInfo} : Scan H name labels cur [] (found name labels cur)
  | fails {cur : Option ACIInfo} {row : ACIInfo} {rows : List ACIInfo} {e : LookupErr}
      {s₁ s₂ : DbState Core Database} (h₁ : H s₁) (h₂ : H s₂)
      (he : manifestAt s₁.db s₂.core row.blobKey = .error e) :
      Scan H name labels cur (row :: rows) (.error (.gettingManifest e))
  | takes {cur : Option ACIInfo} {row : ACIInfo} {rows : List ACIInfo} {m : Manifest}
      {s₁ s₂ : DbState Core Database} {r : Except LookupErr Key} (h₁ : H s₁) (h₂ : H s₂)
      (hm : manifestAt s₁.db s₂.core row.blobKey = .ok m) (hl : hasLabels labels m = true)
      (h : Scan H name labels (some (prefer (versionRequested labels) cur row)) rows r) :
      Scan H name labels cur (row :: rows) r
  | skips {cur : Option ACIInfo} {row : ACIInfo} {rows : List ACIInfo} {m : Manifest}
      {s₁ s₂ : DbState Core Database} {r : Except LookupErr Key} (h₁ : H s₁) (h₂ : H s₂)
      (hm : manifestAt s₁.db s₂.core row.blobKey = .ok m) (hl : hasLabels labels m = false)
      (h : Scan H name labels cur rows r) : Scan H name labels cur (row :: rows) r

def Answers (H : DbState Core Database → Prop) (name : Str) (labels : List (Str × Str))
    (r : Except LookupErr Key) : Prop :=
  ∃ s rows, H s ∧ rows.Perm (s.db.aciinfo.filter (·.appName = name)) ∧
    Scan H name labels none rows r

section queries

variable {d w : Database} {rows : List ACIInfo}

theorem listing_some {α D : Type} [DecidableEq α] {rows l : List α} {d d' : D}
    (h : listing rows (some l) d = some d') : l.Perm rows ∧ d' = d := by
  unfold listing at h
  split_ifs at h with hperm
  exact ⟨of_decide_eq_true hperm, (Option.some.inj h).symm⟩

theorem getACIInfosWithKeyPrefix_ok {start : Str}
    (h : (getACIInfosWithKeyPrefix start).Runs Stmt.run d (.ok rows) w) :
    rows.Perm (d.aciinfo.filter (start.isPrefixOf ·.blobKey)) ∧ w = d := by
  obtain ⟨r, d1, hsel, h⟩ := h
  cases r with
  | none => cases h.1
  | some l =>
    obtain ⟨rfl, rfl⟩ : rows = l ∧ w = d1 := by
      obtain ⟨hr, hw⟩ := h
      exact ⟨Except.ok.inj hr, hw⟩
    exact listing_some hsel

theorem getACIInfosWithAppName_ok {name : Str}
    (h : (getACIInfosWithAppName name).Runs Stmt.run d (.ok rows) w) :
    rows.Perm (d.aciinfo.filter (·.appName = name)) ∧ w = d := by
  obtain ⟨r, d1, hsel, h⟩ := h
  cases r with
  | none => cases h.1
  | some l =>
    obtain ⟨rfl, rfl⟩ : rows = l ∧ w = d1 := by
      obtain ⟨hr, hw⟩ := h
      exact ⟨Except.ok.inj hr, hw⟩
    exact listing_some hsel

theorem onlyKey_perm {key : Str} {l l' : List ACIInfo} (h : l.Perm l') :
    onlyKey key l = onlyKey key l' := by
  rcases l with _ | ⟨a, _ | ⟨b, l⟩⟩
  · rw [List.nil_perm.mp h]
  · rw [List.singleton_perm.mp h]
  · -- there are two rows at least
    have hlen := h.length_eq
    rcases l' with _ | ⟨a', _ | ⟨b', l'⟩⟩
    · simp at hlen
    · simp at hlen
    · rfl

/-- A transaction that cannot fail, in which nothing changes. -/
structure Query {α : Type} (fn : TxProg (Except Err α)) : Prop where
  same : ∀ d a w, fn.Runs Stmt.run d (.ok a) w → w = d
  yields : (fn.stmts (S := coreSig)).Yields Fine fun r => ∃ a, r = .ok a

theorem query_keyPrefix (start : Str) : Query (getACIInfosWithKeyPrefix start) where
  same _ _ _ h := (getACIInfosWithKeyPrefix_ok h).2
  yields r hr := by
    cases r with
    | none => cases hr
    | some rows => exact ⟨rows, rfl⟩

theorem query_appName (name : Str) : Query (getACIInfosWithAppName name) where
  same _ _ _ h := (getACIInfosWithAppName_ok h).2
  yields r hr := by
    cases r with
    | none => cases hr
    | some rows => exact ⟨rows, rfl⟩

end queries

section yields

open Prog

theorem check_yields {α ε : Type} {x : StoreProg Bool} {e : ε} {k : StoreProg (Except ε α)}
    {Q : Except ε α → Prop} (hx : x.Yields Fine (· = true)) (hk : k.Yields Fine Q) :
    (check x e k).Yields Fine Q := by
  refine Yields.bind hx fun ok hok => ?_
  subst hok
  exact hk

theorem panic_yields {α : Type} {Q : α → Prop} : (panic : StoreProg α).Yields Fine Q := by
  intro _ _ never
  exact nomatch never

theorem dbOpen_yields : dbOpen.Yields Fine fun r => ∃ u, r = .ok u := by
  refine Yields.bind (Yields.always _) fun h _ => ?_
  refine Yields.ite (fun _ => panic_yields) fun _ => ?_
  refine check_yields (Yields.call fun r hr => hr) ?_
  refine Yields.bind (Yields.always _) fun _ _ => ?_
  have hopen : (sys .sqlOpen).Yields Fine fun (r : Bool) => r = true :=
    Yields.call fun r hr => hr
  refine Yields.bind hopen fun opened hopened => ?_
  subst hopened
  exact Yields.bind (Yields.always _) fun _ _ => Yields.ret ⟨(), rfl⟩

theorem dbDo_yields {α : Type} {fn : TxProg (Except Err α)}
    (h : (fn.stmts (S := coreSig)).Yields Fine fun r => ∃ a, r = .ok a) :
    (dbDo fn).Yields Fine fun r => ∃ a, r = .ok a := by
  refine Yields.bind dbOpen_yields ?_
  rintro _ ⟨u, rfl⟩
  have htx : (dbDoTx fn).Yields Fine fun r => ∃ a, r = .ok a := by
    refine check_yields (Yields.call fun r hr => hr) (Yields.bind h ?_)
    rintro _ ⟨a, rfl⟩
    exact Yields.bind (Yields.always _) fun _ _ => Yields.ret ⟨a, rfl⟩
  refine Yields.bind htx ?_
  rintro _ ⟨a, rfl⟩
  exact Yields.bind (Yields.always _) fun _ _ => Yields.ret ⟨a, rfl⟩

end yields

structure Shrinks (c : Core) (d : Database) (c' : Core) (d' : Database) : Prop where
  rows : d'.aciinfo.Sublist d.aciinfo
  manifests : ∀ key m, c'.imageManifest key = some m → c.imageManifest key = some m

theorem Shrinks.refl (c : Core) (d : Database) : Shrinks c d c d := ⟨.refl _, fun _ _ h => h⟩

/-- `p` changes no row and no manifest, and the others only remove some. -/
def lookProto (p : Pid) : DbProto coreMachine Database where
  inv _ _ := True
  guar q c d c' d' := Shrinks c d c' d' ∧ (q = p → c'.imageManifest = c.imageManifest ∧ d' = d)
  refl _ c d := ⟨.refl c d, fun _ => ⟨rfl, rfl⟩⟩
  inv_die _ _ _ _ := trivial
  guar_die _ _ _ _ := ⟨⟨.refl _, fun _ _ h => h⟩, fun _ => ⟨rfl, rfl⟩⟩

variable {p : Pid}

theorem lookProto_tolerant : Tolerant (lookProto p) := by
  intro q c c' d h _
  refine ⟨trivial, ⟨.refl _, fun key m hm => ?_⟩, fun _ => ⟨h.imageManifest, rfl⟩⟩
  rwa [h.imageManifest] at hm

section look

variable {H : DbState Core Database → Prop}
  {M : Machine (dbSig coreSig stmtSig) (DbState Core Database)}
  {hM : M.Sub (dbMachine coreMachine Stmt.run)}

/-- For `p` nothing fails without a reason, and it looks at states with `H`. -/
def Looks (p : Pid) (H : DbState Core Database → Prop)
    (M : Machine (dbSig coreSig stmtSig) (DbState Core Database)) : Prop :=
  ∀ o r s s', M.next p o r s = some s' → sure o r s = true ∧ H s

theorem query_triple (hlook : Looks p H M) {α : Type} {fn : TxProg (Except Err α)}
    (hfn : Query fn) : ((lookProto p).proto hM).Triple p (Out p) (dbDo fn) fun r s => Out p s ∧
      ∃ a s₁, r = .ok a ∧ H s₁ ∧ fn.Runs Stmt.run s₁.db (.ok a) s₁.db := by
  have hcommits : Commits Stmt.run (lookProto p) M p (fun _ _ => True) fn fun a _ _ =>
      ∃ s₁, H s₁ ∧ fn.Runs Stmt.run s₁.db (.ok a) s₁.db := by
    refine ⟨fun a s s' w hruns _ hn _ _ => ?_, fun a s s' w hruns _ hn _ _ => ?_⟩
    · obtain rfl := hfn.same _ _ _ hruns
      exact ⟨trivial, (lookProto p).refl p s.core s.db, s, (hlook _ _ _ _ hn).2, hruns⟩
    · obtain rfl := hfn.same _ _ _ hruns
      exact ⟨s, (hlook _ _ _ _ hn).2, hruns⟩
  have hshows : ((lookProto p).proto hM).Triple p (Out p) (dbDo fn) fun r s => Out p s ∧
      ∀ a, r = .ok a → ∃ s₁, H s₁ ∧ fn.Runs Stmt.run s₁.db (.ok a) s₁.db :=
    dbDo_shows lookProto_tolerant (fun _ _ _ _ _ _ _ _ _ h => h) hcommits
  have hfine : ∀ o r s s', M.next p o r s = some s' → Fine o r :=
    fun o r s s' hn => flawless_of_sure (hlook o r s s' hn).1
  refine ((dbDo_yields hfn.yields).triple hfine hshows).post ?_
  rintro r s ⟨⟨hout, hQ⟩, a, rfl⟩
  obtain ⟨s₁, hs1, hruns⟩ := hQ a rfl
  exact ⟨hout, a, s₁, rfl, hs1, hruns⟩

theorem resolveKey_triple (hlook : Looks p H M) (hne : ∃ s, H s) (key : Str) :
    ((lookProto p).proto hM).Triple p (Out p) (resolveKey key) fun r s => Out p s ∧
      ∃ s₁, H s₁ ∧ r = resolve s₁.db key := by
  obtain ⟨s0, hs0⟩ := hne
  unfold resolveKey resolve
  refine Triple.ite (fun hstart => Triple.ret fun s hs => ⟨hs, s0, hs0, ?_⟩) fun hstart => ?_
  · rw [if_pos hstart]
  refine Triple.ite (fun hlen => Triple.ret fun s hs => ⟨hs, s0, hs0, ?_⟩) fun hlen => ?_
  · rw [if_neg hstart, if_pos hlen]
  refine (query_triple hlook (query_keyPrefix (cut key))).bind fun r => ?_
  rintro s ⟨hs, rows, s₁, rfl, hs1, hruns⟩
  refine ⟨hs, s₁, hs1, ?_⟩
  rw [if_neg hstart, if_neg hlen]
  exact onlyKey_perm (getACIInfosWithKeyPrefix_ok hruns).1

theorem check_sure {α : Type} {x : StoreProg Bool} {e : LookupErr}
    {k : StoreProg (Except LookupErr α)} {Q : Except LookupErr α → DbState Core Database → Prop}
    (hx : ((lookProto p).proto hM).Triple p (Out p) x fun ok s => Out p s ∧ ok = true)
    (hk : ((lookProto p).proto hM).Triple p (Out p) k Q) :
    ((lookProto p).proto hM).Triple p (Out p) (check x e k) Q := by
  refine hx.bind fun ok => Triple.given fun hok => ?_
  subst hok
  exact hk

theorem aside_sure (hlook : Looks p H M) :
    ((lookProto p).proto hM).Triple p (Out p) (sys .aside) fun (ok : Bool) s =>
      Out p s ∧ ok = true :=
  (quiet_triple (o := .aside) lookProto_tolerant steady_true rfl).answered
    fun _ _ _ hn => (hlook _ _ _ _ hn).1

theorem shareImage_sure (hlook : Looks p H M) (key : Key) :
    ((lookProto p).proto hM).Triple p (Out p) (sys (.shareImage key)) fun (ok : Bool) s =>
      Out p s ∧ ok = true :=
  (quiet_triple (o := .shareImage key) lookProto_tolerant steady_true rfl).answered
    fun _ _ _ hn => (hlook _ _ _ _ hn).1

theorem readImageManifest_triple (hlook : Looks p H M) (key : Key) :
    ((lookProto p).proto hM).Triple p (Out p) (readImageManifest key) fun r s => Out p s ∧
      ∃ s₂, H s₂ ∧ r = manifestIn s₂.core key := by
  have hread : ((lookProto p).proto hM).Triple p (Out p) (sys (.readManifest key))
      fun (r : Option Manifest) s => Out p s ∧ ∃ s₂, H s₂ ∧ r = s₂.core.imageManifest key :=
    (quiet_triple (o := .readManifest key) lookProto_tolerant steady_true rfl).answered
      fun (r : Option Manifest) s s' hn =>
        ⟨s, (hlook _ _ _ _ hn).2, of_decide_eq_true (hlook _ _ _ _ hn).1⟩
  refine hread.bind fun r => Triple.given ?_
  rintro ⟨s₂, hs2, hr⟩
  cases r with
  | none =>
    refine Triple.ret fun s hs => ⟨hs, s₂, hs2, ?_⟩
    rw [manifestIn, ← hr]
  | some m =>
    refine check_sure (aside_sure hlook) (Triple.ret fun s hs => ⟨hs, s₂, hs2, ?_⟩)
    rw [manifestIn, ← hr]

theorem getImageManifest_triple (hlook : Looks p H M) (hne : ∃ s, H s) (key : Str) :
    ((lookProto p).proto hM).Triple p (Out p) (getImageManifest key) fun r s => Out p s ∧
      ∃ s₁ s₂, H s₁ ∧ H s₂ ∧ r = manifestAt s₁.db s₂.core key := by
  refine (resolveKey_triple hlook hne key).bind fun r => Triple.given ?_
  rintro ⟨s₁, hs1, hr⟩
  cases r with
  | error e =>
    refine Triple.ret fun s hs => ⟨hs, s₁, s₁, hs1, hs1, ?_⟩
    rw [manifestAt, ← hr]
  | ok k =>
    refine check_sure (shareImage_sure hlook k) ?_
    refine (readImageManifest_triple hlook k).bind fun r => Triple.given ?_
    rintro ⟨s₂, hs2, rfl⟩
    refine (quiet_triple (o := .closeShared k) lookProto_tolerant steady_true rfl).bind
      fun _ => Triple.ret fun s hs => ⟨hs, s₁, s₂, hs1, hs2, ?_⟩
    rw [manifestAt, ← hr]

theorem getBest_triple (hlook : Looks p H M) (hne : ∃ s, H s) (name : Str)
    (labels : List (Str × Str)) (cur : Option ACIInfo) (rows : List ACIInfo) :
    ((lookProto p).proto hM).Triple p (Out p) (getBest name labels cur rows) fun r s =>
      Out p s ∧ Scan H name labels cur rows r := by
  induction rows generalizing cur with
  | nil => exact Triple.ret fun s hs => ⟨hs, .done⟩
  | cons row rows ih =>
    refine (getImageManifest_triple hlook hne row.blobKey).bind fun r => Triple.given ?_
    rintro ⟨s₁, s₂, hs1, hs2, hr⟩
    cases r with
    | error e => exact Triple.ret fun s hs => ⟨hs, .fails hs1 hs2 hr.symm⟩
    | ok m =>
      refine Triple.ite (fun hl => (ih _).post fun r s hs => ?_)
        fun hl => (ih _).post fun r s hs => ?_
      · exact ⟨hs.1, .takes hs1 hs2 hr.symm hl hs.2⟩
      · exact ⟨hs.1, .skips hs1 hs2 hr.symm (Bool.eq_false_iff.mpr hl) hs.2⟩

/-- **What `GetACI` returns** is explained by the states it has looked at. -/
theorem getACI_triple (hlook : Looks p H M) (name : Str) (labels : List (Str × Str)) :
    ((lookProto p).proto hM).Triple p (Out p) (getACI name labels) fun r s =>
      Out p s ∧ Answers H name labels r := by
  refine (query_triple hlook (query_appName name)).bind fun r => Triple.given ?_
  rintro ⟨rows, s₁, rfl, hs1, hruns⟩
  refine (getBest_triple hlook ⟨s₁, hs1⟩ name labels none rows).post fun r s hs => ?_
  exact ⟨hs.1, s₁, rows, hs1, (getACIInfosWithAppName_ok hruns).1, hs.2⟩

end look

section alone

open Prog

/-- The database is closed, and no transaction is open. -/
structure Rests (p : Pid) (s : DbState Core Database) : Prop extends Closed p s where
  idle : ∀ q, s.work q = none

/-- The store rests, and something is known about the locks of the images. -/
def RestsWith (L : (Key → Option Pid) → Prop) (p : Pid) (s : DbState Core Database) : Prop :=
  Rests p s ∧ L s.core.imageLock

abbrev Unlocked (imageLock : Key → Option Pid) : Prop := ∀ key, imageLock key = none

theorem sure_step {o : DbOp Op Stmt} {r : DbOp.Res coreSig stmtSig o}
    {s s' : DbState Core Database} (hsure : sure o r s = true)
    (h : storeMachine.next p o r s = some s') : (sureMachine p).next p o r s = some s' :=
  (if_pos fun _ => hsure).trans h

variable {s : DbState Core Database} {L : (Key → Option Pid) → Prop}

theorem sure_opensAndCloses {o : DbOp Op Stmt} {r : DbOp.Res coreSig stmtSig o}
    {s s' : DbState Core Database} (ho : opensAndCloses o r = true)
    (h : dbNext (T := stmtSig) coreMachine Stmt.run p o r s = some s') :
    (sureMachine p).next p o r s = some s' := by
  refine sure_step ?_ h
  unfold opensAndCloses at ho
  split at ho
  all_goals first | exact ho | rfl | cases ho

/-- The statements can all be answered, and leave the working copy as it is. -/
def Answerable {α : Type} (p : Pid) (fn : TxProg (Except Err α)) : Prop :=
  ∀ (s : DbState Core Database) w, s.work p = some w → ∃ a,
    (fn.stmts (S := coreSig)).Runs ((sureMachine p).next p) s (.ok a) (s.setWork p (some w))

theorem dbDo_can {α : Type} {fn : TxProg (Except Err α)} (hfn : Answerable p fn) :
    Can ((sureMachine p).next p) (RestsWith L p) (dbDo fn) := by
  rintro s ⟨hs, hL⟩
  have hopen := dbOpen_runs sure_opensAndCloses hs.toClosed
  generalize hs1 : ({ s with owner := some p, core := _ } : DbState Core Database) = s₁ at hopen
  let s₂ := s₁.setWork p (some s₁.db)
  obtain ⟨a, hstmts⟩ := hfn s₂ s₁.db (Function.update_self _ _ _)
  let s3 := s₂.setWork p (some s₁.db)
  let s4 : DbState Core Database := { s3.setWork p none with db := s₁.db }
  have hcommit : storeMachine.next p .commit true s3 = some s4 := by
    simp [storeMachine, dbMachine, dbNext, s3, s4, DbState.setWork]
  have htx : (dbDoTx fn).Runs ((sureMachine p).next p) s₁ (.ok a) s4 := by
    refine ⟨true, s₂, sure_step rfl rfl, ?_⟩
    show (fn.stmts >>= _).Runs _ _ _ _
    exact runs_bind.mpr ⟨.ok a, s3, hstmts, true, s4, sure_step rfl hcommit, rfl, rfl⟩
  have hidle : ∀ q, s4.work q = none := by
    intro q
    by_cases hq : q = p
    · subst hq
      exact Function.update_self _ _ _
    · simp [s4, s3, s₂, DbState.setWork, hq, ← hs1, hs.idle]
  have hclose := dbClose_runs (p := p) sure_opensAndCloses (s := s4)
    (by simp [s4, s3, s₂, DbState.setWork, ← hs1, Core.setHandle])
  refine ⟨.ok a, _, runs_bind.mpr ⟨.ok (), s₁, hopen, runs_bind.mpr ⟨.ok a, s4, htx,
    runs_bind.mpr ⟨.ok (), _, hclose, rfl, rfl⟩⟩⟩, ⟨⟨?_, Function.update_self _ _ _⟩, hidle⟩, ?_⟩
  · simp [s4, s3, s₂, DbState.setWork, ← hs1]
  · show L s₁.core.imageLock
    rw [← hs1]
    exact hL

theorem answerable_keyPrefix (start : Str) : Answerable p (getACIInfosWithKeyPrefix start) := by
  intro s w hw
  refine ⟨w.aciinfo.filter (start.isPrefixOf ·.blobKey),
    some (w.aciinfo.filter (start.isPrefixOf ·.blobKey)), _, sure_step rfl ?_, rfl, rfl⟩
  simp [storeMachine, dbMachine, dbNext, hw, Stmt.run, listing]

theorem answerable_appName (name : Str) : Answerable p (getACIInfosWithAppName name) := by
  intro s w hw
  refine ⟨w.aciinfo.filter (·.appName = name), some (w.aciinfo.filter (·.appName = name)), _,
    sure_step rfl ?_, rfl, rfl⟩
  simp [storeMachine, dbMachine, dbNext, hw, Stmt.run, listing]

theorem resolveKey_can (key : Str) :
    Can ((sureMachine p).next p) (RestsWith L p) (resolveKey key) := by
  unfold resolveKey
  split
  · exact Can.ret _
  split
  · exact Can.ret _
  refine Can.bind (dbDo_can (answerable_keyPrefix _)) fun r => ?_
  cases r with
  | error e => exact Can.ret _
  | ok rows => exact Can.ret _

theorem readImageManifest_can (key : Key) (s : DbState Core Database) :
    ∃ r, (readImageManifest key).Runs ((sureMachine p).next p) s r s := by
  have hread : storeMachine.next p (.base (.readManifest key)) (s.core.imageManifest key) s =
      some s := by
    simp [storeMachine, dbMachine, dbNext, coreMachine, next]
  have hsure : sure (.base (.readManifest key)) (s.core.imageManifest key) s = true :=
    decide_eq_true rfl
  have hstep := sure_step hsure hread
  cases hm : s.core.imageManifest key with
  | none =>
    rw [hm] at hstep
    exact ⟨_, none, s, hstep, rfl, rfl⟩
  | some m =>
    rw [hm] at hstep
    exact ⟨_, some m, s, hstep, true, s, sure_step rfl rfl, rfl, rfl⟩

theorem getImageManifest_can (key : Str) :
    Can ((sureMachine p).next p) (RestsWith Unlocked p) (getImageManifest key) := by
  refine Can.bind (resolveKey_can key) fun r => ?_
  cases r with
  | error e => exact Can.ret _
  | ok k =>
    rintro s ⟨hs, hlocks⟩
    let s₁ : DbState Core Database :=
      { s with core := { s.core with imageReaders := (p, k) :: s.core.imageReaders } }
    have hshare : storeMachine.next p (.base (.shareImage k)) true s = some s₁ := by
      simp [storeMachine, dbMachine, dbNext, coreMachine, next, hlocks k, s₁]
    let s₂ : DbState Core Database :=
      { s₁ with core := { s₁.core with imageReaders := s₁.core.imageReaders.erase (p, k) } }
    obtain ⟨r, hread⟩ := readImageManifest_can (p := p) k s₁
    refine ⟨r, s₂, ⟨true, s₁, sure_step rfl hshare, ?_⟩, ⟨⟨hs.owner, hs.handle⟩, hs.idle⟩,
      hlocks⟩
    show (readImageManifest k >>= _).Runs _ _ _ _
    exact runs_bind.mpr ⟨r, s₁, hread, (), s₂, sure_step rfl rfl, rfl, rfl⟩

theorem getBest_can (name : Str) (labels : List (Str × Str)) (cur : Option ACIInfo)
    (rows : List ACIInfo) :
    Can ((sureMachine p).next p) (RestsWith Unlocked p) (getBest name labels cur rows) := by
  induction rows generalizing cur with
  | nil => exact Can.ret _
  | cons row rows ih =>
    refine Can.bind (getImageManifest_can row.blobKey) fun r => ?_
    cases r with
    | error e => exact Can.ret _
    | ok m =>
      show Can _ _ (if _ then _ else _)
      split
      · exact ih _
      · exact ih _

theorem getACI_can (name : Str) (labels : List (Str × Str)) :
    Can ((sureMachine p).next p) (RestsWith Unlocked p) (getACI name labels) := by
  refine Can.bind (dbDo_can (answerable_appName name)) fun r => ?_
  cases r with
  | error e => exact Can.ret _
  | ok rows => exact getBest_can name labels none rows

def Like (s s₁ : DbState Core Database) : Prop :=
  s₁.db = s.db ∧ s₁.core.imageManifest = s.core.imageManifest

variable {s' : DbState Core Database}

theorem alone {α : Type} {x : StoreProg α} {Q : (DbState Core Database → Prop) → α → Prop}
    (hx : ∀ (H : DbState Core Database → Prop)
      (M : Machine (dbSig coreSig stmtSig) (DbState Core Database))
      (hM : M.Sub (dbMachine coreMachine Stmt.run)), Looks p H M → (∃ s, H s) →
      ((lookProto p).proto hM).Triple p (Out p) x fun r s => Out p s ∧ Q H r)
    (hs : Rests p s) {r : α} (hrun : x.Runs ((sureMachine p).next p) s r s') : Q (Like s) r := by
  have hsub : (sureMachine p).Sub (dbMachine coreMachine Stmt.run) := Machine.restrict_sub
  have hsure : ∀ {o r s s'}, (sureMachine p).next p o r s = some s' → sure o r s = true :=
    fun hn => (Machine.restrict_next hn).1 rfl
  have hinv : ((lookProto p).proto hsub).inv s := by
    refine ⟨trivial, fun q w hw => ?_⟩
    rw [hs.idle q] at hw
    cases hw
  have hout : Out p s := ⟨hs.idle p, by simp, trivial⟩
  have hlike : Like s s := ⟨rfl, rfl⟩
  -- the rows and the manifests stay the same
  have hwithin : x.Runs (((sureMachine p).within (Like s)).next p) s r s' := by
    have hsafe := hx (fun _ => True) _ hsub (fun o r s s' hn => ⟨hsure hn, trivial⟩)
      ⟨s, trivial⟩ s hout
    refine hsafe.runs_within (fun s₁ s₂ hg h => ?_) hinv hlike hrun
    obtain ⟨hm, hd⟩ := hg.1.2 rfl
    exact ⟨hd.trans h.1, hm.trans h.2⟩
  have hsub' : ((sureMachine p).within (Like s)).Sub (dbMachine coreMachine Stmt.run) :=
    ⟨fun hn => hsub.next (Machine.within_next hn).2, rfl⟩
  have hsafe := hx (Like s) _ hsub'
    (fun o r s₁ s₂ hn => ⟨hsure (Machine.within_next hn).2, (Machine.within_next hn).1⟩)
    ⟨s, hlike⟩ s hout
  exact (hsafe.runs hinv hwithin).2

theorem resolveKey_alone (hs : Rests p s) {key : Str} {r : Except LookupErr Key}
    (hrun : (resolveKey key).Runs ((sureMachine p).next p) s r s') : r = resolve s.db key := by
  obtain ⟨s₁, h₁, rfl⟩ := alone (Q := fun H r => ∃ s₁, H s₁ ∧ r = resolve s₁.db key)
    (fun _ _ _ hlook hne => resolveKey_triple hlook hne key) hs hrun
  rw [h₁.1]

theorem getACI_alone (hs : Rests p s) {name : Str} {labels : List (Str × Str)}
    {r : Except LookupErr Key} (hrun : (getACI name labels).Runs ((sureMachine p).next p) s r s') :
    Answers (Like s) name labels r :=
  alone (Q := fun H r => Answers H name labels r)
    (fun _ _ _ hlook _ => getACI_triple hlook name labels) hs hrun

end alone

end Rkt.Store
