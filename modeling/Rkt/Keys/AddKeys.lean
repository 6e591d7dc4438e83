import Mathlib.Data.List.TakeWhile
import Rkt.Conc.Sequential
import Rkt.Keys.Keystore

set_option autoImplicit false

namespace Rkt.Keys

open Conc Prog Path

inductive Stat where
  | found
  | notExist
  | failed
  deriving DecidableEq, Repr

inductive Op where
  /-- `os.Open(location)`. -/
  | openFile (location : Str)
  /-- `downloadKey(location)`. -/
  | download (location : Str)
  /-- `os.Stat`. -/
  | stat (path : List Str)
  /-- What the reader of one `reviewKey` has to offer, until there is an error. -/
  | input
  /-- `os.MkdirAll`. -/
  | mkdirAll (dir : List Str)
  /-- `ioutil.WriteFile`. -/
  | writeFile (path : List Str) (c : Content)
  deriving DecidableEq, Repr

def Op.Res : Op → Type
  | .openFile _ | .download _ => Option Content
  | .stat _ => Stat
  | .input => List Str
  | .mkdirAll _ | .writeFile _ _ => Bool

abbrev keySig : Sig := ⟨Op, Op.Res⟩

abbrev KeyProg := Prog keySig

abbrev sys (o : Op) : KeyProg o.Res := Prog.call (S := keySig) o

inductive AddErr where
  /-- Not an error but a panic: `could not get the key store`. -/
  | noKeystore
  /-- An error of `url.Parse`. -/
  | url
  /-- `--insecure-allow-http required for http URLs`. -/
  | insecure
  /-- `only http and https urls supported`. -/
  | unsupported
  /-- An error of `os.Open` or `downloadKey`. -/
  | unavailable
  /-- `error accessing the key %s: %v`. -/
  | accessing (pkl : Str) (e : AddErr)
  /-- An error of `openpgp.ReadArmoredKeyRing`, or `missing opengpg entity`. -/
  | keyRing
  /-- An error of `NewACIdentifier`. -/
  | identifier
  /-- `cannot check file %q: %v`. -/
  | checking (path : List Str)
  /-- `error reading the key %s: %v`. -/
  | reading (pkl : Str) (e : AddErr)
  /-- `error displaying the key %s: %v`. -/
  | displaying (pkl : Str)
  /-- `error reviewing key: %v`, after `error reading input: %v`. -/
  | reviewing
  /-- An error of `os.MkdirAll` or `ioutil.WriteFile`. -/
  | storing
  /-- `Error adding root key: %v`. -/
  | addingRoot (e : AddErr)
  /-- `Error adding key for prefix %q: %v`. -/
  | adding (pfx : Str) (e : AddErr)
  deriving DecidableEq, Repr

def http : Str := "http".toList
def https : Str := "https".toList

def obtained : Option Content → Except AddErr Content
  | none => .error .unavailable
  | some c => .ok c

def getPubKey (scheme location : Str) (allowHTTP : Bool) : KeyProg (Except AddErr Content) :=
  if scheme = [] then do return obtained (← sys (.openFile location))
  else if scheme = http ∧ allowHTTP = false then return .error .insecure
  else if scheme = http ∨ scheme = https then do return obtained (← sys (.download location))
  else return .error .unsupported

/-- `openpgp.ReadArmoredKeyRing`: the fingerprint of the first key. -/
def readArmoredKeyRing : Content → Except AddErr Str
  | .key fp => .ok fp
  | _ => .error .keyRing

/-- The loop of `TrustedKeyPrefixExists` over the places of a key. -/
def anyExists : List (List Str) → KeyProg (Except AddErr Bool)
  | [] => return .ok false
  | p :: ps => do
    match ← sys (.stat p) with
    | .found => return .ok true
    | .notExist => anyExists ps
    | .failed => return .error (.checking p)

def trustedKeyPrefixExists (ks : Config) (pfx : Str) (pk : Content) :
    KeyProg (Except AddErr Bool) :=
  match readArmoredKeyRing pk with
  | .error e => return .error e
  | .ok fileName =>
    if assertValid pfx then
      anyExists [clean (ks.localPrefixPath ++ split pfx ++ [fileName]),
        clean (ks.systemPrefixPath ++ split pfx ++ [fileName]),
        clean (ks.localRootPath ++ [fileName]), clean (ks.systemRootPath ++ [fileName])]
    else return .error .identifier

/-- The loop of `reviewKey` over the lines that are entered. -/
def review : List Str → Except AddErr Bool
  | [] => .error .reviewing
  | input :: rest =>
    if input = "yes\n".toList then .ok true
    else if input = "no\n".toList then .ok false
    else review rest

def reviewKey : KeyProg (Except AddErr Bool) := do return review (← sys .input)

def storeTrustedKey (dir : List Str) (pk : Content) : KeyProg (Except AddErr Unit) := do
  let made : Bool ← sys (.mkdirAll dir)
  if made then
    match readArmoredKeyRing pk with
    | .error e => return .error e
    | .ok fp =>
      let written : Bool ← sys (.writeFile (clean (dir ++ [fp])) pk)
      return if written then .ok () else .error .storing
  else return .error .storing

def storeTrustedKeyPrefix (ks : Config) (pfx : Str) (pk : Content) :
    KeyProg (Except AddErr Unit) :=
  if assertValid pfx then storeTrustedKey (clean (ks.localPrefixPath ++ split pfx)) pk
  else return .error .identifier

def storeTrustedKeyRoot (ks : Config) (pk : Content) : KeyProg (Except AddErr Unit) :=
  storeTrustedKey ks.localRootPath pk

/-- Store the key for the prefix, or for all images if there is none. -/
def storeKey (ks : Config) (pfx : Str) (pk : Content) : KeyProg (Except AddErr Unit) :=
  if pfx = [] then do return (← storeTrustedKeyRoot ks pk).mapError .addingRoot
  else do return (← storeTrustedKeyPrefix ks pfx pk).mapError (.adding pfx)

/-- What decides over a call of `addKeys`, apart from the locations and `forceAccept`:
the scheme that `url.Parse` finds in a location, `globalFlags.TrustKeysFromHttps`, and the other
arguments. -/
structure Settings where
  scheme : Str → Option Str
  trustKeysFromHttps : Bool
  pfx : Str
  allowHTTP : Bool
  allowOverride : Bool

def acceptKey (forceAccept : Bool) : KeyProg (Except AddErr Bool) :=
  if forceAccept then return .ok true else reviewKey

/-- `forceAccept` once a key of the given scheme has come this far. -/
def Settings.forceNow (c : Settings) (scheme : Str) (forceAccept : Bool) : Bool :=
  if c.trustKeysFromHttps && scheme = https then true else forceAccept

def addKeysLoop (c : Settings) (ks : Config) :
    List Str → (forceAccept : Bool) → KeyProg (Except AddErr Unit)
  | [], _ => return .ok ()
  | pkl :: pkls, forceAccept =>
    match c.scheme pkl with
    | none => return .error .url
    | some scheme => do
      match ← getPubKey scheme pkl c.allowHTTP with
      | .error e => return .error (.accessing pkl e)
      | .ok pk =>
        match ← trustedKeyPrefixExists ks c.pfx pk with
        | .error e => return .error (.reading pkl e)
        | .ok found =>
          -- displayKey
          match readArmoredKeyRing pk with
          | .error _ => return .error (.displaying pkl)
          | .ok _ =>
            if found && !c.allowOverride then addKeysLoop c ks pkls forceAccept
            else
              -- the variable keeps its value for the locations that follow
              match ← acceptKey (c.forceNow scheme forceAccept) with
              | .error e => return .error e
              | .ok false => addKeysLoop c ks pkls (c.forceNow scheme forceAccept)
              | .ok true =>
                match ← storeKey ks c.pfx pk with
                | .error e => return .error e
                | .ok () => addKeysLoop c ks pkls (c.forceNow scheme forceAccept)

/-- `addKeys`, with the outcome of `getKeystore`. -/
def addKeys (c : Settings) (getKeystore : Option Config) (pkls : List Str) (forceAccept : Bool) :
    KeyProg (Except AddErr Unit) :=
  match getKeystore with
  | none => return .error .noKeystore
  | some ks => addKeysLoop c ks pkls forceAccept

/-- The location of the key at hand, whether it was accepted in a review, and what has been
stored: from which location, and whether after a review. -/
structure Journal where
  location : Str
  accepted : Bool
  stored : List (Str × Bool)
  deriving DecidableEq, Repr

def Journal.start : Journal := ⟨[], false, []⟩

/-- The journal of an operation. A key counts as stored even if the file cannot be written. -/
def Journal.step : (o : Op) → o.Res → Journal → Option Journal
  | .openFile location, _, j => some { j with location, accepted := false }
  | .download location, _, j => some { j with location, accepted := false }
  | .input, lines, j => some { j with accepted := (review lines).toOption.getD false }
  | .writeFile _ _, _, j => some { j with stored := j.stored ++ [(j.location, j.accepted)] }
  | _, _, j => some j

/-- A key may be stored: it was reviewed, or the call forces it, or it comes from `https` and the
flag is set. -/
def Justified (c : Settings) (forceAccept : Bool) (e : Str × Bool) : Prop :=
  e.2 = true ∨ forceAccept = true ∨ c.trustKeysFromHttps = true ∧ c.scheme e.1 = some https

instance (c : Settings) (forceAccept : Bool) (e : Str × Bool) :
    Decidable (Justified c forceAccept e) := inferInstanceAs (Decidable (_ ∨ _))

def HttpsLast (c : Settings) (pkls : List Str) : Prop :=
  pkls.Pairwise fun l l' => c.scheme l = some https → c.scheme l' = some https

instance (c : Settings) (pkls : List Str) : Decidable (HttpsLast c pkls) :=
  inferInstanceAs (Decidable (pkls.Pairwise _))

/-- `getPubKey` does not refuse the location. -/
def Retrievable (c : Settings) (l : Str) : Prop :=
  c.scheme l = some [] ∨ c.scheme l = some http ∧ c.allowHTTP = true ∨ c.scheme l = some https

instance (c : Settings) (l : Str) : Decidable (Retrievable c l) :=
  inferInstanceAs (Decidable (_ ∨ _))

/-- The locations to which the loop can come: it stops at the first one that is refused. -/
def reached (c : Settings) (pkls : List Str) : List Str := pkls.takeWhile (Retrievable c ·)

theorem reached_cons {c : Settings} {pkl : Str} (h : Retrievable c pkl) (pkls : List Str) :
    reached c (pkl :: pkls) = pkl :: reached c pkls :=
  List.takeWhile_cons_of_pos (decide_eq_true h)

section

variable {c : Settings} {ks : Config} {force : Bool}

def Good (c : Settings) (force : Bool) (j : Journal) : Prop := ∀ e ∈ j.stored, Justified c force e

/-- The key at hand is that of `location`, and everything stored so far was justified. -/
def AtHand (c : Settings) (force : Bool) (location : Str) (j : Journal) : Prop :=
  Good c force j ∧ j.location = location

def Storable (c : Settings) (force : Bool) (j : Journal) : Prop :=
  Good c force j ∧ Justified c force (j.location, j.accepted)

theorem getPubKey_meets {scheme location : Str} {allowHTTP : Bool} :
    Meets Journal.step (Good c force) (getPubKey scheme location allowHTTP)
      (fun r j => Good c force j ∧ (r.isOk = true → j.location = location)) := by
  have hopen : ∀ o, o = .openFile location ∨ o = .download location →
      ∀ j (r : o.Res) j', Good c force j → Journal.step o r j = some j' →
        AtHand c force location j' := by
    rintro o (rfl | rfl) j r j' hj hstep <;>
    · cases hstep
      exact ⟨hj, rfl⟩
  refine Meets.ite (fun _ => ?_) fun _ => Meets.ite (fun _ => ?_) fun _ =>
    Meets.ite (fun _ => ?_) fun _ => ?_
  · refine Meets.bind (Meets.call (hopen _ (.inl rfl))) fun r => ?_
    exact Meets.ret fun j hj => ⟨hj.1, fun _ => hj.2⟩
  · exact Meets.ret fun j hj => ⟨hj, nofun⟩
  · refine Meets.bind (Meets.call (hopen _ (.inr rfl))) fun r => ?_
    exact Meets.ret fun j hj => ⟨hj.1, fun _ => hj.2⟩
  · exact Meets.ret fun j hj => ⟨hj, nofun⟩

theorem anyExists_meets {A : Journal → Prop} (ps : List (List Str)) :
    Meets Journal.step A (anyExists ps) (fun _ => A) := by
  induction ps with
  | nil => exact Meets.ret fun j hj => hj
  | cons p ps ih =>
    have hstat : Meets Journal.step A (sys (.stat p)) (fun _ => A) := by
      refine Meets.call fun j r j' hj hstep => ?_
      cases hstep
      exact hj
    refine Meets.bind hstat fun r => ?_
    cases r with
    | found => exact Meets.ret fun j hj => hj
    | notExist => exact ih
    | failed => exact Meets.ret fun j hj => hj

theorem trustedKeyPrefixExists_meets {A : Journal → Prop} {pfx : Str} {pk : Content} :
    Meets Journal.step A (trustedKeyPrefixExists ks pfx pk) (fun _ => A) := by
  unfold trustedKeyPrefixExists
  cases readArmoredKeyRing pk with
  | error e => exact Meets.ret fun j hj => hj
  | ok fileName =>
    exact Meets.ite (fun _ => anyExists_meets _) fun _ => Meets.ret fun j hj => hj

theorem reviewKey_meets {location : Str} : Meets Journal.step (AtHand c force location) reviewKey
      (fun r j => AtHand c force location j ∧ (r = .ok true → j.accepted = true)) := by
  have hinput : Meets Journal.step (AtHand c force location) (sys .input)
      (fun lines j => AtHand c force location j ∧
        j.accepted = (review lines).toOption.getD false) := by
    refine Meets.call fun j lines j' hj hstep => ?_
    cases hstep
    exact ⟨hj, rfl⟩
  refine Meets.bind hinput fun lines => Meets.ret fun j hj => ⟨hj.1, fun hyes => ?_⟩
  rw [hj.2, hyes]
  rfl

theorem storeTrustedKey_meets {dir : List Str} {pk : Content} :
    Meets Journal.step (Storable c force) (storeTrustedKey dir pk) (fun _ => Good c force) := by
  have hmkdir : Meets Journal.step (Storable c force) (sys (.mkdirAll dir))
      (fun _ => Storable c force) := by
    refine Meets.call fun j r j' hj hstep => ?_
    cases hstep
    exact hj
  have hwrite : ∀ path, Meets Journal.step (Storable c force) (sys (.writeFile path pk))
      (fun _ => Good c force) := by
    refine fun path => Meets.call fun j r j' hj hstep => ?_
    cases hstep
    intro e he
    rcases List.mem_append.mp he with he | he
    · exact hj.1 e he
    · rw [List.mem_singleton.mp he]
      exact hj.2
  refine Meets.bind hmkdir fun made => Meets.ite (fun _ => ?_) fun _ => ?_
  · cases readArmoredKeyRing pk with
    | error e => exact Meets.ret fun j hj => hj.1
    | ok fp => exact Meets.bind (hwrite _) fun written => Meets.ret fun j hj => hj
  · exact Meets.ret fun j hj => hj.1

theorem storeKey_meets {pfx : Str} {pk : Content} :
    Meets Journal.step (Storable c force) (storeKey ks pfx pk) (fun _ => Good c force) := by
  have hpfx : Meets Journal.step (Storable c force) (storeTrustedKeyPrefix ks pfx pk)
      (fun _ => Good c force) :=
    Meets.ite (fun _ => storeTrustedKey_meets) fun _ => Meets.ret fun j hj => hj.1
  refine Meets.ite (fun _ => ?_) fun _ => ?_
  · exact Meets.bind storeTrustedKey_meets fun r => Meets.ret fun j hj => hj
  · exact Meets.bind hpfx fun r => Meets.ret fun j hj => hj

/-- A key is accepted in a review, or because the review is switched off. -/
theorem acceptKey_meets {location : Str} {forceAccept : Bool}
    (hforce : forceAccept = true → Justified c force (location, false)) :
    Meets Journal.step (AtHand c force location) (acceptKey forceAccept)
      (fun r j => Good c force j ∧ (r = .ok true → Storable c force j)) := by
  refine Meets.ite (fun h => Meets.ret fun j hj => ⟨hj.1, fun _ => ⟨hj.1, ?_⟩⟩) fun _ => ?_
  · rw [hj.2]
    exact .inr ((hforce h).resolve_left nofun)
  · exact reviewKey_meets.post fun r j hj => ⟨hj.1.1, fun hyes => ⟨hj.1.1, .inl (hj.2 hyes)⟩⟩

/-- Once the review is switched off, it was the caller who did it, or only `https` locations
are left. -/
def Forced (c : Settings) (force : Bool) (pkls : List Str) (forceAccept : Bool) : Prop :=
  forceAccept = true → force = true ∨
    c.trustKeysFromHttps = true ∧ ∀ l ∈ pkls, c.scheme l = some https

theorem forced_tail {pkl : Str} {pkls : List Str} {forceAccept : Bool}
    (h : Forced c force (pkl :: pkls) forceAccept) : Forced c force pkls forceAccept :=
  fun hf => (h hf).imp_right fun h => ⟨h.1, fun l hl => h.2 l (List.mem_cons_of_mem _ hl)⟩

/-- It is switched off for an `https` location, and then only such locations are left. -/
theorem force_now {pkl : Str} {pkls : List Str} {scheme : Str} {forceAccept : Bool}
    (hscheme : c.scheme pkl = some scheme)
    (hlast : c.trustKeysFromHttps = true → HttpsLast c (pkl :: pkls))
    (h : Forced c force (pkl :: pkls) forceAccept) :
    Forced c force (pkl :: pkls) (c.forceNow scheme forceAccept) := by
  unfold Settings.forceNow
  split
  · rename_i htrust
    obtain ⟨htrust, hs⟩ := Bool.and_eq_true_iff.mp htrust
    have hhere : c.scheme pkl = some https := by rw [hscheme, of_decide_eq_true hs]
    refine fun _ => .inr ⟨htrust, fun l hl => ?_⟩
    rcases List.mem_cons.mp hl with rfl | hl
    · exact hhere
    · exact (List.pairwise_cons.mp (hlast htrust)).1 l hl hhere
  · exact h

theorem getPubKey_refused {l scheme : Str} (hs : c.scheme l = some scheme)
    (h : ¬ Retrievable c l) : ∃ e, getPubKey scheme l c.allowHTTP = return .error e := by
  simp only [Retrievable, hs, Option.some.injEq, not_or] at h
  unfold getPubKey
  rw [if_neg h.1]
  split_ifs with hinsecure hknown
  · exact ⟨_, rfl⟩
  · rcases hknown with rfl | rfl
    · simp_all
    · exact absurd rfl h.2.2
  · exact ⟨_, rfl⟩

/-- With a prefix that is not valid nothing is stored. -/
theorem addKeysLoop_invalid (hpfx : assertValid c.pfx = false) (pkls : List Str)
    (forceAccept : Bool) :
    Meets Journal.step (Good c force) (addKeysLoop c ks pkls forceAccept)
      (fun _ => Good c force) := by
  cases pkls with
  | nil => exact Meets.ret fun j hj => hj
  | cons pkl pkls =>
    unfold addKeysLoop
    cases c.scheme pkl with
    | none => exact Meets.ret fun j hj => hj
    | some scheme =>
      refine Meets.bind getPubKey_meets fun r => ?_
      cases r with
      | error e => exact Meets.ret fun j hj => hj.1
      | ok pk =>
        have hexists : ∃ e, trustedKeyPrefixExists ks c.pfx pk = return .error e := by
          unfold trustedKeyPrefixExists
          cases readArmoredKeyRing pk with
          | error e => exact ⟨_, rfl⟩
          | ok fileName => exact ⟨_, by rw [hpfx]; rfl⟩
        obtain ⟨e, he⟩ := hexists
        simp only [he]
        exact Meets.ret fun j hj => hj.1

theorem addKeysLoop_meets {pkls : List Str}
    (hlast : c.trustKeysFromHttps = true → HttpsLast c (reached c pkls)) :
    ∀ {forceAccept : Bool}, Forced c force (reached c pkls) forceAccept →
      Meets Journal.step (Good c force) (addKeysLoop c ks pkls forceAccept)
        (fun _ => Good c force) := by
  induction pkls with
  | nil => exact fun _ => Meets.ret fun j hj => hj
  | cons pkl pkls ih =>
    intro forceAccept hforce
    unfold addKeysLoop
    cases hscheme : c.scheme pkl with
    | none => exact Meets.ret fun j hj => hj
    | some scheme =>
      by_cases hget : Retrievable c pkl
      swap
      · obtain ⟨e, he⟩ := getPubKey_refused hscheme hget
        simp only [he]
        exact Meets.ret fun j hj => hj
      rw [reached_cons hget] at hlast hforce
      have ih := @ih fun htrust => (List.pairwise_cons.mp (hlast htrust)).2
      refine Meets.bind getPubKey_meets fun r => ?_
      cases r with
      | error e => exact Meets.ret fun j hj => hj.1
      | ok pk =>
        refine Meets.bind (Meets.pre trustedKeyPrefixExists_meets
          fun j hj => (⟨hj.1, hj.2 rfl⟩ : AtHand c force pkl j)) fun r => ?_
        cases r with
        | error e => exact Meets.ret fun j hj => hj.1
        | ok found =>
          cases readArmoredKeyRing pk with
          | error e => exact Meets.ret fun j hj => hj.1
          | ok fp =>
            refine Meets.ite
              (fun _ => (ih (forced_tail hforce)).pre fun j hj => hj.1) fun _ => ?_
            have hnow := force_now hscheme hlast hforce
            have ihnow := ih (forced_tail hnow)
            refine Meets.bind (acceptKey_meets fun h => ?_) fun r => ?_
            · exact .inr ((hnow h).imp_right fun h => ⟨h.1, h.2 pkl List.mem_cons_self⟩)
            · rcases r with e | _ | _
              · exact Meets.ret fun j hj => hj.1
              · exact ihnow.pre fun j hj => hj.1
              · refine Meets.bind (storeKey_meets.pre fun j hj => hj.2 rfl) fun r => ?_
                cases r with
                | error e => exact Meets.ret fun j hj => hj
                | ok _ => exact ihnow

end

theorem good_start (c : Settings) (force : Bool) : Good c force Journal.start := nofun

theorem addKeysLoop_good {c : Settings} {ks : Config} {pkls : List Str}
    (hlast : c.trustKeysFromHttps = true → HttpsLast c (reached c pkls)) {r : Except AddErr Unit}
    {j : Journal} (hr : (addKeysLoop c ks pkls false).Runs Journal.step Journal.start r j) :
    Good c false j := by
  have hforced : Forced c false (reached c pkls) false := nofun
  exact addKeysLoop_meets hlast hforced _ r j (good_start c false) hr

/-- Every location has a key that the keystore does not have yet, every review ends with yes,
and nothing fails. -/
def goesWell : (o : Op) → Journal → o.Res
  | .openFile _, _ => some (.key ['f'])
  | .download _, _ => some (.key ['f'])
  | .stat _, _ => Stat.notExist
  | .input, _ => ["yes\n".toList]
  | .mkdirAll _, _ => true
  | .writeFile _ _, _ => true

/-- What is stored then, and whether after a review. -/
def fate (c : Settings) : Bool → List Str → List (Str × Bool)
  | _, [] => []
  | forceAccept, l :: ls =>
    let forceAccept := c.forceNow ((c.scheme l).getD []) forceAccept
    (l, !forceAccept) :: fate c forceAccept ls

section

variable {c : Settings} {ks : Config} {j : Journal}

theorem Retrievable.scheme {l : Str} (h : Retrievable c l) :
    ∃ scheme, c.scheme l = some scheme := by
  rcases h with h | ⟨h, -⟩ | h <;> exact ⟨_, h⟩

theorem forceNow_true (scheme : Str) : c.forceNow scheme true = true := by
  unfold Settings.forceNow
  split <;> rfl

theorem getPubKey_eq {l : Str} {scheme : Str} (hs : c.scheme l = some scheme)
    (h : Retrievable c l) :
    getPubKey scheme l c.allowHTTP = (do return obtained (← sys (.openFile l))) ∨
      getPubKey scheme l c.allowHTTP = (do return obtained (← sys (.download l))) := by
  have hne : http ≠ [] ∧ https ≠ [] ∧ https ≠ http := by decide
  rcases h with h | ⟨h, hallow⟩ | h
  · obtain rfl : scheme = [] := Option.some.inj (hs.symm.trans h)
    exact .inl rfl
  · obtain rfl : scheme = http := Option.some.inj (hs.symm.trans h)
    right
    simp only [getPubKey, hne.1, if_false, hallow, Bool.true_eq_false, and_false, true_or, if_true]
  · obtain rfl : scheme = https := Option.some.inj (hs.symm.trans h)
    right
    simp only [getPubKey, hne.2, if_false, false_and, or_true, if_true]

theorem getPubKey_eval {l : Str} {scheme : Str} (hs : c.scheme l = some scheme)
    (h : Retrievable c l) :
    (getPubKey scheme l c.allowHTTP).eval Journal.step goesWell j =
      some (.ok (.key ['f']), { j with location := l, accepted := false }) := by
  rcases getPubKey_eq hs h with heq | heq
  · rw [heq]
    rfl
  · rw [heq]
    rfl

theorem trustedKeyPrefixExists_eval {pfx : Str} (h : assertValid pfx = true) :
    (trustedKeyPrefixExists ks pfx (.key ['f'])).eval Journal.step goesWell j =
      some (.ok false, j) := by
  simp only [trustedKeyPrefixExists, readArmoredKeyRing, h, if_true]
  rfl

theorem acceptKey_eval {forceAccept : Bool} (hj : j.accepted = false) :
    (acceptKey forceAccept).eval Journal.step goesWell j =
      some (.ok true, { j with accepted := !forceAccept }) := by
  cases forceAccept with
  | true =>
    obtain ⟨location, accepted, stored⟩ := j
    subst hj
    rfl
  | false => rfl

theorem storeKey_eval {pfx : Str} (h : assertValid pfx = true) :
    (storeKey ks pfx (.key ['f'])).eval Journal.step goesWell j =
      some (.ok (), { j with stored := j.stored ++ [(j.location, j.accepted)] }) := by
  have hne : pfx ≠ [] := by
    rintro rfl
    cases h
  simp only [storeKey, hne, if_false, storeTrustedKeyPrefix, h, if_true]
  rfl

/-- The loop when everything goes well, by induction on the locations. -/
theorem addKeysLoop_eval (hpfx : assertValid c.pfx = true) (pkls : List Str) :
    ∀ {forceAccept : Bool} {j : Journal},
    ∃ r j', (addKeysLoop c ks pkls forceAccept).eval Journal.step goesWell j = some (r, j') ∧
      j'.stored = j.stored ++ fate c forceAccept (reached c pkls) ∧
      (reached c pkls = pkls → r = .ok ()) := by
  induction pkls with
  | nil => exact fun {_ j} => ⟨.ok (), j, rfl, by simp [fate, reached], fun _ => rfl⟩
  | cons l ls ih =>
    intro forceAccept j
    by_cases hl : Retrievable c l
    swap
    · have hreached : reached c (l :: ls) = [] :=
        List.takeWhile_cons_of_neg (by simpa using hl)
      have hstop : ∃ e, addKeysLoop c ks (l :: ls) forceAccept = return .error e := by
        unfold addKeysLoop
        cases hs : c.scheme l with
        | none => exact ⟨_, rfl⟩
        | some scheme =>
          obtain ⟨e, he⟩ := getPubKey_refused hs hl
          exact ⟨_, by simp only [he]; rfl⟩
      obtain ⟨e, he⟩ := hstop
      refine ⟨.error e, j, by rw [he, eval_pure], by simp [hreached, fate], fun h => ?_⟩
      rw [hreached] at h
      cases h
    obtain ⟨scheme, hs⟩ := hl.scheme
    obtain ⟨r, j', hj', hstored, hr⟩ := @ih (c.forceNow scheme forceAccept)
      ⟨l, !c.forceNow scheme forceAccept,
        j.stored ++ [(l, !c.forceNow scheme forceAccept)]⟩
    rw [reached_cons hl]
    refine ⟨r, j', ?_, ?_, fun h => hr (List.cons.inj h).2⟩
    · simp only [addKeysLoop, hs, eval_bind, getPubKey_eval hs hl, Option.bind_some,
        trustedKeyPrefixExists_eval hpfx, readArmoredKeyRing, Bool.false_and,
        Bool.false_eq_true, if_false, acceptKey_eval, storeKey_eval hpfx]
      exact hj'
    · rw [hstored]
      simp [fate, hs]

theorem fate_true (ls : List Str) : fate c true ls = ls.map fun l => (l, false) := by
  induction ls with
  | nil => rfl
  | cons l ls ih => simp [fate, forceNow_true, ih]

theorem httpsLast_of_fate (htrust : c.trustKeysFromHttps = true) {pkls : List Str} :
    ∀ {forceAccept : Bool}, (∀ e ∈ fate c forceAccept pkls, Justified c false e) →
      HttpsLast c pkls := by
  induction pkls with
  | nil => exact fun _ => List.Pairwise.nil
  | cons l ls ih =>
    intro forceAccept h
    refine List.pairwise_cons.mpr ⟨fun l' hl' hs => ?_,
      ih fun e he => h e (List.mem_cons_of_mem _ he)⟩
    have hnow : c.forceNow ((c.scheme l).getD []) forceAccept = true := by
      simp [Settings.forceNow, htrust, hs]
    have hmem : (l', false) ∈ fate c forceAccept (l :: ls) := by
      simp only [fate, hnow, fate_true]
      exact List.mem_cons_of_mem _ (List.mem_map.mpr ⟨l', hl', rfl⟩)
    rcases h _ hmem with hyes | hforce | ⟨-, hs'⟩
    · cases hyes
    · cases hforce
    · exact hs'

theorem httpsLast_of_reviewed (hpfx : assertValid c.pfx = true)
    (htrust : c.trustKeysFromHttps = true) {pkls : List Str}
    (h : ∀ r j, (addKeys c (some ks) pkls false).Runs Journal.step Journal.start r j →
      ∀ e ∈ j.stored, Justified c false e) : HttpsLast c (reached c pkls) := by
  obtain ⟨r, j, hj, hstored, -⟩ := @addKeysLoop_eval c ks hpfx pkls false Journal.start
  have hfate : ∀ e ∈ fate c false (reached c pkls), Justified c false e := fun e he =>
    h r j (runs_of_eval goesWell hj) e (by rw [hstored]; exact List.mem_append_right _ he)
  exact httpsLast_of_fate htrust hfate

/-- **Keys are stored after a review**, or because the call or the flag says that they need none,
if and only if no other scheme comes after `https` while the flag is set, among the locations to
which the loop can come; or if there is no keystore, or no valid prefix, or if the call says that no
key needs a review. -/
theorem stored_keys_reviewed (c : Settings) (getKeystore : Option Config) (pkls : List Str)
    (forceAccept : Bool) :
    (∀ r j, (addKeys c getKeystore pkls forceAccept).Runs Journal.step Journal.start r j →
      ∀ e ∈ j.stored, Justified c forceAccept e) ↔
    getKeystore = none ∨ assertValid c.pfx = false ∨ forceAccept = true ∨
      c.trustKeysFromHttps = false ∨ HttpsLast c (reached c pkls) := by
  constructor
  · intro h
    by_contra hnot
    simp only [not_or, Bool.not_eq_false, Bool.not_eq_true] at hnot
    obtain ⟨hks, hpfx, rfl, htrust, hlast⟩ := hnot
    obtain ⟨ks, rfl⟩ := Option.ne_none_iff_exists'.mp hks
    exact hlast (httpsLast_of_reviewed hpfx htrust h)
  · intro h r j hr
    cases getKeystore with
    | none =>
      obtain ⟨-, rfl⟩ := hr
      exact good_start c forceAccept
    | some ks =>
      rcases h with h | hpfx | rfl | htrust | hlast
      · cases h
      · exact addKeysLoop_invalid hpfx pkls forceAccept _ r j (good_start c forceAccept) hr
      · exact fun _ _ => .inr (.inl rfl)
      · cases forceAccept with
        | true => exact fun _ _ => .inr (.inl rfl)
        | false => exact addKeysLoop_good (fun h => by rw [htrust] at h; cases h) hr
      · cases forceAccept with
        | true => exact fun _ _ => .inr (.inl rfl)
        | false => exact addKeysLoop_good (fun _ => hlast) hr

/-- The condition is the weakest one: any other list, of locations that can be retrieved, has a
run in which a key is stored that was not reviewed and should have been. -/
theorem reviewed_iff_httpsLast (hpfx : assertValid c.pfx = true)
    (htrust : c.trustKeysFromHttps = true) {pkls : List Str} (hget : ∀ l ∈ pkls, Retrievable c l) :
    (∀ r j, (addKeys c (some ks) pkls false).Runs Journal.step Journal.start r j →
      ∀ e ∈ j.stored, Justified c false e) ↔ HttpsLast c pkls := by
  have hall : reached c pkls = pkls :=
    List.takeWhile_eq_self_iff.mpr fun l hl => decide_eq_true (hget l hl)
  rw [← hall]
  constructor
  · intro h
    rw [hall] at h
    exact httpsLast_of_reviewed hpfx htrust h
  · intro hlast r j hr
    rw [hall] at hr
    exact addKeysLoop_good (fun _ => hlast) hr

end

def httpsKey : Str := "https://example.com/pubkeys.gpg".toList
def localKey : Str := "/tmp/key.gpg".toList

/-- Keys for `example.com`, with `TrustKeysFromHttps`. -/
def exampleSettings : Settings where
  scheme l := if l = httpsKey then some https else some []
  trustKeysFromHttps := true
  pfx := "example.com".toList
  allowHTTP := false
  allowOverride := true

def exampleConfig : Config where
  localRootPath := ["l".toList, "root.d".toList]
  localPrefixPath := ["l".toList, "prefix.d".toList]
  systemRootPath := ["s".toList, "root.d".toList]
  systemPrefixPath := ["s".toList, "prefix.d".toList]

theorem stored_keys_reviewed_local_first : ∃ j,
    (addKeys exampleSettings (some exampleConfig) [localKey, httpsKey] false).Runs Journal.step
      Journal.start (.ok ()) j ∧
    j.stored = [(localKey, true), (httpsKey, false)] ∧
    ∀ e ∈ j.stored, Justified exampleSettings false e := by
  obtain ⟨r, j, hj, hstored, hr⟩ := @addKeysLoop_eval exampleSettings exampleConfig (by decide)
    [localKey, httpsKey] false Journal.start
  obtain rfl := hr (by decide)
  have hrun : (addKeys exampleSettings (some exampleConfig) [localKey, httpsKey] false).Runs
      Journal.step Journal.start (.ok ()) j := runs_of_eval goesWell hj
  have hlast : HttpsLast exampleSettings (reached exampleSettings [localKey, httpsKey]) := by
    decide
  exact ⟨j, hrun, by rw [hstored]; rfl, (stored_keys_reviewed exampleSettings (some exampleConfig)
    _ false).mpr (.inr (.inr (.inr (.inr hlast)))) _ j hrun⟩

/-- **A local key that nobody has reviewed.** It comes after an `https` location, `forceAccept` is
not set, and it is stored. -/
theorem local_key_not_reviewed : ∃ j,
    (addKeys exampleSettings (some exampleConfig) [httpsKey, localKey] false).Runs Journal.step
      Journal.start (.ok ()) j ∧
    (localKey, false) ∈ j.stored ∧ exampleSettings.scheme localKey = some [] := by
  obtain ⟨r, j, hj, hstored, hr⟩ := @addKeysLoop_eval exampleSettings exampleConfig (by decide)
    [httpsKey, localKey] false Journal.start
  obtain rfl := hr (by decide)
  have hfate : j.stored = [(httpsKey, false), (localKey, false)] := by rw [hstored]; rfl
  exact ⟨j, runs_of_eval goesWell hj, by rw [hfate]; simp, by decide⟩

theorem reviewed_iff_httpsLast_https_first : ¬ ∀ r j,
    (addKeys exampleSettings (some exampleConfig) [httpsKey, localKey] false).Runs Journal.step
      Journal.start r j → ∀ e ∈ j.stored, Justified exampleSettings false e := fun h =>
  absurd ((reviewed_iff_httpsLast (by decide) rfl (by decide)).mp h) (by decide)

end Rkt.Keys
