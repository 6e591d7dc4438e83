import Mathlib.Tactic
import Rkt.Code.Result

set_option autoImplicit false

namespace Rkt.Apps

open Result

abbrev Str := List Char

/-- `apps.App`, as far as the command line says it. -/
structure App where
  image : Str
  args : List Str
  asc : Str
  deriving DecidableEq, Repr

/-- `al.Create`. -/
def create (al : List App) (img : Str) : List App := al ++ [⟨img, [], []⟩]

def modifyLast (f : App → App) (al : List App) : List App :=
  match al.getLast? with
  | none => al
  | some app => al.dropLast ++ [f app]

inductive SetErr where
  /-- `--signature must follow an image`. -/
  | noImage
  /-- `--signature specified multiple times for the same image`. -/
  | twice
  deriving DecidableEq, Repr

/-- `appAsc.Set`. -/
def setAsc (al : List App) (s : Str) : Except SetErr (List App) :=
  match al.getLast? with
  | none => .error .noImage
  | some app => if app.asc ≠ [] then .error .twice else .ok (modifyLast ({ · with asc := s }) al)

inductive FlagErr where
  /-- `bad flag syntax: %s`. -/
  | badSyntax (s : Str)
  /-- `pflag.ErrHelp`. -/
  | help
  /-- `unknown flag: --%s`. -/
  | unknown (name : Str)
  /-- `unknown shorthand flag: %q in -%s`. -/
  | unknownShorthand (c : Char) (shorthands : Str)
  /-- `flag needs an argument: %s`. -/
  | needsArgument (s : Str)
  /-- `invalid argument %q for %s: %v`. -/
  | invalid (value origArg : Str) (e : SetErr)
  deriving DecidableEq, Repr

/-- `--` -/
def dashes : Str := ['-', '-']

/-- `---` -/
def tripleDashes : Str := ['-', '-', '-']

def signature : Str := "signature".toList

def setFlag (al : List App) (value origArg : Str) : Except FlagErr (List App) :=
  (setAsc al value).mapError (.invalid value origArg)

/-- The first half of `parseLongArg`: the value of the flag, if it is in the same argument. -/
def longArg (s : Str) : Except FlagErr (Option Str) :=
  let name := s.drop 2
  if name = [] ∨ name.head? = some '-' ∨ name.head? = some '=' then .error (.badSyntax s)
  else
    let split := name.span (· ≠ '=')
    if split.1 = signature then .ok (if split.2 = [] then none else some split.2.tail)
    else if split.1 = "help".toList then .error .help
    else .error (.unknown split.1)

/-- `parseShortArg`; there are no flags with a shorthand. -/
def shortArg (s : Str) : FlagErr :=
  if (s.drop 1).head? = some 'h' then .help
  else .unknownShorthand ((s.drop 1).headD ' ') (s.drop 1)

/-- `parseArgs`, without interspersed arguments: the arguments that are left over. A flag may be
waiting for its value, which is the next argument. -/
def parseArgs : Option Str → List Str → List App → Except FlagErr (List Str × List App)
  | none, [], al => .ok ([], al)
  | some flag, [], _ => .error (.needsArgument flag)
  | some flag, value :: args, al =>
    match setFlag al value flag with
    | .error e => .error e
    | .ok al' => parseArgs none args al'
  | none, s :: args, al =>
    if s.length ≤ 1 ∨ s.head? ≠ some '-' then .ok (s :: args, al)
    else if s = dashes then .ok (args, al)
    else if (s.drop 1).head? ≠ some '-' then .error (shortArg s)
    else
      match longArg s with
      | .error e => .error e
      | .ok none => parseArgs (some s) args al
      | .ok (some value) =>
        match setFlag al value s with
        | .error e => .error e
        | .ok al' => parseArgs none args al'

inductive ParseErr where
  /-- `app arguments unsupported`. -/
  | unsupported
  /-- `an image is required before any app arguments`. -/
  | noImage
  /-- `only one set of app arguments allowed per image`. -/
  | twice
  | flags (e : FlagErr)
  deriving DecidableEq, Repr

structure Scan where
  al : List App
  nAppsLastAppArgs : Nat
  inAppArgs : Bool
  deriving DecidableEq, Repr

/-- The loop, for the arguments from `i` on, of which the first few have been consumed. -/
def loop (allowAppArgs : Bool) : Nat → List Str → Scan → Except ParseErr Scan
  | _, [], st => .ok st
  | skip + 1, _ :: args, st => loop allowAppArgs skip args st
  | 0, a :: args, st =>
    if st.inAppArgs then
      if a = tripleDashes then loop allowAppArgs 0 args { st with inAppArgs := false }
      else
        loop allowAppArgs 0 args
          { st with al := modifyLast (fun app => { app with args := app.args ++ [a] }) st.al }
    else if a = dashes then
      if !allowAppArgs then .error .unsupported
      else if st.nAppsLastAppArgs = st.al.length then
        if st.al.length = 0 then .error .noImage else .error .twice
      else
        loop allowAppArgs 0 args
          { st with inAppArgs := true, nAppsLastAppArgs := st.al.length }
    else if a = tripleDashes then loop allowAppArgs 0 args st
    else
      match parseArgs none (a :: args) st.al with
      | .error e => .error (.flags e)
      | .ok (rest, al) =>
        let nInterFlags := (a :: args).length - rest.length
        if nInterFlags > 0 then
          -- a `--` that was consumed is given back
          let n :=
            if (a :: args)[nInterFlags - 1]? = some dashes then nInterFlags - 1
            else nInterFlags
          loop allowAppArgs (n - 1) args { st with al := al }
        else loop allowAppArgs 0 args { st with al := create al a }

def parseApps (al : List App) (args : List Str) (allowAppArgs : Bool) :
    Except ParseErr (List App) :=
  (loop allowAppArgs 0 args ⟨al, al.length, false⟩).map Scan.al

structure Image where
  text : Str
  ne_nil : text ≠ []
  dash : text.head? ≠ some '-'
  deriving DecidableEq, Repr

structure Group where
  args : List Str
  closed : tripleDashes ∉ args
  deriving DecidableEq, Repr

inductive Segment where
  | image (i : Image)
  | signature (value : Str)
  | group (g : Group)
  deriving DecidableEq, Repr

def signatureFlag : Str := dashes ++ signature

def Segment.args : Segment → List Str
  | .image i => [i.text]
  | .signature value => [signatureFlag, value]
  | .group g => dashes :: (g.args ++ [tripleDashes])

def render (segs : List Segment) : List Str := segs.flatMap Segment.args

inductive Follow where
  | nothing
  | signature (value : Str)
  | group (g : Group)
  | signatureGroup (value : Str) (g : Group)
  | groupSignature (g : Group) (value : Str)
  deriving DecidableEq, Repr

structure Block where
  image : Image
  follow : Follow
  deriving DecidableEq, Repr

def Follow.segments : Follow → List Segment
  | .nothing => []
  | .signature value => [.signature value]
  | .group g => [.group g]
  | .signatureGroup value g => [.signature value, .group g]
  | .groupSignature g value => [.group g, .signature value]

def Follow.args : Follow → List Str
  | .nothing | .signature _ => []
  | .group g | .signatureGroup _ g | .groupSignature g _ => g.args

def Follow.asc : Follow → Str
  | .nothing | .group _ => []
  | .signature value | .signatureGroup value _ | .groupSignature _ value => value

def Block.segments (b : Block) : List Segment := .image b.image :: b.follow.segments

def Block.app (b : Block) : App := ⟨b.image.text, b.follow.args, b.follow.asc⟩

def commandLine (bs : List Block) : List Str := render (bs.flatMap Block.segments)

/-- A signature `--` does no harm: it is followed by a list of arguments, or nothing at all is
behind it and its image has no arguments. -/
def Follow.harmless (last : Bool) : Follow → Bool
  | .signature value => value ≠ dashes || last
  | .groupSignature _ value => value ≠ dashes
  | .nothing | .group _ | .signatureGroup _ _ => true

def harmless : List Block → Bool
  | [] => true
  | b :: bs => b.follow.harmless bs.isEmpty && harmless bs

theorem modifyLast_concat (f : App → App) (al : List App) (app : App) :
    modifyLast f (al ++ [app]) = al ++ [f app] := by
  simp [modifyLast]

theorem Image.ne_dashes (i : Image) : i.text ≠ dashes :=
  fun h => i.dash (by rw [h]; rfl)

theorem Image.ne_tripleDashes (i : Image) : i.text ≠ tripleDashes :=
  fun h => i.dash (by rw [h]; rfl)

theorem parseArgs_image (i : Image) (args : List Str) (al : List App) :
    parseArgs none (i.text :: args) al = .ok (i.text :: args, al) := by
  rw [parseArgs, if_pos (.inr i.dash)]

theorem parseArgs_dashes (args : List Str) (al : List App) :
    parseArgs none (dashes :: args) al = .ok (args, al) := by
  rw [parseArgs, if_neg (by decide), if_pos rfl]

theorem parseArgs_signature {value : Str} {args : List Str} {al al' : List App}
    (h : setAsc al value = .ok al') :
    parseArgs none (signatureFlag :: value :: args) al = parseArgs none args al' := by
  have hlong : longArg signatureFlag = .ok none := by decide
  have hset : setFlag al value signatureFlag = .ok al' := by
    rw [setFlag, h]
    rfl
  rw [parseArgs, if_neg (by decide), if_neg (by decide), if_neg (by decide), hlong]
  show parseArgs (some signatureFlag) (value :: args) al = _
  rw [parseArgs, hset]

variable {al : List App} {n : Nat} {args : List Str} {app : App}

theorem loop_image (i : Image) : loop true 0 (i.text :: args) ⟨al, n, false⟩ =
      loop true 0 args ⟨al ++ [⟨i.text, [], []⟩], n, false⟩ := by
  rw [loop, if_neg (by simp), if_neg i.ne_dashes, if_neg i.ne_tripleDashes, parseArgs_image]
  simp [create]

theorem loop_inAppArgs (as : List Str) (h : tripleDashes ∉ as) :
    loop true 0 (as ++ args) ⟨al ++ [app], n, true⟩ =
      loop true 0 args ⟨al ++ [{ app with args := app.args ++ as }], n, true⟩ := by
  induction as generalizing app with
  | nil => simp
  | cons a as ih =>
    have ha : a ≠ tripleDashes := fun heq => h (heq ▸ List.mem_cons_self)
    have hrest : tripleDashes ∉ as := fun hmem => h (List.mem_cons_of_mem a hmem)
    rw [List.cons_append, loop, if_pos rfl, if_neg ha, modifyLast_concat, ih hrest]
    simp

theorem loop_tripleDashes :
    loop true 0 (tripleDashes :: args) ⟨al, n, true⟩ = loop true 0 args ⟨al, n, false⟩ := by
  rw [loop, if_pos rfl, if_pos rfl]

theorem loop_dashes (hn : n < al.length) :
    loop true 0 (dashes :: args) ⟨al, n, false⟩ = loop true 0 args ⟨al, al.length, true⟩ := by
  have hne : n ≠ al.length := Nat.ne_of_lt hn
  rw [loop, if_neg (by simp), if_pos rfl, if_neg (by simp), if_neg hne]

theorem loop_group (g : Group) (app : App) (args : List Str) (hn : n ≤ al.length) :
    loop true 0 ((Segment.group g).args ++ args) ⟨al ++ [app], n, false⟩ =
      loop true 0 args
        ⟨al ++ [{ app with args := app.args ++ g.args }], al.length + 1, false⟩ := by
  rw [Segment.args, List.cons_append, loop_dashes (by simp; omega), List.append_assoc,
    loop_inAppArgs g.args g.closed, List.singleton_append, loop_tripleDashes]
  simp

inductive Next : List Str → Prop where
  | nil : Next []
  | image (i : Image) (args : List Str) : Next (i.text :: args)

theorem setAsc_concat (h : app.asc = []) (value : Str) :
    setAsc (al ++ [app]) value = .ok (al ++ [{ app with asc := value }]) := by
  simp [setAsc, h, modifyLast_concat]

theorem Next.parseArgs (h : Next args) (al : List App) :
    parseArgs none args al = .ok (args, al) := by
  cases h with
  | nil => rfl
  | image i args => exact parseArgs_image i args al

/-- A signature in front of an image, or at the end: if it is `--` it is read again. -/
theorem loop_signature (h : Next args) (happ : app.asc = []) (value : Str) :
    loop true 0 (signatureFlag :: value :: args) ⟨al ++ [app], n, false⟩ =
      loop true 0 (if value = dashes then dashes :: args else args)
        ⟨al ++ [{ app with asc := value }], n, false⟩ := by
  rw [loop, if_neg (by simp), if_neg (by decide), if_neg (by decide),
    parseArgs_signature (setAsc_concat happ value), h.parseArgs]
  have hcount : (signatureFlag :: value :: args).length - args.length = 2 := by
    simp only [List.length_cons]
    omega
  simp only [hcount]
  by_cases hvalue : value = dashes
  · simp [hvalue]
  · simp [hvalue, loop]

theorem loop_signature_dashes (happ : app.asc = []) (value : Str) :
    loop true 0 (signatureFlag :: value :: dashes :: args) ⟨al ++ [app], n, false⟩ =
      loop true 0 (dashes :: args) ⟨al ++ [{ app with asc := value }], n, false⟩ := by
  rw [loop, if_neg (by simp), if_neg (by decide), if_neg (by decide),
    parseArgs_signature (setAsc_concat happ value), parseArgs_dashes]
  have hcount : (signatureFlag :: value :: dashes :: args).length - args.length = 3 := by
    simp only [List.length_cons]
    omega
  simp only [hcount]
  simp [loop]

/-- Every app is still there, and has at least the arguments that it had. -/
def Grows (al al' : List App) : Prop :=
  ∀ (k : Nat) (app : App), al[k]? = some app →
    ∃ app' : App, al'[k]? = some app' ∧ app.args <+: app'.args

theorem Grows.refl (al : List App) : Grows al al := fun _ app h => ⟨app, h, List.prefix_rfl⟩

theorem Grows.trans {al1 al2 al3 : List App} (h1 : Grows al1 al2) (h2 : Grows al2 al3) :
    Grows al1 al3 := by
  intro k app hk
  obtain ⟨app2, hk2, hle2⟩ := h1 k app hk
  obtain ⟨app3, hk3, hle3⟩ := h2 k app2 hk2
  exact ⟨app3, hk3, hle2.trans hle3⟩

theorem grows_create (al : List App) (img : Str) : Grows al (create al img) := by
  intro k app hk
  have hlt : k < al.length := (List.getElem?_eq_some_iff.mp hk).1
  exact ⟨app, by rw [create, List.getElem?_append_left hlt, hk], List.prefix_rfl⟩

theorem grows_modifyLast {f : App → App} (hf : ∀ app, app.args <+: (f app).args)
    (al : List App) : Grows al (modifyLast f al) := by
  rcases List.eq_nil_or_concat al with rfl | ⟨al, last, rfl⟩
  · exact Grows.refl _
  · rw [List.concat_eq_append, modifyLast_concat]
    intro k app hk
    by_cases hlt : k < al.length
    · rw [List.getElem?_append_left hlt] at hk ⊢
      exact ⟨app, hk, List.prefix_rfl⟩
    · rw [List.getElem?_append_right (by omega)] at hk ⊢
      have hzero : k - al.length = 0 := by
        have hk' := (List.getElem?_eq_some_iff.mp hk).1
        simp only [List.length_singleton] at hk'
        omega
      rw [hzero] at hk ⊢
      cases hk
      exact ⟨f last, rfl, hf last⟩

theorem grows_setFlag {al' : List App} {value flag : Str}
    (h : setFlag al value flag = .ok al') : Grows al al' := by
  unfold setFlag setAsc at h
  split at h
  · cases h
  · split_ifs at h
    · cases h
    · cases h
      refine grows_modifyLast ?_ al
      intro app
      exact List.prefix_rfl

theorem grows_parseArgs {flag : Option Str} {rest : List Str} {al' : List App}
    (h : parseArgs flag args al = .ok (rest, al')) : Grows al al' := by
  fun_induction parseArgs flag args al with
  | case1 al =>
    cases h
    exact Grows.refl _
  | case2 => cases h
  | case3 => cases h
  | case4 al flag value args al1 hset ih => exact (grows_setFlag hset).trans (ih h)
  | case5 al s args hs =>
    cases h
    exact Grows.refl _
  | case6 al args hs =>
    cases h
    exact Grows.refl _
  | case7 => cases h
  | case8 => cases h
  | case9 al s args _ _ _ _ ih => exact ih h
  | case10 => cases h
  | case11 al s args _ _ _ value _ al1 hset ih => exact (grows_setFlag hset).trans (ih h)

theorem grows_loop {allow : Bool} {skip : Nat} {st st' : Scan}
    (h : loop allow skip args st = .ok st') : Grows st.al st'.al := by
  induction args generalizing skip st with
  | nil =>
    rw [loop] at h
    cases h
    exact Grows.refl _
  | cons a args ih =>
    cases skip with
    | succ skip =>
      rw [loop] at h
      exact ih h
    | zero =>
      rw [loop] at h
      split_ifs at h
      · have hrest := ih h
        exact hrest
      · refine Grows.trans (grows_modifyLast ?_ st.al) (ih h)
        intro app
        exact List.prefix_append _ _
      · have hrest := ih h
        exact hrest
      · exact ih h
      · cases hp : parseArgs none (a :: args) st.al with
        | error e =>
          rw [hp] at h
          cases h
        | ok r =>
          rw [hp] at h
          dsimp only at h
          have hparse := grows_parseArgs hp
          split_ifs at h
          · exact hparse.trans (ih h)
          · exact hparse.trans (ih h)
          · exact (hparse.trans (grows_create _ a)).trans (ih h)

theorem commandLine_cons (b : Block) (bs : List Block) :
    commandLine (b :: bs) = b.image.text :: (render b.follow.segments ++ commandLine bs) := by
  simp [commandLine, render, Block.segments, Segment.args]

theorem next_commandLine (bs : List Block) : Next (commandLine bs) := by
  cases bs with
  | nil => exact .nil
  | cons b bs =>
    rw [commandLine_cons]
    exact .image _ _

theorem loop_swallows (b : Block) (bs : List Block) (happ : app.args = []) (apps : List App) :
    (loop true 0 (commandLine (b :: bs)) ⟨al ++ [app], n, true⟩).map Scan.al ≠
      .ok (al ++ app :: apps) := by
  intro hok
  rw [commandLine_cons, loop, if_pos rfl, if_neg b.image.ne_tripleDashes,
    modifyLast_concat] at hok
  obtain ⟨st, hst, hal⟩ := map_eq_ok.mp hok
  have hnow : (al ++ [{ app with args := app.args ++ [b.image.text] }])[al.length]? =
      some { app with args := app.args ++ [b.image.text] } := by simp
  obtain ⟨app', happ', hle⟩ := grows_loop hst al.length _ hnow
  have hsame : app' = app := by
    rw [hal] at happ'
    simpa using happ'.symm
  rw [hsame, happ] at hle
  simp at hle

theorem render_cons (seg : Segment) (segs : List Segment) (args : List Str) :
    render (seg :: segs) ++ args = seg.args ++ (render segs ++ args) := by
  simp [render]

theorem loop_block {b : Block} (hb : b.follow.harmless false = true) (bs : List Block)
    (hn : n ≤ al.length) :
    ∃ m, m ≤ al.length + 1 ∧ loop true 0 (commandLine (b :: bs)) ⟨al, n, false⟩ =
      loop true 0 (commandLine bs) ⟨al ++ [b.app], m, false⟩ := by
  obtain ⟨image, follow⟩ := b
  rw [commandLine_cons, loop_image]
  cases follow with
  | nothing => exact ⟨n, by omega, rfl⟩
  | signature value =>
    have hvalue : value ≠ dashes := by simpa [Follow.harmless] using hb
    refine ⟨n, by omega, ?_⟩
    refine (loop_signature (next_commandLine bs) rfl value).trans ?_
    rw [if_neg hvalue]
    rfl
  | group g =>
    refine ⟨al.length + 1, le_refl _, ?_⟩
    rw [Follow.segments, render_cons, loop_group g _ _ hn]
    rfl
  | signatureGroup value g =>
    refine ⟨al.length + 1, le_refl _, ?_⟩
    refine (loop_signature_dashes rfl value).trans ?_
    refine Eq.trans ?_ (loop_group g ⟨image.text, [], value⟩ (commandLine bs) hn)
    simp [Segment.args]
  | groupSignature g value =>
    have hvalue : value ≠ dashes := by simpa [Follow.harmless] using hb
    refine ⟨al.length + 1, le_refl _, ?_⟩
    rw [Follow.segments, render_cons, loop_group g _ _ hn]
    refine (loop_signature (next_commandLine bs) rfl value).trans ?_
    rw [if_neg hvalue]
    rfl

theorem loop_signature_reread (image : Image) (bs : List Block) (hn : n ≤ al.length) :
    loop true 0 (commandLine (⟨image, .signature dashes⟩ :: bs)) ⟨al, n, false⟩ =
      loop true 0 (commandLine bs) ⟨al ++ [⟨image.text, [], dashes⟩], al.length + 1, true⟩ := by
  rw [commandLine_cons, loop_image]
  refine (loop_signature (next_commandLine bs) rfl dashes).trans ?_
  rw [if_pos rfl, loop_dashes (by simp; omega)]
  simp

theorem loop_signature_twice (image : Image) (g : Group) (bs : List Block) (hn : n ≤ al.length) :
    loop true 0 (commandLine (⟨image, .groupSignature g dashes⟩ :: bs)) ⟨al, n, false⟩ =
      .error .twice := by
  rw [commandLine_cons, loop_image, Follow.segments, render_cons, loop_group g _ _ hn]
  refine (loop_signature (next_commandLine bs) rfl dashes).trans ?_
  rw [if_pos rfl, loop, if_neg (by simp), if_pos rfl, if_neg (by simp), if_pos (by simp),
    if_neg (by simp)]

/-- The blocks are read one after the other, as long as they are harmless. -/
theorem loop_commandLine_iff {bs : List Block} (hn : n ≤ al.length) :
    (loop true 0 (commandLine bs) ⟨al, n, false⟩).map Scan.al = .ok (al ++ bs.map Block.app) ↔
      harmless bs = true := by
  induction bs generalizing al n with
  | nil =>
    refine iff_of_true ?_ rfl
    rw [List.map_nil, List.append_nil]
    rfl
  | cons b bs ih =>
    by_cases hb : b.follow.harmless false = true
    · obtain ⟨m, hm, hloop⟩ := loop_block hb bs hn
      have hharmless : b.follow.harmless bs.isEmpty = true := by
        cases hf : b.follow with
        | signature value =>
          rw [hf] at hb
          have hvalue : value ≠ dashes := by simpa [Follow.harmless] using hb
          simp [Follow.harmless, hvalue]
        | _ =>
          rw [hf] at hb
          exact hb
      have hsplit : al ++ (b :: bs).map Block.app = (al ++ [b.app]) ++ bs.map Block.app := by
        simp
      rw [hloop, hsplit, ih (by simpa using hm), harmless, hharmless, Bool.true_and]
    · obtain ⟨image, follow⟩ := b
      cases follow with
      | signature value =>
        have hvalue : value = dashes := by simpa [Follow.harmless] using hb
        subst hvalue
        rw [loop_signature_reread image bs hn]
        cases bs with
        | nil => exact iff_of_true rfl rfl
        | cons b bs =>
          refine iff_of_false ?_ (by simp [harmless, Follow.harmless])
          exact loop_swallows b bs rfl _
      | groupSignature g value =>
        have hvalue : value = dashes := by simpa [Follow.harmless] using hb
        subst hvalue
        rw [loop_signature_twice image g bs hn]
        refine iff_of_false (fun h => ?_) (by simp [harmless, Follow.harmless])
        cases h
      | _ => exact absurd rfl hb

/-- **Every argument is read in its own role** exactly if the command line is harmless. -/
theorem parseApps_iff (al : List App) (bs : List Block) :
    parseApps al (commandLine bs) true = .ok (al ++ bs.map Block.app) ↔ harmless bs = true :=
  loop_commandLine_iff (le_refl _)

/-- The signature of `a` is `--`, and then `b` is no image. -/
theorem parseApps_swallows_image :
    parseApps [] (commandLine
      [⟨⟨['a'], by decide, by decide⟩, .signature dashes⟩,
        ⟨⟨['b'], by decide, by decide⟩, .nothing⟩]) true =
      .ok [⟨['a'], [['b']], dashes⟩] := by
  decide

end Rkt.Apps
