import Rkt.Networking.Saved

set_option autoImplicit false

namespace Rkt.Networking

open Conc Prog
open Json (Bytes)

/-- No operation fails without a reason; only a file that is not there cannot be read. -/
def reliable (files : ConfFiles) : (o : Op) → o.Res → World → Option World
  | .listFiles, (r : Option (List Bytes)), w => if r.isSome then step files .listFiles r w else none
  | .readFile path, (r : Option Bytes), w => if r = w.content files path then some w else none
  | o, r, w => step files o r w

/-- The name of a network of the user, in the file `f`. -/
def FileNet (files : ConfFiles) (unmarshal : Bytes → Option NetConf) (f name : Bytes) : Prop :=
  (text ".conf").isSuffixOf f = true ∧
    ∃ b c, files.user.lookup f = some b ∧ unmarshal b = some c ∧ c.name = name

def UserNet (files : ConfFiles) (unmarshal : Bytes → Option NetConf) (name : Bytes) : Prop :=
  ∃ f, FileNet files unmarshal f name

/-- All files of the user are well-formed, and stage1 has its two networks. -/
structure WellFormed (files : ConfFiles) (unmarshal : Bytes → Option NetConf) : Prop where
  user : ∀ f b, files.user.lookup f = some b → (text ".conf").isSuffixOf f = true →
    ∃ c, unmarshal b = some c
  default : ∃ b c, files.stage1 (text "99-default.conf") = some b ∧ unmarshal b = some c ∧
    c.name = text "default"
  restricted : ∃ b c, files.stage1 (text "99-default-restricted.conf") = some b ∧
    unmarshal b = some c ∧ c.name = text "default-restricted"

def names (nets : List ActiveNet) : List Bytes := nets.map (·.conf.name)

theorem netExists_iff {nets : List ActiveNet} {name : Bytes} :
    netExists nets name = true ↔ name ∈ names nets := by
  simp [netExists, names]

section loading

variable {files : ConfFiles} {unmarshal : Bytes → Option NetConf}

theorem reliable_total (o : Op) (w : World) : ∃ r w', reliable files o r w = some w' := by
  cases o with
  | listFiles => exact ⟨some (files.user.map Prod.fst), w, by simp [reliable, step]⟩
  | readFile path => exact ⟨w.content files path, w, if_pos rfl⟩
  | sys c => exact ⟨true, w, rfl⟩
  | copyFile src file => exact ⟨.notOpened, w, rfl⟩
  | remove path =>
    cases path with
    | pod f => exact ⟨false, w, rfl⟩
    | user f | stage1 f => exact ⟨false, w, rfl⟩
  | plugin cmd call =>
    cases cmd with
    | add => exact ⟨.failed, w, rfl⟩
    | del => exact ⟨.failed, _, rfl⟩
  | ruleExists chain => exact ⟨none, w, rfl⟩
  | createTap => exact ⟨none, w, rfl⟩
  | removeTap name => exact ⟨false, _, rfl⟩
  | saveInfo nis => exact ⟨.notOpened, w, rfl⟩
  | loadInfo => exact ⟨none, w, rfl⟩

theorem loadNet_reliable {path : ConfPath} {b : Bytes} {c : NetConf}
    (hcontent : files.content path = some b) (hparse : unmarshal b = some c) :
    Meets (reliable files) (fun _ => True) (loadNet unmarshal path)
      (Outcome (fun _ _ => False) fun n _ => n.conf = c) := by
  have hread : Meets (reliable files) (fun _ => True) (net (.readFile path)) fun r _ =>
      r = some b := by
    refine Meets.call fun w r w' _ h => ?_
    simp only [reliable, Option.ite_none_right_eq_some] at h
    rw [h.1]
    exact content_of_files hcontent w
  refine Meets.bind hread fun r => Meets.given fun hr => ?_
  subst hr
  simp only [hparse]
  exact Meets.ret fun _ _ => rfl

variable (req : List Bytes)

/-- The network was asked for, by its name or with all others. -/
def Wanted (name : Bytes) : Prop := text "all" ∈ req ∨ name ∈ req

variable {req}

theorem wanted_iff {name : Bytes} : (all req || specific req name) = true ↔ Wanted req name := by
  simp [all, specific, Wanted]

theorem WellFormed.file (hwf : WellFormed files unmarshal) {f b : Bytes}
    (hb : files.user.lookup f = some b) (hsuffix : (text ".conf").isSuffixOf f = true) :
    ∃ c, unmarshal b = some c ∧ ∀ name, FileNet files unmarshal f name ↔ c.name = name := by
  obtain ⟨c, hc⟩ := hwf.user f b hb hsuffix
  refine ⟨c, hc, fun name => ?_⟩
  unfold FileNet
  simp [hsuffix, hb, hc]

/-- There is no error, and the names are pairwise distinct and are those with `P`. -/
abbrev Loads (P : Bytes → Prop) : Except LoadErr (List ActiveNet) → World → Prop :=
  Outcome (fun _ _ => False) fun nets _ => (names nets).Nodup ∧ ∀ name, name ∈ names nets ↔ P name

theorem Loads.congr {P Q : Bytes → Prop} (h : ∀ name, P name ↔ Q name)
    (r : Except LoadErr (List ActiveNet)) (w : World) (hP : Loads P r w) : Loads Q r w := by
  cases r with
  | error e => exact hP
  | ok nets => exact ⟨hP.1, fun name => (hP.2 name).trans (h name)⟩

/-- The loop of `loadUserNets`: the first file for each name that is wanted. -/
theorem loadFiles_reliable (hwf : WellFormed files unmarshal) {fs : List Bytes}
    (hfs : ∀ f ∈ fs, ∃ b, files.user.lookup f = some b) {nets : List ActiveNet}
    (hnodup : (names nets).Nodup) :
    Meets (reliable files) (fun _ => True) (loadFiles unmarshal req fs nets) (Loads fun name =>
        name ∈ names nets ∨ Wanted req name ∧ ∃ f ∈ fs, FileNet files unmarshal f name) := by
  induction fs generalizing nets with
  | nil => exact Meets.ret fun _ _ => ⟨hnodup, by simp⟩
  | cons f fs ih =>
    have ih := fun {nets} => @ih (fun g hg => hfs g (List.mem_cons_of_mem f hg)) nets
    unfold loadFiles
    refine Meets.ite (fun hsuffix => (ih hnodup).post (Loads.congr fun name => ?_)) ?_
    · have hnone : ¬ FileNet files unmarshal f name := by
        rintro ⟨hconf, -⟩
        simp [hconf] at hsuffix
      simp [hnone]
    intro hsuffix
    obtain ⟨b, hb⟩ := hfs f List.mem_cons_self
    obtain ⟨c, hc, hfile⟩ := hwf.file hb (by simpa using hsuffix)
    refine Meets.andThen (loadNet_reliable hb hc) fun n => Meets.given fun hn => ?_
    subst hn
    simp only [List.exists_mem_cons_iff, hfile]
    -- the file adds nothing, unless its network is wanted and has not been defined yet
    refine Meets.ite (fun hskip => (ih hnodup).post (Loads.congr fun name => ?_)) fun hgo => ?_
    · have hnot : ¬ Wanted req n.conf.name := by
        rw [← wanted_iff]
        simpa using hskip
      have hdrop : n.conf.name = name → ¬ Wanted req name := fun h => h ▸ hnot
      grind
    have hwanted : Wanted req n.conf.name := by
      rw [← wanted_iff]
      simpa only [Bool.not_eq_true', Bool.not_eq_false] using hgo
    refine Meets.ite (fun hskip => (ih hnodup).post (Loads.congr fun name => ?_)) fun hnew => ?_
    · have hthere : n.conf.name = name → name ∈ names nets :=
        fun h => h ▸ netExists_iff.mp hskip
      grind
    · rw [netExists_iff] at hnew
      have hnames : names (nets ++ [n]) = names nets ++ [n.conf.name] := by simp [names]
      refine (ih ?_).post (Loads.congr fun name => ?_)
      · rw [hnames]
        rw [← List.concat_eq_append]
        exact hnodup.concat hnew
      · have hname : n.conf.name = name → Wanted req name := fun h => h ▸ hwanted
        rw [hnames, List.mem_append, List.mem_singleton, eq_comm (a := name)]
        grind

theorem lookup_isSome_iff {f : Bytes} :
    f ∈ files.user.map Prod.fst ↔ ∃ b, files.user.lookup f = some b := by
  rw [← Option.isSome_iff_exists, List.lookup_isSome_iff]
  simp

theorem loadUserNets_reliable (hwf : WellFormed files unmarshal) :
    Meets (reliable files) (fun _ => True) (loadUserNets unmarshal req)
      (Loads fun name => Wanted req name ∧ UserNet files unmarshal name) := by
  have hlist : Meets (reliable files) (fun _ => True) (net .listFiles) fun r _ =>
      ∃ fs, r = some fs ∧ fs.Perm (files.user.map Prod.fst) := by
    refine Meets.call fun w r w' _ h => ?_
    cases r with
    | none => cases h
    | some fs =>
      simp only [reliable, step, Option.isSome_some, if_true, Option.ite_none_right_eq_some] at h
      exact ⟨fs, rfl, h.1⟩
  refine Meets.bind hlist fun r => Meets.given ?_
  rintro ⟨fs, rfl, hperm⟩
  have hmem : ∀ f, f ∈ fs.insertionSort (· ≤ ·) ↔ ∃ b, files.user.lookup f = some b := by
    intro f
    rw [(List.perm_insertionSort _ fs).mem_iff, hperm.mem_iff, lookup_isSome_iff]
  have hnone : (names []).Nodup := List.nodup_nil
  refine (loadFiles_reliable hwf (fun f hf => (hmem f).mp hf) hnone).post
    (Loads.congr fun name => ?_)
  have huser : (∃ f ∈ fs.insertionSort (· ≤ ·), FileNet files unmarshal f name) ↔
      UserNet files unmarshal name := by
    constructor
    · rintro ⟨f, -, h⟩
      exact ⟨f, h⟩
    · rintro ⟨f, hsuffix, b, c, hb, h⟩
      exact ⟨f, (hmem f).mpr ⟨b, hb⟩, hsuffix, b, c, hb, h⟩
  rw [huser]
  simp [names]

variable (files unmarshal req) in
def Chosen (name : Bytes) : Prop := Wanted req name ∧ UserNet files unmarshal name

variable (files unmarshal req) in
def Appended : Prop :=
  ¬ Chosen files unmarshal req (text "default") ∧
    ¬ Chosen files unmarshal req (text "default-restricted")

variable (req) in
def builtIn : Bytes :=
  if specific req (text "default") || all req then text "default" else text "default-restricted"

variable (files unmarshal req) in
def Selected (name : Bytes) : Prop :=
  Chosen files unmarshal req name ∨ Appended files unmarshal req ∧ name = builtIn req

theorem WellFormed.builtIn (hwf : WellFormed files unmarshal) (req : List Bytes) :
    ∃ b c, files.content (defaultNet req) = some b ∧ unmarshal b = some c ∧
      c.name = builtIn req := by
  unfold defaultNet Networking.builtIn
  split
  · exact hwf.default
  · exact hwf.restricted

theorem withDefault_reliable (hwf : WellFormed files unmarshal) {nets : List ActiveNet}
    (hnodup : (names nets).Nodup)
    (hnames : ∀ name, name ∈ names nets ↔ Chosen files unmarshal req name) :
    Meets (reliable files) (fun _ => True) (withDefault unmarshal req nets)
      (Loads (Selected files unmarshal req)) := by
  have hcond : (!netExists nets (text "default") && !netExists nets (text "default-restricted")) =
      true ↔ Appended files unmarshal req := by
    rw [Bool.and_eq_true, Bool.not_eq_true', Bool.not_eq_true', ← Bool.not_eq_true,
      ← Bool.not_eq_true, netExists_iff, netExists_iff, hnames, hnames]
    rfl
  unfold withDefault
  refine Meets.ite (fun happ => ?_) fun happ => Meets.ret fun _ _ => ⟨hnodup, fun name => ?_⟩
  · rw [hcond] at happ
    obtain ⟨b, c, hb, hc, hname⟩ := hwf.builtIn req
    refine Meets.andThen (loadNet_reliable hb hc) fun n => Meets.given fun hn => ?_
    subst hn
    have hnew : n.conf.name ∉ names nets := by
      rw [hnames, hname]
      unfold builtIn
      split
      · exact happ.1
      · exact happ.2
    have hadd : names (nets ++ [n]) = names nets ++ [n.conf.name] := by simp [names]
    refine Meets.ret fun _ _ => ⟨?_, fun name => ?_⟩
    · rw [hadd, ← List.concat_eq_append]
      exact hnodup.concat hnew
    · rw [hadd, List.mem_append, List.mem_singleton, hnames, hname]
      simp [Selected, happ]
  · rw [hcond] at happ
    rw [hnames]
    simp [Selected, happ]

theorem missingNets_eq_nil_iff {nets : List ActiveNet} :
    missingNets req nets = [] ↔ ∀ name ∈ req, name ≠ text "all" → name ∈ names nets := by
  simp only [missingNets, List.filter_eq_nil_iff, Bool.and_eq_true, not_and, decide_eq_true_eq,
    Bool.not_eq_true', Bool.not_eq_false, netExists_iff]

theorem loadNets_reliable (hwf : WellFormed files unmarshal) :
    Meets (reliable files) (fun _ => True) (loadNets unmarshal req) (Outcome
      (fun _ _ => ¬ ∀ name ∈ req, name ≠ text "all" → Selected files unmarshal req name)
      fun nets _ => (∀ name ∈ req, name ≠ text "all" → Selected files unmarshal req name) ∧
        (names nets).Nodup ∧ ∀ name, name ∈ names nets ↔ Selected files unmarshal req name) := by
  refine Meets.andThen_sure (loadUserNets_reliable hwf) fun nets => Meets.given ?_
  rintro ⟨hnodup, hnames⟩
  refine Meets.andThen_sure (withDefault_reliable hwf hnodup hnames) fun nets => Meets.given ?_
  rintro ⟨hnodup, hnames⟩
  have hmissing : missingNets req nets = [] ↔
      ∀ name ∈ req, name ≠ text "all" → Selected files unmarshal req name := by
    simp only [missingNets_eq_nil_iff, hnames]
  split
  · rename_i hnil
    exact Meets.ret fun _ _ => ⟨hmissing.mp hnil, hnodup, hnames⟩
  · rename_i hne
    exact Meets.ret fun _ _ h => hne (hmissing.mpr h)

end loading

def IsBuiltIn (name : Bytes) : Prop := name = text "default" ∨ name = text "default-restricted"

/-- Both networks of stage1 are asked for, and one of them would have to come from stage1 although
the other one is there. -/
def Clash (files : ConfFiles) (unmarshal : Bytes → Option NetConf) (req : List Bytes) : Prop :=
  text "default" ∈ req ∧ ¬ UserNet files unmarshal (text "default") ∧
      Chosen files unmarshal req (text "default-restricted") ∨
    text "default-restricted" ∈ req ∧ ¬ UserNet files unmarshal (text "default-restricted") ∧
      Wanted req (text "default")

section

variable {files : ConfFiles} {unmarshal : Bytes → Option NetConf} {req : List Bytes}

theorem builtIn_of_wanted (h : Wanted req (text "default")) : builtIn req = text "default" := by
  refine if_pos ?_
  rw [Bool.or_comm]
  exact wanted_iff.mpr h

theorem builtIn_of_not_wanted (h : ¬ Wanted req (text "default")) :
    builtIn req = text "default-restricted" := by
  refine if_neg fun hor => h ?_
  rw [Bool.or_comm] at hor
  exact wanted_iff.mp hor

theorem default_ne_restricted : text "default" ≠ text "default-restricted" := by decide

/-- The names that are asked for are loaded if and only if they are known and do not clash. -/
theorem selected_iff : (∀ name ∈ req, name ≠ text "all" → Selected files unmarshal req name) ↔
      (∀ name ∈ req, name ≠ text "all" → UserNet files unmarshal name ∨ IsBuiltIn name) ∧
        ¬ Clash files unmarshal req := by
  constructor
  · intro h
    refine ⟨fun name hreq hall => ?_, ?_⟩
    · rcases h name hreq hall with hchosen | ⟨-, rfl⟩
      · exact .inl hchosen.2
      · by_cases hwanted : Wanted req (text "default")
        · exact .inr (.inl (builtIn_of_wanted hwanted))
        · exact .inr (.inr (builtIn_of_not_wanted hwanted))
    · rintro (⟨hreq, hno, hchosen⟩ | ⟨hreq, hno, hwanted⟩)
      · rcases h _ hreq (by decide) with hdefault | ⟨happ, -⟩
        · exact hno hdefault.2
        · exact happ.2 hchosen
      · rcases h _ hreq (by decide) with hrestricted | ⟨-, hname⟩
        · exact hno hrestricted.2
        · rw [builtIn_of_wanted hwanted] at hname
          exact default_ne_restricted hname.symm
  · rintro ⟨hknown, hclash⟩ name hreq hall
    by_cases huser : UserNet files unmarshal name
    · exact .inl ⟨.inr hreq, huser⟩
    -- the name is one of stage1, and there the other one must not be in the way
    refine .inr ?_
    rcases (hknown name hreq hall).resolve_left huser with rfl | rfl
    · refine ⟨⟨fun h => huser h.2, fun h => hclash (.inl ⟨hreq, huser, h⟩)⟩, ?_⟩
      exact (builtIn_of_wanted (.inr hreq)).symm
    · have hnot : ¬ Wanted req (text "default") := fun h => hclash (.inr ⟨hreq, huser, h⟩)
      exact ⟨⟨fun h => hnot h.1, fun h => huser h.2⟩, (builtIn_of_not_wanted hnot).symm⟩

/-- **What `loadNets` returns.** It returns, and it succeeds if and only if every name that is asked
for is one of the user or of stage1, and the two networks of stage1 do not clash. If it succeeds the
names are pairwise distinct, those that were asked for are among them, and so are all of the user if
`all` was asked for; there are no others, but for one network of stage1. -/
theorem loadNets_succeeds_iff (hwf : WellFormed files unmarshal) (w : World) :
    (∃ r w', (loadNets unmarshal req).Runs (reliable files) w r w') ∧
    ∀ r w', (loadNets unmarshal req).Runs (reliable files) w r w' →
      ((∃ nets, r = .ok nets) ↔
        (∀ name ∈ req, name ≠ text "all" → UserNet files unmarshal name ∨ IsBuiltIn name) ∧
          ¬ Clash files unmarshal req) ∧
      ∀ nets, r = .ok nets → (names nets).Nodup ∧
        (∀ name ∈ req, name ≠ text "all" → name ∈ names nets) ∧
        (text "all" ∈ req → ∀ name, UserNet files unmarshal name → name ∈ names nets) ∧
        ∃ other, IsBuiltIn other ∧ ∀ name ∈ names nets,
          Wanted req name ∧ UserNet files unmarshal name ∨ name = other := by
  refine ⟨runs_total reliable_total _ w, fun r w' hruns => ?_⟩
  have hend := loadNets_reliable hwf w r w' trivial hruns
  rw [← selected_iff]
  cases r with
  | error e => exact ⟨iff_of_false (by simp) hend, by simp⟩
  | ok nets =>
    obtain ⟨hselected, hnodup, hnames⟩ := hend
    refine ⟨iff_of_true ⟨nets, rfl⟩ hselected, ?_⟩
    rintro _ ⟨⟩
    refine ⟨hnodup, fun name hreq hall => (hnames name).mpr (hselected name hreq hall), ?_, ?_⟩
    · exact fun hall name huser => (hnames name).mpr (.inl ⟨.inl hall, huser⟩)
    · refine ⟨builtIn req, ?_, fun name hname => ?_⟩
      · unfold builtIn IsBuiltIn
        split <;> simp
      · exact ((hnames name).mp hname).imp_right And.right

end

def restrictedConf : NetConf :=
  { defaultConf with name := text "default-restricted", ipMasq := false }

/-- `json.Unmarshal` on the texts of the network of the user and the two of stage1. -/
def unmarshalThree (bytes : Bytes) : Option NetConf :=
  [defaultConf, restrictedConf, userConf].find? fun c => c.marshal = bytes

def userAndStage1 : ConfFiles where
  user := [(text "10-user.conf", userConf.marshal)]
  stage1 f :=
    some (if f = text "99-default.conf" then defaultConf.marshal else restrictedConf.marshal)

theorem userAndStage1_wellFormed : WellFormed userAndStage1 unmarshalThree where
  user f b hf _ := by
    simp only [userAndStage1, List.lookup_cons, List.lookup_nil] at hf
    split at hf
    · cases hf
      exact ⟨userConf, rfl⟩
    · cases hf
  default := ⟨_, _, rfl, rfl, rfl⟩
  restricted := ⟨_, _, rfl, rfl, rfl⟩

theorem userNet_user : UserNet userAndStage1 unmarshalThree (text "user") :=
  ⟨text "10-user.conf", by decide, _, _, rfl, rfl, rfl⟩

/-- The network of the user and one of stage1. -/
theorem loadNets_succeeds_user : ∃ nets w',
    (loadNets unmarshalThree [text "user", text "default"]).Runs (reliable userAndStage1) fresh
      (.ok nets) w' ∧ (names nets).Nodup := by
  have hknown : ∀ name ∈ [text "user", text "default"], name ≠ text "all" →
      UserNet userAndStage1 unmarshalThree name ∨ IsBuiltIn name := by
    intro name hname _
    rcases List.mem_pair.mp hname with rfl | rfl
    · exact .inl userNet_user
    · exact .inr (.inl rfl)
  have hclash : ¬ Clash userAndStage1 unmarshalThree [text "user", text "default"] := by
    rintro (⟨-, -, hwanted, -⟩ | ⟨hreq, -⟩)
    · revert hwanted
      unfold Wanted
      decide
    · revert hreq
      decide
  obtain ⟨⟨r, w', hruns⟩, hall⟩ := loadNets_succeeds_iff userAndStage1_wellFormed fresh
  obtain ⟨hiff, hnets⟩ := hall r w' hruns
  obtain ⟨nets, rfl⟩ := hiff.mpr ⟨hknown, hclash⟩
  exact ⟨nets, w', hruns, (hnets nets rfl).1⟩

/-- **Both networks of stage1 cannot be had at once**: the second one is said not to be found. -/
theorem loadNets_misses_restricted : ∃ w',
    (loadNets unmarshalThree [text "default", text "default-restricted"]).Runs
      (reliable userAndStage1) fresh (.error (.missing [text "default-restricted"])) w' :=
  ⟨_, runs_of_eval (allWell userAndStage1) rfl⟩

end Rkt.Networking
