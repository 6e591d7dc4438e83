import Rkt.Pods.Removal
import Rkt.Store.Resolve

set_option autoImplicit false

namespace Rkt.Pods

open Conc Prog
open Store (Database LookupErr hashPrefix lenKey minlenKey resolve)

/-- `types.Hash`. -/
structure Hash where
  typ : List Char
  val : List Char
  deriving DecidableEq, Repr

/-- `types.NewHash`. -/
def newHash (s : List Char) : Option Hash :=
  match s.splitOn '-' with
  | [typ, val] => if typ = "sha512".toList ∧ val ≠ [] then some ⟨typ, val⟩ else none
  | _ => none

/-- `Hash.String`. -/
def Hash.text (h : Hash) : List Char := h.typ ++ '-' :: h.val

abbrev Key := List Char

/-- `Store.ResolveKey`, as a process that is alone in the store sees it: the answer is the one of
`Store.resolveKey_alone`, unless the database cannot be asked. -/
def resolveKey (db : Database) (key : List Char) : Prog podSig (Except LookupErr Key) := do
  if !hashPrefix.isPrefixOf key || key.length < minlenKey then return resolve db key
  match ← sys .aside with
  | .error _ => return .error (.retrievingACIInfos .sql)
  | .ok () => return resolve db key

inductive Manifest where
  /-- It cannot be read, or it cannot be parsed. -/
  | unreadable
  /-- The JSON value `null`. -/
  | null
  /-- The image IDs of its apps. -/
  | apps (ids : List Hash)
  deriving DecidableEq, Repr

structure PodContents where
  manifest : Manifest
  /-- The text of the stage1 hash file, if it can be read. -/
  stage1ID : Option (List Char)

def getAppsHashes (contents : UUID → PodContents) (p : Pod) : Prog podSig Manifest := do
  match ← sys (.openFile p.lock .pod) with
  | .error _ => return .unreadable
  | .ok () => return (contents p.uuid).manifest

def getStage1Hash (contents : UUID → PodContents) (p : Pod) : Prog podSig (Option Hash) := do
  match ← sys (.openFile p.lock .stage1ID) with
  | .error _ => return none
  | .ok () => return (contents p.uuid).stage1ID.bind newHash

structure Refs where
  imgs : List Key
  /-- `bad imageID %q in pod definition: %v`. -/
  walkErrors : List (Hash × LookupErr)

/-- The loop over the hashes of one pod. An image that does not exist is recorded under the
empty key. -/
def addHashes (db : Database) : List Hash → Refs → Prog podSig Refs
  | [], refs => return refs
  | h :: hs, refs => do
    match ← resolveKey db h.text with
    | .ok key => addHashes db hs { refs with imgs := key :: refs.imgs }
    | .error .notFound => addHashes db hs { refs with imgs := [] :: refs.imgs }
    | .error e => return { refs with walkErrors := refs.walkErrors ++ [(h, e)] }

/-- The visit of one pod; `none` if the process has panicked. A manifest that is `null` leaves a
nil pointer, whose list of apps is then read. -/
def addPod (contents : UUID → PodContents) (db : Database) (acc : Option Refs) (p : Pod) :
    Prog podSig (Option Refs) := do
  match acc with
  | none => return none
  | some refs =>
    match ← getAppsHashes contents p with
    -- errors reading or parsing the pod file are ignored
    | .unreadable => return some refs
    | .null =>
      sys .panic
      return none
    | .apps appHashes =>
      match ← getStage1Hash contents p with
      -- and so are errors of the stage1 hash file
      | none => return some refs
      | some stage1Hash => return some (← addHashes db (appHashes ++ [stage1Hash]) refs)

def without (db : Database) (key : Key) : Database :=
  { db with aciinfo := db.aciinfo.filter (·.blobKey ≠ key) }

/-- `Store.RemoveACI`, as far as the table of images is concerned. -/
def removeACI (db : Database) (key : Key) : Prog podSig (Except Errno Database) := do
  match ← sys .aside with
  | .error e => return .error e
  | .ok () => return .ok (without db key)

/-- The pods directory without I/O errors. The work elsewhere may fail if `fails` is set. -/
def steadyMachine (fails : Bool) : Machine podSig World :=
  podMachine.restrict (fun _ o r _ => (o.sure 0 r || fails && decide (o = .aside)) = true)

/-- Process `p` runs alone, without I/O errors in the pods directory. -/
abbrev Steady {α : Type} (fails : Bool) (p : Pid) (A : World → Prop) (x : Prog podSig α)
    (Q : α → World → Prop) : Prop :=
  Total (steadyMachine fails) nobody p A x Q

section steady

variable {fails : Bool} {p : Pid} {A : World → Prop} {α : Type} {db : Database}

theorem Looks.steady {x : Prog podSig α} {Q : α → World → Prop} (hx : Looks x)
    (h : Alone 0 p A x Q) : Steady fails p A x Q := by
  refine h.swap (fun o r s ho => ?_) hx
  have haside : o ≠ .aside := by
    rintro rfl
    cases ho
  simp [steadyMachine, sureMachine, Machine.restrict, haside]

end steady

/-- What is recorded for a hash; an image that does not exist is recorded under the empty key. -/
def keyOf (db : Database) (h : Hash) : Option Key :=
  match resolve db h.text with
  | .ok key => some key
  | .error .notFound => some []
  | .error _ => none

/-- What `getAppsHashes` returns for a pod with the files `fs`. -/
def manifestIn (contents : UUID → PodContents) (fs : Finset PodFile) (u : UUID) : Manifest :=
  if .pod ∈ fs then (contents u).manifest else .unreadable

def stage1In (contents : UUID → PodContents) (fs : Finset PodFile) (u : UUID) : Option Hash :=
  if .stage1ID ∈ fs then (contents u).stage1ID.bind newHash else none

/-- What is recorded for a pod: nothing, unless both files can be read. `none` if `rkt image rm`
then gives up, because the manifest is `null` or a hash cannot be resolved. -/
def podRefs (contents : UUID → PodContents) (db : Database) (fs : Finset PodFile) (u : UUID) :
    Option (List Key) :=
  match manifestIn contents fs u with
  | .unreadable => some []
  | .null => none
  | .apps ids =>
    match stage1In contents fs u with
    | none => some []
    | some x => (ids ++ [x]).mapM (keyOf db)

section collect

variable {fails : Bool} {p : Pid} {L : UUID → Flock Fd} {V : UUID → PodView}
  {incl : IncludeMask} {β : Type} {f : β → Pod → Prog podSig β} {I : List UUID → β → Prop}
  {contents : UUID → PodContents} {db : Database} {A : World → Prop}

/-- The references of the pods `us` have been recorded, or `rkt image rm` gives up, because of one
of these pods or because the database has failed. -/
def Collected (fails : Bool) (contents : UUID → PodContents) (db : Database)
    (V : UUID → PodView) (us : List UUID) (acc : Option Refs) : Prop :=
  (∀ refs, acc = some refs → refs.walkErrors ≠ []) ∧
      (fails = false → ∃ u ∈ us, podRefs contents db (V u).files u = none) ∨
    ∃ refs, acc = some refs ∧ refs.walkErrors = [] ∧
      (∀ u ∈ us, podRefs contents db (V u).files u ≠ none) ∧
      ∀ k, k ∈ refs.imgs ↔ ∃ u ∈ us, ∃ ks, podRefs contents db (V u).files u = some ks ∧ k ∈ ks

section visit

variable {u : UUID} {d : Dir} {fd : Fd}

theorem Collected.append {us : List UUID} {refs refs' : Refs} {ks : List Key}
    (h : Collected fails contents db V us (some refs))
    (hu : podRefs contents db (V u).files u = some ks)
    (herr : refs'.walkErrors = refs.walkErrors)
    (himgs : ∀ k, k ∈ refs'.imgs ↔ k ∈ refs.imgs ∨ k ∈ ks) :
    Collected fails contents db V (us ++ [u]) (some refs') := by
  rcases h with ⟨hbad, hnone⟩ | ⟨_, ⟨rfl⟩, herr', hus, hmem⟩
  · refine .inl ⟨?_, fun hf => ?_⟩
    · rintro _ ⟨rfl⟩
      exact herr ▸ hbad refs rfl
    · obtain ⟨v, hv, hvn⟩ := hnone hf
      exact ⟨v, List.mem_append_left _ hv, hvn⟩
  · refine .inr ⟨refs', rfl, herr.trans herr', ?_, fun k => ?_⟩
    · rw [List.forall_mem_append, List.forall_mem_singleton, hu]
      exact ⟨hus, nofun⟩
    · rw [himgs, hmem]
      simp [or_and_right, exists_or, hu]

end visit

end collect

/-- An argument stands for the key. -/
def Wanted (db : Database) (args : List (List Char)) (k : Key) : Prop :=
  ∃ arg ∈ args, ∃ h, newHash arg = some h ∧ resolve db h.text = .ok k

section remove

variable {fails : Bool} {p : Pid} {A : World → Prop} {db : Database} {args : List (List Char)}
  {k key : Key}

end remove

/-- The pod is in one of the directories that are walked over. -/
def World.Walked (s : World) (u : UUID) : Prop := ∃ d, u ∈ s.dirs d ∧ includeMostDirs d = true

/-- The key is recorded for a pod, of which both files can be read. -/
def World.Records (s : World) (contents : UUID → PodContents) (db : Database) (k : Key) : Prop :=
  ∃ u ks, s.Walked u ∧ podRefs contents db (s.files u) u = some ks ∧ k ∈ ks

section imageRm

variable {fails : Bool} {p : Pid} {s : World} {contents : UUID → PodContents} {db : Database}
  {args : List (List Char)}

end imageRm

end Rkt.Pods
