import Rkt.Code.Delimited
import Rkt.Code.Fields
import Rkt.Path.Clean
import Mathlib.Data.List.DropRight

set_option autoImplicit false

namespace Rkt.Cgroup

open Path Code

def unitNameMax : Nat := 256

def dotSlice : Str := ".slice".toList

/-- `[a-zA-Z0-9:\-_\.\\]`. -/
def validChar (c : Char) : Bool :=
  ('a' ≤ c && c ≤ 'z') || ('A' ≤ c && c ≤ 'Z') || ('0' ≤ c && c ≤ '9') || c = ':' || c = '-' ||
    c = '_' || c = '.' || c = '\\'

/-- `validChars.FindString`: the first run of valid characters. -/
def findString (n : Str) : Str := (n.dropWhile fun c => !validChar c).takeWhile validChar

def needPrefix (checkHierarchy : Str → Bool) (p : Str) : Bool :=
  if ['_'].isPrefixOf p || ['.'].isPrefixOf p || p = "notify_on_release".toList ||
      p = "release_agent".toList || p = "tasks".toList then true
  else if p.contains '.' then
    let n := (p.splitOn '.').headD []
    if n = "cgroup".toList then true else checkHierarchy n
  else false

def cgEscape (checkHierarchy : Str → Bool) (p : Str) : Str :=
  if needPrefix checkHierarchy p then '_' :: p else p

/-- `cgUnescape`. It panics on the empty string. -/
def cgUnescape : Str → Option Str
  | [] => none
  | c :: p => some (if c = '_' then p else c :: p)

def sliceNameIsValid (n : Str) : Bool :=
  if n = [] then false
  else if n.length ≥ unitNameMax then false
  else if !n.contains '.' then false
  else if findString n ≠ n then false
  else if n.contains '@' then false
  else true

/-- `unitnameToPrefix`. It panics if there is no index to cut at. -/
def unitnameToPrefix (unit : Str) : Option Str :=
  if unit.contains '@' then some (unit.takeWhile (· ≠ '@'))
  else if unit.contains '.' then some (unit.rdropWhile (· ≠ '.')).dropLast
  else none

inductive SliceErr where
  /-- `not a slice`. -/
  | notSlice
  /-- `invalid slice name`. -/
  | invalidName
  /-- `initial dash`. -/
  | initialDash
  /-- `trailing or double dash`. -/
  | emptyPart
  deriving DecidableEq, Repr

/-- `curSlice`, with one more part. -/
def addPart (curSlice slicePart : Str) : Str :=
  (if curSlice ≠ [] then curSlice ++ ['-'] else curSlice) ++ slicePart

def sliceLoop (checkHierarchy : Str → Bool) :
    (prefixParts : List Str) → (curSlice slicePath : Str) → Except SliceErr Str
  | [], _, slicePath => .ok slicePath
  | slicePart :: parts, curSlice, slicePath =>
    if slicePart = [] then .error .emptyPart
    else
      sliceLoop checkHierarchy parts (addPart curSlice slicePart)
        (filepathJoin slicePath
          (cgEscape checkHierarchy (addPart curSlice slicePart ++ dotSlice)))

/-- `SliceToPath`; `none` is a panic. -/
def sliceToPath (checkHierarchy : Str → Bool) (unit : Str) : Option (Except SliceErr Str) :=
  if unit = '-' :: dotSlice then some (.ok [])
  else if !dotSlice.isSuffixOf unit then some (.error .notSlice)
  else if !sliceNameIsValid unit then some (.error .invalidName)
  else do
    let pre ← unitnameToPrefix unit
    let first ← pre.head?
    if first = '-' then return .error .initialDash
    return sliceLoop checkHierarchy (pre.splitOn '-') [] []

theorem cgEscape_cases (checkHierarchy : Str → Bool) (p : Str) :
    cgEscape checkHierarchy p = p ∨ cgEscape checkHierarchy p = '_' :: p := by
  unfold cgEscape
  split
  · exact .inr rfl
  · exact .inl rfl

/-- **An escape can be taken back**, whatever the kernel says. -/
theorem cgUnescape_cgEscape (checkHierarchy : Str → Bool) {p : Str} (hp : p ≠ []) :
    cgUnescape (cgEscape checkHierarchy p) = some p := by
  obtain ⟨c, t, rfl⟩ := List.exists_cons_of_ne_nil hp
  by_cases hc : c = '_'
  · -- such a name is always escaped
    subst hc
    simp [cgEscape, needPrefix, cgUnescape]
  · rcases cgEscape_cases checkHierarchy (c :: t) with heq | heq
    · rw [heq]
      simp [cgUnescape, hc]
    · rw [heq]
      rfl

theorem plain_cgEscape (checkHierarchy : Str → Bool) {cur : Str} (h : '/' ∉ cur) :
    Plain (cgEscape checkHierarchy (cur ++ dotSlice)) := by
  have hlen : (cur ++ dotSlice).length = cur.length + 6 := by
    rw [List.length_append]
    rfl
  have hslash : '/' ∉ cur ++ dotSlice := by
    rw [List.mem_append, not_or]
    exact ⟨h, by decide⟩
  have hlong : ∀ p : Str, 6 ≤ p.length → '/' ∉ p → Plain p := by
    intro p hp hs
    refine ⟨?_, ?_, ?_, hs⟩ <;>
    · rintro rfl
      simp at hp
  rcases cgEscape_cases checkHierarchy (cur ++ dotSlice) with heq | heq
  · rw [heq]
    exact hlong _ (by omega) hslash
  · rw [heq]
    refine hlong _ ?_ ?_
    · rw [List.length_cons]
      omega
    · rw [List.mem_cons, not_or]
      exact ⟨by decide, hslash⟩

def dashed (ps : List Str) : Str := ['-'].intercalate ps

/-- The names of the directories: of the first part, of the first two parts, and so on. -/
def dirNames (ps : List Str) : List Str :=
  (List.range ps.length).map fun i => dashed (ps.take (i + 1)) ++ dotSlice

@[simp] theorem dashed_nil : dashed [] = [] := rfl

@[simp] theorem dashed_singleton (p : Str) : dashed [p] = p := List.intercalate_singleton

theorem dashed_cons (p : Str) (ps : List Str) :
    dashed (p :: ps) = p ++ ps.flatMap ('-' :: ·) := intercalate_cons '-' p ps

variable {ps : List Str} {checkHierarchy : Str → Bool} {u : Str}

theorem dashed_concat (hne : ps ≠ []) (p : Str) : dashed (ps ++ [p]) = dashed ps ++ ['-'] ++ p := by
  obtain ⟨x, xs, rfl⟩ := List.exists_cons_of_ne_nil hne
  rw [List.cons_append, dashed_cons, dashed_cons]
  simp

theorem dashed_ne_nil (hne : ps ≠ []) (h : ∀ p ∈ ps, p ≠ []) : dashed ps ≠ [] := by
  obtain ⟨x, xs, rfl⟩ := List.exists_cons_of_ne_nil hne
  have hx : x ≠ [] := h x List.mem_cons_self
  rw [dashed_cons]
  simp [hx]

theorem addPart_dashed (h : ∀ p ∈ ps, p ≠ []) (p : Str) :
    addPart (dashed ps) p = dashed (ps ++ [p]) := by
  unfold addPart
  by_cases hne : ps = []
  · subst hne
    simp
  · rw [if_pos (dashed_ne_nil hne h), dashed_concat hne]

theorem mem_dashed {a : Char} (h : a ∈ dashed ps) : a = '-' ∨ ∃ p ∈ ps, a ∈ p := by
  cases ps with
  | nil => simp at h
  | cons x xs =>
    rw [dashed_cons, List.mem_append, List.mem_flatMap] at h
    rcases h with h | ⟨p, hp, h⟩
    · exact .inr ⟨x, List.mem_cons_self, h⟩
    · exact (List.mem_cons.mp h).imp_right fun h => ⟨p, List.mem_cons_of_mem _ hp, h⟩

theorem mem_dashed_of_mem {p : Str} {a : Char} (hp : p ∈ ps) (ha : a ∈ p) : a ∈ dashed ps := by
  cases ps with
  | nil => cases hp
  | cons x xs =>
    rw [dashed_cons, List.mem_append, List.mem_flatMap]
    rcases List.mem_cons.mp hp with rfl | hp
    · exact .inl ha
    · exact .inr ⟨p, hp, List.mem_cons_of_mem _ ha⟩

theorem dirNames_concat (ps : List Str) (p : Str) :
    dirNames (ps ++ [p]) = dirNames ps ++ [dashed (ps ++ [p]) ++ dotSlice] := by
  unfold dirNames
  rw [List.length_append, List.length_singleton, List.range_succ, List.map_append]
  congr 1
  · refine List.map_congr_left fun i hi => ?_
    rw [List.mem_range] at hi
    rw [List.take_append_of_le_length (by omega)]
  · rw [List.map_singleton, List.take_of_length_le (by simp)]

theorem plain_dirNames (checkHierarchy : Str → Bool) (h : ∀ p ∈ ps, '/' ∉ p) :
    ∀ d ∈ (dirNames ps).map (cgEscape checkHierarchy), Plain d := by
  intro d hd
  obtain ⟨name, hname, rfl⟩ := List.mem_map.mp hd
  obtain ⟨i, -, rfl⟩ := List.mem_map.mp hname
  refine plain_cgEscape checkHierarchy fun hslash => ?_
  rcases mem_dashed hslash with hdash | ⟨p, hp, hmem⟩
  · exact absurd hdash (by decide)
  · exact h p (List.mem_of_mem_take hp) hmem

/-- **The path of a slice**, by induction on the parts that are left. -/
theorem sliceLoop_eq (checkHierarchy : Str → Bool) (parts : List Str) :
    ∀ done : List Str, (∀ p ∈ done ++ parts, p ≠ []) → (∀ p ∈ done ++ parts, '/' ∉ p) →
      sliceLoop checkHierarchy parts (dashed done)
          (join ((dirNames done).map (cgEscape checkHierarchy))) =
        .ok (join ((dirNames (done ++ parts)).map (cgEscape checkHierarchy))) := by
  induction parts with
  | nil =>
    intro done _ _
    rw [List.append_nil]
    rfl
  | cons p parts ih =>
    intro done hne hslash
    have hsplit : done ++ p :: parts = done ++ [p] ++ parts := by simp
    rw [hsplit] at hne hslash ⊢
    have hp : p ≠ [] := hne p (by simp)
    have hdone : ∀ x ∈ done, x ≠ [] := fun x hx => hne x (by simp [hx])
    have hplain := plain_dirNames checkHierarchy fun x (hx : x ∈ done ++ [p]) =>
      hslash x (List.mem_append_left _ hx)
    rw [dirNames_concat, List.map_append, List.map_singleton, List.forall_mem_append,
      List.forall_mem_singleton] at hplain
    rw [sliceLoop, if_neg hp, addPart_dashed hdone, filepathJoin_plain hplain.1 hplain.2]
    have hrest := ih (done ++ [p]) hne hslash
    rw [dirNames_concat done p, List.map_append, List.map_singleton] at hrest
    exact hrest

theorem sliceLoop_empty {parts : List Str} (h : [] ∈ parts) : ∀ curSlice slicePath,
      sliceLoop checkHierarchy parts curSlice slicePath = .error .emptyPart := by
  induction parts with
  | nil => cases h
  | cons p parts ih =>
    intro curSlice slicePath
    unfold sliceLoop
    by_cases hp : p = []
    · rw [if_pos hp]
    · rw [if_neg hp]
      exact ih ((List.mem_cons.mp h).resolve_left (Ne.symm hp)) _ _

/-- The name consists of the given parts, and is short and made of the allowed characters. -/
structure SliceName (u : Str) (ps : List Str) : Prop where
  short : u.length < unitNameMax
  chars : ∀ c ∈ u, validChar c = true
  ne_nil : ps ≠ []
  parts : ∀ p ∈ ps, p ≠ [] ∧ '-' ∉ p
  text : u = dashed ps ++ dotSlice

theorem findString_eq_iff {n : Str} : findString n = n ↔ ∀ c ∈ n, validChar c = true := by
  constructor
  · intro h c hc
    rw [← h] at hc
    exact List.mem_takeWhile_imp hc
  · intro h
    have hdrop : n.dropWhile (fun c => !validChar c) = n := by
      cases n with
      | nil => rfl
      | cons c t => simp [h c List.mem_cons_self]
    rw [findString, hdrop]
    exact List.takeWhile_eq_self_iff.mpr h

theorem contains_at {n : Str} (h : ∀ c ∈ n, validChar c = true) : n.contains '@' = false := by
  rw [Bool.eq_false_iff]
  intro hmem
  have hat : validChar '@' = true := h '@' (List.contains_iff_mem.mp hmem)
  revert hat
  decide

theorem sliceNameIsValid_iff (pre : Str) : sliceNameIsValid (pre ++ dotSlice) = true ↔
    (pre ++ dotSlice).length < unitNameMax ∧ ∀ c ∈ pre ++ dotSlice, validChar c = true := by
  have hne : pre ++ dotSlice ≠ [] := by simp [dotSlice]
  have hdot : (pre ++ dotSlice).contains '.' = true := by simp [dotSlice]
  generalize pre ++ dotSlice = n at hne hdot ⊢
  rw [← findString_eq_iff]
  unfold sliceNameIsValid
  by_cases hlen : n.length < unitNameMax
  · by_cases hfind : findString n = n
    · have hat := contains_at (findString_eq_iff.mp hfind)
      rw [if_neg hne, if_neg (Nat.not_le.mpr hlen), hdot, if_neg (not_not.mpr hfind), hat]
      simp [hlen, hfind]
    · simp [hfind]
  · have hlong : n.length ≥ unitNameMax := Nat.not_lt.mp hlen
    rw [if_neg hne, if_pos hlong]
    simp [hlen]

theorem unitnameToPrefix_slice {pre : Str} (h : ∀ c ∈ pre ++ dotSlice, validChar c = true) :
    unitnameToPrefix (pre ++ dotSlice) = some pre := by
  have hdot : (pre ++ dotSlice).contains '.' = true := by simp [dotSlice]
  have hletters : pre ++ dotSlice = pre ++ ['.'] ++ ['s'] ++ ['l'] ++ ['i'] ++ ['c'] ++ ['e'] := by
    simp [dotSlice]
  have hcut : (pre ++ dotSlice).rdropWhile (· ≠ '.') = pre ++ ['.'] := by
    rw [hletters]
    simp only [List.rdropWhile_concat]
    rfl
  unfold unitnameToPrefix
  rw [contains_at h, hdot, hcut]
  simp

/-- What is left of the function once the name is known to be that of a slice. -/
theorem sliceToPath_eq (checkHierarchy : Str → Bool) {pre : Str} (hdash : pre ≠ ['-'])
    (hlen : (pre ++ dotSlice).length < unitNameMax)
    (hchars : ∀ c ∈ pre ++ dotSlice, validChar c = true) :
    sliceToPath checkHierarchy (pre ++ dotSlice) = pre.head?.map fun first =>
      if first = '-' then .error .initialDash
      else sliceLoop checkHierarchy (pre.splitOn '-') [] [] := by
  have hroot : pre ++ dotSlice ≠ '-' :: dotSlice := fun h => hdash (List.append_cancel_right h)
  have hsuffix : dotSlice.isSuffixOf (pre ++ dotSlice) = true :=
    List.isSuffixOf_iff_suffix.mpr (List.suffix_append _ _)
  have hvalid := (sliceNameIsValid_iff pre).mpr ⟨hlen, hchars⟩
  unfold sliceToPath
  rw [if_neg hroot, hsuffix, hvalid, unitnameToPrefix_slice hchars]
  cases pre with
  | nil => rfl
  | cons c pre =>
    by_cases hc : c = '-'
    · simp [hc]
    · simp [hc]

/-- The part between `-` and `.slice` is empty only for the root slice. -/
theorem dashed_ne_dash (h : ∀ p ∈ ps, p ≠ [] ∧ '-' ∉ p) : dashed ps ≠ ['-'] := by
  intro hdash
  cases ps with
  | nil => cases hdash
  | cons p ps =>
    have hsplit : (dashed (p :: ps)).splitOn '-' = p :: ps :=
      List.splitOn_intercalate '-' (fun p hp => (h p hp).2) (List.cons_ne_nil _ _)
    have htwo : List.splitOn '-' ['-'] = [[], []] := by decide
    rw [hdash, htwo] at hsplit
    exact (h p List.mem_cons_self).1 (List.cons.inj hsplit).1.symm

theorem SliceName.slash (h : SliceName u ps) : ∀ p ∈ ps, '/' ∉ p := by
  intro p hp hmem
  have hu : '/' ∈ u := by
    rw [h.text]
    exact List.mem_append_left _ (mem_dashed_of_mem hp hmem)
  have hvalid : validChar '/' = true := h.chars '/' hu
  revert hvalid
  decide

theorem SliceName.sliceToPath (h : SliceName u ps)
    (checkHierarchy : Str → Bool) : Cgroup.sliceToPath checkHierarchy u =
      some (.ok (join ((dirNames ps).map (cgEscape checkHierarchy)))) := by
  have hslash := h.slash
  obtain ⟨hlen, hchars, hne, hparts, rfl⟩ := h
  have hsplit : (dashed ps).splitOn '-' = ps :=
    List.splitOn_intercalate '-' (fun p hp => (hparts p hp).2) hne
  have hloop := sliceLoop_eq checkHierarchy ps [] (fun p hp => (hparts p hp).1) hslash
  rw [sliceToPath_eq checkHierarchy (dashed_ne_dash hparts) hlen hchars, hsplit]
  -- the name does not begin with a dash, since its first part does not
  obtain ⟨p, ps, rfl⟩ := List.exists_cons_of_ne_nil hne
  obtain ⟨hp, hdash⟩ := hparts p List.mem_cons_self
  obtain ⟨c, t, rfl⟩ := List.exists_cons_of_ne_nil hp
  have hc : c ≠ '-' := fun heq => hdash (by simp [heq])
  rw [dashed_cons, List.cons_append, List.head?_cons, Option.map_some, if_neg hc]
  exact congrArg some hloop

/-- The root slice, the names that are rejected at once, and the others. -/
theorem sliceToPath_cases (checkHierarchy : Str → Bool) (u : Str) :
    (u = '-' :: dotSlice ∧ sliceToPath checkHierarchy u = some (.ok [])) ∨
      (∃ e, sliceToPath checkHierarchy u = some (.error e)) ∨
      ∃ pre, u = pre ++ dotSlice ∧ pre ≠ ['-'] ∧ (pre ++ dotSlice).length < unitNameMax ∧
        ∀ c ∈ pre ++ dotSlice, validChar c = true := by
  unfold sliceToPath
  by_cases hroot : u = '-' :: dotSlice
  · rw [if_pos hroot]
    exact .inl ⟨hroot, rfl⟩
  by_cases hsuffix : dotSlice.isSuffixOf u = true
  · by_cases hvalid : sliceNameIsValid u = true
    · obtain ⟨pre, rfl⟩ := List.isSuffixOf_iff_suffix.mp hsuffix
      have hdash : pre ≠ ['-'] := fun heq => hroot (by rw [heq]; rfl)
      exact .inr (.inr ⟨pre, rfl, hdash, (sliceNameIsValid_iff pre).mp hvalid⟩)
    · rw [if_neg hroot, hsuffix, Bool.eq_false_iff.mpr hvalid]
      exact .inr (.inl ⟨_, rfl⟩)
  · rw [if_neg hroot, Bool.eq_false_iff.mpr hsuffix]
    exact .inr (.inl ⟨_, rfl⟩)

/-- Only the root slice and names that consist of parts are accepted. -/
theorem sliceToPath_ok {u path : Str} (h : sliceToPath checkHierarchy u = some (.ok path)) :
    u = '-' :: dotSlice ∧ path = [] ∨ ∃ ps, SliceName u ps := by
  rcases sliceToPath_cases checkHierarchy u with ⟨hroot, hok⟩ | ⟨e, herr⟩ |
    ⟨pre, rfl, hdash, hlen, hchars⟩
  · cases hok.symm.trans h
    exact .inl ⟨hroot, rfl⟩
  · cases herr.symm.trans h
  · rw [sliceToPath_eq checkHierarchy hdash hlen hchars] at h
    obtain ⟨first, -, h⟩ := Option.map_eq_some_iff.mp h
    have hempty : [] ∉ pre.splitOn '-' := by
      intro hmem
      rw [sliceLoop_empty hmem] at h
      split at h <;> cases h
    refine .inr ⟨pre.splitOn '-', hlen, hchars, List.splitOn_ne_nil _ _, fun p hp => ?_, ?_⟩
    · exact ⟨fun heq => hempty (heq ▸ hp), notMem_of_mem_splitOn hp⟩
    · rw [dashed, List.intercalate_splitOn]

/-- The one name on which the function panics: there is no first character to look at. -/
theorem sliceToPath_none_iff : sliceToPath checkHierarchy u = none ↔ u = dotSlice := by
  constructor
  · intro h
    rcases sliceToPath_cases checkHierarchy u with ⟨-, hok⟩ | ⟨e, herr⟩ |
      ⟨pre, rfl, hdash, hlen, hchars⟩
    · cases hok.symm.trans h
    · cases herr.symm.trans h
    · rw [sliceToPath_eq checkHierarchy hdash hlen hchars, Option.map_eq_none_iff,
        List.head?_eq_none_iff] at h
      rw [h, List.nil_append]
  · rintro rfl
    rfl

theorem SliceName.components (h : SliceName u ps) (checkHierarchy : Str → Bool) :
    (split (join ((dirNames ps).map (cgEscape checkHierarchy)))).map cgUnescape =
      (dirNames ps).map some := by
  have hplain := plain_dirNames checkHierarchy h.slash
  have hne : (dirNames ps).map (cgEscape checkHierarchy) ≠ [] := by
    simpa [dirNames] using h.ne_nil
  rw [split_join hne fun d hd => (hplain d hd).slash, List.map_map]
  refine List.map_congr_left fun d hd => ?_
  obtain ⟨i, -, rfl⟩ := List.mem_map.mp hd
  exact cgUnescape_cgEscape checkHierarchy (by simp [dotSlice])

theorem SliceName.last (h : SliceName u ps) (checkHierarchy : Str → Bool) :
    ((split (join ((dirNames ps).map (cgEscape checkHierarchy)))).map cgUnescape).getLast? =
      some (some u) := by
  have hps := List.dropLast_append_getLast h.ne_nil
  rw [h.components, ← hps, dirNames_concat, List.map_append, List.map_singleton,
    List.getLast?_concat, hps, ← h.text]

/-- **The path of a slice.** All names but `.slice` are accepted or rejected. Those that consist of
non-empty parts with dashes between them are accepted; their paths have one component for each
part, and no two names have the same path. -/
theorem sliceToPath_iff (checkHierarchy : Str → Bool) (u : Str) :
    (sliceToPath checkHierarchy u = none ↔ u = dotSlice) ∧
    ((∃ path, sliceToPath checkHierarchy u = some (.ok path)) ↔
      u = '-' :: dotSlice ∨ ∃ ps, SliceName u ps) ∧
    (∀ ps, SliceName u ps → ∃ path, sliceToPath checkHierarchy u = some (.ok path) ∧
      (split path).map cgUnescape =
        (List.range ps.length).map fun i => some (dashed (ps.take (i + 1)) ++ dotSlice)) ∧
    ∀ checkHierarchy' u' path, sliceToPath checkHierarchy u = some (.ok path) →
      sliceToPath checkHierarchy' u' = some (.ok path) → u = u' := by
  refine ⟨sliceToPath_none_iff, ⟨?_, ?_⟩, ?_, ?_⟩
  · rintro ⟨path, h⟩
    exact (sliceToPath_ok h).imp_left And.left
  · rintro (rfl | ⟨ps, h⟩)
    · exact ⟨[], rfl⟩
    · exact ⟨_, h.sliceToPath checkHierarchy⟩
  · intro ps h
    refine ⟨_, h.sliceToPath checkHierarchy, ?_⟩
    rw [h.components, dirNames, List.map_map]
    rfl
  · intro checkHierarchy' u' path h h'
    -- the root slice has no last component that could be unescaped
    have hlast : ∀ {check : Str → Bool} {v : Str}, sliceToPath check v = some (.ok path) →
        v = '-' :: dotSlice ∧ path = [] ∨
          ((split path).map cgUnescape).getLast? = some (some v) := by
      intro check v hv
      refine (sliceToPath_ok hv).imp_right ?_
      rintro ⟨ps, hps⟩
      cases (hps.sliceToPath check).symm.trans hv
      exact hps.last check
    have hempty : ((split []).map cgUnescape).getLast? = some none := rfl
    rcases hlast h with ⟨rfl, rfl⟩ | hu
    · rcases hlast h' with ⟨rfl, -⟩ | hu'
      · rfl
      · cases hempty.symm.trans hu'
    · rcases hlast h' with ⟨-, rfl⟩ | hu'
      · cases hempty.symm.trans hu
      · exact Option.some.inj (Option.some.inj (hu.symm.trans hu'))

example : sliceToPath (fun _ => false) "foo-bar.slice".toList =
    some (.ok "foo.slice/foo-bar.slice".toList) := by decide

/-- **`SliceToPath(".slice")` panics.** -/
theorem sliceToPath_panics : sliceToPath (fun _ => false) ".slice".toList = none := rfl

end Rkt.Cgroup
