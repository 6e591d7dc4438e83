import Rkt.Fetch.Fetch

set_option autoImplicit false

namespace Rkt.Fetch

open Store Decimal

structure Directive where
  name : Str
  value : Option Str
  name_eq : '=' ∉ name
  name_comma : ',' ∉ name
  name_space : ' ' ∉ name
  value_comma : ∀ v ∈ value, ',' ∉ v
  value_space : ∀ v ∈ value, ' ' ∉ v
  deriving DecidableEq

def Directive.text (d : Directive) : Str :=
  match d.value with
  | none => d.name
  | some v => d.name ++ '=' :: v

/-- A directive with the spaces in front of it and behind it. -/
structure Item where
  dir : Directive
  lead : Nat
  trail : Nat
  deriving DecidableEq

def spaces (k : Nat) : Str := List.replicate k ' '

def header : List Item → Str
  | [] => []
  | i :: is =>
    spaces i.lead ++ (i.dir.text ++ (spaces i.trail ++
      if is.isEmpty then [] else ',' :: header is))

def Directive.lowerName (d : Directive) : Str := d.name.map Char.toLower

def Directive.forbids (d : Directive) : Bool :=
  d.lowerName = "no-store".toList ∨ d.lowerName = "no-cache".toList

def Directive.isMaxAge (d : Directive) : Bool := d.lowerName = "max-age".toList

/-- What the header demands of the maximal age, and of the use of the cache. -/
structure Contract (ds : List Directive) (maxAge : Int) : Prop where
  forbidden : (∃ d ∈ ds, d.forbids = true) →
    maxAge = 0 ∧ ∀ now downloadTime, useCached now downloadTime maxAge = false
  single : (∀ d ∈ ds, d.forbids = false) → ∀ d, ds.filter Directive.isMaxAge = [d] →
    ∀ n : Nat, 0 < n → d.value = some (Nat.toDigits 10 n) → maxAge = n
  none : (∀ d ∈ ds, d.forbids = false) → ds.filter Directive.isMaxAge = [] → maxAge = 0

def Directive.tells (d : Directive) : Option Int :=
  if d.forbids then some 0
  else if d.isMaxAge then
    (d.value.bind atoi).bind fun secs =>
      if secs ≠ 0 ∧ d.value.any (·.head? = some '0') then none else some (max secs 0)
  else none

/-- The directive begins a part, and what is behind it in the part does not matter. -/
def visible (first last : Bool) (i : Item) : Bool :=
  (first || 0 < i.lead) && (last || 0 < i.trail || i.dir.value.isSome && i.dir.forbids)

def marks : Bool → List Item → List (Item × Bool)
  | _, [] => []
  | first, i :: is => (i, visible first is.isEmpty i) :: marks false is

def readMark (x : Item × Bool) : Option Int := if x.2 then x.1.dir.tells else none

def said (is : List Item) : List Int := (marks true is).filterMap readMark

/-- If caching is forbidden, no positive number is said last. If there is one age, it is read, and
fits into 64 bits. -/
structure Readable (is : List Item) : Prop where
  forbidden : (∃ i ∈ is, i.dir.forbids = true) → (said is).getLastD 0 = 0
  single : (∀ i ∈ is, i.dir.forbids = false) → ∀ d,
    (is.map Item.dir).filter Directive.isMaxAge = [d] → ∀ n : Nat, 0 < n →
      d.value = some (Nat.toDigits 10 n) →
        (∀ x ∈ marks true is, x.1.dir.isMaxAge = true → x.2 = true) ∧ n < 2 ^ 63

variable {d : Directive} {m : Int}

theorem directive_of_comma {part : Str} (h : ',' ∈ part.takeWhile (· ≠ '=')) :
    directive m part = m := by
  have hlower : ∀ name : Str, ',' ∉ name →
      (part.takeWhile (· ≠ '=')).map Char.toLower ≠ name := by
    rintro name hname rfl
    exact hname (List.mem_map.mpr ⟨',', h, rfl⟩)
  unfold directive
  simp only [hlower _ (by decide : ',' ∉ "no-store".toList),
    hlower _ (by decide : ',' ∉ "no-cache".toList),
    hlower _ (by decide : ',' ∉ "max-age".toList), if_false]

theorem directive_comma (x : Str) : directive m (',' :: x) = m :=
  directive_of_comma (by simp)

theorem directive_nil : directive m [] = m := by
  simp [directive]

theorem atoi_of_comma {s : Str} (h : ',' ∈ s) : atoi s = none := by
  have hnat : ∀ t : Str, ',' ∈ t → parseNat t = none := by
    intro t ht
    unfold parseNat
    refine if_neg fun hall => ?_
    exact absurd (List.all_eq_true.mp hall.2 ',' ht) (by decide)
  unfold atoi
  split
  · rw [hnat _ (by simpa using h)]
    rfl
  · rw [atoi.unsigned, hnat _ (by simpa using h)]
    rfl
  · rw [atoi.unsigned, hnat _ h]
    rfl

def ageOf (val : Str) : Option Int :=
  (atoi val).bind fun secs => if secs ≠ 0 ∧ val.head? = some '0' then none else some (max secs 0)

theorem directive_of_name {part : Str} (h : part.takeWhile (· ≠ '=') = d.name) :
    directive m part = if d.forbids then 0
      else if d.isMaxAge then (ageOf ((part.dropWhile (· ≠ '=')).drop 1)).getD m else m := by
  have hlower : (part.takeWhile (· ≠ '=')).map Char.toLower = d.lowerName := by
    rw [h]
    rfl
  unfold directive ageOf Directive.forbids Directive.isMaxAge
  simp only [hlower, Bool.decide_or, Bool.or_eq_true, decide_eq_true_eq]
  -- what the names are does not matter any more
  generalize d.lowerName = name, "no-store".toList = store, "no-cache".toList = cache,
    "max-age".toList = age, (part.dropWhile (· ≠ '=')).drop 1 = val
  by_cases hstore : name = store
  · rw [if_pos hstore, if_pos (.inl hstore)]
  · by_cases hcache : name = cache
    · rw [if_neg hstore, if_pos hcache, if_pos (.inr hcache)]
    · rw [if_neg hstore, if_neg hcache, if_neg (not_or.mpr ⟨hstore, hcache⟩)]
      refine if_congr Iff.rfl ?_ rfl
      cases atoi val with
      | none => rfl
      | some secs =>
        dsimp only [Option.bind_some]
        split_ifs with hzero hle
        · rfl
        · rw [Option.getD_some, max_eq_right hle]
        · rw [Option.getD_some, max_eq_left (by omega)]

theorem Directive.ne_eq (d : Directive) : ∀ c ∈ d.name, decide (c ≠ '=') = true := by
  intro c hc
  rw [decide_eq_true_eq]
  rintro rfl
  exact d.name_eq hc

theorem directive_value (d : Directive) (x : Str) : directive m (d.name ++ '=' :: x) =
      if d.forbids then 0 else if d.isMaxAge then (ageOf x).getD m else m := by
  have htake : (d.name ++ '=' :: x).takeWhile (· ≠ '=') = d.name := by
    rw [List.takeWhile_append_of_pos d.ne_eq]
    simp
  have hdrop : (d.name ++ '=' :: x).dropWhile (· ≠ '=') = '=' :: x := by
    rw [List.dropWhile_append_of_pos d.ne_eq]
    simp
  rw [directive_of_name htake, hdrop, List.drop_one, List.tail_cons]

theorem directive_name (d : Directive) : directive m d.name = if d.forbids then 0 else m := by
  have htake : d.name.takeWhile (· ≠ '=') = d.name := List.takeWhile_eq_self_iff.mpr d.ne_eq
  have hdrop : d.name.dropWhile (· ≠ '=') = [] := List.dropWhile_eq_nil_iff.mpr d.ne_eq
  have hempty : ageOf [] = none := rfl
  rw [directive_of_name htake, hdrop, List.drop_nil, hempty]
  cases d.forbids <;> simp

theorem directive_text (d : Directive) : directive m d.text = d.tells.getD m := by
  unfold Directive.text Directive.tells
  cases d.value with
  | none =>
    rw [directive_name]
    cases d.forbids <;> simp
  | some v =>
    rw [directive_value]
    cases d.forbids <;> cases d.isMaxAge <;> simp [ageOf]

theorem directive_text_comma (d : Directive) (x : Str) :
    directive m (d.text ++ ',' :: x) = if d.value.isSome && d.forbids then 0 else m := by
  unfold Directive.text
  cases d.value with
  | none =>
    have hcomma : ',' ∈ (d.name ++ ',' :: x).takeWhile (· ≠ '=') := by
      rw [List.takeWhile_append_of_pos d.ne_eq]
      simp
    simp [directive_of_comma hcomma]
  | some v =>
    have hnone : ageOf (v ++ ',' :: x) = none := by
      rw [ageOf, atoi_of_comma (by simp)]
      rfl
    rw [List.append_assoc, List.cons_append, directive_value, hnone]
    cases d.forbids <;> simp

def feed (m : Int) (s : Str) : Int := (s.splitOn ' ').foldl directive m

variable {cur : Str}

theorem feed_part (h : ' ' ∉ cur) : feed m cur = directive m cur := by
  rw [feed, List.splitOn_eq_singleton h]
  rfl

theorem feed_space (h : ' ' ∉ cur) (s : Str) :
    feed m (cur ++ ' ' :: s) = feed (directive m cur) s := by
  rw [feed, List.splitOn_append_cons_self, List.splitOn_eq_singleton h]
  rfl

theorem feed_spaces (k : Nat) (s : Str) : feed m (spaces k ++ s) = feed m s := by
  induction k with
  | zero => rfl
  | succ k ih =>
    show feed m ([] ++ ' ' :: (spaces k ++ s)) = _
    rw [feed_space List.not_mem_nil, directive_nil, ih]

theorem Directive.space_notMem_text (d : Directive) : ' ' ∉ d.text := by
  unfold Directive.text
  cases hv : d.value with
  | none => exact d.name_space
  | some v =>
    have hvalue : ' ' ∉ v := d.value_space v hv
    simp [d.name_space, hvalue]

/-- The directives from an item on; `m` is the age so far. -/
def scan : Bool → List Item → Int → Int
  | _, [], m => m
  | first, i :: is, m =>
    scan false is (if visible first is.isEmpty i then i.dir.tells.getD m else m)

/-- The directives behind something in their part that cannot be changed any more. -/
def Behind (is : List Item) : Prop :=
  ∀ (cur : Str) (f : Int → Int) (m : Int), ' ' ∉ cur → (∀ m x, directive m (cur ++ x) = f m) →
    feed m (cur ++ header is) = scan false is (f m)

/-- What is in front of the comma, or at the end: `g` if the part ends there, and `h` if it goes
on. -/
theorem feed_trail {is : List Item} (trail : Nat) {g h : Int → Int} (hcur : ' ' ∉ cur)
    (hg : ∀ m, directive m cur = g m) (hh : ∀ m x, directive m (cur ++ ',' :: x) = h m)
    (ih : Behind is) :
    feed m (cur ++ (spaces trail ++ if is.isEmpty then [] else ',' :: header is)) =
      scan false is (if is.isEmpty || 0 < trail then g m else h m) := by
  cases trail with
  | zero =>
    cases is with
    | nil =>
      show feed m (cur ++ []) = g m
      rw [List.append_nil, feed_part hcur, hg]
    | cons i is =>
      have hcomma : ' ' ∉ cur ++ [','] := by simp [hcur]
      have hfixed : ∀ m x, directive m (cur ++ [','] ++ x) = h m := by
        intro m x
        rw [List.append_assoc, List.singleton_append, hh]
      have hrest := ih _ h m hcomma hfixed
      rw [List.append_assoc, List.singleton_append] at hrest
      exact hrest
  | succ k =>
    have hspace : ∀ s, cur ++ (spaces (k + 1) ++ s) = cur ++ ' ' :: (spaces k ++ s) :=
      fun s => rfl
    rw [hspace, feed_space hcur, feed_spaces, hg]
    cases is with
    | nil =>
      show feed (g m) [] = g m
      rw [feed_part List.not_mem_nil, directive_nil]
    | cons i is =>
      have hrest := ih [','] id (g m) (by decide) fun m x => directive_comma x
      simpa using hrest

theorem feed_text {i : Item} {is : List Item} (ih : Behind is) :
    feed m (i.dir.text ++ (spaces i.trail ++ if is.isEmpty then [] else ',' :: header is)) =
      scan false is (if visible true is.isEmpty i then i.dir.tells.getD m else m) := by
  rw [feed_trail i.trail i.dir.space_notMem_text (fun m => directive_text i.dir)
    (fun m x => directive_text_comma i.dir x) ih]
  congr 1
  by_cases hends : (is.isEmpty || decide (0 < i.trail)) = true
  · simp [visible, hends]
  · by_cases hforbids : (i.dir.value.isSome && i.dir.forbids) = true
    · have hsays : i.dir.tells = some 0 := by
        rw [Directive.tells, if_pos (Bool.and_eq_true_iff.mp hforbids).2]
      simp [visible, hends, hforbids, hsays]
    · simp [visible, hends, hforbids]

theorem behind (is : List Item) : Behind is := by
  induction is with
  | nil =>
    intro cur f m hcur hf
    have hnow := hf m []
    rw [List.append_nil] at hnow
    show feed m (cur ++ []) = f m
    rw [List.append_nil, feed_part hcur, hnow]
  | cons i is ih =>
    intro cur f m hcur hf
    have hnow : ∀ m, directive m cur = f m := fun m => by simpa using hf m []
    rw [header, scan]
    cases hlead : i.lead with
    | zero =>
      -- it does not begin a part, and nothing is read
      have hhidden : visible false is.isEmpty i = false := by simp [visible, hlead]
      have hspace : ' ' ∉ cur ++ i.dir.text := by simp [hcur, i.dir.space_notMem_text]
      have hfixed : ∀ m x, directive m (cur ++ i.dir.text ++ x) = f m := by
        intro m x
        rw [List.append_assoc, hf]
      have htext := feed_trail (m := m) i.trail hspace
        (fun m => by simpa using hfixed m []) (fun m x => hfixed m _) ih
      rw [ite_self, List.append_assoc] at htext
      rw [hhidden]
      exact htext
    | succ k =>
      have hvisible : visible false is.isEmpty i = visible true is.isEmpty i := by
        simp [visible, hlead]
      have hspace : ∀ s, cur ++ (spaces (k + 1) ++ s) = cur ++ ' ' :: (spaces k ++ s) :=
        fun s => rfl
      rw [hspace, feed_space hcur, feed_spaces, hnow, feed_text ih, hvisible]

theorem getMaxAge_eq_scan (is : List Item) : getMaxAge (header is) = scan true is 0 := by
  have hfeed : getMaxAge (header is) = feed 0 (header is) := by
    unfold getMaxAge
    split_ifs with hempty
    · rw [hempty]
      rfl
    · rfl
  rw [hfeed]
  cases is with
  | nil => rfl
  | cons i is => rw [header, feed_spaces, feed_text (behind is), scan]

/-- **The last directive that is read decides.** -/
theorem getMaxAge_eq (is : List Item) : getMaxAge (header is) = (said is).getLastD 0 := by
  have hscan : ∀ (first : Bool) (is : List Item) (m : Int),
      scan first is m = ((marks first is).filterMap readMark).getLastD m := by
    intro first is
    induction is generalizing first with
    | nil => exact fun m => rfl
    | cons i is ih =>
      intro m
      have hnow : (if visible first is.isEmpty i then i.dir.tells.getD m else m) =
          (readMark (i, visible first is.isEmpty i)).getD m := by
        cases hv : visible first is.isEmpty i <;> simp [readMark]
      rw [scan, hnow, ih, marks, List.filterMap_cons]
      cases readMark (i, visible first is.isEmpty i) with
      | none => rfl
      | some n => exact (List.getLastD_cons ..).symm
  rw [getMaxAge_eq_scan, hscan]
  rfl

variable {is : List Item}

theorem map_fst_marks (first : Bool) (is : List Item) : (marks first is).map Prod.fst = is := by
  induction is generalizing first with
  | nil => rfl
  | cons i is ih => rw [marks, List.map_cons, ih]

/-- Without a directive that forbids caching, only ages say something. -/
theorem said_eq_filter (hforbids : ∀ i ∈ is, i.dir.forbids = false) :
    said is = ((marks true is).filter fun x => x.1.dir.isMaxAge).filterMap readMark := by
  rw [List.filterMap_filter]
  refine List.filterMap_congr fun x hx => ?_
  have hmem : x.1 ∈ is := by
    rw [← map_fst_marks true is]
    exact List.mem_map_of_mem hx
  cases hage : x.1.dir.isMaxAge with
  | true => simp
  | false =>
    have hsays : x.1.dir.tells = none := by simp [Directive.tells, hforbids x.1 hmem, hage]
    simp [readMark, hsays]

theorem map_filter_marks (is : List Item) :
    ((marks true is).filter fun x => x.1.dir.isMaxAge).map (fun x => x.1.dir) =
      (is.map Item.dir).filter Directive.isMaxAge := by
  conv_rhs => rw [← map_fst_marks true is, List.map_map, List.filter_map]
  rfl

theorem tells_digits {n : Nat} (hn : 0 < n) (hforbids : d.forbids = false)
    (hage : d.isMaxAge = true) (hvalue : d.value = some (Nat.toDigits 10 n)) :
    d.tells = if n < 2 ^ 63 then some (n : Int) else none := by
  have hatoi : atoi (Nat.toDigits 10 n) = if n < 2 ^ 63 then some (n : Int) else none := atoi_itoa n
  rw [Directive.tells, hforbids, hage, hvalue]
  simp only [Bool.false_eq_true, ↓reduceIte, Option.bind_some, hatoi, Option.any_some,
    head_toDigits hn, decide_false, and_false]
  split_ifs
  · simp
  · rfl

theorem said_single (hforbids : ∀ i ∈ is, i.dir.forbids = false)
    (hone : (is.map Item.dir).filter Directive.isMaxAge = [d]) {n : Nat} (hn : 0 < n)
    (hvalue : d.value = some (Nat.toDigits 10 n)) : (said is).getLastD 0 = n ↔
      (∀ x ∈ marks true is, x.1.dir.isMaxAge = true → x.2 = true) ∧ n < 2 ^ 63 := by
  rw [← map_filter_marks] at hone
  obtain ⟨x, hx, rfl⟩ := List.map_eq_singleton_iff.mp hone
  have hmem : x ∈ (marks true is).filter fun x => x.1.dir.isMaxAge := by
    rw [hx]
    exact List.mem_singleton_self x
  obtain ⟨hmark, hage⟩ := List.mem_filter.mp hmem
  have hitem : x.1 ∈ is := by
    rw [← map_fst_marks true is]
    exact List.mem_map_of_mem hmark
  have honly : (∀ y ∈ marks true is, y.1.dir.isMaxAge = true → y.2 = true) ↔ x.2 = true := by
    constructor
    · intro h
      exact h x hmark hage
    · intro h y hy hyage
      have hy' : y ∈ (marks true is).filter fun x => x.1.dir.isMaxAge :=
        List.mem_filter.mpr ⟨hy, hyage⟩
      rw [hx, List.mem_singleton] at hy'
      rw [hy', h]
  have hsays := tells_digits hn (hforbids x.1 hitem) hage hvalue
  have hlast : (said is).getLastD 0 = (readMark x).getD 0 := by
    rw [said_eq_filter hforbids, hx]
    cases hread : readMark x <;> simp [hread]
  rw [hlast, honly, readMark, hsays]
  by_cases hread : x.2 = true
  · rw [if_pos hread]
    by_cases hlt : n < 2 ^ 63
    · rw [if_pos hlt, Option.getD_some]
      exact iff_of_true rfl ⟨hread, hlt⟩
    · rw [if_neg hlt, Option.getD_none]
      exact iff_of_false (by omega) fun h => hlt h.2
  · rw [if_neg hread, Option.getD_none]
    exact iff_of_false (by omega) fun h => hread h.1

theorem useCached_zero (now downloadTime : Time) : useCached now downloadTime 0 = false := by
  simp [useCached]

/-- **`getMaxAge` is right exactly if the header is readable.** -/
theorem getMaxAge_iff (is : List Item) :
    Contract (is.map Item.dir) (getMaxAge (header is)) ↔ Readable is := by
  have hall : (∀ d ∈ is.map Item.dir, d.forbids = false) ↔ ∀ i ∈ is, i.dir.forbids = false :=
    List.forall_mem_map
  have hsome : (∃ d ∈ is.map Item.dir, d.forbids = true) ↔ ∃ i ∈ is, i.dir.forbids = true := by
    simp
  rw [getMaxAge_eq]
  constructor
  · intro h
    refine ⟨fun hforbids => (h.forbidden (hsome.mpr hforbids)).1, ?_⟩
    intro hforbids d hone n hn hvalue
    exact (said_single hforbids hone hn hvalue).mp
      (h.single (hall.mpr hforbids) d hone n hn hvalue)
  · intro h
    refine ⟨fun hforbids => ?_, fun hforbids d hone n hn hvalue => ?_, fun hforbids hnone => ?_⟩
    · rw [h.forbidden (hsome.mp hforbids)]
      exact ⟨rfl, useCached_zero⟩
    · exact (said_single (hall.mp hforbids) hone hn hvalue).mpr
        (h.single (hall.mp hforbids) d hone n hn hvalue)
    · rw [← map_filter_marks, List.map_eq_nil_iff] at hnone
      rw [said_eq_filter (hall.mp hforbids), hnone]
      rfl

/-- A directive of the given text, without a value. -/
def noStore : Directive :=
  ⟨"no-store".toList, none, by decide, by decide, by decide, by simp, by simp⟩

def maxAge10 : Directive :=
  ⟨"max-age".toList, some ['1', '0'], by decide, by decide, by decide, by decide, by decide⟩

/-- `no-store, max-age=10` allows caching. -/
theorem getMaxAge_ignores_noStore :
    header [⟨noStore, 0, 0⟩, ⟨maxAge10, 1, 0⟩] = "no-store, max-age=10".toList ∧
    getMaxAge (header [⟨noStore, 0, 0⟩, ⟨maxAge10, 1, 0⟩]) = 10 ∧
    useCached 0 0 (getMaxAge (header [⟨noStore, 0, 0⟩, ⟨maxAge10, 1, 0⟩])) = true := by
  decide

end Rkt.Fetch
