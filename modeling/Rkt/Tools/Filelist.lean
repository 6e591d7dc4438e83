import Rkt.Code.Result
import Rkt.Code.Scan

set_option autoImplicit false

namespace Rkt.Filelist

open Decimal Json Result Scan

inductive Kind where
  | files
  | symlinks
  | dirs
  deriving DecidableEq, Repr

def Kind.text : Kind → Bytes
  | .files => ascii "files".toList
  | .symlinks => ascii "symlinks".toList
  | .dirs => ascii "dirs".toList

@[ext]
structure Lists where
  files : List Bytes
  symlinks : List Bytes
  dirs : List Bytes
  deriving DecidableEq, Repr

def Lists.set (L : Lists) (kind : Kind) (data : List Bytes) : Lists :=
  match kind with
  | .files => { L with files := data }
  | .symlinks => { L with symlinks := data }
  | .dirs => { L with dirs := data }

def getDataForKind (kind : Bytes) : Option Kind :=
  [Kind.files, .symlinks, .dirs].find? fun k => k.text = kind

def Lists.getPairs (L : Lists) : List (Kind × List Bytes) :=
  [(.files, L.files), (.symlinks, L.symlinks), (.dirs, L.dirs)]

def countLine (n : Nat) : List Char := '(' :: (Nat.toDigits 10 n ++ [')'])

def generatePair (pair : Kind × List Bytes) : Bytes :=
  pair.1.text ++ 10 :: (ascii (countLine pair.2.length) ++ 10 ::
    ((if pair.2.length > 0 then [10].intercalate pair.2 ++ [10] else []) ++ [10]))

def Lists.generateFilelist (L : Lists) : Bytes := L.getPairs.flatMap generatePair

inductive ParseErr where
  /-- `bufio.Scanner: token too long`. -/
  | tooLong
  /-- `got an empty kind, expected 'files', 'symlinks' or 'dirs'`. -/
  | emptyKind
  /-- `expected a line with a count, unexpected EOF?`. -/
  | noCount
  /-- An error of `fmt.Fscanf`. -/
  | badCount
  /-- `unknown kind %q, expected 'files', 'symlinks' or 'dirs'`. -/
  | unknownKind (kind : Bytes)
  /-- `expected either an empty line or a line with an item, unexpected EOF?`. -/
  | noItem
  /-- `too few items (declared %d, got %d)`. -/
  | tooFew (count : Int) (got : Nat)
  /-- `too many items (declared %d)`. -/
  | tooMany (count : Int)
  deriving DecidableEq, Repr

inductive Fail where
  /-- `make` panics: the capacity is out of range. -/
  | panic
  /-- `Failed to parse filelist: %v`. -/
  | err (e : ParseErr)
  deriving DecidableEq, Repr

/-- The lines of a text, without the newlines. -/
def rawLines : Bytes → List Bytes
  | [] => []
  | b :: s => if b = 10 then [] :: rawLines s else (b :: (rawLines s).headD []) :: (rawLines s).tail

def dropCR (l : Bytes) : Bytes := if l.getLast? = some 13 then l.dropLast else l

/-- `scanner.Text`, or `scanner.Err`. -/
def scanText (l : Bytes) : Except ParseErr Bytes :=
  if 65536 ≤ l.length then .error .tooLong else .ok (dropCR l)

/-- `fmt.Fscanf(countReader, "(%d)", &count)`. -/
def scanCount (s : List Char) : Option Int :=
  if s.head? = some '(' then
    (scanInt s.tail).bind fun x => if x.2.head? = some ')' then some x.1 else none
  else none

/-- A list that is being read. -/
structure Block where
  kind : Kind
  count : Int
  items : List Bytes
  deriving DecidableEq, Repr

/-- `parseHeader` on two lines, and `getDataForKind`. -/
def parseHeader (k c : Bytes) : Except ParseErr (Kind × Int) := do
  let kind ← scanText k
  if kind = [] then .error .emptyKind
  else
    let line ← scanText c
    match scanCount (runes line) with
    | none => .error .badCount
    | some count =>
      match getDataForKind kind with
      | none => .error (.unknownKind kind)
      | some data => .ok (data, count)

/-- The loops of `ParseFilelist` and, within a list, of `parseList`, over the lines that are left. A
list can have room for `maxCap` entries. -/
def parseLines (maxCap : Nat) : Option Block → Lists → List Bytes → Lists × Option Fail
  | none, L, [] => (L, none)
  | none, L, [k] =>
    match scanText k with
    | .error e => (L, some (.err e))
    | .ok kind => (L, some (.err (if kind = [] then .emptyKind else .noCount)))
  | none, L, k :: c :: ls =>
    match parseHeader k c with
    | .error e => (L, some (.err e))
    | .ok (kind, count) =>
      if count < 0 ∨ count > maxCap then (L, some .panic)
      else parseLines maxCap (some ⟨kind, count, []⟩) L ls
  | some _, L, [] => (L, some (.err .noItem))
  | some b, L, l :: ls =>
    match scanText l with
    | .error e => (L, some (.err e))
    | .ok line =>
      if line = [] then
        if b.items.length < b.count then (L, some (.err (.tooFew b.count b.items.length)))
        else parseLines maxCap none (L.set b.kind b.items) ls
      else if (b.items.length + 1 : Int) > b.count then (L, some (.err (.tooMany b.count)))
      else parseLines maxCap (some { b with items := b.items ++ [line] }) L ls

def parseFilelist (maxCap : Nat) (L : Lists) (filelist : Bytes) : Lists × Option Fail :=
  parseLines maxCap none L (rawLines filelist)

variable {maxCap : Nat}

theorem rawLines_line {l : Bytes} (h : 10 ∉ l) (s : Bytes) :
    rawLines (l ++ 10 :: s) = l :: rawLines s := by
  induction l with
  | nil => rfl
  | cons b l ih =>
    rw [List.mem_cons, not_or] at h
    rw [List.cons_append, rawLines, if_neg (Ne.symm h.1), ih h.2]
    rfl

def pairLines (pair : Kind × List Bytes) : List Bytes :=
  pair.1.text :: ascii (countLine pair.2.length) :: (pair.2 ++ [[]])

theorem rawLines_items {items : List Bytes} (h : ∀ i ∈ items, 10 ∉ i) (s : Bytes) :
    rawLines ((if items.length > 0 then [10].intercalate items ++ [10] else []) ++ s) =
      items ++ rawLines s := by
  induction items with
  | nil => rfl
  | cons i items ih =>
    have hi := h i List.mem_cons_self
    have hrest := ih fun i' hi' => h i' (List.mem_cons_of_mem i hi')
    cases items with
    | nil => simpa using rawLines_line hi s
    | cons j items =>
      rw [if_pos (List.length_pos_of_ne_nil (List.cons_ne_nil j items))] at hrest
      rw [if_pos (List.length_pos_of_ne_nil (List.cons_ne_nil i _)), List.intercalate_cons_cons]
      simp only [List.append_assoc, List.singleton_append] at hrest ⊢
      rw [List.cons_append, rawLines_line hi, hrest]
      rfl

theorem newline_notMem_text (kind : Kind) : 10 ∉ kind.text := by
  cases kind <;> decide

theorem countLine_ascii {n : Nat} {c : Char} (h : c ∈ countLine n) : c ≠ '\n' ∧ c.toNat < 128 := by
  rw [countLine, List.mem_cons, List.mem_append, List.mem_singleton] at h
  obtain rfl | h | rfl := h
  · decide
  · have hc : 48 ≤ c.toNat ∧ c.toNat ≤ 57 :=
      Char.isDigit_iff_toNat.mp (Nat.isDigit_of_mem_toDigits (by decide) (by decide) h)
    refine ⟨fun hnl => ?_, by omega⟩
    rw [hnl] at hc
    exact absurd hc.1 (by decide)
  · decide

theorem newline_notMem_countLine (n : Nat) : 10 ∉ ascii (countLine n) := by
  intro h
  obtain ⟨c, hc, hbyte⟩ := List.mem_map.mp h
  obtain ⟨hnl, hlt⟩ := countLine_ascii hc
  have hten := congrArg UInt8.toNat hbyte
  simp only [UInt8.toNat_ofNat', UInt8.reduceToNat] at hten
  exact hnl (Char.toNat_inj.mp (by simp only [Char.reduceToNat]; omega))

theorem rawLines_pairs {pairs : List (Kind × List Bytes)} (h : ∀ p ∈ pairs, ∀ i ∈ p.2, 10 ∉ i) :
    rawLines (pairs.flatMap generatePair) = pairs.flatMap pairLines := by
  induction pairs with
  | nil => rfl
  | cons p pairs ih =>
    rw [List.flatMap_cons, List.flatMap_cons, generatePair, List.append_assoc, List.cons_append,
      rawLines_line (newline_notMem_text p.1), List.append_assoc, List.cons_append,
      rawLines_line (newline_notMem_countLine _), List.append_assoc,
      rawLines_items (h p List.mem_cons_self), List.singleton_append, rawLines, if_pos rfl,
      ih fun q hq => h q (List.mem_cons_of_mem p hq)]
    simp [pairLines]

theorem scanText_eq_ok {l line : Bytes} :
    scanText l = .ok line ↔ l.length < 65536 ∧ dropCR l = line := by
  rw [scanText]
  split_ifs with h
  · simp [Nat.not_lt.mpr h]
  · simp [Nat.not_le.mp h]

/-- The line is read as an entry. -/
def IsItem (l : Bytes) : Prop := l.length < 65536 ∧ dropCR l ≠ []

/-- The lines of a list: its entries, and an empty line. -/
structure IsList (items : List Bytes) (e : Bytes) : Prop where
  items : ∀ i ∈ items, IsItem i
  empty : scanText e = .ok []

/-- The first line is the empty one, or it is an entry. -/
theorem exists_list_cons {l : Bytes} {ls : List Bytes} {P : List Bytes → List Bytes → Prop} :
    (∃ items e rest, l :: ls = items ++ e :: rest ∧ IsList items e ∧ P items rest) ↔
      scanText l = .ok [] ∧ P [] ls ∨
        IsItem l ∧ ∃ items e rest, ls = items ++ e :: rest ∧ IsList items e ∧
          P (l :: items) rest := by
  constructor
  · rintro ⟨items, e, rest, hls, hlist, hP⟩
    cases items with
    | nil =>
      cases hls
      exact .inl ⟨hlist.empty, hP⟩
    | cons i items =>
      cases hls
      obtain ⟨hi, hitems⟩ := List.forall_mem_cons.mp hlist.items
      exact .inr ⟨hi, items, e, rest, rfl, ⟨hitems, hlist.empty⟩, hP⟩
  · rintro (⟨hempty, hP⟩ | ⟨hl, items, e, rest, rfl, hlist, hP⟩)
    · exact ⟨[], l, ls, rfl, ⟨by simp, hempty⟩, hP⟩
    · exact ⟨l :: items, e, rest, rfl,
        ⟨List.forall_mem_cons.mpr ⟨hl, hlist.items⟩, hlist.empty⟩, hP⟩

variable {L L' : Lists} {r : Option Fail}

/-- `parseList`, by induction on the lines that are left. -/
theorem parseLines_list (hr : ∀ e, r ≠ some (.err e)) {ls : List Bytes} {b : Block}
    (hb : (b.items.length : Int) ≤ b.count) :
    parseLines maxCap (some b) L ls = (L', r) ↔
      ∃ items e rest, ls = items ++ e :: rest ∧ IsList items e ∧
        b.count = b.items.length + items.length ∧
        parseLines maxCap none (L.set b.kind (b.items ++ items.map dropCR)) rest = (L', r) := by
  have herr : ∀ e, ¬ (L, some (Fail.err e)) = (L', r) := fun e h => hr e (by cases h; rfl)
  induction ls generalizing b with
  | nil =>
    rw [parseLines]
    exact iff_of_false (herr _) (by simp)
  | cons l ls ih =>
    rw [parseLines, exists_list_cons, IsItem]
    cases hl : scanText l with
    | error err =>
      refine iff_of_false (herr err) ?_
      rintro (⟨h, -⟩ | ⟨h, -⟩)
      · cases h
      · rw [scanText_eq_ok.mpr ⟨h.1, rfl⟩] at hl
        cases hl
    | ok line =>
      obtain ⟨hlen, rfl⟩ := scanText_eq_ok.mp hl
      dsimp only
      by_cases hempty : dropCR l = []
      · rw [if_pos hempty]
        split_ifs with hfew
        · refine iff_of_false (herr _) ?_
          rintro (⟨-, hcount, -⟩ | ⟨⟨-, hne⟩, -⟩)
          · simp only [List.length_nil] at hcount
            omega
          · exact hne hempty
        · have hcount : b.count = b.items.length := by omega
          simp [hempty, hcount]
      · rw [if_neg hempty]
        split_ifs with hmany
        · refine iff_of_false (herr _) ?_
          rintro (⟨h, -⟩ | ⟨-, items, e, rest, -, -, hcount, -⟩)
          · exact hempty (Except.ok.inj h)
          · rw [List.length_cons] at hcount
            omega
        · have hb' : ((b.items ++ [dropCR l]).length : Int) ≤ b.count := by
            rw [List.length_append, List.length_singleton]
            omega
          refine (ih (b := { b with items := b.items ++ [dropCR l] }) hb').trans ?_
          simp [hempty, hlen, add_assoc, add_comm (1 : Int)]

/-- A step of `ParseFilelist`: one list, in which there is room for its entries. -/
theorem parseLines_block (hr : ∀ e, r ≠ some (.err e)) {k c : Bytes} {ls : List Bytes} {kind : Kind}
    {count : Int} (hhead : parseHeader k c = .ok (kind, count)) (hcount : 0 ≤ count)
    (hcap : count ≤ maxCap) :
    parseLines maxCap none L (k :: c :: ls) = (L', r) ↔
      ∃ items e rest, ls = items ++ e :: rest ∧ IsList items e ∧ count = items.length ∧
        parseLines maxCap none (L.set kind (items.map dropCR)) rest = (L', r) := by
  rw [parseLines, hhead]
  dsimp only
  rw [if_neg (by omega), parseLines_list hr (by simpa using hcount)]
  simp

/-- What comes of two lines that are read as a header. -/
theorem parseLines_header (hr : ∀ e, r ≠ some (.err e)) {k c : Bytes} {ls : List Bytes}
    (h : parseLines maxCap none L (k :: c :: ls) = (L', r)) :
    ∃ kind count, parseHeader k c = .ok (kind, count) ∧
      (0 ≤ count ∧ count ≤ maxCap ∨ (count < 0 ∨ count > maxCap) ∧ r = some .panic) := by
  rw [parseLines] at h
  cases hhead : parseHeader k c with
  | error e =>
    rw [hhead] at h
    cases h
    exact absurd rfl (hr e)
  | ok x =>
    refine ⟨x.1, x.2, rfl, ?_⟩
    rw [hhead] at h
    dsimp only at h
    split_ifs at h with hout
    · cases h
      exact .inr ⟨hout, rfl⟩
    · left
      omega

theorem dropCR_countLine (n : Nat) : dropCR (ascii (countLine n)) = ascii (countLine n) :=
  if_neg (by simp [countLine, ascii, List.getLast?_cons])

theorem scanCount_countLine (n : Nat) :
    scanCount (countLine n) = if n < 2 ^ 63 then some (n : Int) else none := by
  show (scanInt (Nat.toDigits 10 n ++ [')'])).bind _ = _
  rw [scanInt_toDigits (by simp)]
  split_ifs <;> rfl

theorem scanCount_of_parseHeader {k c : Bytes} {kind : Kind} {count : Int}
    (h : parseHeader k c = .ok (kind, count)) : scanCount (runes (dropCR c)) = some count := by
  obtain ⟨kind', -, h⟩ := bind_eq_ok.mp h
  split_ifs at h
  obtain ⟨line, hline, h⟩ := bind_eq_ok.mp h
  obtain ⟨-, rfl⟩ := scanText_eq_ok.mp hline
  split at h
  · cases h
  · next n hn =>
    split at h <;> cases h
    exact hn

theorem parseHeader_pair (kind : Kind) {n : Nat} (h : n < 2 ^ 63) :
    parseHeader kind.text (ascii (countLine n)) = .ok (kind, (n : Int)) := by
  have hkind : scanText kind.text = .ok kind.text ∧ kind.text ≠ [] ∧
      getDataForKind kind.text = some kind := by
    cases kind <;> decide
  have hlen : (Nat.toDigits 10 n).length ≤ 19 :=
    (Nat.length_toDigits_le_iff (by decide) (by decide)).mpr (h.trans (by decide))
  have hcount : scanText (ascii (countLine n)) = .ok (ascii (countLine n)) := by
    refine scanText_eq_ok.mpr ⟨?_, dropCR_countLine n⟩
    simp only [countLine, ascii, List.length_map, List.length_cons, List.length_append,
      List.length_nil]
    omega
  rw [parseHeader, hkind.1, hcount]
  simp only [bind, Except.bind, if_neg hkind.2.1, hkind.2.2,
    runes_ascii fun c hc => (countLine_ascii (n := n) hc).2, scanCount_countLine, if_pos h]

theorem parseHeader_pair_iff {kind kind' : Kind} {n : Nat} {count : Int} :
    parseHeader kind.text (ascii (countLine n)) = .ok (kind', count) ↔
      n < 2 ^ 63 ∧ kind' = kind ∧ count = n := by
  constructor
  · intro h
    have hscan := scanCount_of_parseHeader h
    rw [dropCR_countLine, runes_ascii fun c hc => (countLine_ascii hc).2, scanCount_countLine]
      at hscan
    split_ifs at hscan with hn
    rw [parseHeader_pair kind hn] at h
    cases h
    exact ⟨hn, rfl, rfl⟩
  · rintro ⟨hn, rfl, rfl⟩
    exact parseHeader_pair kind' hn

/-- There is room for the list, and its entries are read as entries. -/
def Readable (maxCap : Nat) (data : List Bytes) : Prop :=
  data.length < 2 ^ 63 ∧ data.length ≤ maxCap ∧ ∀ i ∈ data, IsItem i

theorem parseLines_pairs {pairs : List (Kind × List Bytes)} :
    parseLines maxCap none L (pairs.flatMap pairLines) = (L', none) ↔
      (∀ p ∈ pairs, Readable maxCap p.2) ∧
        pairs.foldl (fun L p => L.set p.1 (p.2.map dropCR)) L = L' := by
  induction pairs generalizing L with
  | nil => simp [parseLines]
  | cons p pairs ih =>
    have hlines : (p :: pairs).flatMap pairLines = p.1.text :: ascii (countLine p.2.length) ::
        (p.2 ++ [] :: pairs.flatMap pairLines) := by
      simp [pairLines]
    rw [hlines, List.forall_mem_cons, List.foldl_cons, and_assoc, ← ih]
    constructor
    · intro h
      obtain ⟨kind, count, hhead, ⟨hcount, hcap⟩ | ⟨-, hpanic⟩⟩ := parseLines_header (by simp) h
      · obtain ⟨items, e, rest, hls, hlist, hlen, hrest⟩ :=
          (parseLines_block (by simp) hhead hcount hcap).mp h
        obtain ⟨hn, rfl, rfl⟩ := parseHeader_pair_iff.mp hhead
        obtain ⟨rfl, htail⟩ := List.append_inj hls (Int.ofNat.inj hlen)
        cases htail
        exact ⟨⟨hn, Int.ofNat_le.mp hcap, hlist.items⟩, hrest⟩
      · cases hpanic
    · rintro ⟨⟨hn, hcap, hitems⟩, hrest⟩
      exact (parseLines_block (by simp) (parseHeader_pair p.1 hn) (Int.natCast_nonneg _)
        (Int.ofNat_le.mpr hcap)).mpr ⟨p.2, [], _, rfl, ⟨hitems, rfl⟩, rfl, hrest⟩

/-- The entries are such as a list of files has. -/
def Lists.Proper (L : Lists) : Prop := ∀ p ∈ L.getPairs, ∀ i ∈ p.2, i ≠ [] ∧ 10 ∉ i

/-- There is room for the list, and its entries are read as they were written. -/
def Fits (maxCap : Nat) (data : List Bytes) : Prop :=
  data.length < 2 ^ 63 ∧ data.length ≤ maxCap ∧
    ∀ i ∈ data, i.length < 65536 ∧ i.getLast? ≠ some 13

theorem dropCR_eq_self {l : Bytes} : dropCR l = l ↔ l.getLast? ≠ some 13 := by
  rw [dropCR]
  split_ifs with h
  · refine iff_of_false (fun heq => ?_) (not_not.mpr h)
    have hlen := congrArg List.length heq
    rw [List.length_dropLast] at hlen
    cases l with
    | nil => cases h
    | cons b l => simp at hlen
  · exact iff_of_true rfl h

theorem fits_iff {data : List Bytes} (h : ∀ i ∈ data, i ≠ []) :
    Fits maxCap data ↔ Readable maxCap data ∧ data.map dropCR = data := by
  have hmap : data.map dropCR = data ↔ ∀ i ∈ data, dropCR i = i := by
    simpa using List.map_inj_left (f := dropCR) (g := id) (l := data)
  rw [Fits, Readable, and_assoc, and_assoc, hmap, ← forall₂_and]
  refine and_congr_right fun _ => and_congr_right fun _ => forall₂_congr fun i hi => ?_
  rw [IsItem, ← dropCR_eq_self]
  constructor
  · rintro ⟨hlen, heq⟩
    exact ⟨⟨hlen, ne_of_eq_of_ne heq (h i hi)⟩, heq⟩
  · rintro ⟨⟨hlen, -⟩, heq⟩
    exact ⟨hlen, heq⟩

theorem parseFilelist_generateFilelist {L : Lists} (h : L.Proper) (L₀ : Lists) :
    parseFilelist maxCap L₀ L.generateFilelist = (L, none) ↔
      ∀ p ∈ L.getPairs, Fits maxCap p.2 := by
  rw [parseFilelist, Lists.generateFilelist, rawLines_pairs fun p hp i hi => (h p hp i hi).2,
    parseLines_pairs]
  have hfold : L.getPairs.foldl (fun L p => L.set p.1 (p.2.map dropCR)) L₀ = L ↔
      ∀ p ∈ L.getPairs, p.2.map dropCR = p.2 := by
    simp [Lists.getPairs, Lists.set, Lists.ext_iff]
  rw [hfold, ← forall₂_and]
  exact forall₂_congr fun p hp => (fits_iff fun i hi => (h p hp i hi).1).symm

/-- The lines of a whole list. -/
def Whole (ls : List Bytes) : Prop :=
  ∃ k c items e kind, ls = k :: c :: (items ++ [e]) ∧
    parseHeader k c = .ok (kind, (items.length : Int)) ∧ IsList items e

/-- Behind some whole lists there is the header of a list for which there is no room. -/
def AsksTooMuch (maxCap : Nat) (ls : List Bytes) : Prop :=
  ∃ blocks k c rest kind count, ls = List.flatten blocks ++ k :: c :: rest ∧
    (∀ b ∈ blocks, Whole b) ∧ parseHeader k c = .ok (kind, count) ∧ (count < 0 ∨ count > maxCap)

theorem asksTooMuch_of_panic {ls : List Bytes}
    (h : parseLines maxCap none L ls = (L', some .panic)) : AsksTooMuch maxCap ls := by
  induction hlen : ls.length using Nat.strong_induction_on generalizing L ls with
  | _ n ih =>
    match ls, h with
    | [], h =>
      rw [parseLines] at h
      cases h
    | [k], h =>
      rw [parseLines] at h
      split at h <;> cases h
    | k :: c :: ls, h =>
      obtain ⟨kind, count, hhead, ⟨hcount, hcap⟩ | ⟨hout, -⟩⟩ := parseLines_header (by simp) h
      · obtain ⟨items, e, rest, rfl, hlist, rfl, hrest⟩ :=
          (parseLines_block (by simp) hhead hcount hcap).mp h
        obtain ⟨blocks, k', c', rest', kind', count', rfl, hblocks, hbad⟩ :=
          ih rest.length (by simp [← hlen]; omega) hrest rfl
        exact ⟨(k :: c :: (items ++ [e])) :: blocks, k', c', rest', kind', count', by simp,
          List.forall_mem_cons.mpr ⟨⟨k, c, items, e, kind, rfl, hhead, hlist⟩, hblocks⟩, hbad⟩
      · exact ⟨[], k, c, ls, kind, count, rfl, by simp, hhead, hout⟩

theorem panic_of_asksTooMuch {ls : List Bytes} (h : AsksTooMuch maxCap ls) :
    ∃ L', parseLines maxCap none L ls = (L', some .panic) := by
  have hout : ∀ {L : Lists} {k c : Bytes} {rest : List Bytes} {kind : Kind} {count : Int},
      parseHeader k c = .ok (kind, count) → count < 0 ∨ count > maxCap →
      parseLines maxCap none L (k :: c :: rest) = (L, some .panic) := by
    intro L k c rest kind count hhead hout
    rw [parseLines, hhead]
    exact if_pos hout
  obtain ⟨blocks, k, c, rest, kind, count, rfl, hblocks, hhead, hbad⟩ := h
  induction blocks generalizing L with
  | nil => exact ⟨L, hout hhead hbad⟩
  | cons b blocks ih =>
    obtain ⟨⟨k', c', items, e, kind', rfl, hhead', hlist⟩, hrest⟩ :=
      List.forall_mem_cons.mp hblocks
    by_cases hcap : (items.length : Int) ≤ maxCap
    · obtain ⟨L', hloop⟩ := ih (L := L.set kind' (items.map dropCR)) hrest
      refine ⟨L', ?_⟩
      simp only [List.flatten_cons, List.cons_append, List.append_assoc, List.nil_append]
      exact (parseLines_block (by simp) hhead' (Int.natCast_nonneg _) hcap).mpr
        ⟨items, e, _, rfl, hlist, rfl, hloop⟩
    · exact ⟨L, hout hhead' (.inr (not_le.mp hcap))⟩

/-- **Lists come back** exactly if there is room for them and their entries are read as they were
written; and a text leads to a panic exactly if it has a header that asks for too much room, with
nothing but whole lists before it. -/
theorem filelist_restored_iff (maxCap : Nat) (L L₀ : Lists) (filelist : Bytes) :
    (L.Proper → (parseFilelist maxCap L₀ L.generateFilelist = (L, none) ↔
      ∀ p ∈ L.getPairs, Fits maxCap p.2)) ∧
    ((parseFilelist maxCap L₀ filelist).2 = some .panic ↔
      AsksTooMuch maxCap (rawLines filelist)) := by
  refine ⟨fun h => parseFilelist_generateFilelist h L₀, fun h => ?_, fun h => ?_⟩
  · exact asksTooMuch_of_panic (Prod.ext rfl h)
  · obtain ⟨L', hL'⟩ := panic_of_asksTooMuch h
    rw [parseFilelist, hL']

/-- A list that is said to have -1 entries. -/
theorem negative_count_panics : parseFilelist (2 ^ 35) ⟨[], [], []⟩
    (ascii "files\n(-1)\n".toList) = (⟨[], [], []⟩, some .panic) := by decide

end Rkt.Filelist
