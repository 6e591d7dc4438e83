import Rkt.Code.Delimited
import Rkt.Num.Decimal

set_option autoImplicit false

namespace Json

open Code

abbrev Bytes := List UInt8

def ascii (s : List Char) : Bytes := s.map fun c => UInt8.ofNat c.toNat

theorem ascii_inj {s s' : List Char} (hs : ∀ c ∈ s, c.toNat < 256) (hs' : ∀ c ∈ s', c.toNat < 256)
    (h : ascii s = ascii s') : s = s' := by
  have hback {s : List Char} (hs : ∀ c ∈ s, c.toNat < 256) :
      (ascii s).map (fun b => Char.ofNat b.toNat) = s := by
    rw [ascii, List.map_map]
    refine (List.map_congr_left fun c hc => ?_).trans (List.map_id s)
    simp [Nat.mod_eq_of_lt (hs c hc)]
  rw [← hback hs, h, hback hs']

/-- How an encoded character goes on after its first byte: the range of each further byte. -/
def follow (b : UInt8) : Option (List (UInt8 × UInt8)) :=
  if b < 0x80 then some []
  else if b < 0xC2 then none
  else if b ≤ 0xDF then some [(0x80, 0xBF)]
  else if b = 0xE0 then some [(0xA0, 0xBF), (0x80, 0xBF)]
  else if b = 0xED then some [(0x80, 0x9F), (0x80, 0xBF)]
  else if b ≤ 0xEF then some [(0x80, 0xBF), (0x80, 0xBF)]
  else if b = 0xF0 then some [(0x90, 0xBF), (0x80, 0xBF), (0x80, 0xBF)]
  else if b ≤ 0xF3 then some [(0x80, 0xBF), (0x80, 0xBF), (0x80, 0xBF)]
  else if b = 0xF4 then some [(0x80, 0x8F), (0x80, 0xBF), (0x80, 0xBF)]
  else none

/-- The text begins with a byte in each of the ranges. -/
def inRanges : List (UInt8 × UInt8) → Bytes → Bool
  | [], _ => true
  | _ :: _, [] => false
  | (lo, hi) :: rs, b :: s => lo ≤ b && b ≤ hi && inRanges rs s

/-- The length of the character that the text begins with, if there is one. -/
def runeLen : Bytes → Option Nat
  | [] => none
  | b :: s => (follow b).bind fun rs => if inRanges rs s then some (rs.length + 1) else none

variable {s : Bytes} {b : UInt8} {r : Bytes}

theorem inRanges_append {rs : List (UInt8 × UInt8)} (x : Bytes)
    (h : inRanges rs s = true) : inRanges rs (s ++ x) = true := by
  induction rs generalizing s with
  | nil => rfl
  | cons r rs ih =>
    cases s with
    | nil => exact absurd h (by simp [inRanges])
    | cons b s =>
      simp only [inRanges, List.cons_append, Bool.and_eq_true] at h ⊢
      exact ⟨h.1, ih h.2⟩

theorem inRanges_take {rs : List (UInt8 × UInt8)} (h : inRanges rs s = true) :
    inRanges rs (s.take rs.length) = true ∧ (s.take rs.length).length = rs.length := by
  induction rs generalizing s with
  | nil => exact ⟨rfl, by simp⟩
  | cons r rs ih =>
    cases s with
    | nil => exact absurd h (by simp [inRanges])
    | cons b s =>
      simp only [inRanges, Bool.and_eq_true] at h
      obtain ⟨htake, hlen⟩ := ih h.2
      constructor
      · simp only [List.length_cons, List.take_succ_cons, inRanges, Bool.and_eq_true]
        exact ⟨h.1, htake⟩
      · simp only [List.length_cons, List.take_succ_cons, hlen]

theorem runeLen_cons {n : Nat} : runeLen (b :: s) = some n ↔
      ∃ rs, follow b = some rs ∧ inRanges rs s = true ∧ n = rs.length + 1 := by
  simp only [runeLen, Option.bind_eq_some_iff, Option.ite_none_right_eq_some, Option.some.injEq]
  constructor
  · rintro ⟨rs, hb, hs, rfl⟩
    exact ⟨rs, hb, hs, rfl⟩
  · rintro ⟨rs, hb, hs, rfl⟩
    exact ⟨rs, hb, hs, rfl⟩

def IsRune (r : Bytes) : Prop := runeLen r = some r.length

theorem IsRune.append (h : IsRune r) (x : Bytes) : runeLen (r ++ x) = some r.length := by
  cases r with
  | nil => exact absurd h (by simp [IsRune, runeLen])
  | cons b s =>
    obtain ⟨rs, hb, hs, hlen⟩ := runeLen_cons.mp h
    exact runeLen_cons.mpr ⟨rs, hb, inRanges_append x hs, hlen⟩

theorem isRune_take {n : Nat} (h : runeLen (b :: s) = some n) :
    0 < n ∧ IsRune ((b :: s).take n) := by
  obtain ⟨rs, hb, hs, rfl⟩ := runeLen_cons.mp h
  obtain ⟨htake, hlen⟩ := inRanges_take hs
  refine ⟨Nat.succ_pos _, ?_⟩
  rw [List.take_succ_cons]
  exact runeLen_cons.mpr ⟨rs, hb, htake, by simp [hlen]⟩

/-- A character that is not ASCII has no ASCII byte in front. -/
theorem IsRune.head {b c : UInt8} (h : IsRune (b :: c :: s)) : 0x80 ≤ b := by
  obtain ⟨rs, hb, -, hlen⟩ := runeLen_cons.mp h
  by_contra hlt
  rw [follow, if_pos (UInt8.not_le.mp hlt)] at hb
  cases hb
  simp at hlen

/-- A part of a string: a character, or a byte that belongs to none. -/
inductive Piece where
  | rune (r : Bytes)
  | bad
  deriving DecidableEq, Repr

/-- The pieces of a string, the first `k` bytes of which have been dealt with. -/
def pieces : Nat → Bytes → List Piece
  | _, [] => []
  | k + 1, _ :: s => pieces k s
  | 0, b :: s =>
    match runeLen (b :: s) with
    | some n => .rune ((b :: s).take n) :: pieces (n - 1) s
    -- `utf8.DecodeRuneInString` says `RuneError` with size 1: one byte is skipped
    | none => .bad :: pieces 0 s

/-- `utf8.ValidString`. -/
def validString (s : Bytes) : Bool := (pieces 0 s).all (· ≠ .bad)

def Piece.bytes : Piece → Bytes
  | .rune r => r
  | .bad => []

def Piece.Ok : Piece → Prop
  | .rune r => IsRune r
  | .bad => True

theorem pieces_ok {k : Nat} : ∀ p ∈ pieces k s, p.Ok := by
  fun_induction pieces k s with
  | case1 => simp
  | case2 k b s ih => exact ih
  | case3 b s n hn ih =>
    rintro p (_ | ⟨_, hp⟩)
    · exact (isRune_take hn).2
    · exact ih p hp
  | case4 b s hn ih =>
    rintro p (_ | ⟨_, hp⟩)
    · trivial
    · exact ih p hp

theorem flatMap_bytes_pieces {k : Nat} (h : (pieces k s).all (· ≠ .bad) = true) :
    (pieces k s).flatMap Piece.bytes = s.drop k := by
  fun_induction pieces k s with
  | case1 => simp
  | case2 k b s ih => exact ih h
  | case3 b s n hn ih =>
    obtain ⟨m, rfl⟩ := Nat.exists_eq_add_of_lt (isRune_take hn).1
    simp only [List.all_cons, Bool.and_eq_true] at h
    have hrest := ih h.2
    simp only [Nat.zero_add, Nat.add_sub_cancel] at hrest
    simp [Piece.bytes, hrest]
  | case4 b s hn ih => simp at h

theorem eq_of_pieces_eq {s s' : Bytes} (hs : validString s = true) (hs' : validString s' = true)
    (h : pieces 0 s = pieces 0 s') : s = s' := by
  have hb := flatMap_bytes_pieces hs
  rw [h, flatMap_bytes_pieces hs'] at hb
  exact hb.symm

def hex (n : UInt8) : UInt8 := if n < 10 then 48 + n else 87 + n

/-- `encodeState.string` on a byte below `utf8.RuneSelf`. -/
def escapeByte (b : UInt8) : Bytes :=
  if b = 0x5C ∨ b = 0x22 then [0x5C, b]
  else if b = 0x0A then ascii ['\\', 'n']
  else if b = 0x0D then ascii ['\\', 'r']
  else if b < 0x20 ∨ b = 0x3C ∨ b = 0x3E ∨ b = 0x26 then
    ascii ['\\', 'u', '0', '0'] ++ [hex (b >>> 4), hex (b &&& 0xF)]
  else [b]

/-- U+2028 and U+2029, which JavaScript takes for the end of a line. -/
def lineSep : Bytes := [0xE2, 0x80, 0xA8]
@[inherit_doc lineSep]
def paraSep : Bytes := [0xE2, 0x80, 0xA9]

/-- `encodeState.string` on a piece. -/
def Piece.code : Piece → Bytes
  | .bad => ascii "\\ufffd".toList
  | .rune [b] => escapeByte b
  | .rune r =>
    if r = lineSep then ascii "\\u2028".toList
    else if r = paraSep then ascii "\\u2029".toList
    else r

/-- `encodeState.string`. -/
def str (s : Bytes) : Bytes := 0x22 :: ((pieces 0 s).flatMap Piece.code ++ [0x22])

def unhex (c : UInt8) : UInt8 := if c < 58 then c - 48 else c - 87

theorem unhex_hex (b : UInt8) : unhex (hex (b >>> 4)) * 16 + unhex (hex (b &&& 0xF)) = b := by
  have h : ∀ n : Fin 256, unhex (hex (UInt8.ofFin n >>> 4)) * 16 +
      unhex (hex (UInt8.ofFin n &&& 0xF)) = UInt8.ofFin n := by decide +kernel
  exact h b.toFin

def readUnicode (h : Bytes) : Piece :=
  if h = ascii "fffd".toList then .bad
  else if h = ascii "2028".toList then .rune lineSep
  else if h = ascii "2029".toList then .rune paraSep
  else .rune [unhex (h.getD 2 0) * 16 + unhex (h.getD 3 0)]

def readEscape : Bytes → Option (Piece × Bytes)
  | [] => none
  | c :: s =>
    if c = 0x75 then some (readUnicode (s.take 4), s.drop 4)
    else if c = 0x6E then some (.rune [0x0A], s)
    else if c = 0x72 then some (.rune [0x0D], s)
    else some (.rune [c], s)

def readPiece : Bytes → Option (Piece × Bytes)
  | [] => none
  | b :: s =>
    if b = 0x5C then readEscape s
    else (runeLen (b :: s)).map fun n => (.rune ((b :: s).take n), (b :: s).drop n)

theorem readPiece_rune (hr : IsRune r) (hne : ∀ s, r ≠ 0x5C :: s) (x : Bytes) :
    readPiece (r ++ x) = some (.rune r, x) := by
  have hlen := hr.append x
  cases r with
  | nil => exact absurd hr (by simp [IsRune, runeLen])
  | cons b s =>
    have hb : b ≠ 0x5C := fun h => hne s (by rw [h])
    simp only [List.cons_append] at hlen ⊢
    simp only [readPiece, if_neg hb, hlen, Option.map_some]
    simp

theorem readPiece_escapeByte (hb : IsRune [b]) (x : Bytes) :
    readPiece (escapeByte b ++ x) = some (.rune [b], x) := by
  unfold escapeByte
  split_ifs with h1 h2 h3 h4
  · rcases h1 with rfl | rfl <;> rfl
  · rw [h2]; rfl
  · rw [h3]; rfl
  · show some (Piece.rune [unhex (hex (b >>> 4)) * 16 + unhex (hex (b &&& 0xF))], x) = _
    rw [unhex_hex]
  · exact readPiece_rune hb (by simp_all) x

theorem readPiece_code {p : Piece} (hp : p.Ok) (x : Bytes) :
    readPiece (p.code ++ x) = some (p, x) := by
  unfold Piece.code
  split
  · rfl
  · exact readPiece_escapeByte hp x
  · rename_i r hne
    split_ifs with h1 h2
    · rw [h1]; rfl
    · rw [h2]; rfl
    · refine readPiece_rune hp ?_ x
      rintro (_ | ⟨c, s⟩) rfl
      · exact hne _ rfl
      · exact absurd (IsRune.head hp) (by decide)

theorem code_eq_cons {p : Piece} (hp : p.Ok) : ∃ b l, p.code = b :: l ∧ b ≠ 0x22 := by
  have hread := readPiece_code hp []
  rw [List.append_nil] at hread
  cases hc : p.code with
  | nil => simp [hc, readPiece] at hread
  | cons b l =>
    refine ⟨b, l, rfl, ?_⟩
    rintro rfl
    -- read back, it would be the quote itself, which has another code
    have hquote : readPiece (0x22 :: l) = some (.rune [0x22], l) := rfl
    rw [hc, hquote] at hread
    simp only [Option.some.injEq, Prod.mk.injEq] at hread
    rw [← hread.1] at hc
    exact absurd (List.head_eq_of_cons_eq hc) (by decide)

theorem pieces_delimits : Delimits {p : Piece | p.Ok} Eq Piece.code :=
  .of_read readPiece fun _ hp x => readPiece_code hp x

/-- **A string is delimited by its quotes, and determined up to invalid bytes.** -/
theorem str_delimits : Delimits Set.univ (fun s s' => pieces 0 s = pieces 0 s') str := by
  have hlist := Delimits.list pieces_delimits fun p hp => code_eq_cons hp
  have hquoted := (Delimits.const [0x22]).append
    (hlist.comap (S := Set.univ) (pieces 0) fun s _ => pieces_ok)
  exact hquoted.mono fun s _ s' _ h => List.forall₂_eq_eq_eq ▸ h.2

/-- What a decoder makes of a piece: U+FFFD of a byte that belongs to no character. -/
def Piece.read : Piece → Bytes
  | .rune r => r
  | .bad => [0xEF, 0xBF, 0xBD]

/-- The string that is decoded from the text of a string. -/
def reread (s : Bytes) : Bytes := (pieces 0 s).flatMap Piece.read

theorem reread_of_valid (h : validString s = true) : reread s = s := by
  have hsame : (pieces 0 s).flatMap Piece.read = (pieces 0 s).flatMap Piece.bytes := by
    refine List.flatMap_congr fun p hp => ?_
    have hgood := List.all_eq_true.mp h p hp
    cases p with
    | rune r => rfl
    | bad => simp at hgood
  rw [reread, hsame, flatMap_bytes_pieces h, List.drop_zero]

theorem pieces_skip (k : Nat) (s : Bytes) : pieces k s = pieces 0 (s.drop k) := by
  induction k generalizing s with
  | zero => rfl
  | succ k ih =>
    cases s with
    | nil => simp [pieces]
    | cons b s => rw [pieces, ih, List.drop_succ_cons]

theorem pieces_append (h : IsRune r) (x : Bytes) : pieces 0 (r ++ x) = .rune r :: pieces 0 x := by
  have hlen := h.append x
  cases r with
  | nil => exact absurd h (by simp [IsRune, runeLen])
  | cons b s =>
    rw [List.cons_append] at hlen ⊢
    rw [pieces, hlen]
    simp [pieces_skip s.length]

theorem validString_reread (s : Bytes) : validString (reread s) = true := by
  have hread : ∀ ps : List Piece, (∀ p ∈ ps, p.Ok) →
      (pieces 0 (ps.flatMap Piece.read)).all (· ≠ .bad) = true := by
    intro ps hps
    induction ps with
    | nil => rfl
    | cons p ps ih =>
      have hrune : IsRune p.read := by
        cases p with
        | rune r => exact hps _ List.mem_cons_self
        | bad => rfl
      rw [List.flatMap_cons, pieces_append hrune]
      simpa using ih fun p' hp' => hps p' (List.mem_cons_of_mem p hp')
  exact hread _ pieces_ok

def num (n : Int) : Bytes := ascii (Decimal.itoa n)

def array (vs : List Bytes) : Bytes := 0x5B :: (List.intercalate [0x2C] vs ++ [0x5D])

def field (f : String × Bytes) : Bytes := 0x22 :: (ascii f.1.toList ++ 0x22 :: 0x3A :: f.2)

/-- A struct, from its encoded fields in the order of the type. -/
def object (fs : List (String × Bytes)) : Bytes :=
  0x7B :: (List.intercalate [0x2C] (fs.map field) ++ [0x7D])

def isNumByte (b : UInt8) : Bool := b = 0x2D ∨ 0x30 ≤ b ∧ b ≤ 0x39

theorem toNat_of_mem_itoa {n : Int} {c : Char} (h : c ∈ Decimal.itoa n) :
    c.toNat = 45 ∨ 48 ≤ c.toNat ∧ c.toNat ≤ 57 := by
  rcases Decimal.mem_itoa h with hc | rfl
  · exact .inr (Decimal.toNat_of_isDigit hc)
  · exact .inl rfl

theorem num_injective : Function.Injective num := by
  intro n n' h
  have hlt {n : Int} : ∀ c ∈ Decimal.itoa n, c.toNat < 256 := fun c hc => by
    have hrange := toNat_of_mem_itoa hc
    omega
  exact Decimal.itoa_injective (ascii_inj hlt hlt h)

theorem isNumByte_of_mem_num {n : Int} (h : b ∈ num n) : isNumByte b = true := by
  obtain ⟨c, hc, rfl⟩ := List.mem_map.mp h
  have hrange := toNat_of_mem_itoa hc
  have hnat : (UInt8.ofNat c.toNat).toNat = c.toNat := Nat.mod_eq_of_lt (by omega)
  simp only [isNumByte, decide_eq_true_eq, ← UInt8.toNat_inj, UInt8.le_iff_toNat_le, hnat]
  exact hrange

/-- A number ends before the first byte that cannot belong to it. -/
theorem num_append_inj {n n' : Int} {x x' : Bytes} (hx : ∀ b ∈ x.head?, isNumByte b = false)
    (hx' : ∀ b ∈ x'.head?, isNumByte b = false) (h : num n ++ x = num n' ++ x') :
    n = n' ∧ x = x' := by
  have htake {n : Int} {x : Bytes} (hx : ∀ b ∈ x.head?, isNumByte b = false) :
      (num n ++ x).takeWhile isNumByte = num n := by
    rw [List.takeWhile_append_of_pos fun b hb => isNumByte_of_mem_num hb]
    cases x with
    | nil => simp
    | cons b x => simp [hx b rfl]
  have hnum : num n = num n' := by rw [← htake hx, h, htake hx']
  exact ⟨num_injective hnum, List.append_cancel_left (hnum ▸ h)⟩

def rest : List (String × Bytes) → Bytes
  | [] => [0x7D]
  | f :: fs => 0x2C :: (field f ++ rest fs)

theorem object_cons (f : String × Bytes) (fs : List (String × Bytes)) :
    object (f :: fs) = 0x7B :: (field f ++ rest fs) := by
  have hrest : ∀ fs, (fs.map field).flatMap (0x2C :: ·) ++ [0x7D] = rest fs := by
    intro fs
    induction fs with
    | nil => rfl
    | cons f fs ih => simpa [rest] using ih
  rw [object, List.map_cons, intercalate_cons, List.append_assoc, hrest]

theorem head_rest (fs : List (String × Bytes)) (x : Bytes) :
    ∀ b ∈ (rest fs ++ x).head?, isNumByte b = false := by
  cases fs with
  | nil => rintro b ⟨⟩; decide
  | cons f fs => rintro b ⟨⟩; decide

section

variable {α : Type*} {S : Set α} {R R' : α → α → Prop} {v : α → Bytes}
variable {G : α → List (String × Bytes)} {k : String}

theorem rest_nil_delimits : Delimits S (fun _ _ => True) fun _ => rest [] := .const [0x7D]

theorem rest_value_delimits (hv : Delimits S R v) (hG : Delimits S R' fun a => rest (G a)) :
    Delimits S (fun a a' => R a a' ∧ R' a a') fun a => rest ((k, v a) :: G a) := by
  intro a ha a' ha' x x' h
  simp only [rest, field, List.cons_append, List.append_assoc, List.cons.injEq, true_and,
    List.append_cancel_left_eq] at h
  exact hv.append hG a ha a' ha' x x' (by simpa using h)

/-- A field with a number: what comes next cannot belong to it. -/
theorem rest_num_delimits {p : α → Int} (hG : Delimits S R' fun a => rest (G a)) :
    Delimits S (fun a a' => p a = p a' ∧ R' a a') fun a => rest ((k, num (p a)) :: G a) := by
  intro a ha a' ha' x x' h
  simp only [rest, field, List.cons_append, List.append_assoc, List.cons.injEq, true_and,
    List.append_cancel_left_eq] at h
  obtain ⟨hp, hrest⟩ := num_append_inj (head_rest _ x) (head_rest _ x') h
  obtain ⟨hR, hx⟩ := hG a ha a' ha' x x' hrest
  exact ⟨⟨hp, hR⟩, hx⟩

theorem object_delimits (h : Delimits S R fun a => rest ((k, v a) :: G a)) :
    Delimits S R fun a => object ((k, v a) :: G a) := by
  intro a ha a' ha' x x' heq
  refine h a ha a' ha' x x' ?_
  simpa [object_cons, rest] using heq

end

theorem array_delimits {α : Type*} {S : Set α} {R : α → α → Prop}
    {F : α → List (String × Bytes)} (hF : Delimits S R fun a => object (F a)) :
    Delimits {l : List α | ∀ a ∈ l, a ∈ S} (List.Forall₂ R) fun l =>
      array (l.map fun a => object (F a)) := by
  have hlist := hF.separated (c := 0x2C) (e := 0x5D) (by decide)
    fun a _ => ⟨0x7B, _, rfl, by decide⟩
  exact ((Delimits.const [0x5B]).append hlist).mono fun _ _ _ _ h => h.2

end Json
