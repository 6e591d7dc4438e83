import Rkt.Code.Json

set_option autoImplicit false

namespace Json

def member (k : Bytes) : Bytes := str k ++ [0x3A, 0x7B, 0x7D]

/-- `Encoder.Encode`, for the keys in the order in which they are sorted. -/
def encodeSet : Option (List Bytes) → Bytes
  | none => ascii ['n', 'u', 'l', 'l', '\n']
  | some ks => 0x7B :: (List.intercalate [0x2C] (ks.map member) ++ [0x7D, 0x0A])

def readString : Nat → Bytes → Option (Bytes × Bytes)
  | 0, _ => none
  | n + 1, s =>
    if s.head? = some 0x22 then some ([], s.tail)
    else
      (readPiece s).bind fun p =>
      (readString n p.2).map fun r => (p.1.read ++ r.1, r.2)

def readMember (s : Bytes) : Option (Bytes × Bytes) :=
  if s.head? = some 0x22 then
    (readString s.length s.tail).bind fun r =>
    if r.2.take 3 = [0x3A, 0x7B, 0x7D] then some (r.1, r.2.drop 3) else none
  else none

/-- The members of an object, of which there is at least one. -/
def readMembers : Nat → Bytes → Option (List Bytes)
  | 0, _ => none
  | n + 1, s =>
    (readMember s).bind fun r =>
    if r.2.head? = some 0x2C then (readMembers n r.2.tail).map (r.1 :: ·)
    else if r.2.head? = some 0x7D then some [r.1]
    else none

/-- `Decoder.Decode`. -/
def decodeSet (s : Bytes) : Option (Option (List Bytes)) :=
  if s.take 4 = ascii ['n', 'u', 'l', 'l'] then some none
  else if s.head? = some 0x7B then
    if s.tail.head? = some 0x7D then some (some [])
    else (readMembers s.length s.tail).map some
  else none

theorem readString_code {ps : List Piece} (hps : ∀ p ∈ ps, p.Ok) (x : Bytes) :
    ∀ {n : Nat}, ps.length < n →
      readString n (ps.flatMap Piece.code ++ 0x22 :: x) = some (ps.flatMap Piece.read, x) := by
  induction ps with
  | nil =>
    intro n hn
    obtain ⟨m, rfl⟩ := Nat.exists_eq_add_of_lt hn
    simp [readString]
  | cons p ps ih =>
    intro n hn
    obtain ⟨m, rfl⟩ : ∃ m, n = m + 1 := ⟨n - 1, by omega⟩
    have hp : p.Ok := hps p List.mem_cons_self
    have hrest := ih (fun p' hp' => hps p' (List.mem_cons_of_mem p hp')) (n := m)
      (by simpa using hn)
    obtain ⟨b, l, hcode, hb⟩ := code_eq_cons hp
    have hread := readPiece_code hp (ps.flatMap Piece.code ++ 0x22 :: x)
    rw [List.flatMap_cons, List.append_assoc, readString, hread]
    simp [hcode, hb, hrest]

theorem length_le_flatMap_code {ps : List Piece} (hps : ∀ p ∈ ps, p.Ok) :
    ps.length ≤ (ps.flatMap Piece.code).length := by
  induction ps with
  | nil => simp
  | cons p ps ih =>
    obtain ⟨b, l, hcode, -⟩ := code_eq_cons (hps p List.mem_cons_self)
    have hrest := ih fun p' hp' => hps p' (List.mem_cons_of_mem p hp')
    simp only [List.flatMap_cons, List.length_append, List.length_cons, hcode]
    omega

theorem readMember_member (k x : Bytes) : readMember (member k ++ x) = some (reread k, x) := by
  have htext : member k ++ x =
      0x22 :: ((pieces 0 k).flatMap Piece.code ++ 0x22 :: 0x3A :: 0x7B :: 0x7D :: x) := by
    simp [member, str]
  have hfuel : (pieces 0 k).length < (member k ++ x).length := by
    have hle : (pieces 0 k).length ≤ ((pieces 0 k).flatMap Piece.code).length :=
      length_le_flatMap_code pieces_ok
    rw [htext]
    simp only [List.length_cons, List.length_append]
    omega
  have hread := readString_code pieces_ok (0x3A :: 0x7B :: 0x7D :: x) hfuel
  rw [htext] at hread ⊢
  unfold readMember
  rw [if_pos List.head?_cons, List.tail_cons, hread]
  rfl

theorem readMembers_members {ks : List Bytes} (hne : ks ≠ []) (x : Bytes) :
    ∀ {n : Nat}, ks.length ≤ n →
      readMembers n (List.intercalate [0x2C] (ks.map member) ++ 0x7D :: x) =
        some (ks.map reread) := by
  induction ks with
  | nil => exact absurd rfl hne
  | cons k ks ih =>
    intro n hn
    obtain ⟨m, rfl⟩ : ∃ m, n = m + 1 := ⟨n - 1, by simp at hn; omega⟩
    cases ks with
    | nil =>
      have htext : List.intercalate [0x2C] ([k].map member) = member k := by
        simp [List.intercalate]
      rw [htext, readMembers, readMember_member]
      simp
    | cons k' ks =>
      have hrest := ih (by simp) (n := m) (by simpa using hn)
      rw [List.map_cons, List.map_cons, List.intercalate_cons_cons, ← List.map_cons,
        List.append_assoc, List.append_assoc, readMembers, readMember_member]
      simp only [Option.bind_some, List.singleton_append, List.head?_cons, ↓reduceIte,
        List.tail_cons, hrest]
      rfl

theorem length_le_members (ks : List Bytes) :
    ks.length ≤ (List.intercalate [0x2C] (ks.map member)).length := by
  induction ks with
  | nil => simp
  | cons k ks ih =>
    cases ks with
    | nil => simp [List.intercalate, member]
    | cons k' ks =>
      rw [List.map_cons, List.map_cons, List.intercalate_cons_cons, ← List.map_cons]
      simp only [List.length_cons, List.length_append] at ih ⊢
      omega

theorem members_eq_cons (k : Bytes) (ks : List Bytes) :
    ∃ text, List.intercalate [0x2C] ((k :: ks).map member) = 0x22 :: text := by
  cases ks with
  | nil => exact ⟨_, List.append_nil _⟩
  | cons k' ks => exact ⟨_, rfl⟩

/-- **What is read back**: the keys, as far as they are valid. -/
theorem decodeSet_encodeSet (s : Option (List Bytes)) :
    decodeSet (encodeSet s) = some (s.map (List.map reread)) := by
  cases s with
  | none => rfl
  | some ks =>
    cases ks with
    | nil => rfl
    | cons k ks =>
      have hfuel : (k :: ks).length ≤ (encodeSet (some (k :: ks))).length := by
        have hle := length_le_members (k :: ks)
        simp only [encodeSet, List.length_cons, List.length_append] at hle ⊢
        omega
      have hread := readMembers_members (List.cons_ne_nil k ks) [0x0A] hfuel
      obtain ⟨text, htext⟩ := members_eq_cons k ks
      have hset : encodeSet (some (k :: ks)) = 0x7B :: (0x22 :: text ++ [0x7D, 0x0A]) := by
        rw [← htext]
        rfl
      rw [htext, hset] at hread
      rw [hset, decodeSet, if_neg (by simp [ascii]), if_pos List.head?_cons, if_neg (by simp),
        List.tail_cons, hread]
      rfl

end Json
