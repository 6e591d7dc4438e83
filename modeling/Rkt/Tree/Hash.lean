import Rkt.Code.Assoc
import Rkt.Code.Json

set_option autoImplicit false

namespace Rkt.TreeHash

open Assoc Code Json

/-- `tar.Header`, as far as it is hashed. -/
structure Header where
  name : Bytes
  mode : Int
  uid : Int
  gid : Int
  size : Int
  typeflag : UInt8
  linkname : Bytes
  devmajor : Int
  devminor : Int
  /-- The map of the extended attributes, in the order in which it happens to be iterated. -/
  xattrs : List (Bytes × Bytes)
  nodup : (xattrs.map Prod.fst).Nodup

structure Xattr where
  name : Bytes
  value : Bytes
  deriving DecidableEq, Repr

structure FileInfo where
  name : Bytes
  mode : Int
  uid : Int
  gid : Int
  size : Int
  typeflag : UInt8
  linkname : Bytes
  devmajor : Int
  devminor : Int
  xattrs : List Xattr
  deriving DecidableEq, Repr

/-- The value of a map at a key, the empty string if there is none. -/
def Header.xattr (hdr : Header) (k : Bytes) : Bytes := (hdr.xattrs.lookup k).getD []

/-- The slice `keys` before it is sorted: it is made with as many empty strings as there are keys,
and the keys come after them. -/
def Header.keys (hdr : Header) : List Bytes :=
  List.replicate hdr.xattrs.length [] ++ hdr.xattrs.map Prod.fst

def fileInfoFromHeader (hdr : Header) : FileInfo where
  name := hdr.name
  mode := hdr.mode
  uid := hdr.uid
  gid := hdr.gid
  size := hdr.size
  typeflag := hdr.typeflag
  linkname := hdr.linkname
  devmajor := hdr.devmajor
  devminor := hdr.devminor
  xattrs := (hdr.keys.mergeSort (· ≤ ·)).map fun k => ⟨k, hdr.xattr k⟩

/-- `json.Marshal` of an `xattr`. -/
def Xattr.marshal (x : Xattr) : Bytes :=
  object [("Name", str x.name), ("Value", str x.value)]

/-- `json.Marshal` of a `fileInfo`. -/
def FileInfo.marshal (fi : FileInfo) : Bytes :=
  object [
    ("Name", str fi.name),
    ("Mode", num fi.mode),
    ("Uid", num fi.uid),
    ("Gid", num fi.gid),
    ("Size", num fi.size),
    ("Typeflag", num fi.typeflag.toNat),
    ("Linkname", str fi.linkname),
    ("Devmajor", num fi.devmajor),
    ("Devminor", num fi.devminor),
    ("Xattrs", array (fi.xattrs.map Xattr.marshal))]

/-- `tar.TypeReg`, `tar.TypeLink` and the others that `tar.FileInfoHeader` sets. -/
def typeReg : UInt8 := 0x30
@[inherit_doc typeReg]
def typeLink : UInt8 := 0x31
@[inherit_doc typeReg]
def typeSymlink : UInt8 := 0x32
@[inherit_doc typeReg]
def typeChar : UInt8 := 0x33
@[inherit_doc typeReg]
def typeBlock : UInt8 := 0x34
@[inherit_doc typeReg]
def typeDir : UInt8 := 0x35
@[inherit_doc typeReg]
def typeFifo : UInt8 := 0x36

/-- What is passed to `AddFile`: a header, and a reader with as many bytes as the header says if
the file is regular and no hard link. -/
structure Entry where
  hdr : Header
  reader : Option Bytes
  wf : reader.map (fun c => (c.length : Int)) =
    if hdr.typeflag = typeReg then some hdr.size else none

/-- The type of a file, with what can be read from it. -/
inductive Kind where
  | socket
  | namedPipe
  | charDevice
  | blockDevice
  | dir
  | symlink (target : Bytes)
  | regular (data : Bytes)
  deriving DecidableEq, Repr

/-- A file of the tree as `filepath.Walk` finds it. -/
structure File where
  relpath : Bytes
  kind : Kind
  /-- The mode as it stands in a tar header. -/
  mode : Int
  uid : Nat
  gid : Nat
  ino : Nat
  devmajor : Nat
  devminor : Nat
  deriving DecidableEq, Repr

theorem noXattrs : (([] : List (Bytes × Bytes)).map Prod.fst).Nodup := List.nodup_nil

/-- `tar.FileInfoHeader`, with the name that `buildWalker` sets, for a file that is no socket. -/
def fileInfoHeader (f : File) : Header where
  name := f.relpath
  mode := f.mode
  uid := 0
  gid := 0
  size := match f.kind with
    | .regular data => data.length
    | _ => 0
  typeflag := match f.kind with
    | .regular _ => typeReg
    | .dir => typeDir
    | .symlink _ => typeSymlink
    | .charDevice => typeChar
    | .blockDevice => typeBlock
    | .namedPipe | .socket => typeFifo
  linkname := match f.kind with
    | .symlink target => target
    | _ => []
  devmajor := 0
  devminor := 0
  xattrs := []
  nodup := noXattrs

/-- The inodes that have been seen, each with the name of its first file. -/
abbrev Inos := List (Nat × Bytes)

/-- `populateHeaderUnix`. -/
def populate (f : File) (hdr : Header) (seen : Inos) : Header × Inos :=
  let hdr := { hdr with uid := f.uid, gid := f.gid }
  let hdr := match f.kind with
    | .charDevice | .blockDevice => { hdr with devmajor := f.devmajor, devminor := f.devminor }
    | _ => hdr
  -- the inode alone decides, whatever the type of the file
  match seen.lookup f.ino with
  | some p => ({ hdr with linkname := p, typeflag := typeLink }, seen)
  | none => (hdr, (f.ino, hdr.name) :: seen)

def File.reader (f : File) : Option Bytes :=
  match f.kind with
  | .regular data => some data
  | _ => none

def File.skipped (f : File) : Bool :=
  f.relpath = ascii ['.'] ∨ f.relpath = ascii "manifest".toList ∨
    f.relpath = ascii "hash".toList ∨ f.relpath = ascii "rendered".toList ∨ f.kind = .socket

variable {seen : Inos} {f : File} {hdr : Header}

/-- A file that does not become a hard link is read as its header says. -/
theorem populate_wf (h : (populate f (fileInfoHeader f) seen).1.typeflag ≠ typeLink) :
    f.reader.map (fun c => (c.length : Int)) =
      if (populate f (fileInfoHeader f) seen).1.typeflag = typeReg
      then some (populate f (fileInfoHeader f) seen).1.size else none := by
  obtain ⟨relpath, kind, mode, uid, gid, ino, devmajor, devminor⟩ := f
  cases hseen : seen.lookup ino with
  | some p => simp [populate, hseen] at h
  | none => cases kind <;> simp [populate, hseen, fileInfoHeader, File.reader] <;> decide

theorem hardLink_wf : (none : Option Bytes).map (fun c => (c.length : Int)) =
    if typeLink = typeReg then some 0 else none := rfl

/-- What the function that `buildWalker` returns passes to `AddFile` for a file. -/
def buildWalker (seen : Inos) (f : File) : Option Entry × Inos :=
  if f.skipped then (none, seen)
  else
    let r := populate f (fileInfoHeader f) seen
    -- a hard link to a file that has been seen comes without its contents
    if h : r.1.typeflag = typeLink then
      (some ⟨{ r.1 with size := 0 }, none, by rw [h]; exact hardLink_wf⟩, r.2)
    else (some ⟨r.1, f.reader, populate_wf h⟩, r.2)

/-- `filepath.Walk` with `buildWalker`, over the files of a tree in their order. -/
def walk : Inos → List File → List Entry
  | _, [] => []
  | seen, f :: fs => (buildWalker seen f).1.toList ++ walk (buildWalker seen f).2 fs

/-- `imageHashWriter.AddFile`. -/
def addFile (e : Entry) : Bytes := (fileInfoFromHeader e.hdr).marshal ++ e.reader.getD []

def hashed (es : List Entry) : Bytes := es.flatMap addFile

def Same (s s' : Bytes) : Prop := pieces 0 s = pieces 0 s'

structure Xattr.Same (x x' : Xattr) : Prop where
  name : TreeHash.Same x.name x'.name
  value : TreeHash.Same x.value x'.value

theorem Xattr.marshal_delimits : Delimits Set.univ Xattr.Same Xattr.marshal := by
  have hname := str_delimits.comap (S := Set.univ) Xattr.name fun _ _ => trivial
  have hvalue := str_delimits.comap (S := Set.univ) Xattr.value fun _ _ => trivial
  have h := object_delimits (k := "Name") (rest_value_delimits hname
    (rest_value_delimits (k := "Value") hvalue rest_nil_delimits))
  exact h.mono fun x _ x' _ ⟨hn, hv, _⟩ => ⟨hn, hv⟩

structure FileInfo.Same (fi fi' : FileInfo) : Prop where
  name : TreeHash.Same fi.name fi'.name
  mode : fi.mode = fi'.mode
  uid : fi.uid = fi'.uid
  gid : fi.gid = fi'.gid
  size : fi.size = fi'.size
  typeflag : fi.typeflag = fi'.typeflag
  linkname : TreeHash.Same fi.linkname fi'.linkname
  devmajor : fi.devmajor = fi'.devmajor
  devminor : fi.devminor = fi'.devminor
  xattrs : List.Forall₂ Xattr.Same fi.xattrs fi'.xattrs

theorem FileInfo.marshal_delimits : Delimits Set.univ FileInfo.Same FileInfo.marshal := by
  have hname := str_delimits.comap (S := Set.univ) FileInfo.name fun _ _ => trivial
  have hlink := str_delimits.comap (S := Set.univ) FileInfo.linkname fun _ _ => trivial
  have hxattrs := (array_delimits Xattr.marshal_delimits).comap (S := Set.univ) FileInfo.xattrs
    fun _ _ _ _ => trivial
  -- the fields from the last to the first
  have hdev := rest_num_delimits (k := "Devmajor") (p := FileInfo.devmajor)
    (rest_num_delimits (k := "Devminor") (p := FileInfo.devminor)
      (rest_value_delimits (k := "Xattrs") hxattrs rest_nil_delimits))
  have hsize := rest_num_delimits (k := "Size") (p := FileInfo.size)
    (rest_num_delimits (k := "Typeflag") (p := fun fi => fi.typeflag.toNat)
      (rest_value_delimits (k := "Linkname") hlink hdev))
  have hmode := rest_num_delimits (k := "Mode") (p := FileInfo.mode)
    (rest_num_delimits (k := "Uid") (p := FileInfo.uid)
      (rest_num_delimits (k := "Gid") (p := FileInfo.gid) hsize))
  have h := object_delimits (k := "Name") (rest_value_delimits hname hmode)
  exact h.mono fun fi _ fi' _ ⟨hn, hm, hu, hg, hs, ht, hl, hma, hmi, hx, _⟩ =>
    ⟨hn, hm, hu, hg, hs, UInt8.toNat_inj.mp (Int.ofNat.inj ht), hl, hma, hmi, hx⟩

/-- The headers agree in all that is hashed; of the attributes, as maps. -/
structure Header.Agree (h h' : Header) : Prop where
  name : h.name = h'.name
  mode : h.mode = h'.mode
  uid : h.uid = h'.uid
  gid : h.gid = h'.gid
  size : h.size = h'.size
  typeflag : h.typeflag = h'.typeflag
  linkname : h.linkname = h'.linkname
  devmajor : h.devmajor = h'.devmajor
  devminor : h.devminor = h'.devminor
  xattrs : ∀ k, h.xattrs.lookup k = h'.xattrs.lookup k

def Header.valid (hdr : Header) : Bool :=
  validString hdr.name && validString hdr.linkname &&
    hdr.xattrs.all fun x => validString x.1 && validString x.2

/-- The attributes of the info have the keys of the header, and an empty name for each of them. -/
theorem keys_perm (hdr : Header) :
    ((fileInfoFromHeader hdr).xattrs.map Xattr.name).Perm hdr.keys := by
  have hmap : (fileInfoFromHeader hdr).xattrs.map Xattr.name = hdr.keys.mergeSort (· ≤ ·) := by
    simp [fileInfoFromHeader, Function.comp_def]
  rw [hmap]
  exact List.mergeSort_perm _ _

theorem value_of_mem {x : Xattr} (hx : x ∈ (fileInfoFromHeader hdr).xattrs) :
    x.value = hdr.xattr x.name := by
  obtain ⟨k, -, rfl⟩ := List.mem_map.mp hx
  rfl

theorem lookup_eq_of_xattrs_eq {h h' : Header}
    (heq : (fileInfoFromHeader h).xattrs = (fileInfoFromHeader h').xattrs) (k : Bytes) :
    h.xattrs.lookup k = h'.xattrs.lookup k := by
  have hkeys : h.keys.Perm h'.keys := (keys_perm h).symm.trans (heq ▸ keys_perm h')
  -- there are as many empty names as keys, so both maps have equally many
  have hlen : h.xattrs.length = h'.xattrs.length := by
    have := hkeys.length_eq
    simp only [Header.keys, List.length_append, List.length_replicate, List.length_map] at this
    omega
  have hperm : (h.xattrs.map Prod.fst).Perm (h'.xattrs.map Prod.fst) := by
    rw [Header.keys, Header.keys, hlen] at hkeys
    exact (List.perm_append_left_iff _).mp hkeys
  by_cases hk : k ∈ h.xattrs.map Prod.fst
  · obtain ⟨v, hv⟩ := mem_keys_iff.mp hk
    obtain ⟨v', hv'⟩ := mem_keys_iff.mp (hperm.mem_iff.mp hk)
    have hmem : k ∈ (fileInfoFromHeader h).xattrs.map Xattr.name :=
      (keys_perm h).mem_iff.mpr (List.mem_append_right _ hk)
    obtain ⟨x, hx, rfl⟩ := List.mem_map.mp hmem
    have hval : h.xattr x.name = h'.xattr x.name := by
      rw [← value_of_mem hx, ← value_of_mem (heq ▸ hx)]
    simpa [Header.xattr, hv, hv'] using hval
  · have hk' : k ∉ h'.xattrs.map Prod.fst := fun hk' => hk (hperm.mem_iff.mpr hk')
    rw [lookup_eq_none_iff.mpr hk, lookup_eq_none_iff.mpr hk']

theorem valid_of_mem (h : hdr.valid = true) {x : Xattr} (hx : x ∈ (fileInfoFromHeader hdr).xattrs) :
    validString x.name = true ∧ validString x.value = true := by
  simp only [Header.valid, Bool.and_eq_true, List.all_eq_true] at h
  have hempty : validString [] = true := rfl
  constructor
  · have hmem := (keys_perm hdr).mem_iff.mp (List.mem_map_of_mem hx)
    rcases List.mem_append.mp hmem with hmem | hmem
    · rw [List.eq_of_mem_replicate hmem]
      exact hempty
    · obtain ⟨p, hp, hname⟩ := List.mem_map.mp hmem
      exact hname ▸ (h.2 p hp).1
  · rw [value_of_mem hx, Header.xattr]
    cases hv : hdr.xattrs.lookup x.name with
    | none => exact hempty
    | some v => exact (h.2 _ (mem_of_lookup hv)).2

theorem xattrs_eq_of_same {l l' : List Xattr} (h : List.Forall₂ Xattr.Same l l')
    (hl : ∀ x ∈ l, validString x.name = true ∧ validString x.value = true)
    (hl' : ∀ x ∈ l', validString x.name = true ∧ validString x.value = true) : l = l' := by
  induction h with
  | nil => rfl
  | @cons x x' l l' hxx _ ih =>
    have hx := hl x List.mem_cons_self
    have hx' := hl' x' List.mem_cons_self
    have hname := eq_of_pieces_eq hx.1 hx'.1 hxx.name
    have hvalue := eq_of_pieces_eq hx.2 hx'.2 hxx.value
    rw [ih (fun x hx => hl x (List.mem_cons_of_mem _ hx))
      fun x hx => hl' x (List.mem_cons_of_mem _ hx)]
    cases x
    cases x'
    simp_all

theorem agree_of_same {h h' : Header} (hv : h.valid = true) (hv' : h'.valid = true)
    (hs : (fileInfoFromHeader h).Same (fileInfoFromHeader h')) : h.Agree h' := by
  have hxattrs := xattrs_eq_of_same hs.xattrs (fun _ => valid_of_mem hv) fun _ => valid_of_mem hv'
  simp only [Header.valid, Bool.and_eq_true] at hv hv'
  exact ⟨eq_of_pieces_eq hv.1.1 hv'.1.1 hs.name, hs.mode, hs.uid, hs.gid, hs.size, hs.typeflag,
    eq_of_pieces_eq hv.1.2 hv'.1.2 hs.linkname, hs.devmajor, hs.devminor,
    lookup_eq_of_xattrs_eq hxattrs⟩

structure Entry.Same (e e' : Entry) : Prop where
  info : (fileInfoFromHeader e.hdr).Same (fileInfoFromHeader e'.hdr)
  reader : e.reader = e'.reader

structure Entry.Agree (e e' : Entry) : Prop where
  hdr : e.hdr.Agree e'.hdr
  reader : e.reader = e'.reader

theorem reader_length {e e' : Entry}
    (h : (fileInfoFromHeader e.hdr).Same (fileInfoFromHeader e'.hdr)) :
    e.reader.map (fun c => (c.length : Int)) = e'.reader.map (fun c => (c.length : Int)) := by
  have hsize : e.hdr.size = e'.hdr.size := h.size
  have htype : e.hdr.typeflag = e'.hdr.typeflag := h.typeflag
  rw [e.wf, e'.wf, hsize, htype]

theorem reader_append_inj {r r' : Option Bytes} {x x' : Bytes}
    (hlen : r.map (fun c => (c.length : Int)) = r'.map (fun c => (c.length : Int)))
    (h : r.getD [] ++ x = r'.getD [] ++ x') : r = r' ∧ x = x' := by
  cases r with
  | none =>
    cases r' with
    | none => exact ⟨rfl, h⟩
    | some c' => simp at hlen
  | some c =>
    cases r' with
    | none => simp at hlen
    | some c' =>
      simp only [Option.getD_some, Option.map_some, Option.some.injEq] at h hlen
      obtain ⟨hc, hx⟩ := List.append_inj h (Int.ofNat.inj hlen)
      exact ⟨by rw [hc], hx⟩

theorem addFile_delimits : Delimits Set.univ Entry.Same addFile := by
  have hinfo := FileInfo.marshal_delimits.comap (S := Set.univ)
    (fun e : Entry => fileInfoFromHeader e.hdr) fun _ _ => trivial
  have h := hinfo.append_of (g := fun e => e.reader.getD []) fun _ _ _ _ hsame _ _ =>
    reader_append_inj (reader_length hsame)
  exact h.mono fun _ _ _ _ ⟨hi, hr⟩ => ⟨hi, hr⟩

theorem Same.str_eq {s s' : Bytes} (h : Same s s') : str s = str s' := by
  rw [str, str, h]

theorem map_marshal_congr {l l' : List Xattr} (h : List.Forall₂ Xattr.Same l l') :
    l.map Xattr.marshal = l'.map Xattr.marshal := by
  induction h with
  | nil => rfl
  | cons hx _ ih =>
    simp only [List.map_cons, ih, Xattr.marshal, hx.name.str_eq, hx.value.str_eq]

theorem marshal_congr {fi fi' : FileInfo} (h : fi.Same fi') : fi.marshal = fi'.marshal := by
  simp only [FileInfo.marshal, h.name.str_eq, h.mode, h.uid, h.gid, h.size, h.typeflag,
    h.linkname.str_eq, h.devmajor, h.devminor, map_marshal_congr h.xattrs]

theorem addFile_ne_nil (e : Entry) : addFile e ≠ [] := List.cons_ne_nil _ _

/-- What is hashed is the entries up to bytes that are not UTF-8, no more and no less. -/
theorem hashed_eq_iff {es es' : List Entry} :
    hashed es = hashed es' ↔ List.Forall₂ Entry.Same es es' := by
  constructor
  · exact addFile_delimits.sequence (fun e _ => addFile_ne_nil e) (fun _ _ => trivial)
      fun _ _ => trivial
  · intro h
    induction h with
    | nil => rfl
    | cons he _ ih =>
      simp only [hashed, List.flatMap_cons, addFile, marshal_congr he.info, he.reader] at ih ⊢
      rw [ih]

theorem addFile_delimits_valid : Delimits {e : Entry | e.hdr.valid = true} Entry.Agree addFile :=
  (addFile_delimits.comap id fun _ _ => trivial).mono fun _ he _ he' hs =>
    ⟨agree_of_same he he' hs.info, hs.reader⟩

/-- **Two sequences of entries that are hashed alike agree**, if all their strings are valid
UTF-8. -/
theorem hashed_entries_agree {es es' : List Entry} (hv : ∀ e ∈ es, e.hdr.valid = true)
    (hv' : ∀ e ∈ es', e.hdr.valid = true) (h : hashed es = hashed es') :
    List.Forall₂ Entry.Agree es es' :=
  addFile_delimits_valid.sequence (fun e _ => addFile_ne_nil e) hv hv' h

def emptyFile (name : Bytes) : File := ⟨name, .regular [], 0o644, 0, 0, 1, 0, 0⟩

/-- An empty file with the attributes `a` and `b`, and the same one when the map is iterated the
other way round. -/
def twoXattrs (turned : Bool) : Entry where
  hdr := { fileInfoHeader (emptyFile [0x66]) with
    xattrs := if turned then [([0x62], [0x32]), ([0x61], [0x31])]
      else [([0x61], [0x31]), ([0x62], [0x32])]
    nodup := by cases turned <;> decide }
  reader := some []
  wf := rfl

theorem twoXattrs_keys (turned : Bool) :
    (twoXattrs turned).hdr.keys.mergeSort (· ≤ ·) = [[], [], [0x61], [0x62]] := by
  have hperm : (twoXattrs turned).hdr.keys.Perm [[], [], [0x61], [0x62]] := by
    cases turned <;> decide
  have htrans : ∀ a b c : Bytes, decide (a ≤ b) = true → decide (b ≤ c) = true →
      decide (a ≤ c) = true := by
    simpa using fun _ _ _ => List.le_trans
  have htotal : ∀ a b : Bytes, (decide (a ≤ b) || decide (b ≤ a)) = true := by
    simpa using List.le_total
  refine ((List.mergeSort_perm _ _).trans hperm).eq_of_pairwise (fun a b _ _ h h' => ?_)
    (List.pairwise_mergeSort htrans htotal _) (by decide)
  exact List.le_antisymm (of_decide_eq_true h) (of_decide_eq_true h')

theorem hashed_entries_agree_xattrs :
    List.Forall₂ Entry.Agree [twoXattrs false] [twoXattrs true] := by
  refine hashed_entries_agree (by decide) (by decide) ?_
  simp only [hashed, List.flatMap_cons, List.flatMap_nil, addFile, fileInfoFromHeader,
    twoXattrs_keys]
  rfl

/-- **A file can get another name without a change of the hash**: a byte that is not UTF-8 is as
good as any other. -/
theorem names_collide :
    hashed (walk [] [emptyFile [0xFF]]) = hashed (walk [] [emptyFile [0xFE]]) ∧
      ¬ List.Forall₂ Entry.Agree (walk [] [emptyFile [0xFF]]) (walk [] [emptyFile [0xFE]]) := by
  have hxattrs : List.Forall₂ Xattr.Same
      (fileInfoFromHeader (fileInfoHeader (emptyFile [0xFF]))).xattrs
      (fileInfoFromHeader (fileInfoHeader (emptyFile [0xFE]))).xattrs := by
    simp [fileInfoFromHeader, fileInfoHeader, Header.keys]
  constructor
  · rw [hashed_eq_iff]
    exact .cons ⟨⟨rfl, rfl, rfl, rfl, rfl, rfl, rfl, rfl, rfl, hxattrs⟩, rfl⟩ .nil
  · intro h
    cases h with
    | cons he _ => exact absurd he.hdr.name (by decide)

/-- The path of the file and the target of a link are valid UTF-8. -/
def File.valid (f : File) : Bool :=
  validString f.relpath && match f.kind with
    | .symlink target => validString target
    | _ => true

theorem fileInfoHeader_valid (hf : f.valid = true) : (fileInfoHeader f).valid = true := by
  obtain ⟨relpath, kind, mode, uid, gid, ino, devmajor, devminor⟩ := f
  have hempty : validString [] = true := rfl
  cases kind <;> simpa [Header.valid, File.valid, fileInfoHeader, hempty] using hf

/-- Of the strings of a header `populate` touches only the target of a link, and takes it from the
names it has seen. -/
theorem populate_valid (hhdr : hdr.valid = true) (hseen : ∀ p ∈ seen, validString p.2 = true) :
    (populate f hdr seen).1.valid = true ∧
      ∀ p ∈ (populate f hdr seen).2, validString p.2 = true := by
  simp only [Header.valid, Bool.and_eq_true] at hhdr
  cases hlookup : seen.lookup f.ino with
  | some p =>
    have hp := hseen _ (mem_of_lookup hlookup)
    cases hkind : f.kind <;>
      simp only [populate, hlookup, hkind, Header.valid, Bool.and_eq_true] <;>
      exact ⟨⟨⟨hhdr.1.1, hp⟩, hhdr.2⟩, hseen⟩
  | none =>
    cases hkind : f.kind <;>
      simp only [populate, hlookup, hkind, Header.valid, Bool.and_eq_true,
        List.forall_mem_cons] <;>
      exact ⟨hhdr, hhdr.1.1, hseen⟩

theorem buildWalker_valid (hseen : ∀ p ∈ seen, validString p.2 = true) (hf : f.valid = true) :
    (∀ e ∈ (buildWalker seen f).1.toList, e.hdr.valid = true) ∧
      ∀ p ∈ (buildWalker seen f).2, validString p.2 = true := by
  obtain ⟨hvalid, hseen'⟩ := populate_valid (f := f) (fileInfoHeader_valid hf) hseen
  by_cases hskip : f.skipped = true
  · rw [buildWalker, if_pos hskip]
    exact ⟨by simp, hseen⟩
  · rw [buildWalker, if_neg hskip]
    dsimp only
    split_ifs
    · refine ⟨fun e he => ?_, hseen'⟩
      rw [List.mem_singleton.mp he]
      exact hvalid
    · refine ⟨fun e he => ?_, hseen'⟩
      rw [List.mem_singleton.mp he]
      exact hvalid

theorem walk_valid {fs : List File} (hseen : ∀ p ∈ seen, validString p.2 = true)
    (hfs : ∀ f ∈ fs, f.valid = true) : ∀ e ∈ walk seen fs, e.hdr.valid = true := by
  induction fs generalizing seen with
  | nil => simp [walk]
  | cons f fs ih =>
    obtain ⟨hentry, hseen⟩ := buildWalker_valid hseen (hfs f List.mem_cons_self)
    intro e he
    rcases List.mem_append.mp he with he | he
    · exact hentry e he
    · exact ih hseen (fun f hf => hfs f (List.mem_cons_of_mem _ hf)) e he

/-- **Trees that are hashed alike are walked alike**, if their paths and the targets of their
symbolic links are valid UTF-8. -/
theorem hashed_walks_agree {fs fs' : List File} (hv : ∀ f ∈ fs, f.valid = true)
    (hv' : ∀ f ∈ fs', f.valid = true) (h : hashed (walk [] fs) = hashed (walk [] fs')) :
    List.Forall₂ Entry.Agree (walk [] fs) (walk [] fs') :=
  addFile_delimits_valid.sequence (fun e _ => addFile_ne_nil e) (walk_valid (by simp) hv)
    (walk_valid (by simp) hv') h

/-- A regular file, and a second name for the same inode. -/
def twoNames (ino : Nat) : List File :=
  [⟨[0x61], .regular [0x7B], 0o644, 0, 0, ino, 0, 0⟩,
    ⟨[0x62], .regular [0x7B], 0o644, 0, 0, ino, 0, 0⟩]

theorem hashed_walks_agree_twoNames :
    List.Forall₂ Entry.Agree (walk [] (twoNames 1)) (walk [] (twoNames 2)) :=
  hashed_walks_agree (by decide) (by decide) rfl

end Rkt.TreeHash
