import Rkt.Code.JsonSet
import Rkt.Tar.Owner

set_option autoImplicit false

namespace Rkt.Tar

open Conc Prog Json Path Uid Decimal

/-- `strconv.FormatBool`. -/
def formatBool (b : Bool) : Str := if b then "true".toList else "false".toList

/-- `strconv.ParseBool`. -/
def parseBool (s : Str) : Option Bool :=
  if ["1", "t", "T", "true", "TRUE", "True"].any fun t => t.toList = s then some true
  else if ["0", "f", "F", "false", "FALSE", "False"].any fun t => t.toList = s then some false
  else none

/-- `strconv.FormatUint(uint64(n), 10)`. -/
def formatUint (n : UInt32) : Str := Nat.toDigits 10 n.toNat

/-- `strconv.ParseUint(s, 10, 32)`. -/
def parseUint (s : Str) : Option UInt32 :=
  (parseNat s).bind fun n => if n < 2 ^ 32 then some (UInt32.ofNat n) else none

theorem parseBool_formatBool (b : Bool) : parseBool (formatBool b) = some b := by
  cases b <;> decide

theorem parseUint_formatUint (n : UInt32) : parseUint (formatUint n) = some n := by
  have hlt : n.toNat < 2 ^ 32 := n.toNat_lt
  rw [parseUint, formatUint, parseNat_toDigits, Option.bind_some, if_pos hlt, UInt32.ofNat_toNat]

/-- What the operating system lets the processes do. -/
structure Host where
  pipe : Bool
  hasChrootCapability : Bool
  chroot : Bool
  chdir : Bool
  deriving DecidableEq, Repr

structure Child where
  /-- `os.Args`. -/
  args : List Str
  /-- What can be read from the file descriptor `fileMapFdNum`. -/
  fileMap : Bytes
  stdin : Stream
  deriving DecidableEq, Repr

inductive CommandErr where
  /-- `incorrect number of arguments.` -/
  | usage
  /-- `chroot capability not available.` -/
  | capability
  /-- `dir %s must be an absolute path`. -/
  | notAbs (dir : Str)
  /-- `error parsing overwrite argument: %v`. -/
  | overwrite
  /-- `error parsing uidShift argument: %v`, for either of the two. -/
  | uidShift
  /-- `failed to chroot in %s: %v`. -/
  | chroot (dir : Str)
  /-- `failed to chdir: %v`. -/
  | chdir
  /-- `error decoding fileMap: %v`. -/
  | fileMap
  /-- `error extracting tar: %v`. -/
  | extracting (e : TarErr)
  deriving DecidableEq, Repr

/-- `extractTarCommand`. The map that is decoded into is nil after `null`. -/
def extractTarCommand (h : Host) (c : Child) : TarProg (Except CommandErr Unit) :=
  match c.args with
  | [_, dir, overwriteArg, shiftArg, countArg] =>
    if !h.hasChrootCapability then return .error .capability
    else if !isAbs dir then return .error (.notAbs dir)
    else
      match parseBool overwriteArg, parseUint shiftArg, parseUint countArg with
      | none, _, _ => return .error .overwrite
      | some _, none, _ | some _, some _, none => return .error .uidShift
      | some overwrite, some us, some uc =>
        if !h.chroot then return .error (.chroot dir)
        else if !h.chdir then return .error .chdir
        else
          match decodeSet c.fileMap with
          | none => return .error .fileMap
          | some fileMap =>
            wrapError .extracting (extractTar c.stdin overwrite fileMap ⟨us, uc⟩)
  | _ => return .error .usage

def multicallName : Str := "extracttar".toList

inductive ForkErr where
  | pipe
  /-- `extracttar error: %v, output: %s`. -/
  | child (e : CommandErr)
  deriving DecidableEq, Repr

/-- `ExtractTar`. The whitelist can always be encoded, and the parent keeps the reading end of the
pipe open, so that writing to it does not fail. -/
def forkExtractTar (h : Host) (rs : Stream) (dir : Str) (overwrite : Bool) (uidRange : UidRange)
    (pwl : PathWhitelistMap) : TarProg (Except ForkErr Unit) :=
  if !h.pipe then return .error .pipe
  else
    wrapError .child (extractTarCommand h
      ⟨[multicallName, dir, formatBool overwrite, formatUint uidRange.shift,
        formatUint uidRange.count], encodeSet pwl, rs⟩)

variable {h : Host} {tr : Stream} {dir : Str} {overwrite : Bool} {r : UidRange}

theorem forkExtractTar_eq (hh : h = ⟨true, true, true, true⟩) (hdir : isAbs dir = true)
    (pwl : PathWhitelistMap) : forkExtractTar h tr dir overwrite r pwl =
      wrapError .child (wrapError .extracting
        (extractTar tr overwrite (pwl.map (List.map reread)) r)) := by
  subst hh
  simp [forkExtractTar, extractTarCommand, hdir, parseBool_formatBool, parseUint_formatUint,
    decodeSet_encodeSet]

/-- The strings that are decoded are those that were encoded exactly if all are valid. -/
theorem map_reread_iff {ks : List Bytes} :
    (∀ name, name ∈ ks.map reread ↔ name ∈ ks) ↔ ∀ k ∈ ks, validString k = true := by
  constructor
  · intro hsame k hk
    obtain ⟨k', -, rfl⟩ := List.mem_map.mp ((hsame k).mpr hk)
    exact validString_reread k'
  · intro hvalid name
    have hid : ks.map reread = ks :=
      (List.map_congr_left fun k hk => reread_of_valid (hvalid k hk)).trans (List.map_id' ks)
    rw [hid]

theorem extractTar_paths {pwl : PathWhitelistMap} {log : List Chown} {u : Unit}
    (hrun : (extractTar tr overwrite pwl r).Runs chownStep [] (.ok u) log) :
    log.map Chown.path = (tr.entries.filter (selected pwl)).map fun e => joinRoot e.hdr.name := by
  refine extractTar_induct
    (I := fun es log => log.map Chown.path = es.map fun e => joinRoot e.hdr.name)
    (P := fun _ => True) ?_ ?_ (fun _ _ => trivial) rfl hrun
  · intro done e s s' u _ hI hfile
    obtain ⟨uid, gid, -, rfl⟩ := extractFile_chown hfile
    simp [hI]
  · intro done p ts s s' hI hstep
    cases hstep
    exact hI

/-- **The whitelist of the child.** It has the paths of the parent exactly if they are valid UTF-8,
and then exactly the entries with such a path are extracted. Without a whitelist all entries are. -/
theorem forkExtractTar_whitelist (hh : h = ⟨true, true, true, true⟩) (hdir : isAbs dir = true) :
    (∀ keys, ∃ keys', decodeSet (encodeSet (some keys)) = some (some keys') ∧
      forkExtractTar h tr dir overwrite r (some keys) =
        wrapError .child (wrapError .extracting (extractTar tr overwrite (some keys') r)) ∧
      ((∀ name, name ∈ keys' ↔ name ∈ keys) ↔ ∀ k ∈ keys, validString k = true) ∧
      ((∀ k ∈ keys, validString k = true) → ∀ log,
        (forkExtractTar h tr dir overwrite r (some keys)).Runs chownStep [] (.ok ()) log →
          log.map Chown.path =
            (tr.entries.filter fun e => keys.contains (cleanName e.hdr.name)).map
              fun e => joinRoot e.hdr.name)) ∧
    forkExtractTar h tr dir overwrite r none =
      wrapError .child (wrapError .extracting (extractTar tr overwrite none r)) := by
  refine ⟨fun keys => ⟨keys.map reread, decodeSet_encodeSet _, forkExtractTar_eq hh hdir _,
    map_reread_iff, fun hvalid log hrun => ?_⟩, forkExtractTar_eq hh hdir none⟩
  rw [forkExtractTar_eq hh hdir, runs_wrapError_ok, runs_wrapError_ok] at hrun
  rw [extractTar_paths hrun]
  congr 1
  refine List.filter_congr fun e _ => ?_
  have hmem := map_reread_iff.mpr hvalid (cleanName e.hdr.name)
  simpa [selected] using hmem

theorem forkExtractTar_whitelist_example :
    (forkExtractTar ⟨true, true, true, true⟩ ⟨[exampleEntry 0], false⟩ ['/'] false exampleRange
      (some [[0x66]])).Runs chownStep [] (.ok ()) [⟨[['f']], 0x10000, 0x10000⟩] ∧
    [(⟨[['f']], 0x10000, 0x10000⟩ : Chown)].map Chown.path = [[['f']]] := by
  have hrun : (forkExtractTar ⟨true, true, true, true⟩ ⟨[exampleEntry 0], false⟩ ['/'] false
      exampleRange (some [[0x66]])).Runs chownStep [] (.ok ())
        [⟨[['f']], 0x10000, 0x10000⟩] :=
    runs_of_eval smooth rfl
  have hwhitelist := @forkExtractTar_whitelist ⟨true, true, true, true⟩
    ⟨[exampleEntry 0], false⟩ ['/'] false exampleRange rfl rfl
  obtain ⟨_, -, -, -, hpaths⟩ := hwhitelist.1 [[0x66]]
  exact ⟨hrun, hpaths (by decide) _ hrun⟩

/-- The child passes over a file of the whitelist, since its name is not UTF-8. -/
theorem forkExtractTar_drops_file :
    (forkExtractTar ⟨true, true, true, true⟩
      ⟨[⟨⟨[0xff], 0o644, 0, 0, .reg, [], 0, 0, .zero, .zero⟩, []⟩], false⟩ ['/'] false exampleRange
      (some [[0xff]])).Runs chownStep [] (.ok ()) [] ∧
    cleanName [0xff] = [0xff] ∧
    decodeSet (encodeSet (some [[0xff]])) = some (some [[0xef, 0xbf, 0xbd]]) :=
  ⟨runs_of_eval smooth rfl, by decide, by decide⟩

end Rkt.Tar
