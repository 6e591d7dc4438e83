import Rkt.Tar.Extract

set_option autoImplicit false

namespace Rkt.Tar

open Conc Prog Uid

structure Chown where
  path : Loc
  uid : UInt32
  gid : UInt32
  deriving DecidableEq, Repr

def chownStep : (o : Op) → o.Res → List Chown → Option (List Chown)
  | .sys (.lchown p uid gid), ok, log =>
    if (show Bool from ok) then some (log ++ [⟨p, uid, gid⟩]) else some log
  | .sys _, _, log | .lstat _, _, log => some log

/-- What the kernel makes of an owner: -1 does not change it. -/
def chownId (old id : UInt32) : UInt32 := if id = maxUint32 then old else id

/-- The file gets exactly the identifier of the header, shifted, whatever owner it had, and that is
an identifier of the range. -/
structure Given (r : UidRange) (id : Int) (shifted : UInt32) : Prop where
  exact : ∀ old, ((chownId old shifted).toNat : Int) = id + r.shift.toNat
  lower : (r.shift.toNat : Int) ≤ id + r.shift.toNat
  upper : id + r.shift.toNat < r.shift.toNat + r.count.toNat
  bound : id + r.shift.toNat < 2 ^ 32

/-- The identifier of the header has 32 bits, and the kernel does not take the shifted one for
-1. -/
structure Representable (r : UidRange) (id : Int) : Prop where
  lower : 0 ≤ id
  upper : id < 2 ^ 32
  shifted : id + r.shift.toNat ≠ 2 ^ 32 - 1

theorem toNat_ofInt (id : Int) : ((UInt32.ofInt id).toNat : Int) = id % 2 ^ 32 := by
  simp [UInt32.ofInt]
  omega

theorem given_iff {r : UidRange} {id : Int} {x : UInt32} (hlt : UInt32.ofInt id < r.count)
    (hx : x.toNat = (UInt32.ofInt id).toNat + r.shift.toNat) :
    Given r id x ↔ Representable r id := by
  have hmod := toNat_ofInt id
  have hmax : maxUint32.toNat = 2 ^ 32 - 1 := rfl
  have hbound : x.toNat < 2 ^ 32 := x.toNat_lt
  rw [UInt32.lt_iff_toNat_lt] at hlt
  constructor
  · intro h
    have hne : x ≠ maxUint32 := by
      -- otherwise the owner would still depend on the old one
      rintro rfl
      have h0 := h.exact 0
      have h1 := h.exact 1
      simp only [chownId, ↓reduceIte] at h0 h1
      have hdiffer : (0 : UInt32).toNat ≠ (1 : UInt32).toNat := by decide
      omega
    have hexact := h.exact 0
    rw [chownId, if_neg hne] at hexact
    have hne' : x.toNat ≠ maxUint32.toNat := fun heq => hne (UInt32.toNat_inj.mp heq)
    exact ⟨by omega, by omega, by omega⟩
  · intro h
    have hlower := h.lower
    have hupper := h.upper
    have hshifted := h.shifted
    have hsame : id % 2 ^ 32 = id := Int.emod_eq_of_lt hlower hupper
    have hne : x ≠ maxUint32 := by
      rintro rfl
      omega
    refine ⟨fun old => ?_, by omega, by omega, by omega⟩
    rw [chownId, if_neg hne]
    omega

def quiet : Op → Prop
  | .sys (.lchown _ _ _) => False
  | _ => True

theorem quiet_keeps {α : Type} {x : TarProg α} (hx : x.All quiet) : Keeps chownStep id x := by
  refine Keeps.of_all (fun o ho => Keeps.call fun log r log' h => ?_) hx
  cases o with
  | lstat p =>
    cases h
    rfl
  | sys c =>
    cases c with
    | lchown p uid gid => exact ho.elim
    | _ =>
      cases h
      rfl

theorem quiet_perform {c : Sys} (hc : quiet (.sys c)) : (perform c).All quiet :=
  All.must (all_call hc)

theorem quiet_removeOld (hdr : Header) : (removeOld hdr).All quiet := by
  refine All.bind (all_call trivial) fun answer => ?_
  cases answer with
  | notExist => trivial
  | found isDir => exact All.ite (fun _ => quiet_perform trivial) fun _ => trivial
  | failed => trivial

theorem quiet_create (e : Entry) : (create e).All quiet := by
  dsimp only [create]
  cases e.hdr.typeflag with
  | reg => exact All.andThen (quiet_perform trivial) fun _ => quiet_perform trivial
  | regA => exact All.andThen (quiet_perform trivial) fun _ => quiet_perform trivial
  | dir =>
    exact All.andThen (quiet_perform trivial) fun _ =>
      All.andThen (quiet_perform trivial) fun _ => quiet_perform trivial
  | other flag => trivial
  | _ => exact quiet_perform trivial

theorem quiet_restore (hdr : Header) : (restore hdr).All quiet :=
  All.andThen (All.ite (fun _ => quiet_perform trivial) fun _ => trivial) fun _ =>
    All.ite (fun _ => quiet_perform trivial) fun _ => quiet_perform trivial

/-- **An entry that is accepted** has been given the shifted identifiers, in one call. -/
theorem extractFile_chown {overwrite : Bool} {r : UidRange} {e : Entry} {log log' : List Chown}
    {u : Unit} (h : (extractFile overwrite r e).Runs chownStep log (.ok u) log') :
    ∃ uid gid, r.shiftRange (.ofInt e.hdr.uid) (.ofInt e.hdr.gid) = .ok (uid, gid) ∧
      log' = log ++ [⟨joinRoot e.hdr.name, uid, gid⟩] := by
  obtain ⟨s1, s2, s3, s4, uid, gid, hold, hparent, hcreate, hshift, hchown, hrestore⟩ :=
    extractFile_ok h
  have hquiet : (if overwrite then removeOld e.hdr else pure (.ok ()) : TarProg _).All quiet :=
    All.ite (fun _ => quiet_removeOld e.hdr) fun _ => trivial
  have hold' : s1 = log := quiet_keeps hquiet _ _ _ hold
  have hparent' : s2 = s1 := (Option.some.inj hparent).symm
  have hcreate' : s3 = s2 := quiet_keeps (quiet_create e) _ _ _ hcreate
  have hchown' : s4 = s3 ++ [⟨joinRoot e.hdr.name, uid, gid⟩] := (Option.some.inj hchown).symm
  have hrestore' : log' = s4 := quiet_keeps (quiet_restore e.hdr) _ _ _ hrestore
  refine ⟨uid, gid, hshift, ?_⟩
  rw [hrestore', hchown', hcreate', hparent', hold']

/-- The call is for the entry, and an identifier is right exactly if it is representable. -/
structure Recorded (r : UidRange) (e : Entry) (c : Chown) : Prop where
  path : c.path = joinRoot e.hdr.name
  uid : Given r e.hdr.uid c.uid ↔ Representable r e.hdr.uid
  gid : Given r e.hdr.gid c.gid ↔ Representable r e.hdr.gid

theorem recorded_of_shiftRange {r : UidRange} (hcount : r.count > 0) {e : Entry} {uid gid : UInt32}
    (h : r.shiftRange (.ofInt e.hdr.uid) (.ofInt e.hdr.gid) = .ok (uid, gid)) :
    Recorded r e ⟨joinRoot e.hdr.name, uid, gid⟩ := by
  obtain ⟨⟨hult, hu⟩, hglt, hg⟩ := (r.shiftRange_ok_iff hcount).mp h
  exact ⟨rfl, given_iff hult hu, given_iff hglt hg⟩

/-- Identifiers that are told apart in the image are told apart on the host. -/
theorem Given.injective {r : UidRange} {id id' : Int} {x : UInt32} (h : Given r id x)
    (h' : Given r id' x) : id = id' := by
  have hx := h.exact 0
  have hx' := h'.exact 0
  omega

/-- **The owners of the entries**: of each entry that `extractFile` accepts, and of all the entries
that are extracted if `extractTar` succeeds. -/
theorem extractTar_owner {r : UidRange} (hcount : r.count > 0) :
    (∀ overwrite e log log',
      (extractFile overwrite r e).Runs chownStep log (.ok ()) log' →
        ∃ c, log' = log ++ [c] ∧ Recorded r e c) ∧
    ∀ tr overwrite pwl log,
      (extractTar tr overwrite pwl r).Runs chownStep [] (.ok ()) log →
        List.Forall₂ (Recorded r) (tr.entries.filter (selected pwl)) log ∧
        ∀ a ∈ (tr.entries.filter (selected pwl)).zip log,
          ∀ b ∈ (tr.entries.filter (selected pwl)).zip log,
            Representable r a.1.hdr.uid → Representable r b.1.hdr.uid →
              a.2.uid = b.2.uid → a.1.hdr.uid = b.1.hdr.uid := by
  have hfile : ∀ overwrite e log log',
      (extractFile overwrite r e).Runs chownStep log (.ok ()) log' →
        ∃ c, log' = log ++ [c] ∧ Recorded r e c := by
    intro overwrite e log log' h
    obtain ⟨uid, gid, hshift, hlog⟩ := extractFile_chown h
    exact ⟨_, hlog, recorded_of_shiftRange hcount hshift⟩
  refine ⟨hfile, fun tr overwrite pwl log h => ?_⟩
  have hall : List.Forall₂ (Recorded r) (tr.entries.filter (selected pwl)) log := by
    refine extractTar_induct (I := List.Forall₂ (Recorded r)) (P := fun _ => True) ?_ ?_
      (fun _ _ => trivial) List.Forall₂.nil h
    · intro done e s s' u _ hI hrun
      obtain ⟨c, rfl, hc⟩ := hfile overwrite e s s' hrun
      exact List.rel_append hI (List.Forall₂.cons hc List.Forall₂.nil)
    · intro done p ts s s' hI hstep
      cases hstep
      exact hI
  refine ⟨hall, fun a ha b hb hra hrb heq => ?_⟩
  have hga := ((List.forall₂_iff_zip.mp hall).2 ha).uid.mpr hra
  have hgb := ((List.forall₂_iff_zip.mp hall).2 hb).uid.mpr hrb
  rw [heq] at hga
  exact hga.injective hgb

def exampleRange : UidRange := ⟨0x10000, 0x10000⟩

def exampleEntry (uid : Int) : Entry :=
  ⟨⟨[0x66], 0o644, uid, 0, .reg, [], 0, 0, .zero, .zero⟩, []⟩

def smooth : (o : Op) → List Chown → o.Res
  | .sys _, _ => true
  | .lstat _, _ => .notExist

theorem extractTar_owner_example : Given exampleRange 1000 0x103e8 := by
  have hrun : (extractFile false exampleRange (exampleEntry 1000)).Runs chownStep [] (.ok ())
      [⟨[['f']], 0x103e8, 0x10000⟩] :=
    runs_of_eval smooth rfl
  obtain ⟨c, hlog, hc⟩ := (extractTar_owner (r := exampleRange) (by decide)).1 _ _ _ _ hrun
  cases hlog
  exact hc.uid.mpr ⟨by decide, by decide, by decide⟩

/-- The user 2^32 of the image becomes the same user of the host as its user 0. -/
theorem extractFile_narrows_uid :
    (extractFile false exampleRange (exampleEntry (2 ^ 32))).Runs chownStep [] (.ok ())
      [⟨[['f']], 0x10000, 0x10000⟩] ∧
    (extractFile false exampleRange (exampleEntry 0)).Runs chownStep [] (.ok ())
      [⟨[['f']], 0x10000, 0x10000⟩] ∧
    ¬ Given exampleRange (2 ^ 32) 0x10000 := by
  refine ⟨runs_of_eval smooth rfl, runs_of_eval smooth rfl, fun h => ?_⟩
  exact absurd h.bound (by decide)

end Rkt.Tar
