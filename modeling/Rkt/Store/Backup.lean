import Rkt.Num.Decimal
import Rkt.Store.CopyTree

set_option autoImplicit false

namespace Rkt.Backup

open Conc Prog Decimal

def pruneEach (limit : Int) : List Name → BackupProg (Except Err Unit)
  | [] => return .ok ()
  | name :: list =>
    match atoi name with
    | none => pruneEach limit list
    | some num =>
      if num < limit then pruneEach limit list
      else do
        match ← call (.removeAll name) with
        | .done => pruneEach limit list
        | .broken _ => return .error (.sys (.removeAll name))

def pruneOldBackups (limit : Int) : BackupProg (Except Err Unit) := do
  match ← call .readDir with
  | none => return .error (.sys .readDir)
  | some list => pruneEach limit list

def number (n : Nat) : Name := itoa n

/-- The loop of `shiftBackups`, for all numbers below the given one. -/
def shiftBelow : Nat → BackupProg (Except Err Unit)
  | 0 => return .ok ()
  | i + 1 => do
    match ← call (.rename (number i) (number (i + 1))) with
    | .ok _ | .error .noent => shiftBelow i
    | .error _ => return .error (.sys (.rename (number i) (number (i + 1))))

def shiftBackups (oldest : Int) : BackupProg (Except Err Unit) :=
  if oldest < 0 then return .ok () else shiftBelow (oldest.toNat + 1)

/-- `os.Rename`. -/
def rename (old new : Name) : BackupProg (Except Err Unit) := do
  match ← call (.rename old new) with
  | .ok _ => return .ok ()
  | .error _ => return .error (.sys (.rename old new))

def replaceBackups (limit : Int) : BackupProg (Except Err Unit) :=
  andThen (pruneOldBackups (limit - 1)) fun _ =>
  andThen (shiftBackups (limit - 2)) fun _ => rename tmpName (number 0)

def createBackup (db : Database) (limit : Int) : BackupProg (Except Err Unit) :=
  andThen (perform .mkdirAll) fun _ =>
  andThen (copyTree db) fun _ => do
    let r ← replaceBackups limit
    -- deferred, and its error is not looked at
    let _ ← call (.removeAll tmpName)
    return r

theorem number_injective : Function.Injective number :=
  fun _ _ h => Int.ofNat.inj (itoa_injective h)

theorem tmpName_ne_number (n : Nat) : tmpName ≠ number n := by
  intro h
  have ht : 't' ∈ number n := h ▸ List.mem_cons_self
  rcases mem_itoa ht with hdigit | hsign
  · exact absurd hdigit (by decide)
  · exact absurd hsign (by decide)

def old (limit : Int) (name : Name) : Bool := (atoi name).any (limit ≤ ·)

theorem old_number (limit n : Nat) : old limit (number n) = true ↔ limit ≤ n ∧ n < 2 ^ 63 := by
  unfold old number
  rw [atoi_itoa]
  by_cases hn : n < 2 ^ 63
  · rw [if_pos hn]
    show decide ((limit : Int) ≤ n) = true ↔ _
    rw [decide_eq_true_iff]
    omega
  · rw [if_neg hn]
    show false = true ↔ _
    simp only [Bool.false_eq_true, hn, and_false]

theorem old_of_none {limit : Int} {name : Name} (h : atoi name = none) :
    old limit name = false := by
  rw [old, h]
  rfl

section rules

variable {faulty : Bool} {X : Prop} {E F : Name → Entry}

abbrev Is (E : Name → Entry) (d : Disk) : Prop := d.entries = E

/-- The program takes the entries `E` to some with `Q`, unless there is a fault. -/
abbrev Changes (faulty : Bool) (E : Name → Entry) (x : BackupProg (Except Err Unit))
    (Q : (Name → Entry) → Prop) : Prop :=
  Meets (step faulty) (Is E) x (Outcome (fun _ _ => faulty = true) fun _ d => Q d.entries)

def pruned (limit : Int) (list : List Name) (E : Name → Entry) : Name → Entry :=
  fun name => if list.contains name && old limit name then .empty else E name

variable {limit : Int} {list : List Name} {name : Name} {a b : Name} {top : Nat} {db : Database}
  {L : Nat}

theorem pruned_cons_keep
    (h : old limit name = false) : pruned limit (name :: list) E = pruned limit list E := by
  funext x
  by_cases hx : x = name
  · subst hx
    simp [pruned, h]
  · simp [pruned, hx]

theorem pruned_cons_old (h : old limit name = true) :
    pruned limit (name :: list) E = pruned limit list (Function.update E name .empty) := by
  funext x
  by_cases hx : x = name
  · subst hx
    simp [pruned, h]
  · simp [pruned, hx]

theorem pruneEach_changes : Changes faulty E (pruneEach limit list) (· = pruned limit list E) := by
  induction list generalizing E with
  | nil =>
    refine Meets.ret fun d hd => ?_
    show d.entries = _
    rw [hd]
    funext x
    simp [pruned]
  | cons name list ih =>
    unfold pruneEach
    cases hnum : atoi name with
    | none =>
      rw [pruned_cons_keep (old_of_none hnum)]
      exact ih
    | some num =>
      by_cases hlt : num < limit
      · have hold : old limit name = false := by simp [old, hnum, hlt]
        simp only [hlt, if_true]
        rw [pruned_cons_keep hold]
        exact ih
      · have hold : old limit name = true := by simp [old, hnum, not_lt.mp hlt]
        simp only [hlt, if_false]
        rw [pruned_cons_old hold]
        have hremove : Meets (step faulty) (Is E) (call (.removeAll name))
            fun (r : Removed) d => if r = .done then Is (Function.update E name .empty) d
              else faulty = true := by
          refine Meets.call fun d r d' hd hs => ?_
          cases r with
          | done =>
            cases hs
            show (d.set name .empty).entries = _
            rw [Disk.set_entries, hd]
          | broken gone => exact (Option.ite_none_right_eq_some.mp hs).1
        refine Meets.bind hremove fun r => ?_
        cases r with
        | done => exact ih
        | broken gone => exact Meets.ret fun _ h => h

theorem pruneOldBackups_changes : Changes faulty E (pruneOldBackups limit)
      (· = fun name => if old limit name = true then .empty else E name) := by
  have hread : Meets (step faulty) (Is E) (call .readDir) fun (r : Option (List Name)) d =>
      r.elim (faulty = true) fun list =>
        Is E d ∧ ∀ name, (E name).present = true → name ∈ list := by
    refine Meets.call fun d r d' hd hs => ?_
    cases r with
    | none => exact (Option.ite_none_right_eq_some.mp hs).1
    | some list =>
      obtain ⟨hlist, hs⟩ := Option.ite_none_right_eq_some.mp hs
      cases hs
      refine ⟨hd, fun name hname => ?_⟩
      have hpresent : (d.entries name).present = true := by
        rw [hd]
        exact hname
      rw [← List.mem_toFinset, hlist, Finset.mem_filter]
      exact ⟨d.listed name hpresent, hpresent⟩
  refine Meets.bind hread fun r => ?_
  cases r with
  | none => exact Meets.ret fun _ h => h
  | some list =>
    intro d r d' hd hr
    have hend := pruneEach_changes d r d' hd.1 hr
    cases r with
    | error e => exact hend
    | ok _ =>
      refine hend.trans ?_
      funext name
      -- what is not listed is empty anyway
      by_cases hname : name ∈ list
      · simp [pruned, hname]
      · have hempty : E name = .empty :=
          Fs.Tree.present_eq_false.mp (Bool.eq_false_iff.mpr fun h => hname (hd.2 name h))
        simp [pruned, hname, hempty]

def moved (E : Name → Entry) (a b : Name) : Name → Entry :=
  Function.update (Function.update E b (E a)) a .empty

/-- Nothing is in the way, so the only error is that there is nothing to rename. -/
theorem rename_meets (hb : E b = .empty) :
    Meets (step faulty) (Is E) (call (.rename a b)) fun (r : Except Errno Unit) d =>
      match r with
      | .ok _ => (E a).present = true ∧ Is (moved E a b) d
      | .error .noent => (E a).present = false ∧ Is E d
      | .error _ => faulty = true := by
  refine Meets.call fun d r d' hd hs => ?_
  have hfail : (faulty = true ∨ (d.entries b).present = true) → faulty = true := by
    rw [hd, hb]
    rintro (hf | hb)
    · exact hf
    · cases hb
  cases r with
  | ok u =>
    obtain ⟨ha, hs⟩ := Option.ite_none_right_eq_some.mp hs
    cases hs
    refine ⟨hd ▸ ha, ?_⟩
    show ((d.set b (d.entries a)).set a .empty).entries = _
    rw [Disk.set_entries, Disk.set_entries, hd]
    rfl
  | error e =>
    cases e with
    | noent =>
      obtain ⟨ha, hs⟩ := Option.ite_none_left_eq_some.mp hs
      cases hs
      exact ⟨hd ▸ Bool.eq_false_iff.mpr ha, hd⟩
    | exist => exact hfail (Option.ite_none_right_eq_some.mp hs).1
    | other => exact hfail (Option.ite_none_right_eq_some.mp hs).1

/-- The backups from `k` to `top` have been renamed, so that there is no `k`. -/
structure Shifting (E : Name → Entry) (top k : Nat) (F : Name → Entry) : Prop where
  below : ∀ i, i < k → F (number i) = E (number i)
  hole : F (number k) = .empty
  above : ∀ i, k ≤ i → i < top → F (number (i + 1)) = E (number i)
  others : ∀ name, (∀ i, i ≤ top → name ≠ number i) → F name = E name

theorem Shifting.start (h : E (number top) = .empty) : Shifting E top top E where
  below _ _ := rfl
  hole := h
  above i hle hlt := by omega
  others _ _ := rfl

theorem Shifting.next {top k : Nat} (h : Shifting E top (k + 1) F) (hk : k < top) :
    Shifting E top k (moved F (number k) (number (k + 1))) := by
  have hne : ∀ {i j : Nat}, i ≠ j → number i ≠ number j := fun hij => number_injective.ne hij
  refine ⟨fun i hi => ?_, ?_, fun i hle hlt => ?_, fun name hname => ?_⟩
  · rw [moved, Function.update_of_ne (hne (by omega)), Function.update_of_ne (hne (by omega))]
    exact h.below i (by omega)
  · rw [moved, Function.update_self]
  · rw [moved, Function.update_of_ne (hne (by omega))]
    by_cases hi : i = k
    · rw [hi, Function.update_self]
      exact h.below k (by omega)
    · rw [Function.update_of_ne (hne (by omega))]
      exact h.above i (by omega) hlt
  · rw [moved, Function.update_of_ne (hname k (by omega)),
      Function.update_of_ne (hname (k + 1) (by omega))]
    exact h.others name hname

theorem moved_of_empty (ha : E a = .empty) (hb : E b = .empty) : moved E a b = E := by
  have hnone : Function.update E b (E a) = E := by rw [ha, ← hb, Function.update_eq_self]
  rw [moved, hnone, ← ha, Function.update_eq_self]

theorem shiftBelow_changes {top k : Nat} (hk : k ≤ top) (h : Shifting E top k F) :
    Changes faulty F (shiftBelow k) (Shifting E top 0) := by
  induction k generalizing F with
  | zero =>
    refine Meets.ret fun d hd => ?_
    show Shifting E top 0 d.entries
    rw [hd]
    exact h
  | succ i ih =>
    refine Meets.bind (rename_meets h.hole) fun r => ?_
    have hnext := ih (by omega) (h.next (by omega))
    cases r with
    | ok u => exact hnext.pre fun d hd => hd.2
    | error e =>
      cases e with
      | noent =>
        refine hnext.pre fun d hd => ?_
        rw [Is, moved_of_empty (Fs.Tree.present_eq_false.mp hd.1) h.hole]
        exact hd.2
      | exist => exact Meets.ret fun _ h => h
      | other => exact Meets.ret fun _ h => h

theorem shiftBackups_changes (h : E (number top) = .empty) :
    Changes faulty E (shiftBackups (top - 1)) (Shifting E top 0) := by
  unfold shiftBackups
  refine Meets.ite (fun hneg => Meets.ret fun d hd => ?_) fun hpos => ?_
  · have htop : top = 0 := by omega
    subst htop
    show Shifting E 0 0 d.entries
    rw [hd]
    exact .start h
  · have htop : ((top : Int) - 1).toNat + 1 = top := by omega
    rw [htop]
    exact shiftBelow_changes le_rfl (.start h)

/-- A call with the limit `L` has succeeded: the entries were `E`, and they are `F`. -/
structure Rotated (db : Database) (L : Nat) (E F : Name → Entry) : Prop where
  newest : F (number 0) = db.copy
  shifted : ∀ i, i + 1 < L → F (number (i + 1)) = E (number i)
  others : ∀ name, name ≠ tmpName → (∀ i, i < L → name ≠ number i) →
    F name = if old (L - 1) name = true then .empty else E name
  tmp : F tmpName = .empty

theorem Database.copy_present (db : Database) : db.copy.present = true := by
  obtain ⟨a, l, h⟩ := db.root
  show ((db.visits.lookup []).map Info.stamped).isSome = true
  rw [h]
  rfl

theorem rename_changes (ha : (E a).present = true) (hb : E b = .empty) :
    Changes faulty E (rename a b) (· = moved E a b) := by
  refine Meets.bind (rename_meets hb) fun r => ?_
  cases r with
  | ok u => exact Meets.ret fun d hd => hd.2
  | error e =>
    cases e with
    | noent => exact Meets.ret fun d hd => absurd ha (by simp [hd.1])
    | exist => exact Meets.ret fun _ h => h
    | other => exact Meets.ret fun _ h => h

abbrev unpruned (limit : Int) (E : Name → Entry) : Name → Entry :=
  fun name => if old limit name = true then .empty else E name

theorem Shifting.rotated (h : Shifting (unpruned top E) top 0 F) (htmp : F tmpName = db.copy) :
    Rotated db (top + 1) E (moved F tmpName (number 0)) := by
  have hother : ∀ name, name ≠ tmpName → name ≠ number 0 →
      moved F tmpName (number 0) name = F name := by
    intro name hname hzero
    rw [moved, Function.update_of_ne hname, Function.update_of_ne hzero]
  refine ⟨?_, fun i hi => ?_, fun name hname hnum => ?_, ?_⟩
  · rw [moved, Function.update_of_ne (tmpName_ne_number 0).symm, Function.update_self, htmp]
  · rw [hother _ (tmpName_ne_number _).symm (number_injective.ne (by omega)),
      h.above i (by omega) (by omega)]
    -- it is too young to be pruned
    refine if_neg fun hold => ?_
    have hle := (old_number top i).mp hold
    omega
  · rw [hother name hname (hnum 0 (by omega)),
      h.others name fun i hi => hnum i (by omega), unpruned, Nat.cast_succ, add_sub_cancel_right]
  · rw [moved, Function.update_self]

theorem replaceBackups_changes (htop : top + 1 < 2 ^ 63) (htmp : E tmpName = db.copy) :
    Changes faulty E (replaceBackups (top + 1)) (Rotated db (top + 1) E) := by
  have hprune : Changes faulty E (pruneOldBackups (top + 1 - 1)) (· = unpruned top E) := by
    rw [add_sub_cancel_right]
    exact pruneOldBackups_changes
  have hold : unpruned top E (number top) = .empty :=
    if_pos ((old_number top top).mpr ⟨le_rfl, by omega⟩)
  have hshift : Changes faulty (unpruned top E) (shiftBackups (top + 1 - 2))
      (Shifting (unpruned top E) top 0) := by
    rw [show (top : Int) + 1 - 2 = top - 1 by ring]
    exact shiftBackups_changes hold
  refine Meets.andThen hprune fun _ => Meets.andThen hshift fun _ d r d' hd hr => ?_
  have hcopy : d.entries tmpName = db.copy := by
    have hkept : unpruned top E tmpName = E tmpName :=
      if_neg (by rw [old_of_none (by decide)]; simp)
    rw [hd.others tmpName fun i _ => tmpName_ne_number i, hkept, htmp]
  have hpresent : (d.entries tmpName).present = true := hcopy ▸ db.copy_present
  have hend := rename_changes hpresent hd.hole d r d' rfl hr
  cases r with
  | error e => exact hend
  | ok _ =>
    show Rotated db (top + 1) E d'.entries
    rw [show d'.entries = _ from hend]
    exact hd.rotated hcopy

theorem Rotated.congr {E' : Name → Entry} (h : Rotated db L E F)
    (hE : ∀ name, name ≠ tmpName → E name = E' name) : Rotated db L E' F where
  newest := h.newest
  shifted i hi := (h.shifted i hi).trans (hE _ (tmpName_ne_number i).symm)
  others name hname hnum := by
    rw [h.others name hname hnum, hE name hname]
  tmp := h.tmp

theorem Rotated.of_none (h : Rotated db L E F)
    (hint : L < 2 ^ 63) (hname : atoi name = none) (htmp : name ≠ tmpName) : F name = E name := by
  have hnum : ∀ i, i < L → name ≠ number i := by
    rintro i hi rfl
    rw [number, atoi_itoa, if_pos (by omega)] at hname
    cases hname
  rw [h.others name htmp hnum, old_of_none hname]
  rfl

theorem atoi_number_of_le {n : Nat} (h : 2 ^ 63 ≤ n) : atoi (number n) = none :=
  (atoi_itoa n).trans (if_neg (by omega))

theorem removeAll_tmp_meets (h : E tmpName = .empty) :
    Meets (step faulty) (Is E) (call (.removeAll tmpName)) fun _ => Is E := by
  refine Meets.call fun d r d' hd hs => ?_
  have hnone : d.entries tmpName = .empty := hd ▸ h
  have hsame : (d.set tmpName .empty).entries = E := by
    rw [Disk.set_entries, ← hnone, Function.update_eq_self, hd]
  cases r with
  | done =>
    cases hs
    exact hsame
  | broken gone =>
    obtain ⟨-, hs⟩ := Option.ite_none_right_eq_some.mp hs
    rw [hnone, Fs.Tree.prune_empty] at hs
    cases hs
    exact hsame

/-- **One call**, from a directory without `tmp`. -/
theorem createBackup_meets (hL : 1 ≤ L) (hint : L < 2 ^ 63) (htmp : E tmpName = .empty) :
    Meets (step faulty) (Is E) (createBackup db L)
      (Outcome (fun _ _ => faulty = true ∨ db.supported = false) fun _ d =>
        Rotated db L E d.entries ∧ db.supported = true) := by
  obtain ⟨top, rfl⟩ := Nat.exists_eq_add_of_le' hL
  have hstart : Meets (step faulty) (Is E) (perform .mkdirAll)
      (Outcome (fun _ _ => faulty = true ∨ db.supported = false) fun _ =>
        Copying E (· = .empty)) := by
    refine (perform_same (R := (· = .empty)) .inl fun _ => rfl).pre fun d hd => ⟨fun _ _ => ?_, ?_⟩
    · rw [hd]
    · rw [Disk.tmp, hd, htmp]
  refine Meets.andThen hstart fun _ => Meets.andThen copyTree_copies fun _ d r d' hd hr => ?_
  obtain ⟨⟨hE, hcopy⟩, hsup⟩ := hd
  obtain ⟨r1, d1, hreplace, hr⟩ := runs_bind.mp hr
  obtain ⟨r2, d2, hremove, rfl, rfl⟩ := runs_bind.mp hr
  have hrotated := replaceBackups_changes hint hcopy d _ d1 rfl hreplace
  cases r with
  | error e => exact .inl hrotated
  | ok _ =>
    have hsame : d'.entries = d1.entries :=
      removeAll_tmp_meets hrotated.tmp d1 r2 _ rfl hremove
    refine ⟨?_, hsup⟩
    rw [hsame]
    exact Rotated.congr hrotated hE

/-- **`tmp` blocks every call**, which then changes nothing. -/
theorem createBackup_blocked (htmp : (E tmpName).present = true) :
    Meets (step faulty) (Is E) (createBackup db limit) (Outcome (fun _ => Is E) fun _ _ => False) :=
  Meets.andThen (perform_entries fun _ => rfl) fun _ => Meets.andThen_fails (copyTree_blocked htmp)

end rules

theorem make_total (d : Disk) (p : Path) (k : Kind) :
    (∀ a, ∃ d', d.make p k a = some d') ∨ d.tmp.node p ≠ none ∨ d.tmp.parentOk p = false := by
  by_cases h : d.tmp.node p = none ∧ d.tmp.parentOk p = true
  · exact .inl fun a => ⟨_, dif_pos h⟩
  · right
    rw [Classical.not_and_iff_not_or_not, Bool.not_eq_true] at h
    exact h

theorem step_total (o : Op) (d : Disk) : ∃ r d', step false o r d = some d' := by
  cases o with
  | sys c =>
    cases ht : c.effect d.tmp with
    | some t => exact ⟨true, d.setTmp t, by simp [step, ht]⟩
    | none => exact ⟨false, d, by simp [step, ht]⟩
  | make p k =>
    rcases make_total d p k with hmake | hno
    · obtain ⟨d', hd'⟩ := hmake ⟨linkMode, 0, 0, noTimes⟩
      exact ⟨.ok ⟨linkMode, 0, 0, noTimes⟩, d', by simp [step, hd']⟩
    · exact ⟨.error .exist, d, if_pos (.inr hno)⟩
  | create p =>
    cases hreg : isRegular d.tmp p with
    | true => exact ⟨.ok ⟨0, 0, 0, noTimes⟩, _, if_pos hreg⟩
    | false =>
      rcases make_total d p (.regular []) with hmake | hno
      · obtain ⟨d', hd'⟩ := hmake ⟨0, 0, 0, noTimes⟩
        exact ⟨.ok ⟨0, 0, 0, noTimes⟩, d', by simp [step, hreg, hd']⟩
      · exact ⟨.error .exist, d, if_pos (.inr ⟨hreg, hno⟩)⟩
  | write p content => exact ⟨.done, _, rfl⟩
  | order dirs => exact ⟨dirs, d, if_pos (List.Perm.refl dirs)⟩
  | readDir =>
    refine ⟨some (d.names.filter fun name => (d.entries name).present = true).toList, d, ?_⟩
    exact if_pos (Finset.toList_toFinset _)
  | removeAll name => exact ⟨.done, _, rfl⟩
  | rename old new =>
    cases hold : (d.entries old).present with
    | true => exact ⟨.ok (), _, if_pos hold⟩
    | false => exact ⟨.error .noent, d, by simp [step, hold]⟩

variable {db : Database} {d : Disk} {L : Nat}

theorem createBackup_succeeds (hL : 1 ≤ L)
    (hint : L < 2 ^ 63) (htmp : d.tmp = .empty) (hsup : db.supported = true) :
    ∃ d', (createBackup db L).Runs (step false) d (.ok ()) d' ∧
      Rotated db L d.entries d'.entries := by
  obtain ⟨r, d', hrun⟩ := runs_total step_total (createBackup db L) d
  have hend := createBackup_meets hL hint htmp d r d' rfl hrun
  cases r with
  | error e => simp [Outcome, hsup] at hend
  | ok u => exact ⟨d', hrun, hend.1⟩

/-- Successful calls from an empty directory; the newest database comes first. -/
inductive Backups (faulty : Bool) (L : Nat) : List Database → Disk → Prop where
  | none : Backups faulty L [] Disk.empty
  | next {dbs : List Database} {d d' : Disk} (db : Database) (h : Backups faulty L dbs d)
      (hrun : (createBackup db L).Runs (step faulty) d (.ok ()) d') :
      Backups faulty L (db :: dbs) d'

/-- Each entry is the backup of that age, and there are no others. -/
structure Kept (L : Nat) (dbs : List Database) (E : Name → Entry) : Prop where
  backup : ∀ i db, i < L → dbs[i]? = some db → E (number i) = db.copy
  absent : ∀ name, (∀ i, i < min dbs.length L → name ≠ number i) → E name = .empty

theorem Kept.next {dbs : List Database} {E F : Name → Entry}
    (h : Kept L dbs E) (hrot : Rotated db L E F) : Kept L (db :: dbs) F := by
  refine ⟨fun i db' hi hdb => ?_, fun name hname => ?_⟩
  · cases i with
    | zero =>
      cases hdb
      exact hrot.newest
    | succ i => exact (hrot.shifted i hi).trans (h.backup i db' (by omega) hdb)
  · rw [List.length_cons] at hname
    by_cases htmp : name = tmpName
    · rw [htmp]
      exact hrot.tmp
    · by_cases hnum : ∃ i, i < L ∧ name = number i
      · -- the entry before it was too far already
        obtain ⟨i, hi, rfl⟩ := hnum
        have hfar : dbs.length + 1 ≤ i := by
          by_contra hlt
          exact hname i (by omega) rfl
        obtain ⟨j, rfl⟩ := Nat.exists_eq_add_of_le' (show 1 ≤ i by omega)
        rw [hrot.shifted j hi]
        exact h.absent _ fun k hk => number_injective.ne (by omega)
      · have hout : ∀ i, i < L → name ≠ number i := fun i hi heq => hnum ⟨i, hi, heq⟩
        rw [hrot.others name htmp hout, h.absent name fun i hi => hout i (by omega), ite_self]

theorem Backups.kept {faulty : Bool} {dbs : List Database} (hL : 1 ≤ L)
    (hint : L < 2 ^ 63) (h : Backups faulty L dbs d) : Kept L dbs d.entries := by
  induction h with
  | none => exact ⟨fun i db _ hdb => by simp at hdb, fun _ _ => rfl⟩
  | next db _ hrun ih =>
    have htmp := ih.absent tmpName fun i _ => tmpName_ne_number i
    exact ih.next (createBackup_meets hL hint htmp _ _ _ rfl hrun).1

/-- The times of all files are such that `TimeToTimespec` keeps them. -/
def Database.Timely (db : Database) : Prop := ∀ p i, (p, i) ∈ db.visits → i.Timely

theorem Database.copy_eq_entry_iff (hsup : db.supported = true) :
    db.copy = db.entry ↔ db.Timely := by
  constructor
  · intro h p i hi
    have hnode : (db.visits.lookup p).map Info.stamped = db.visits.lookup p :=
      congrArg (fun t : Entry => t.node p) h
    obtain ⟨times, htimes⟩ := Database.settable hsup hi
    rw [mem_visits.mp hi, Option.map_some, Option.some.injEq, Info.stamped_eq htimes] at hnode
    have hsame : times = i.attrs.times := congrArg (fun i : Info => i.attrs.times) hnode
    exact setTimes_eq_some_iff.mp (hsame ▸ htimes)
  · intro h
    ext1 p
    show (db.visits.lookup p).map Info.stamped = db.visits.lookup p
    cases hi : db.visits.lookup p with
    | none => rfl
    | some i => rw [Option.map_some, Info.stamped_eq
        (setTimes_eq_some_iff.mpr (h p i (mem_visits.mpr hi)))]

/-- **What a successful call does**: the numbers that do not fit into an `int` are the only ones
that are not pruned, and the times that `TimeToTimespec` changes all that is not copied. -/
theorem createBackup_rotates_iff (faulty : Bool) (L : Nat) (hL : 1 ≤ L) (hint : L < 2 ^ 63)
    (db : Database) (d d' : Disk) (htmp : d.tmp = .empty)
    (hrun : (createBackup db L).Runs (step faulty) d (.ok ()) d') :
    d'.entries (number 0) = db.copy ∧ (db.copy = db.entry ↔ db.Timely) ∧
    (∀ i, 1 ≤ i → i < L → d'.entries (number i) = d.entries (number (i - 1))) ∧
    (∀ name, atoi name = none → d'.entries name = d.entries name) ∧
    ((∀ n, L ≤ n → d'.entries (number n) = .empty) ↔
      ∀ n, 2 ^ 63 ≤ n → d.entries (number n) = .empty) ∧
    ∀ dbs d₁, Backups faulty L dbs d₁ → Kept L dbs d₁.entries := by
  obtain ⟨hrot, hsup⟩ : Rotated db L d.entries d'.entries ∧ db.supported = true :=
    createBackup_meets hL hint htmp d _ d' rfl hrun
  have hnone : ∀ name, atoi name = none → d'.entries name = d.entries name := by
    intro name hname
    by_cases heq : name = tmpName
    · rw [heq, hrot.tmp]
      exact htmp.symm
    · exact hrot.of_none hint hname heq
  have hbig : ∀ n, 2 ^ 63 ≤ n → d'.entries (number n) = d.entries (number n) :=
    fun n hn => hnone _ (atoi_number_of_le hn)
  refine ⟨hrot.newest, Database.copy_eq_entry_iff hsup, fun i hi hlt => ?_, hnone, ⟨fun h n hn => ?_, fun h n hn => ?_⟩,
    fun dbs d₁ h => h.kept hL hint⟩
  · obtain ⟨j, rfl⟩ := Nat.exists_eq_add_of_le' hi
    exact hrot.shifted j hlt
  · rw [← hbig n hn]
    exact h n (by omega)
  · by_cases hfits : n < 2 ^ 63
    · rw [hrot.others _ (tmpName_ne_number n).symm fun i hi => number_injective.ne (by omega)]
      have hold : old ((L : Int) - 1) (number n) = true := by
        have hcast : (L : Int) - 1 = (L - 1 : Nat) := by omega
        rw [hcast, old_number]
        omega
      exact if_pos hold
    · rw [hbig n (by omega)]
      exact h n (by omega)

def smallDb : Database where
  visits := [([], ⟨.dir, ⟨0o755, 0, 0, noTimes⟩⟩),
    ([['q', 'l']], ⟨.regular [1, 2], ⟨0o644, 0, 0, noTimes⟩⟩)]
  root := ⟨_, _, rfl⟩
  nodup := by simp [Assoc.Distinct]
  parents := by
    rintro l₁ n p i l₂ h
    obtain - | ⟨x, l₁⟩ := l₁
    · cases h
    · obtain ⟨rfl, h⟩ := List.cons.inj h
      obtain - | ⟨y, l₁⟩ := l₁
      · cases h
        rfl
      · simp at h
  links := by
    intro p i h
    simp only [List.mem_cons, Prod.mk.injEq, List.not_mem_nil, or_false] at h
    rcases h with ⟨-, rfl⟩ | ⟨-, rfl⟩
    · simp [Kind.isSymlink]
    · simp [Kind.isSymlink]

theorem smallDb_timely : smallDb.Timely := by
  have hkept : setTimes noTimes.timespecs = some noTimes := by decide
  intro p i h
  simp only [smallDb, List.mem_cons, Prod.mk.injEq, List.not_mem_nil, or_false] at h
  rcases h with ⟨-, rfl⟩ | ⟨-, rfl⟩ <;> exact setTimes_eq_some_iff.mp hkept

theorem createBackup_rotates_first : ∃ d', (createBackup smallDb 2).Runs (step false) Disk.empty
    (.ok ()) d' ∧ d'.entries (number 0) = smallDb.entry ∧ d'.entries (number 1) = .empty ∧
      d'.entries (number 2) = .empty := by
  obtain ⟨d', hrun, -⟩ := createBackup_succeeds (L := 2) (d := Disk.empty) (by omega) (by omega)
    rfl (show smallDb.supported = true by decide)
  obtain ⟨hnew, hcopy, hshift, -, hold, -⟩ := createBackup_rotates_iff false 2 (by omega) (by omega)
    smallDb Disk.empty d' rfl hrun
  exact ⟨d', hrun, hnew.trans (hcopy.mpr smallDb_timely), hshift 1 le_rfl (by omega), hold.mpr (fun _ _ => rfl) 2 le_rfl⟩

/-- A number that does not fit into an `int` stays. -/
theorem createBackup_keeps_number : ∃ d d', d.tmp = .empty ∧
    (createBackup smallDb 1).Runs (step false) d (.ok ()) d' ∧
      d'.entries (number (2 ^ 63)) ≠ .empty := by
  have hne := tmpName_ne_number (2 ^ 63)
  have htmp : (Disk.empty.set (number (2 ^ 63)) smallDb.copy).tmp = .empty := by
    rw [Disk.tmp, Disk.set_entries, Function.update_of_ne hne]
    rfl
  obtain ⟨d', hrun, hrot⟩ := createBackup_succeeds (L := 1) le_rfl (by omega) htmp
    (show smallDb.supported = true by decide)
  refine ⟨_, d', htmp, hrun, ?_⟩
  rw [hrot.of_none (by omega) (atoi_number_of_le le_rfl) hne.symm, Disk.set_entries,
    Function.update_self]
  intro hempty
  have hpresent := smallDb.copy_present
  rw [hempty] at hpresent
  cases hpresent

/-- Calls that may end anywhere, from an empty directory. -/
inductive Left (L : Nat) : Disk → Prop where
  | none : Left L Disk.empty
  | call {d d' : Disk} (db : Database) (h : Left L d)
      (hstop : (createBackup db L).Stops (step true) d d') : Left L d'

/-- **A call succeeds exactly if nothing is in its way**: no `tmp`, no file of a kind that `CopyTree`
does not know, and no time that it changes or that `utimensat` does not take. `tmp` then stays in the
way of every later call. -/
theorem createBackup_recovers_iff (L : Nat) (hL : 1 ≤ L) (hint : L < 2 ^ 63) (db : Database)
    (d : Disk) :
    (((∃ r d', (createBackup db L).Runs (step false) d r d') ∧
      ∀ r d', (createBackup db L).Runs (step false) d r d' →
        r = .ok () ∧ d'.entries (number 0) = db.entry) ↔
      d.tmp = .empty ∧ ∀ p i, (p, i) ∈ db.visits → i.kind.supported = true ∧ i.Timely) ∧
    (d.tmp ≠ .empty → ∀ faulty r d', (createBackup db L).Runs (step faulty) d r d' →
      r ≠ .ok () ∧ d'.entries = d.entries) := by
  have hblocked : d.tmp ≠ .empty → ∀ faulty r d', (createBackup db L).Runs (step faulty) d r d' →
      r ≠ .ok () ∧ d'.entries = d.entries := by
    intro htmp faulty r d' hrun
    have hend := createBackup_blocked (Fs.Tree.ne_empty_iff.mp htmp) d r d' rfl hrun
    cases r with
    | ok u => exact hend.elim
    | error e => exact ⟨by simp, hend⟩
  refine ⟨⟨?_, ?_⟩, hblocked⟩
  · rintro ⟨⟨r, d', hrun⟩, hall⟩
    have hok := (hall r d' hrun).1
    have htmp : d.tmp = .empty := by
      by_contra hne
      exact (hblocked hne false r d' hrun).1 hok
    subst hok
    obtain ⟨hrot, hsup⟩ : Rotated db L d.entries d'.entries ∧ db.supported = true :=
      createBackup_meets hL hint htmp d _ d' rfl hrun
    have htimely := (Database.copy_eq_entry_iff hsup).mp (hrot.newest.symm.trans (hall _ d' hrun).2)
    refine ⟨htmp, fun p i hi => ⟨?_, htimely p i hi⟩⟩
    exact (Bool.and_eq_true_iff.mp (List.all_eq_true.mp hsup _ hi)).1
  · rintro ⟨htmp, hfits⟩
    have hsup : db.supported = true := by
      refine List.all_eq_true.mpr fun x hx => ?_
      obtain ⟨hkind, htimely⟩ := hfits x.1 x.2 hx
      rw [Info.supported, hkind, setTimes_eq_some_iff.mpr htimely]
      rfl
    have hcopy := (Database.copy_eq_entry_iff hsup).mpr fun p i hi => (hfits p i hi).2
    refine ⟨runs_total step_total _ _, fun r d' hrun => ?_⟩
    have hend := createBackup_meets hL hint htmp d r d' rfl hrun
    cases r with
    | ok u => exact ⟨rfl, hend.1.newest.trans hcopy⟩
    | error e => simp [Outcome, hsup] at hend

theorem createBackup_recovers_first :
    (∃ r d', (createBackup smallDb 1).Runs (step false) Disk.empty r d') ∧
      ∀ r d', (createBackup smallDb 1).Runs (step false) Disk.empty r d' →
        r = .ok () ∧ d'.entries (number 0) = smallDb.entry :=
  (createBackup_recovers_iff 1 le_rfl (by omega) smallDb Disk.empty).1.mpr
    ⟨rfl, fun p i hi => ⟨(Bool.and_eq_true_iff.mp (List.all_eq_true.mp
      (show smallDb.supported = true by decide) _ hi)).1, smallDb_timely p i hi⟩⟩

theorem createBackup_leaves_tmp {limit : Int} (htmp : d.tmp = .empty) :
    ∃ d', (createBackup db limit).Stops (step true) d d' ∧ d'.tmp ≠ .empty := by
  obtain ⟨a, l, hvisits⟩ := db.root
  -- nothing has touched `tmp` before
  have hfree : ((d.setTmp d.tmp).setTmp (d.setTmp d.tmp).tmp).tmp = .empty := by simp [htmp]
  generalize hd2 : (d.setTmp d.tmp).setTmp (d.setTmp d.tmp).tmp = d2 at hfree
  have hplace : d2.tmp.node [] = none ∧ d2.tmp.parentOk [] = true := by
    rw [hfree]
    exact ⟨rfl, rfl⟩
  refine ⟨d2.setTmp (touch (d2.tmp.make [] ⟨.dir, a⟩ hplace) a.times []), ?_, ?_⟩
  · have hmake : step true (.make [] .dir) (.ok a) d2 =
        some (d2.setTmp (touch (d2.tmp.make [] ⟨.dir, a⟩ hplace) a.times [])) := by
      simp [step, Kind.isSymlink, Disk.make, hplace]
    unfold createBackup copyTree
    rw [hvisits]
    refine .inr ⟨true, d.setTmp d.tmp, rfl, .inr ⟨true, d2, congrArg some hd2, ?_⟩⟩
    exact .inr ⟨.ok a, _, hmake, .now _ _⟩
  · rw [Disk.setTmp_tmp, Fs.Tree.ne_empty_iff]
    rfl

/-- After one call has been killed, the next one fails, without any fault of its own. -/
theorem createBackup_stays_blocked : ∃ d, Left 1 d ∧
    (∃ r d', (createBackup smallDb 1).Runs (step false) d r d') ∧
    ∀ r d', (createBackup smallDb 1).Runs (step false) d r d' → r ≠ .ok () := by
  obtain ⟨d, hstop, htmp⟩ : ∃ d, (createBackup smallDb 1).Stops (step true) Disk.empty d ∧
      d.tmp ≠ .empty := createBackup_leaves_tmp rfl
  refine ⟨d, .call smallDb .none hstop, runs_total step_total _ _, fun r d' hrun hok => ?_⟩
  subst hok
  exact createBackup_blocked (Fs.Tree.ne_empty_iff.mp htmp) d _ d' rfl hrun

end Rkt.Backup
