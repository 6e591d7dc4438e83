import Mathlib.Data.List.Basic
import Mathlib.Logic.Function.Basic

set_option autoImplicit false

namespace Sql

inductive Ty where
  | int
  | string
  | time
  | bool
  deriving DecidableEq, Repr

inductive Value where
  | null
  | int (i : Int)
  | string (s : List Char)
  | time (t : Int)
  | bool (b : Bool)
  deriving DecidableEq, Repr

def Value.fits : Value → Ty → Bool
  | .null, _ | .int _, .int | .string _, .string | .time _, .time | .bool _, .bool => true
  | _, _ => false

structure Column (N : Type) where
  name : N
  type : Ty
  deriving DecidableEq, Repr

variable {N : Type}

/-- Does the row have a value of the right type for each column? -/
def fit : List (Column N) → List Value → Bool
  | [], [] => true
  | c :: cs, v :: vs => v.fits c.type && fit cs vs
  | _, _ => false

@[ext] structure Table (N : Type) where
  columns : List (Column N)
  rows : List (List Value)
  fits : ∀ row ∈ rows, fit columns row = true

theorem fit_length {cs : List (Column N)} {vs : List Value} (h : fit cs vs = true) :
    vs.length = cs.length := by
  induction cs, vs using fit.induct with
  | case1 => rfl
  | case2 c cs v vs ih =>
    rw [fit, Bool.and_eq_true] at h
    rw [List.length_cons, List.length_cons, ih h.2]
  | case3 cs vs hnil hcons => simp [fit] at h

theorem fit_append {cs cs' : List (Column N)} {vs vs' : List Value} (h : fit cs vs = true)
    (h' : fit cs' vs' = true) : fit (cs ++ cs') (vs ++ vs') = true := by
  induction cs, vs using fit.induct with
  | case1 => exact h'
  | case2 c cs v vs ih =>
    rw [fit, Bool.and_eq_true] at h
    show (v.fits c.type && fit (cs ++ cs') (vs ++ vs')) = true
    rw [h.1, ih h.2]
    rfl
  | case3 cs vs hnil hcons => simp [fit] at h

section

variable [DecidableEq N]

/-- The row with `v` in the column of the given name. -/
def setIn (name : N) (v : Value) (cs : List (Column N)) (row : List Value) : List Value :=
  List.zipWith (fun c x => if c.name = name then v else x) cs row

/-- Is `v` a value for the column of the given name? -/
def accepts (name : N) (v : Value) (cs : List (Column N)) : Bool :=
  cs.all fun c => if c.name = name then v.fits c.type else true

theorem fit_setIn {name : N} {v : Value} {cs : List (Column N)} {row : List Value}
    (hv : accepts name v cs = true) (h : fit cs row = true) :
    fit cs (setIn name v cs row) = true := by
  induction cs, row using fit.induct with
  | case1 => rfl
  | case2 c cs x row ih =>
    rw [accepts, List.all_cons, Bool.and_eq_true] at hv
    rw [fit, Bool.and_eq_true] at h
    show ((if c.name = name then v else x).fits c.type && fit cs (setIn name v cs row)) = true
    rw [ih hv.2 h.2, Bool.and_true]
    by_cases hc : c.name = name
    · rw [if_pos hc]
      simpa only [if_pos hc] using hv.1
    · rw [if_neg hc]
      exact h.1
  | case3 cs row hnil hcons => simp [fit] at h

theorem setIn_append {name : N} {v : Value} {cs cs' : List (Column N)} {row row' : List Value}
    (h : fit cs row = true) :
    setIn name v (cs ++ cs') (row ++ row') = setIn name v cs row ++ setIn name v cs' row' :=
  List.zipWith_append (fit_length h).symm

theorem setIn_of_ne {name : N} {v : Value} {cs : List (Column N)} {row : List Value}
    (hne : ∀ c ∈ cs, c.name ≠ name) (h : fit cs row = true) : setIn name v cs row = row := by
  induction cs, row using fit.induct with
  | case1 => rfl
  | case2 c cs x row ih =>
    rw [fit, Bool.and_eq_true] at h
    obtain ⟨hc, hcs⟩ := List.forall_mem_cons.mp hne
    show (if c.name = name then v else x) :: setIn name v cs row = x :: row
    rw [if_neg hc, ih hcs h.2]
  | case3 cs row hnil hcons => simp [fit] at h

/-- Does the row have `v` in the column of the given name? -/
def hasIn (name : N) (v : Value) (cs : List (Column N)) (row : List Value) : Bool :=
  (List.zip cs row).any fun p => p.1.name = name && p.2 = v

end

namespace Table

def empty (columns : List (Column N)) : Table N := ⟨columns, [], fun _ h => by cases h⟩

/-- `DELETE FROM t`. -/
def deleteAll (t : Table N) : Table N := empty t.columns

/-- `INSERT INTO t VALUES (…)`. -/
def insert (t : Table N) (row : List Value) : Option (Table N) :=
  if h : fit t.columns row = true then
    some ⟨t.columns, t.rows ++ [row], by
      intro row' hrow'
      rcases List.mem_append.mp hrow' with hold | hnew
      · exact t.fits row' hold
      · rw [List.mem_singleton.mp hnew]
        exact h⟩
  else none

theorem insert_eq (t : Table N) (row : List Value) (h : fit t.columns row = true) :
    ∃ t', t.insert row = some t' ∧ t'.columns = t.columns ∧ t'.rows = t.rows ++ [row] := by
  rw [insert, dif_pos h]
  exact ⟨_, rfl, rfl, rfl⟩

variable [DecidableEq N]

/-- `ALTER TABLE t ADD …`; the old rows have no value there. -/
def addColumn (t : Table N) (c : Column N) : Option (Table N) :=
  if t.columns.any (fun c' => c'.name = c.name) then none
  else some ⟨t.columns ++ [c], t.rows.map (· ++ [.null]), by
    intro row hrow
    obtain ⟨row', hrow', rfl⟩ := List.mem_map.mp hrow
    exact fit_append (t.fits row' hrow') rfl⟩

/-- `UPDATE t name = v`, for all rows. -/
def update (t : Table N) (name : N) (v : Value) : Option (Table N) :=
  if t.columns.any (fun c => c.name = name) then
    if h : accepts name v t.columns = true then
      some ⟨t.columns, t.rows.map (setIn name v t.columns), by
        intro row hrow
        obtain ⟨row', hrow', rfl⟩ := List.mem_map.mp hrow
        exact fit_setIn h (t.fits row' hrow')⟩
    else none
  else none

theorem addColumn_eq (t : Table N) (c : Column N)
    (h : t.columns.any (fun c' => c'.name = c.name) = false) :
    ∃ t', t.addColumn c = some t' ∧ t'.columns = t.columns ++ [c] ∧
      t'.rows = t.rows.map (· ++ [.null]) := by
  rw [addColumn, if_neg (by rw [h]; exact Bool.false_ne_true)]
  exact ⟨_, rfl, rfl, rfl⟩

theorem update_eq (t : Table N) (name : N) (v : Value)
    (h : t.columns.any (fun c => c.name = name) = true) (hv : accepts name v t.columns = true) :
    ∃ t', t.update name v = some t' ∧ t'.columns = t.columns ∧
      t'.rows = t.rows.map (setIn name v t.columns) := by
  rw [update, if_pos h, dif_pos hv]
  exact ⟨_, rfl, rfl, rfl⟩

/-- `DELETE FROM t WHERE name == v`. -/
def delete (t : Table N) (name : N) (v : Value) : Option (Table N) :=
  if t.columns.any (fun c => c.name = name) then
    some ⟨t.columns, t.rows.filter fun row => !hasIn name v t.columns row,
      fun row hrow => t.fits row (List.mem_filter.mp hrow).1⟩
  else none

end Table

abbrev Db (N : Type) := N → Option (Table N)

inductive Statement (N : Type) where
  /-- `CREATE TABLE IF NOT EXISTS t (…)`. -/
  | create (t : N) (columns : List (Column N))
  /-- `CREATE INDEX IF NOT EXISTS …`, unique or not. -/
  | createIndex (name : N)
  | insert (t : N) (row : List Value)
  | deleteAll (t : N)
  | delete (t column : N) (v : Value)
  | addColumn (t : N) (c : Column N)
  | update (t column : N) (v : Value)

variable [DecidableEq N]

def Db.on (d : Db N) (t : N) (f : Table N → Option (Table N)) : Option (Db N) :=
  ((d t).bind f).map fun tab => Function.update d t (some tab)

def Statement.run (d : Db N) : Statement N → Option (Db N)
  | .create t columns =>
    some (if (d t).isSome then d else Function.update d t (some (.empty columns)))
  | .createIndex _ => some d
  | .insert t row => d.on t (·.insert row)
  | .deleteAll t => d.on t fun tab => some tab.deleteAll
  | .delete t column v => d.on t (·.delete column v)
  | .addColumn t c => d.on t (·.addColumn c)
  | .update t column v => d.on t (·.update column v)

end Sql
