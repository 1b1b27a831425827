import Squrust.Foundation.Assignments
import Squrust.Sql.ColumnReads
import Squrust.Sql.Uniqueness

/-!
# The right-hand sides of UPDATE

The right-hand sides of an UPDATE should be evaluated on the row as it was before.
The code evaluates each of them on the row in which the columns before it are already
changed (`assign_eq_inTurn`), so that `SET a = b, b = a` does not exchange the values.

A row gets the right values exactly if every right-hand side has a value for its column
on the old row, and none depends on the columns assigned before it. An UPDATE of such
rows does what it should, whatever the order of its assignments
(`update_simultaneous_iff`).
-/

set_option autoImplicit false

namespace Squrust.Sql

open Squrust.Foundation

open Assignments (inTurn together)

open Squrust.Core

/-! ## The columns of a row as cells -/

section

variable {Query : Type} (builtins : Builtins) (table : Table) (params : List Value)

/-- The values of a row, and its new id. -/
abbrev NewRow := List Value × Int64

/-- What an assignment gives its column, on a row. -/
def newValue (rowid : Int64) (row : NewRow) (colIdx : Nat) (expr : Expr Query) :
    Outcome SqlError Value := do
  let v ← eval builtins ⟨row.1, rowid, params⟩ expr
  coerceColumn builtins table colIdx v

/-- Put a value into its column; that of the alias column is the new id as well. -/
def placeValue (colIdx : Nat) (v : Value) (row : NewRow) : Outcome SqlError NewRow := do
  let newRowid ←
    if table.rowidAlias = some colIdx then
      Outcome.orErr (.type "INTEGER PRIMARY KEY must be integer".toList) v.asI64
    else .ok row.2
  let values ← setValue row.1 colIdx v
  return (values, newRowid)

def held (row : NewRow) (colIdx : Nat) : Option Value := row.1[colIdx]?

/-- The row has the column, and an alias column gets an integer. -/
def fits (row : NewRow) (colIdx : Nat) (v : Value) : Prop :=
  colIdx < row.1.length ∧ (table.rowidAlias = some colIdx → v.asI64 ≠ none)

/-- The code carries out the assignments in turn. -/
theorem assign_eq_inTurn (rowid : Int64) (assignments : List (Nat × Expr Query)) (values : List Value)
    (newRowid : Int64) :
    assign builtins table params rowid assignments values newRowid =
      inTurn (newValue builtins table params rowid) (placeValue table) assignments (values, newRowid) := by
  induction assignments generalizing values newRowid with
  | nil => rfl
  | cons a rest ih =>
      obtain ⟨colIdx, expr⟩ := a
      simp only [assign, inTurn, newValue, placeValue, bind_assoc, ih]
      split
      · simp only [bind_assoc, pure_bind]
      · simp only [bind_assoc, pure_bind]

variable {table}

theorem placeValue_eq_ok {colIdx : Nat} {v : Value} {row after : NewRow} :
    placeValue table colIdx v row = .ok after ↔
      colIdx < row.1.length ∧ after.1 = row.1.set colIdx v ∧
        if table.rowidAlias = some colIdx then v.asI64 = some after.2 else row.2 = after.2 := by
  have setting : ∀ newRowid, (do
      let values ← setValue row.1 colIdx v
      return (values, newRowid) : Outcome SqlError NewRow) = .ok after ↔
        colIdx < row.1.length ∧ after.1 = row.1.set colIdx v ∧ newRowid = after.2 := by
    intro newRowid
    unfold setValue
    by_cases within : colIdx < row.1.length
    · rw [if_pos within, Outcome.ok_bind, Outcome.pure_eq_ok, Prod.ext_iff]
      constructor
      · rintro ⟨values, same⟩
        exact ⟨within, values.symm, same⟩
      · rintro ⟨_, values, same⟩
        exact ⟨values.symm, same⟩
    · rw [if_neg within]
      constructor
      · intro failed
        cases failed
      · rintro ⟨here, _⟩
        exact absurd here within
  unfold placeValue
  split
  · rw [Outcome.bind_eq_ok]
    simp only [Outcome.orErr_eq_ok, setting]
    constructor
    · rintro ⟨_, found, within, values, same⟩
      exact ⟨within, values, same ▸ found⟩
    · rintro ⟨within, values, found⟩
      exact ⟨_, found, within, values, rfl⟩
  · rw [Outcome.ok_bind]
    exact setting row.2

/-- The columns of a row are cells. -/
theorem rowCells : Cells held (fits table) (placeValue table) where
  placed := by
    intro i v s after done
    obtain ⟨within, values, _⟩ := placeValue_eq_ok.mp done
    rw [held, values, List.getElem?_set_self within]
  frame := by
    intro i v s after j done different
    obtain ⟨_, values, _⟩ := placeValue_eq_ok.mp done
    rw [held, values, List.getElem?_set_ne different.symm, held]
  fits_iff := by
    intro i v s
    constructor
    · rintro ⟨after, done⟩
      obtain ⟨within, _, newId⟩ := placeValue_eq_ok.mp done
      refine ⟨within, fun alias_ none => ?_⟩
      rw [if_pos alias_, none] at newId
      cases newId
    · rintro ⟨within, integer⟩
      by_cases alias_ : table.rowidAlias = some i
      · obtain ⟨newRowid, found⟩ := Option.ne_none_iff_exists'.mp (integer alias_)
        exact ⟨(s.1.set i v, newRowid), placeValue_eq_ok.mpr ⟨within, rfl, by rw [if_pos alias_, found]⟩⟩
      · exact ⟨(s.1.set i v, s.2), placeValue_eq_ok.mpr ⟨within, rfl, by rw [if_neg alias_]⟩⟩
  kept := by
    intro i v s after j w done
    obtain ⟨_, values, _⟩ := placeValue_eq_ok.mp done
    rw [fits, fits, values, List.length_set]
  swap := by
    intro i j v w s between after different first second
    obtain ⟨within, values, newId⟩ := placeValue_eq_ok.mp first
    obtain ⟨within', values', newId'⟩ := placeValue_eq_ok.mp second
    rw [values, List.length_set] at within'
    rw [values] at values'
    -- At most one of the two columns is the alias.
    by_cases alias_ : table.rowidAlias = some j
    · have other : table.rowidAlias ≠ some i := fun same =>
        different (Option.some.inj (same.symm.trans alias_))
      rw [if_pos alias_] at newId'
      refine ⟨(s.1.set j w, after.2), placeValue_eq_ok.mpr ⟨within', rfl, by rw [if_pos alias_, newId']⟩,
        placeValue_eq_ok.mpr ⟨by rwa [List.length_set], ?_, by rw [if_neg other]⟩⟩
      rw [values', List.set_comm _ _ different]
    · rw [if_neg alias_] at newId'
      refine ⟨(s.1.set j w, s.2), placeValue_eq_ok.mpr ⟨within', rfl, by rw [if_neg alias_]⟩,
        placeValue_eq_ok.mpr ⟨by rwa [List.length_set], ?_, by rw [← newId']; exact newId⟩⟩
      rw [values', List.set_comm _ _ different]

/-! ## What UPDATE should do -/

variable (table)

/-- No right-hand side depends on the columns assigned before it. -/
def RowIndependent (assignments : List (Nat × Expr Query)) (rowid : Int64) (old : List Value) : Prop :=
  Assignments.Independent (newValue builtins table params rowid) (placeValue table) (old, rowid)
    assignments

/-- Every right-hand side has a value for its column on the old row. -/
def RowAssignable (assignments : List (Nat × Expr Query)) (rowid : Int64) (old : List Value) : Prop :=
  Assignments.Assignable (newValue builtins table params rowid) (old, rowid) (fits table) assignments

/-- The new row, with every right-hand side on the old one. -/
def assignTogether (assignments : List (Nat × Expr Query)) (rowid : Int64) (old : List Value) :
    Outcome SqlError NewRow :=
  together (newValue builtins table params rowid) (placeValue table) (old, rowid) assignments (old, rowid)

variable {σ : Type} [PageSink σ] (fuel : Nat)

/-- One row of an UPDATE, whose new values are given. -/
def storeChanged (changed : Outcome SqlError NewRow) (rowid : Int64) : Exec (Audited σ) SqlError Unit := do
  let (values, newRowid) ← Exec.lift changed
  Exec.lift (checkNotNull table values)
  match ← onPages (findUniqueConflict fuel table values (some rowid)) with
  | some (ci, _) =>
      let col ← Exec.lift (Outcome.orPanic "index out of bounds" table.columns[ci]?)
      Exec.err (uniqueFailed table col.name)
  | none =>
      checkMove fuel table rowid newRowid
      leavePlace fuel table rowid newRowid
      putRow fuel table newRowid values

def updateRowsTogether (plan : UpdatePlan Query) :
    List (Int64 × List Value) → Nat → Exec (Audited σ) SqlError Nat
  | [], count => return count
  | (rowid, values) :: rows, count => do
      storeChanged table fuel (assignTogether builtins table params plan.assignments rowid values) rowid
      updateRowsTogether plan rows (count + 1)

/-- The UPDATE as it should be. -/
def updateTogether (plan : UpdatePlan Query) : Exec (Audited σ) SqlError Nat := do
  let matching ← onPages (scanMatching builtins fuel table params plan.predicate)
  updateRowsTogether builtins table params fuel plan matching 0

variable {builtins table params fuel} {assignments others : List (Nat × Expr Query)} {rowid : Int64}
  {old : List Value} {plan : UpdatePlan Query}

theorem assign_eq_assignTogether
    (independent : RowIndependent builtins table params assignments rowid old) :
    assign builtins table params rowid assignments old rowid =
      assignTogether builtins table params assignments rowid old := by
  rw [assign_eq_inTurn]
  exact Cells.inTurn_eq_together independent

theorem updateRow_eq_storeChanged (rowid : Int64) (values : List Value) :
    updateRow (σ := σ) builtins fuel table params plan rowid values =
      storeChanged table fuel (assign builtins table params rowid plan.assignments values rowid) rowid := rfl

theorem updateRows_eq {rows : List (Int64 × List Value)}
    (independent : ∀ row ∈ rows, RowIndependent builtins table params plan.assignments row.1 row.2)
    (count : Nat) :
    updateRows (σ := σ) builtins fuel table params plan rows count =
      updateRowsTogether builtins table params fuel plan rows count := by
  induction rows generalizing count with
  | nil => rfl
  | cons row rows ih =>
      obtain ⟨rowid, values⟩ := row
      obtain ⟨first, later⟩ := List.forall_mem_cons.mp independent
      rw [updateRows, updateRowsTogether, updateRow_eq_storeChanged, assign_eq_assignTogether first,
        ih later]

/-- **An UPDATE of independent rows does what it should**, to the table and in what it answers. -/
theorem update_eq_updateTogether {store : Audited σ}
    (independent : ∀ matching between,
      onPages (scanMatching builtins fuel table params plan.predicate) store = .ok matching between →
      ∀ row ∈ matching, RowIndependent builtins table params plan.assignments row.1 row.2) :
    update builtins fuel table params plan store =
      updateTogether builtins table params fuel plan store := by
  unfold update updateTogether
  cases scan : onPages (scanMatching builtins fuel table params plan.predicate) store with
  | error fault between => rw [Exec.bind_of_error scan, Exec.bind_of_error scan]
  | ok matching between =>
      rw [Exec.bind_of_ok scan, Exec.bind_of_ok scan, updateRows_eq (independent matching between scan)]

/-- Independent assignments give the same row in every order. -/
theorem assign_perm (perm : assignments.Perm others) (distinct : (assignments.map Prod.fst).Nodup)
    (independent : RowIndependent builtins table params assignments rowid old)
    (independent' : RowIndependent builtins table params others rowid old) {result : NewRow} :
    assign builtins table params rowid assignments old rowid = .ok result ↔
      assign builtins table params rowid others old rowid = .ok result := by
  rw [assign_eq_assignTogether independent, assign_eq_assignTogether independent']
  exact ⟨rowCells.together_perm perm distinct,
    rowCells.together_perm perm.symm ((perm.map Prod.fst).nodup_iff.mp distinct)⟩

/-- Right-hand sides that do not mention the columns assigned before them are independent. -/
theorem independent_of_columns
    (unmentioned : ∀ earlier i expr later, assignments = earlier ++ (i, expr) :: later →
      ∀ c ∈ expr.columns, c ∉ earlier.map Prod.fst) :
    RowIndependent builtins table params assignments rowid old := by
  intro earlier i expr later split reached run
  have same : ∀ c ∈ expr.columns, reached.1[c]? = old[c]? := fun c member =>
    rowCells.inTurn_frame run (unmentioned earlier i expr later split c member)
  rw [newValue, newValue, eval_agree same]

end

/-- **The new values of a row are the right-hand sides on the old row** exactly if those have
values there for their columns, and none depends on the columns assigned before it. An UPDATE of
such rows does what it should, and so in every order of its assignments. -/
theorem update_simultaneous_iff {Query σ : Type} [PageSink σ] (builtins : Builtins) (table : Table)
    (params : List Value) (plan : UpdatePlan Query)
    (distinct : (plan.assignments.map Prod.fst).Nodup) :
    (∀ rowid old,
      (∃ values newRowid,
          assign builtins table params rowid plan.assignments old rowid = .ok (values, newRowid) ∧
          ∀ a ∈ plan.assignments, ∃ v,
            newValue builtins table params rowid (old, rowid) a.1 a.2 = .ok v ∧ values[a.1]? = some v) ↔
        RowAssignable builtins table params plan.assignments rowid old ∧
          RowIndependent builtins table params plan.assignments rowid old) ∧
    (∀ fuel (store : Audited σ),
      (∀ matching between,
        onPages (scanMatching builtins fuel table params plan.predicate) store = .ok matching between →
        ∀ row ∈ matching, RowIndependent builtins table params plan.assignments row.1 row.2) →
      update builtins fuel table params plan store =
        updateTogether builtins table params fuel plan store) ∧
    ∀ others, plan.assignments.Perm others → ∀ rowid old,
      RowIndependent builtins table params plan.assignments rowid old →
      RowIndependent builtins table params others rowid old → ∀ result,
        (assign builtins table params rowid plan.assignments old rowid = .ok result ↔
          assign builtins table params rowid others old rowid = .ok result) := by
  refine ⟨fun rowid old => ?_, fun fuel store independent => update_eq_updateTogether independent,
    fun others perm rowid old independent independent' result =>
      assign_perm perm distinct independent independent'⟩
  refine Iff.trans ?_ (rowCells.inTurn_iff distinct)
  constructor
  · rintro ⟨values, newRowid, done, right⟩
    rw [assign_eq_inTurn] at done
    exact ⟨(values, newRowid), done, right⟩
  · rintro ⟨⟨values, newRowid⟩, done, right⟩
    exact ⟨values, newRowid, (assign_eq_inTurn ..).trans done, right⟩

/-- `SET b = a, a = 'y'` -/
def copyThenSet : UpdatePlan Empty := ⟨['t'], [(1, .column 0), (0, .literal (.text ['y']))], none⟩

theorem copyThenSet_independent (rowid : Int64) (old : List Value) :
    RowIndependent .bare uniquePair [] copyThenSet.assignments rowid old := by
  apply independent_of_columns
  intro earlier i expr later split c mentioned
  rcases earlier with _ | ⟨first, _ | ⟨second, earlier⟩⟩
  · simp
  · obtain ⟨_, tails⟩ := List.cons.inj split
    obtain ⟨same, _⟩ := List.cons.inj tails
    obtain ⟨_, rfl⟩ := Prod.mk.inj same
    simp [Expr.columns] at mentioned
  · simp [copyThenSet] at split

/-- It copies the old value, also in a statement. -/
theorem update_simultaneous_iff_copyThenSet :
    (∃ values newRowid,
      assign .bare uniquePair [] 7 copyThenSet.assignments [.text ['x'], .text ['p']] 7 =
          .ok (values, newRowid) ∧
        ∀ a ∈ copyThenSet.assignments, ∃ v,
          newValue .bare uniquePair [] 7 ([.text ['x'], .text ['p']], 7) a.1 a.2 = .ok v ∧
            values[a.1]? = some v) ∧
    update .bare 3 uniquePair [] copyThenSet (⟨MemStore.new, true⟩ : Audited MemStore) =
      updateTogether .bare uniquePair [] 3 copyThenSet ⟨MemStore.new, true⟩ := by
  have settled := update_simultaneous_iff (σ := MemStore) .bare uniquePair [] copyThenSet (by decide)
  refine ⟨(settled.1 7 [.text ['x'], .text ['p']]).mpr ⟨?_, copyThenSet_independent _ _⟩,
    settled.2.1 3 _ fun _ _ _ row _ => copyThenSet_independent row.1 row.2⟩
  intro a member
  simp only [copyThenSet, List.mem_cons, List.not_mem_nil, or_false] at member
  rcases member with rfl | rfl
  · exact ⟨.text ['x'], by decide +kernel, by decide, fun absurd => nomatch absurd⟩
  · exact ⟨.text ['y'], by decide +kernel, by decide, fun absurd => nomatch absurd⟩

/-- `SET a = b, b = a` does not exchange the values, and the other order gives other ones. -/
theorem update_exchange :
    assign .bare uniquePair [] 7 ([(0, .column 1), (1, .column 0)] : List (Nat × Expr Empty))
        [.text ['x'], .text ['p']] 7 = .ok ([.text ['p'], .text ['p']], 7) ∧
    newValue .bare uniquePair [] 7 ([.text ['x'], .text ['p']], 7) 1 (.column 0 : Expr Empty) =
      .ok (.text ['x']) ∧
    assign .bare uniquePair [] 7 ([(1, .column 0), (0, .column 1)] : List (Nat × Expr Empty))
        [.text ['x'], .text ['p']] 7 = .ok ([.text ['x'], .text ['x']], 7) := by
  decide +kernel

end Squrust.Sql
