import Squrust.Sql.NotNull
import Squrust.Sql.Simultaneous

/-!
# Values in the form of their column

A value that is given to a column of integers, reals or texts is converted for it, and
what is stored is read back in a form that converting again does not change. There are
two exceptions. A JSON document is not converted to a number, but stored as its text,
which may read as one. And the default of a column is stored as the definition has it.
So a row is in the form of its columns exactly if no such document is given, and the
defaults that are used are in that form (`newValues_kept_iff`, `assign_kept_iff`), and
requests of which every statement stores such rows keep all rows so (`affinities_kept`).
-/

set_option autoImplicit false

namespace Squrust.Sql

open Squrust.Foundation

open Assignments (inTurn lastValue)

open Squrust.Core

/-! ## Values -/

/-- Integers, reals and texts. -/
def SqlType.isConverting : SqlType → Bool
  | .integer | .real | .text => true
  | _ => false

namespace Value

/-- Converting it changes nothing. -/
def InForm (builtins : Builtins) (target : SqlType) (v : Value) : Prop :=
  v.coerceTo builtins target = .ok v

/-- The text is that of a number, with spaces around. -/
def readsAsNumber (t : Text) : Bool :=
  (parseI64 (Text.trim t)).isSome || (Float64.parse (Text.trim t)).isSome

/-- A JSON document that is stored as the text of a number. -/
def IsNumberText (target : SqlType) : Value → Prop
  | json j => target ≠ .text ∧ readsAsNumber j = true
  | _ => False

theorem stored_stored (v : Value) : v.stored.stored = v.stored := by
  cases v <;> rfl

theorem inForm_null (builtins : Builtins) (target : SqlType) : InForm builtins target .null := rfl

variable {integerPref : Bool}

theorem applyNumeric_asIntIf (i : Int64) :
    (asIntIf integerPref i).applyNumeric integerPref = asIntIf integerPref i := by
  cases integerPref <;> rfl

theorem applyNumeric_realToValue (r : Float64) :
    (realToValue integerPref r).applyNumeric integerPref = realToValue integerPref r := by
  unfold realToValue
  split
  · next whole =>
      rw [applyNumeric, asIntIf, if_pos whole.1]
  · next fraction =>
      rw [applyNumeric, realToValue, if_neg fraction]

theorem stored_asIntIf (i : Int64) : (asIntIf integerPref i).stored = asIntIf integerPref i := by
  cases integerPref <;> rfl

theorem stored_realToValue (r : Float64) :
    (realToValue integerPref r).stored = realToValue integerPref r := by
  unfold realToValue
  split <;> rfl

/-- A text becomes a number or stays as it is. -/
theorem applyNumeric_text (integerPref : Bool) (t : Text) :
    (∃ i, (text t).applyNumeric integerPref = asIntIf integerPref i) ∨
      (∃ r, (text t).applyNumeric integerPref = realToValue integerPref r) ∨
      (text t).applyNumeric integerPref = text t := by
  rw [applyNumeric]
  cases parseI64 (Text.trim t) with
  | some i => exact .inl ⟨i, rfl⟩
  | none =>
      cases Float64.parse (Text.trim t) with
      | some r => exact .inr (.inl ⟨r, rfl⟩)
      | none => exact .inr (.inr rfl)

/-- A text is left as it is exactly if it does not read as a number. -/
theorem applyNumeric_text_iff (t : Text) :
    (text t).applyNumeric integerPref = text t ↔ readsAsNumber t = false := by
  rw [applyNumeric, readsAsNumber]
  cases parseI64 (Text.trim t) with
  | some i =>
      cases integerPref
      · simp [asIntIf]
      · simp [asIntIf]
  | none =>
      cases Float64.parse (Text.trim t) with
      | none => simp
      | some r =>
          simp only [Option.isSome_none, Option.isSome_some, Bool.false_or, Bool.true_eq_false,
            iff_false]
          unfold realToValue
          split <;> nofun

/-- Numbers are converted once, but for a document that reads as one. -/
theorem applyNumeric_stored_iff (v : Value) :
    ((v.applyNumeric integerPref).stored.applyNumeric integerPref =
      (v.applyNumeric integerPref).stored) ↔ ∀ j, v = json j → readsAsNumber j = false := by
  cases v with
  | json j =>
      refine (applyNumeric_text_iff j).trans ⟨fun plain j' same => ?_, fun all => all j rfl⟩
      injection same with same
      rwa [← same]
  | integer i =>
      refine ⟨fun _ => nofun, fun _ => ?_⟩
      rw [applyNumeric, stored_asIntIf, applyNumeric_asIntIf]
  | boolean b =>
      refine ⟨fun _ => nofun, fun _ => ?_⟩
      rw [applyNumeric, stored_asIntIf, applyNumeric_asIntIf]
  | real r =>
      refine ⟨fun _ => nofun, fun _ => ?_⟩
      rw [applyNumeric, stored_realToValue, applyNumeric_realToValue]
  | text t =>
      refine ⟨fun _ => nofun, fun _ => ?_⟩
      rcases applyNumeric_text integerPref t with ⟨i, number⟩ | ⟨r, number⟩ | plain
      · rw [number, stored_asIntIf, applyNumeric_asIntIf]
      · rw [number, stored_realToValue, applyNumeric_realToValue]
      · rw [plain]
        exact plain
  | null => exact ⟨fun _ => nofun, fun _ => rfl⟩
  | blob b => exact ⟨fun _ => nofun, fun _ => rfl⟩

theorem coerceTo_integer (builtins : Builtins) (v : Value) :
    v.coerceTo builtins .integer = .ok (v.applyNumeric true) := by
  cases v <;> rfl

theorem coerceTo_real (builtins : Builtins) (v : Value) :
    v.coerceTo builtins .real = .ok (v.applyNumeric false) := by
  cases v <;> rfl

/-- Only a document is converted to a document. -/
theorem applyNumeric_eq_json_iff (v : Value) (j : Text) :
    v.applyNumeric integerPref = json j ↔ v = json j := by
  have notInt : ∀ i, asIntIf integerPref i ≠ json j := by
    intro i
    cases integerPref <;> nofun
  have notReal : ∀ r, realToValue integerPref r ≠ json j := by
    intro r
    unfold realToValue
    split <;> nofun
  cases v with
  | integer i => exact ⟨fun same => absurd same (notInt i), nofun⟩
  | boolean b => exact ⟨fun same => absurd same (notInt (bit b)), nofun⟩
  | real r => exact ⟨fun same => absurd same (notReal r), nofun⟩
  | text t =>
      refine ⟨fun same => ?_, nofun⟩
      rcases applyNumeric_text integerPref t with ⟨i, number⟩ | ⟨r, number⟩ | plain
      · exact absurd (number.symm.trans same) (notInt i)
      · exact absurd (number.symm.trans same) (notReal r)
      · cases plain.symm.trans same
  | null => exact Iff.rfl
  | blob b => exact Iff.rfl
  | json j' => exact Iff.rfl

/-- For columns of numbers. -/
theorem number_stored_iff {target : SqlType} (number : target ≠ .text) (v : Value) :
    (v.applyNumeric integerPref).stored.applyNumeric integerPref =
        (v.applyNumeric integerPref).stored ↔
      ¬ IsNumberText target (v.applyNumeric integerPref) := by
  rw [applyNumeric_stored_iff]
  constructor
  · intro plain reads
    cases same : v.applyNumeric integerPref with
    | json j =>
        rw [same] at reads
        have none_ := plain j ((applyNumeric_eq_json_iff v j).mp same)
        rw [reads.2] at none_
        cases none_
    | _ => simp only [same, IsNumberText] at reads
  · rintro notNumber j rfl
    exact Bool.eq_false_iff.mpr fun reads => notNumber ⟨number, reads⟩

/-- **A value that is converted** for a column of integers, reals or texts is stored in its form,
unless it is a document that is stored as the text of a number. -/
theorem inForm_stored_iff {builtins : Builtins} {target : SqlType} {v converted : Value}
    (converting : target.isConverting = true)
    (coerced : v.coerceTo builtins target = .ok converted) :
    InForm builtins target converted.stored ↔ ¬ IsNumberText target converted := by
  cases target with
  | integer =>
      rw [coerceTo_integer] at coerced
      obtain rfl := Except.ok.inj coerced
      rw [InForm, coerceTo_integer, Except.ok.injEq]
      exact number_stored_iff (by decide) v
  | real =>
      rw [coerceTo_real] at coerced
      obtain rfl := Except.ok.inj coerced
      rw [InForm, coerceTo_real, Except.ok.injEq]
      exact number_stored_iff (by decide) v
  | text =>
      have notNumber : ¬ IsNumberText .text converted := by
        cases converted <;> simp [IsNumberText]
      refine iff_of_true ?_ notNumber
      cases v <;> obtain rfl := Except.ok.inj coerced <;> rfl
  | null => cases converting
  | blob => cases converting
  | boolean => cases converting
  | json => cases converting

end Value

/-! ## Rows -/

section

variable {Query : Type} (builtins : Builtins) (table : Table) (params : List Value)

/-- The values that stand in columns of integers, reals and texts are in their form. -/
def RowInForm (values : List Value) : Prop :=
  ∀ (i : Nat) (col : Column) (v : Value), table.columns[i]? = some col →
    col.sqlType.isConverting = true → values[i]? = some v → v.InForm builtins col.sqlType

/-- The value that a tuple gives to a column, converted. -/
def givenValue (plan : InsertPlan Query) (clock : Nat → Int) (rowExprs : List (Expr Query))
    (i : Nat) : Option Value :=
  lastValue (fun _ slot expr => do
      coerceColumn builtins table slot (← eval builtins ⟨[], 0, params⟩ expr))
    (fun slot v values => setValue values slot v) i (plan.targetCols.zip rowExprs)
    (table.columns.mapIdx fun i col => evalDefault (clock i) col)

/-- No document is given that is stored as the text of a number, and the defaults of the other
columns are stored in the form of their column. -/
def TupleInForm (plan : InsertPlan Query) (clock : Nat → Int) (rowExprs : List (Expr Query)) :
    Prop :=
  ∀ (i : Nat) (col : Column), table.columns[i]? = some col → col.sqlType.isConverting = true →
    some i ≠ table.rowidAlias →
      (∀ v, givenValue builtins table params plan clock rowExprs i = some v →
        ¬ v.IsNumberText col.sqlType) ∧
      (givenValue builtins table params plan clock rowExprs i = none →
        (evalDefault (clock i) col).stored.InForm builtins col.sqlType)

/-- The value that the assignments give to a column of a row, converted. -/
def assignedValue (assignments : List (Nat × Expr Query)) (rowid : Int64) (old : List Value)
    (i : Nat) : Option Value :=
  lastValue (newValue builtins table params rowid) (placeValue table) i assignments (old, rowid)

/-- No document is assigned that is stored as the text of a number. -/
def AssignsInForm (assignments : List (Nat × Expr Query)) (rowid : Int64) (old : List Value) :
    Prop :=
  ∀ (i : Nat) (col : Column) (v : Value), table.columns[i]? = some col →
    col.sqlType.isConverting = true → some i ≠ table.rowidAlias →
      assignedValue builtins table params assignments rowid old i = some v →
        ¬ v.IsNumberText col.sqlType

variable {builtins table params}

/-! ### What a row stores -/

/-- The values of a row as they are read back: the alias column is stored as NULL. -/
theorem getElem?_stored {rowidAlias : Option Nat} {values : List Value} {i : Nat}
    (other : some i ≠ rowidAlias) :
    ((withAliasNulled rowidAlias values).map Value.stored)[i]? = values[i]?.map Value.stored := by
  rw [List.getElem?_map, getElem?_withAliasNulled other]

theorem getElem?_withAlias {rowid : Int64} {values : List Value} {i : Nat}
    (other : some i ≠ table.rowidAlias) : (withAlias table rowid values)[i]? = values[i]? := by
  unfold withAlias
  split
  · next a aliased => exact List.getElem?_set_ne fun same => other (by rw [aliased, same])
  · rfl

/-- The alias column needs no form. -/
theorem rowInForm_stored_iff {values : List Value} :
    RowInForm builtins table ((withAliasNulled table.rowidAlias values).map Value.stored) ↔
      ∀ (i : Nat) (col : Column) (v : Value), table.columns[i]? = some col →
        col.sqlType.isConverting = true → some i ≠ table.rowidAlias → values[i]? = some v →
          v.stored.InForm builtins col.sqlType := by
  constructor
  · intro inForm i col v column converting other held
    refine inForm i col v.stored column converting ?_
    rw [getElem?_stored other, held]
    rfl
  · intro all i col v column converting held
    by_cases other : some i ≠ table.rowidAlias
    · rw [getElem?_stored other] at held
      obtain ⟨w, unstored, rfl⟩ := Option.map_eq_some_iff.mp held
      exact all i col w column converting other unstored
    · have aliased : table.rowidAlias = some i := (not_not.mp other).symm
      have nulled : withAliasNulled (some i) values = values.set i .null := rfl
      rw [List.getElem?_map, aliased, nulled, List.getElem?_set_self'] at held
      obtain ⟨w, unstored, rfl⟩ := Option.map_eq_some_iff.mp held
      obtain ⟨_, _, rfl⟩ := Option.map_eq_some_iff.mp unstored
      exact Value.inForm_null builtins col.sqlType

/-- A value converted for a column. -/
theorem coerceColumn_eq_ok {i : Nat} {v converted : Value} {col : Column}
    (column : table.columns[i]? = some col)
    (coerced : coerceColumn builtins table i v = .ok converted) :
    v.coerceTo builtins col.sqlType = .ok converted := by
  obtain ⟨col', found, coerced⟩ := Outcome.bind_eq_ok.mp coerced
  rw [column] at found
  obtain rfl := Except.ok.inj found
  exact coerced

/-! ### INSERT -/

theorem setValue_eq_ok {values after : List Value} {i : Nat} {v : Value} :
    setValue values i v = .ok after ↔ i < values.length ∧ values.set i v = after := by
  unfold setValue
  split
  · next within => exact ⟨fun set => ⟨within, Except.ok.inj set⟩, fun set => congrArg _ set.2⟩
  · next outside => exact ⟨nofun, fun set => absurd set.1 outside⟩

/-- The values of a row are cells. -/
theorem valueCells : Cells (fun (values : List Value) (i : Nat) => values[i]?)
    (fun values i (_ : Value) => i < values.length) (fun i v values => setValue values i v) where
  placed := by
    intro i v s after done
    obtain ⟨within, rfl⟩ := setValue_eq_ok.mp done
    exact List.getElem?_set_self within
  frame := by
    intro i v s after j done different
    obtain ⟨_, rfl⟩ := setValue_eq_ok.mp done
    exact List.getElem?_set_ne different.symm
  fits_iff := by
    intro i v s
    constructor
    · rintro ⟨after, done⟩
      exact (setValue_eq_ok.mp done).1
    · intro within
      exact ⟨_, setValue_eq_ok.mpr ⟨within, rfl⟩⟩
  kept := by
    intro i v s after j w done
    rw [length_setValue done]
  swap := by
    intro i j v w s between after different first second
    obtain ⟨within, rfl⟩ := setValue_eq_ok.mp first
    obtain ⟨within', rfl⟩ := setValue_eq_ok.mp second
    rw [List.length_set] at within'
    refine ⟨_, setValue_eq_ok.mpr ⟨within', rfl⟩, setValue_eq_ok.mpr ⟨?_, ?_⟩⟩
    · rwa [List.length_set]
    · exact List.set_comm _ _ different.symm

theorem fillIn_eq_inTurn (pairs : List (Nat × Expr Query)) (values : List Value) :
    fillIn builtins table params pairs values =
      inTurn (fun _ slot expr => do
          coerceColumn builtins table slot (← eval builtins ⟨[], 0, params⟩ expr))
        (fun slot v values => setValue values slot v) pairs values := by
  induction pairs generalizing values with
  | nil => rfl
  | cons pair rest ih =>
      obtain ⟨slot, expr⟩ := pair
      simp only [fillIn, inTurn, bind_assoc, ih]

variable {plan : InsertPlan Query} {clock : Nat → Int} {rowExprs : List (Expr Query)}
  {values : List Value}

/-- A new row holds what the tuple gives to its columns, and defaults in the others. -/
theorem newValues_held (made : newValues builtins table params plan clock rowExprs = .ok values)
    {i : Nat} {col : Column} (column : table.columns[i]? = some col) :
    values[i]? = (givenValue builtins table params plan clock rowExprs i).or
      (some (evalDefault (clock i) col)) := by
  unfold newValues at made
  split at made
  · cases made
  · rw [fillIn_eq_inTurn] at made
    have held := valueCells.inTurn_held made i
    rw [List.getElem?_mapIdx, column] at held
    exact held

/-- What a tuple gives to a column is converted for it. -/
theorem givenValue_coerced {i : Nat} {col : Column} {v : Value}
    (column : table.columns[i]? = some col)
    (given : givenValue builtins table params plan clock rowExprs i = some v) :
    ∃ w : Value, w.coerceTo builtins col.sqlType = .ok v := by
  obtain ⟨expr, _, _, evaluated⟩ := Cells.lastValue_eq_some given
  obtain ⟨w, _, coerced⟩ := Outcome.bind_eq_ok.mp evaluated
  exact ⟨w, coerceColumn_eq_ok column coerced⟩

/-- **INSERT.** A new row is stored in the form of its columns exactly if no document is given
that is stored as the text of a number, and the defaults it takes are in their form. -/
theorem newValues_inForm_iff (rowid : Int64)
    (made : newValues builtins table params plan clock rowExprs = .ok values) :
    RowInForm builtins table
        ((withAliasNulled table.rowidAlias (withAlias table rowid values)).map Value.stored) ↔
      TupleInForm builtins table params plan clock rowExprs := by
  rw [rowInForm_stored_iff]
  have unaliased := @getElem?_withAlias table rowid values
  constructor
  · intro inForm i col column converting other
    have held := newValues_held made column
    rw [← unaliased other] at held
    constructor
    · intro v given
      rw [given, Option.some_or] at held
      obtain ⟨w, coerced⟩ := givenValue_coerced column given
      exact (Value.inForm_stored_iff converting coerced).mp
        (inForm i col v column converting other held)
    · intro given
      rw [given, Option.none_or] at held
      exact inForm i col _ column converting other held
  · intro tuple i col v column converting other held
    rw [unaliased other, newValues_held made column] at held
    obtain ⟨noNumber, default⟩ := tuple i col column converting other
    cases given : givenValue builtins table params plan clock rowExprs i with
    | none =>
        rw [given, Option.none_or] at held
        obtain rfl := Option.some.inj held
        exact default given
    | some w =>
        rw [given, Option.some_or] at held
        obtain rfl := Option.some.inj held
        obtain ⟨_, coerced⟩ := givenValue_coerced column given
        exact (Value.inForm_stored_iff converting coerced).mpr (noNumber w given)

/-! ### UPDATE -/

variable {assignments : List (Nat × Expr Query)} {rowid newRowid : Int64} {old : List Value}

/-- A changed row holds what is assigned to its columns, and what it held in the others. -/
theorem assign_held
    (assigned : assign builtins table params rowid assignments old rowid = .ok (values, newRowid))
    (i : Nat) : values[i]? =
      (assignedValue builtins table params assignments rowid old i).or old[i]? := by
  rw [assign_eq_inTurn] at assigned
  exact rowCells.inTurn_held assigned i

theorem assignedValue_coerced {i : Nat} {col : Column} {v : Value}
    (column : table.columns[i]? = some col)
    (assigned : assignedValue builtins table params assignments rowid old i = some v) :
    ∃ w : Value, w.coerceTo builtins col.sqlType = .ok v := by
  obtain ⟨expr, _, _, evaluated⟩ := Cells.lastValue_eq_some assigned
  obtain ⟨w, _, coerced⟩ := Outcome.bind_eq_ok.mp evaluated
  exact ⟨w, coerceColumn_eq_ok column coerced⟩

/-- **UPDATE.** The values that are assigned are stored in the form of their columns exactly if
none is a document that is stored as the text of a number. -/
theorem assign_inForm_iff
    (assigned : assign builtins table params rowid assignments old rowid = .ok (values, newRowid)) :
    (∀ (i : Nat) (col : Column) (v : Value), table.columns[i]? = some col →
      col.sqlType.isConverting = true → some i ≠ table.rowidAlias →
        assignedValue builtins table params assignments rowid old i ≠ none →
        ((withAliasNulled table.rowidAlias values).map Value.stored)[i]? = some v →
          v.InForm builtins col.sqlType) ↔
      AssignsInForm builtins table params assignments rowid old := by
  constructor
  · intro inForm i col v column converting other given
    obtain ⟨w, coerced⟩ := assignedValue_coerced column given
    rw [← Value.inForm_stored_iff converting coerced]
    refine inForm i col v.stored column converting other (by rw [given]; nofun) ?_
    rw [getElem?_stored other, assign_held assigned i, given]
    rfl
  · intro noNumber i col v column converting other given held
    obtain ⟨w, given⟩ := Option.ne_none_iff_exists'.mp given
    rw [getElem?_stored other, assign_held assigned i, given] at held
    obtain rfl := Option.some.inj held
    obtain ⟨_, coerced⟩ := assignedValue_coerced column given
    exact (Value.inForm_stored_iff converting coerced).mpr
      (noNumber i col w column converting other given)

/-- The other values of a row in form stay as they are. -/
theorem assign_keeps
    (assigned : assign builtins table params rowid assignments old rowid = .ok (values, newRowid))
    (noNumber : AssignsInForm builtins table params assignments rowid old)
    (before : ∀ (i : Nat) (col : Column) (v : Value), table.columns[i]? = some col →
      col.sqlType.isConverting = true → some i ≠ table.rowidAlias → old[i]? = some v →
        v.stored.InForm builtins col.sqlType) :
    RowInForm builtins table ((withAliasNulled table.rowidAlias values).map Value.stored) := by
  rw [rowInForm_stored_iff]
  intro i col v column converting other held
  rw [assign_held assigned i] at held
  rcases Option.or_eq_some_iff.mp held with given | ⟨_, kept⟩
  · obtain ⟨_, coerced⟩ := assignedValue_coerced column given
    exact (Value.inForm_stored_iff converting coerced).mpr
      (noNumber i col v column converting other given)
  · exact before i col v column converting other kept

end

/-! ## Runs -/

section

variable {Query : Type} (builtins : Builtins)

/-- The rows of a table are in the form of its columns. -/
structure RowsInForm (table : Table) (rows : Rows) : Prop where
  narrow : ∀ entry ∈ rows, ∀ row, Row.decode entry.1 entry.2.val = .ok row →
    row.values.length ≤ table.columns.length
  stored : ∀ entry ∈ rows, ∀ row, Row.decode entry.1 entry.2.val = .ok row →
    ∀ v ∈ row.values, v.stored = v
  inForm : ∀ entry ∈ rows, ∀ row, Row.decode entry.1 entry.2.val = .ok row →
    RowInForm builtins table row.values

/-- The tuples of an INSERT are in form, and what an UPDATE assigns to the rows it finds. -/
def StatementInForm {σ : Type} [PageSink σ] [MapSink σ] (statement : Statement Query)
    (table : Table) (store : Audited σ) : Prop :=
  match statement.plan with
  | .insert plan => ∀ k rowExprs, plan.rows[k]? = some rowExprs →
      TupleInForm builtins table statement.params plan (statement.clock k) rowExprs
  | .update plan => ∀ rows pages matching, BTree.Tree (view store) table.rootPage rows pages →
      matchingRows builtins table statement.params plan.predicate rows = .ok matching →
        ∀ found ∈ matching,
          AssignsInForm builtins table statement.params plan.assignments found.1 found.2
  | .delete _ => True

namespace Database

variable {σ Sub : Type} [PageSink σ] [MapSink σ]

/-- Statements each of which is in form when it is its turn. -/
def DmlsInForm : List (Statement Query) → Database σ → Prop
  | [], _ => True
  | statement :: rest, db =>
      (∀ table, db.2.getTable statement.plan.table = some table →
        StatementInForm builtins statement table db.1) ∧
      ∀ after, Database.runDml builtins statement db = .ok () after → DmlsInForm rest after

/-- Requests each of whose statements is. -/
def RunInForm (display : SqlDisplay Sub) : List (Step Sub Query) → Database σ → Prop
  | [], _ => True
  | step :: rest, db =>
      (∀ statements, step.request = .dml statements → DmlsInForm builtins statements db) ∧
      ∀ after, Database.run display builtins step db = .ok () after → RunInForm display rest after

end Database

variable {builtins} {table : Table} {params : List Value} {rows : Rows}

theorem RowsInForm.nil (table : Table) : RowsInForm builtins table [] where
  narrow _ member := by cases member
  stored _ member := by cases member
  inForm _ member := by cases member

theorem RowsInForm.put {rowid : Int64} {values : List Value} {record : Record}
    (holds : RowsInForm builtins table rows)
    (inForm : RowInForm builtins table
      ((withAliasNulled table.rowidAlias values).map Value.stored))
    (short : values.length ≤ table.columns.length)
    (encoded : asRecord ⟨rowid, withAliasNulled table.rowidAlias values⟩ = .ok record) :
    RowsInForm builtins table (Entries.put rowid record rows) := by
  have decoded := decode_asRecord encoded
  refine ⟨fun entry member row read => ?_, fun entry member row read v inRow => ?_,
    fun entry member row read => ?_⟩
  · rcases Entries.mem_put.mp member with rfl | ⟨inside, _⟩
    · rw [decoded] at read
      obtain rfl := Except.ok.inj read
      rwa [List.length_map, length_withAliasNulled]
    · exact holds.narrow entry inside row read
  · rcases Entries.mem_put.mp member with rfl | ⟨inside, _⟩
    · rw [decoded] at read
      obtain rfl := Except.ok.inj read
      obtain ⟨w, _, rfl⟩ := List.mem_map.mp inRow
      exact w.stored_stored
    · exact holds.stored entry inside row read v inRow
  · rcases Entries.mem_put.mp member with rfl | ⟨inside, _⟩
    · rw [decoded] at read
      obtain rfl := Except.ok.inj read
      exact inForm
    · exact holds.inForm entry inside row read

theorem RowsInForm.drop (rowid : Int64) (holds : RowsInForm builtins table rows) :
    RowsInForm builtins table (Entries.drop rowid rows) where
  narrow entry member := holds.narrow entry (Entries.mem_drop.mp member).1
  stored entry member := holds.stored entry (Entries.mem_drop.mp member).1
  inForm entry member := holds.inForm entry (Entries.mem_drop.mp member).1

/-- Stored rows have no values for a further column. -/
theorem RowsInForm.withColumn (column : Column) (sql : Text)
    (holds : RowsInForm builtins table rows) :
    RowsInForm builtins (Catalog.withColumn table column sql) rows where
  narrow entry member row read := by
    simp only [Catalog.withColumn, List.length_append, List.length_singleton]
    exact (holds.narrow entry member row read).trans (Nat.le_succ _)
  stored := holds.stored
  inForm entry member row read i col v found converting held := by
    have within := (List.getElem?_eq_some_iff.mp held).1
    have old := within.trans_le (holds.narrow entry member row read)
    simp only [Catalog.withColumn, List.getElem?_append_left old] at found
    exact holds.inForm entry member row read i col v found converting held

section

variable {σ : Type} [PageSink σ] [MapSink σ] {fuel : Nat} {store after : Audited σ}
  {pages : List PageId}

theorem RowsInForm.insertRow {plan : InsertPlan Query} {clock : Nat → Int}
    {rowExprs : List (Expr Query)} {rowid : Int64}
    (tree : BTree.Tree (view store) table.rootPage rows pages)
    (holds : RowsInForm builtins table rows)
    (tuple : TupleInForm builtins table params plan clock rowExprs)
    (run : Sql.insertRow builtins fuel table params plan clock rowExprs store = .ok rowid after)
    (fit : after.allFit = true) : Leads (RowsInForm builtins) table pages store after := by
  obtain ⟨values, conflict, record, stores, _, pages', tree', step⟩ := insertRow_ok tree run fit
  refine ⟨_, pages', tree', step, RowsInForm.put ?_ ?_ ?_ stores.encoded⟩
  · cases conflict with
    | none => exact holds
    | some place => exact holds.drop _
  · exact (newValues_inForm_iff rowid stores.filled).mpr tuple
  · rw [length_withAlias, length_newValues stores.filled]

theorem RowsInForm.insertRows {plan : InsertPlan Query} {clock : Clock} {k : Nat}
    {tuples : List (List (Expr Query))} {result answer : InsertResult}
    (tree : BTree.Tree (view store) table.rootPage rows pages)
    (holds : RowsInForm builtins table rows)
    (inForm : ∀ n rowExprs, tuples[n]? = some rowExprs →
      TupleInForm builtins table params plan (clock (k + n)) rowExprs)
    (run : Sql.insertRows builtins fuel table params plan clock k tuples result store =
      .ok answer after) (fit : after.allFit = true) :
    Leads (RowsInForm builtins) table pages store after := by
  induction tuples generalizing k result store rows pages with
  | nil =>
      obtain ⟨_, rfl⟩ := Exec.pure_eq_ok.mp run
      exact .refl tree holds
  | cons rowExprs tuples ih =>
      obtain ⟨rowid, between, first, later⟩ := Exec.bind_eq_ok.mp run
      refine (holds.insertRow tree (inForm 0 rowExprs rfl) first
        (tracked_insertRows _ _ _ _ _ later fit)).andThen ?_
      intro rows' pages' tree' holds'
      refine ih tree' holds' (fun n rowExprs' found => ?_) later
      rw [Nat.add_assoc, Nat.add_comm 1 n]
      exact inForm (n + 1) rowExprs' found

/-- The rows that an UPDATE finds are in form before it. -/
def FoundInForm (builtins : Builtins) (table : Table) (found : Int64 × List Value) : Prop :=
  found.2.length ≤ table.columns.length ∧
    ∀ (i : Nat) (col : Column) (v : Value), table.columns[i]? = some col →
      col.sqlType.isConverting = true → some i ≠ table.rowidAlias → found.2[i]? = some v →
        v.stored.InForm builtins col.sqlType

theorem RowsInForm.updateRows {plan : UpdatePlan Query} {matching : List (Int64 × List Value)}
    {count answer : Nat} (tree : BTree.Tree (view store) table.rootPage rows pages)
    (holds : RowsInForm builtins table rows)
    (before : ∀ found ∈ matching, FoundInForm builtins table found)
    (inForm : ∀ found ∈ matching,
      AssignsInForm builtins table params plan.assignments found.1 found.2)
    (run : Sql.updateRows builtins fuel table params plan matching count store = .ok answer after)
    (fit : after.allFit = true) : Leads (RowsInForm builtins) table pages store after := by
  induction matching generalizing count store rows pages with
  | nil =>
      obtain ⟨_, rfl⟩ := Exec.pure_eq_ok.mp run
      exact .refl tree holds
  | cons found matching ih =>
      obtain ⟨rowid, old⟩ := found
      obtain ⟨_, between, first, later⟩ := Exec.bind_eq_ok.mp run
      obtain ⟨values, newRowid, record, changes, pages', tree', step⟩ :=
        updateRow_ok tree first (tracked_updateRows _ _ _ later fit)
      obtain ⟨⟨narrow, oldInForm⟩, before⟩ := List.forall_mem_cons.mp before
      obtain ⟨noNumber, inForm⟩ := List.forall_mem_cons.mp inForm
      have short : values.length ≤ table.columns.length := by
        rw [length_assign changes.assigned]
        exact narrow
      have put := (holds.drop rowid).put (assign_keeps changes.assigned noNumber oldInForm) short
        changes.encoded
      have changed : Leads (RowsInForm builtins) table pages store between :=
        ⟨_, pages', tree', step, put⟩
      exact changed.andThen fun rows' pages' tree' holds' => ih tree' holds' before inForm later

/-- What a scan finds. -/
theorem RowsInForm.found (holds : RowsInForm builtins table rows) {predicate : Option (Expr Query)}
    {matching : List (Int64 × List Value)}
    (scanned : matchingRows builtins table params predicate rows = .ok matching) :
    ∀ found ∈ matching, FoundInForm builtins table found := by
  intro found member
  obtain ⟨entry, inside, row, decoded, rfl⟩ := mem_matchingRows scanned found member
  constructor
  · rw [length_withAlias]
    exact holds.narrow entry inside row decoded
  · intro i col v column converting other held
    rw [getElem?_withAlias other] at held
    rw [holds.stored entry inside row decoded v (List.mem_of_getElem? held)]
    exact holds.inForm entry inside row decoded i col v column converting held

/-- **A statement** whose rows are in form. -/
theorem RowsInForm.statement {statement : Statement Query} {count : Nat}
    (tree : BTree.Tree (view store) table.rootPage rows pages)
    (holds : RowsInForm builtins table rows)
    (inForm : StatementInForm builtins statement table store)
    (run : statement.run builtins table store = .ok count after) (fit : after.allFit = true) :
    Leads (RowsInForm builtins) table pages store after := by
  obtain ⟨plan, params, clock, fuel⟩ := statement
  cases plan with
  | insert plan =>
      obtain ⟨result, between, inserted, rest⟩ := Exec.bind_eq_ok.mp run
      obtain ⟨_, rfl⟩ := Exec.pure_eq_ok.mp rest
      refine holds.insertRows tree (fun n rowExprs found => ?_) inserted fit
      rw [Nat.zero_add]
      exact inForm n rowExprs found
  | update plan =>
      obtain ⟨matching, between, scanned, rest⟩ := Exec.bind_eq_ok.mp run
      obtain ⟨found, same⟩ := (scanned_observes tree plan.predicate).of_ok scanned
      have sameView := (sight_eq same).1
      have assigns := inForm rows pages matching tree found
      rw [← sameView] at tree
      exact .of_view sameView
        (holds.updateRows tree (holds.found found) assigns rest fit)
  | delete plan =>
      obtain ⟨matching, between, scanned, rest⟩ := Exec.bind_eq_ok.mp run
      obtain ⟨_, same⟩ := (scanned_observes tree plan.predicate).of_ok scanned
      have sameView := (sight_eq same).1
      rw [← sameView] at tree
      exact .of_view sameView (.deleteRows RowsInForm.drop tree holds rest fit)

end

/-! ### Requests -/

namespace Database

variable {σ Sub : Type} [PageSink σ] [MapSink σ] {db after : Database σ} {display : SqlDisplay Sub}

theorem DmlsInForm.keeps {statements : List (Statement Query)}
    (inForm : DmlsInForm builtins statements db) (keeps : Keeps (RowsInForm builtins) db)
    (run : Database.runDmls builtins statements db = .ok () after) (fit : after.1.allFit = true) :
    Keeps (RowsInForm builtins) after := by
  induction statements generalizing db with
  | nil =>
      obtain ⟨_, rfl⟩ := Exec.pure_eq_ok.mp run
      exact keeps
  | cons statement rest ih =>
      obtain ⟨_, between, first, later⟩ := Exec.bind_eq_ok.mp run
      have kept := keeps.runDml_of (fun table known rows pages store count tree holds ran fit =>
        holds.statement tree (inForm.1 table known) ran fit) first (tracks_runDmls rest later fit)
      exact ih (inForm.2 between first) kept later

/-- Columns are added to tables whatever their rows. -/
theorem admits_all (step : Step Sub Query) (db : Database σ) :
    StepAdmits display (fun _ _ _ => True) step db := by
  unfold StepAdmits
  split
  · intro plan _
    cases plan <;> first | trivial | exact fun _ _ _ _ _ => trivial
  · trivial

theorem RunInForm.keeps {steps : List (Step Sub Query)}
    (inForm : RunInForm builtins display steps db) (keeps : Keeps (RowsInForm builtins) db)
    (run : Database.runAll display builtins steps db = .ok () after)
    (fit : after.1.allFit = true) : Keeps (RowsInForm builtins) after := by
  induction steps generalizing db with
  | nil =>
      obtain ⟨_, rfl⟩ := Exec.pure_eq_ok.mp run
      exact keeps
  | cons step rest ih =>
      obtain ⟨_, between, first, later⟩ := Exec.bind_eq_ok.mp run
      have fitBetween := tracks_runAll rest later fit
      have kept := keeps.run_of RowsInForm.nil
        (fun _ column sql _ holds _ => holds.withColumn column sql) (admits_all step db)
        (fun statements asked ran => (inForm.1 statements asked).keeps keeps ran fitBetween) first
        fitBetween
      exact ih (inForm.2 between first) kept later

end Database

/-! ## Every value that is stored -/

/-- The row is in the tree of the table. -/
def StoredRow {σ : Type} [PageSink σ] [MapSink σ] (table : Table) (store : Audited σ)
    (rowid : Int64) (row : Row) : Prop :=
  ∃ rows pages record, BTree.Tree (view store) table.rootPage rows pages ∧
    (rowid, record) ∈ rows ∧ Row.decode rowid record.val = .ok row

variable {σ Sub : Type} [PageSink σ] [MapSink σ]

theorem insertRow_inForm_iff {fuel : Nat} {store after : Audited σ} {pages : List PageId}
    {plan : InsertPlan Query} {clock : Nat → Int} {rowExprs : List (Expr Query)} {rowid : Int64}
    (tree : BTree.Tree (view store) table.rootPage rows pages)
    (run : insertRow builtins fuel table params plan clock rowExprs store = .ok rowid after)
    (fit : after.allFit = true) :
    ∃ row, StoredRow table after rowid row ∧ (RowInForm builtins table row.values ↔
      TupleInForm builtins table params plan clock rowExprs) := by
  obtain ⟨values, conflict, record, stores, _, pages', tree', _⟩ := insertRow_ok tree run fit
  exact ⟨_, ⟨_, pages', record, tree', Entries.mem_put.mpr (.inl rfl),
    decode_asRecord stores.encoded⟩, newValues_inForm_iff rowid stores.filled⟩

theorem updateRow_inForm_iff {fuel : Nat} {store after : Audited σ} {pages : List PageId}
    {plan : UpdatePlan Query} {rowid : Int64} {old : List Value}
    (tree : BTree.Tree (view store) table.rootPage rows pages)
    (run : updateRow builtins fuel table params plan rowid old store = .ok () after)
    (fit : after.allFit = true) :
    ∃ newRowid row, StoredRow table after newRowid row ∧
      ((∀ (i : Nat) (col : Column) (v : Value), table.columns[i]? = some col →
        col.sqlType.isConverting = true → some i ≠ table.rowidAlias →
          assignedValue builtins table params plan.assignments rowid old i ≠ none →
            row.values[i]? = some v → v.InForm builtins col.sqlType) ↔
        AssignsInForm builtins table params plan.assignments rowid old) := by
  obtain ⟨values, newRowid, record, changes, pages', tree', _⟩ := updateRow_ok tree run fit
  exact ⟨newRowid, _, ⟨_, pages', record, tree', Entries.mem_put.mpr (.inl rfl),
    decode_asRecord changes.encoded⟩, assign_inForm_iff changes.assigned⟩

theorem runAll_inForm {display : SqlDisplay Sub} {db after : Database σ} {pages : List PageId}
    (tree : BTree.Tree (view db.1) catalogRoot rows pages) (none : db.2.tables = .empty)
    {steps : List (Step Sub Query)} (inForm : Database.RunInForm builtins display steps db)
    (run : Database.runAll display builtins steps db = .ok () after)
    (fit : after.1.allFit = true) {key : Text} {table : Table}
    (known : after.2.tables.get? key = some table) :
    ∃ rows pages, BTree.Tree (view after.1) table.rootPage rows pages ∧
      RowsInForm builtins table rows := by
  obtain ⟨extent, forest, holds⟩ := inForm.keeps (.of_empty tree none) run fit
  exact ⟨_, _, forest.tree (some key) table.rootPage
    (by simp only [Database.rootOf, known, Option.map_some]), holds key table known⟩

end

/-- **Affinities.** A row that INSERT stores is in the form of its columns exactly if no document is
given that is stored as the text of a number, and the defaults it takes are in their form; and so
are the values that UPDATE assigns exactly if none is such a document. When that is so of every
statement of a run, from a database without tables, all rows of all tables are in form. -/
theorem affinities_kept_iff {Query σ Sub : Type} [PageSink σ] [MapSink σ] (builtins : Builtins) :
    (∀ (fuel : Nat) (table : Table) (params : List Value) (plan : InsertPlan Query)
      (clock : Nat → Int) (rowExprs : List (Expr Query)) (store after : Audited σ) (rows : Rows)
      (pages : List PageId) (rowid : Int64), BTree.Tree (view store) table.rootPage rows pages →
      insertRow builtins fuel table params plan clock rowExprs store = .ok rowid after →
      after.allFit = true →
        ∃ row, StoredRow table after rowid row ∧ (RowInForm builtins table row.values ↔
          TupleInForm builtins table params plan clock rowExprs)) ∧
    (∀ (fuel : Nat) (table : Table) (params : List Value) (plan : UpdatePlan Query)
      (store after : Audited σ) (rows : Rows) (pages : List PageId) (rowid : Int64)
      (old : List Value), BTree.Tree (view store) table.rootPage rows pages →
      updateRow builtins fuel table params plan rowid old store = .ok () after →
      after.allFit = true →
        ∃ newRowid row, StoredRow table after newRowid row ∧
          ((∀ (i : Nat) (col : Column) (v : Value), table.columns[i]? = some col →
            col.sqlType.isConverting = true → some i ≠ table.rowidAlias →
              assignedValue builtins table params plan.assignments rowid old i ≠ none →
                row.values[i]? = some v → v.InForm builtins col.sqlType) ↔
            AssignsInForm builtins table params plan.assignments rowid old)) ∧
    ∀ (display : SqlDisplay Sub) (db after : Database σ) (rows : Rows) (pages : List PageId)
      (steps : List (Step Sub Query)), BTree.Tree (view db.1) catalogRoot rows pages →
      db.2.tables = .empty → Database.RunInForm builtins display steps db →
      Database.runAll display builtins steps db = .ok () after → after.1.allFit = true →
        ∀ key table, after.2.tables.get? key = some table →
          ∃ rows pages, BTree.Tree (view after.1) table.rootPage rows pages ∧
            RowsInForm builtins table rows := by
  refine ⟨?_, ?_, ?_⟩
  · intro fuel table params plan clock rowExprs store after rows pages rowid tree run fit
    exact insertRow_inForm_iff tree run fit
  · intro fuel table params plan store after rows pages rowid old tree run fit
    exact updateRow_inForm_iff tree run fit
  · intro display db after rows pages steps tree none inForm run fit key table known
    exact runAll_inForm tree none inForm run fit known

/-! ### Integers are in form -/

/-- `CREATE TABLE t (a INTEGER)`, with its rows on a page. -/
def tableOn (rootPage : PageId) : Table :=
  ⟨['t'], [⟨['a'], "INTEGER".toList, .integer, false, false, false, none⟩], rootPage, none,
    "CREATE TABLE t (a INTEGER)".toList, by simp⟩

def insertInto : InsertPlan Empty := ⟨['t'], [0], [[.literal (.integer 1)]], false⟩

def setTwo : UpdatePlan Empty := ⟨['t'], [(0, .literal (.integer 2))], none⟩

/-- The only column is the first. -/
theorem column_zero {rootPage : PageId} {i : Nat} {col : Column}
    (column : (tableOn rootPage).columns[i]? = some col) : i = 0 := by
  have within := (List.getElem?_eq_some_iff.mp column).1
  exact Nat.lt_one_iff.mp within

theorem tupleInForm_one (rootPage : PageId) (clock : Nat → Int) :
    TupleInForm .bare (tableOn rootPage) [] insertInto clock [.literal (.integer 1)] := by
  intro i col column _ _
  obtain rfl := column_zero column
  refine ⟨fun v given => ?_, nofun⟩
  obtain rfl := Option.some.inj given
  exact id

theorem assignsInForm_two (rowid : Int64) (v : Value) :
    AssignsInForm .bare (tableOn catalogRoot) [] setTwo.assignments rowid [v] := by
  intro i col w column _ _ given
  obtain rfl := column_zero column
  obtain rfl := Option.some.inj given
  exact id

theorem createT_reaches : Exec.leaves
    (Database.run (displayOf "CREATE TABLE t (a INTEGER)" "") .bare createT) newDatabase
    (fun _ after => (after.2.getTable ['t']).any fun table =>
      table = tableOn table.rootPage) = true := by
  decide +kernel

theorem createInsert_reaches : Exec.leaves
    (Database.runAll (displayOf "CREATE TABLE t (a INTEGER)" "") .bare [createT, insertOne])
    newDatabase (fun _ after => after.1.allFit && (after.2.getTable ['t']).isSome) = true := by
  decide +kernel

theorem runInForm_one : Database.RunInForm .bare (displayOf "CREATE TABLE t (a INTEGER)" "")
    [createT, insertOne] newDatabase := by
  refine ⟨nofun, fun between created => ⟨fun statements asked => ?_, fun _ _ => trivial⟩⟩
  obtain ⟨_, reached, run, known⟩ := Exec.exists_of_leaves createT_reaches
  rw [created] at run
  injection run with _ same
  subst same
  obtain ⟨table, found, shape⟩ := Option.any_eq_true _ _ |>.mp known
  have shape := of_decide_eq_true shape
  injection asked with asked
  subst asked
  refine ⟨fun table' found' => ?_, fun _ _ => trivial⟩
  obtain rfl := Option.some.inj (found.symm.trans found')
  intro k rowExprs asked
  rw [shape]
  cases k with
  | zero =>
      obtain rfl := Option.some.inj asked
      exact tupleInForm_one _ _
  | succ k => cases asked

/-- 1 is inserted, changed to 2, and inserted by requests. -/
theorem affinities_kept_iff_integers :
    (∃ row, RowInForm .bare (tableOn catalogRoot) row.values ∧ ∃ after,
      StoredRow (tableOn catalogRoot) (after : Audited MemStore) 1 row) ∧
    (∃ (newRowid : Int64) (row : Row) (after : Audited MemStore),
      StoredRow (tableOn catalogRoot) after newRowid row ∧
        ∀ v : Value, row.values[0]? = some v → v.InForm .bare .integer) ∧
    ∃ (after : Database MemStore) (table : Table) (rows : Rows) (pages : List PageId),
      after.2.getTable ['t'] = some table ∧
        BTree.Tree (view after.1) table.rootPage rows pages ∧ RowsInForm .bare table rows := by
  obtain ⟨inserts, updates, runs⟩ :=
    @affinities_kept_iff Empty MemStore Empty _ _ .bare
  refine ⟨?_, ?_, ?_⟩
  · have inserted : Exec.leaves (insertRow .bare 6 (tableOn catalogRoot) [] insertInto (fun _ => 0)
        [.literal (.integer 1)]) newDatabase.1
        (fun rowid after => rowid = 1 ∧ after.allFit) = true := by
      decide +kernel
    obtain ⟨rowid, after, run, fits⟩ := Exec.exists_of_leaves inserted
    obtain ⟨rfl, fit⟩ := of_decide_eq_true fits
    obtain ⟨row, stored, iff_⟩ := inserts _ _ _ _ _ _ _ _ _ _ _ newDatabase_tree run fit
    exact ⟨row, iff_.mpr (tupleInForm_one _ _), after, stored⟩
  · have updated : Exec.leaves (updateRow .bare 6 (tableOn catalogRoot) [] setTwo 1 [.integer 1])
        newDatabase.1 (fun _ after => after.allFit) = true := by
      decide +kernel
    obtain ⟨_, after, run, fit⟩ := Exec.exists_of_leaves updated
    obtain ⟨newRowid, row, stored, iff_⟩ := updates _ _ _ _ _ _ _ _ _ _ newDatabase_tree run fit
    refine ⟨newRowid, row, after, stored, fun v held => ?_⟩
    exact iff_.mpr (assignsInForm_two 1 _) 0 _ v rfl rfl nofun nofun held
  · obtain ⟨_, after, run, fits⟩ := Exec.exists_of_leaves createInsert_reaches
    obtain ⟨fit, present⟩ := Bool.and_eq_true _ _ |>.mp fits
    obtain ⟨table, known⟩ := Option.isSome_iff_exists.mp present
    obtain ⟨rows, pages, tree, inForm⟩ :=
      runs _ _ _ _ _ _ newDatabase_tree rfl runInForm_one run fit ['t'] table known
    exact ⟨after, table, rows, pages, known, tree, inForm⟩

/-! ### Defaults, and a document -/

def five : SqlExpr Empty := .value (.number ['5'])

/-- `CREATE TABLE t (a INTEGER DEFAULT '5', b REAL DEFAULT 5, c TEXT DEFAULT 5, d INTEGER)` -/
def createDefaults : Step Empty Empty :=
  ⟨.ddl (.createTable ⟨[['t']],
    [⟨['a'], "INTEGER".toList, [.default (.value (.singleQuotedString ['5']))]⟩,
      ⟨['b'], "REAL".toList, [.default five]⟩, ⟨['c'], "TEXT".toList, [.default five]⟩,
      ⟨['d'], "INTEGER".toList, []⟩], [], false, []⟩), 6, none⟩

/-- `INSERT INTO t (d) VALUES (?)`, with the document `5` as the parameter. -/
def insertDocument : Step Empty Empty :=
  ⟨.dml [⟨.insert ⟨['t'], [3], [[.param 0]], false⟩, [.json ['5']], fun _ _ => 0, 6⟩], 6, none⟩

/-- Defaults are stored as they are written, and a document as its text. -/
theorem stored_unconverted : ∃ after table,
    Database.runAll (displayOf "CREATE TABLE t (...)" "") .bare [createDefaults, insertDocument]
        newDatabase = .ok () after ∧
      after.2.getTable ['t'] = some table ∧
      table.columns.map Column.sqlType = [.integer, .real, .text, .integer] ∧
      selectAll after table = some [[.text ['5'], .integer 5, .integer 5, .text ['5']]] ∧
      ¬ Value.InForm .bare .integer (.text ['5']) ∧ ¬ Value.InForm .bare .real (.integer 5) ∧
      ¬ Value.InForm .bare .text (.integer 5) := by
  have runs : Exec.leaves
      (Database.runAll (displayOf "CREATE TABLE t (...)" "") .bare [createDefaults, insertDocument])
      newDatabase (fun _ after => (after.2.getTable ['t']).any fun table =>
        table.columns.map Column.sqlType = [.integer, .real, .text, .integer] ∧
          selectAll after table = some [[.text ['5'], .integer 5, .integer 5, .text ['5']]]) =
        true := by
    decide +kernel
  obtain ⟨_, after, run, holds⟩ := Exec.exists_of_leaves runs
  obtain ⟨table, known, shown⟩ := Option.any_eq_true _ _ |>.mp holds
  obtain ⟨types, read⟩ := of_decide_eq_true shown
  have number : (Value.text ['5']).coerceTo .bare .integer = .ok (.integer 5) := rfl
  exact ⟨after, table, run, known, types, read, fun same => (nomatch number.symm.trans same), nofun,
    nofun⟩

end Squrust.Sql
