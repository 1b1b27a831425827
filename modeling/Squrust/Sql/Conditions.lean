import Squrust.Foundation.Triples
import Squrust.Sql.Affinities
import Squrust.Sql.Optimizer
import Squrust.Sql.PlanColumns
import Squrust.Sql.ScanOrder
import Squrust.Sql.Tables

/-!
# The rows a WHERE is true of

The same WHERE stands in a SELECT, a DELETE and an UPDATE. A SELECT reads a row with a value for
each column of its table, those that were added after it was stored at their defaults. A DELETE and
an UPDATE read the values that are stored, and fail on a column that has none.

So where they return, the rows they take are those that the SELECT gives: an expression with a value
on the front of a row has the same on the row (`eval_below`). After a DELETE a SELECT of the table
gives the other rows (`Database.deleteWhere_selected`). After an UPDATE it gives those and one for
each row that was selected, with the columns that are not assigned as they were
(`Database.updateWhere_selected`).
-/

set_option autoImplicit false

namespace Squrust.Sql

open Squrust.Foundation

open Squrust.Core

/-! ## Expressions on the front of a row -/

section

variable {Query : Type} {builtins : Builtins} {values wider : List Value} {rowid : Int64} {params : List Value}

section

variable (front : values <+: wider)
include front

mutual

/-- An expression that has a value on the front of a row has it on the row. -/
theorem eval_below (e : Expr Query) :
    (eval builtins ⟨values, rowid, params⟩ e).Below (eval builtins ⟨wider, rowid, params⟩ e) := by
  cases e with
  | literal | rowId | param => exact .refl _
  | column i =>
      intro v read
      obtain ⟨within, same⟩ := List.getElem?_eq_some_iff.mp (Outcome.orErr_eq_ok.mp read)
      refine Outcome.orErr_eq_ok.mpr ?_
      obtain ⟨more, rfl⟩ := front
      exact (List.getElem?_append_left within).trans (List.getElem?_eq_some_iff.mpr ⟨within, same⟩)
  | binary op left right =>
      rw [eval, eval]
      exact (eval_below left).bind fun l => (eval_below right).bind fun r => .refl _
  | unary op expr =>
      rw [eval, eval]
      exact (eval_below expr).bind fun v => .refl _
  | isNull expr negated =>
      rw [eval, eval]
      exact (eval_below expr).bind fun v => .refl _
  | cast expr ty =>
      rw [eval, eval]
      exact (eval_below expr).bind fun v => .refl _
  | like expr pattern negated =>
      rw [eval, eval]
      exact (eval_below expr).bind fun v => (eval_below pattern).bind fun p => .refl _
  | inList expr list negated =>
      rw [eval, eval]
      refine (eval_below expr).bind fun v => ?_
      split
      · exact .refl _
      · exact (evalIn_below v list).bind fun _ => .refl _
  | function name args =>
      rw [eval, eval]
      exact (evalArgs_below args).bind fun values => .refl _
  | case operand whens elseResult =>
      cases elseResult with
      | none =>
          cases operand with
          | none =>
              simp only [eval]
              exact (evalWhens_below none whens).bind fun matched => .refl _
          | some operand =>
              simp only [eval]
              refine (eval_below operand).bind fun v => ?_
              exact (evalWhens_below (some v) whens).bind fun matched => .refl _
      | some otherwise =>
          cases operand with
          | none =>
              simp only [eval]
              refine (evalWhens_below none whens).bind fun matched => ?_
              cases matched with
              | some result => exact .refl _
              | none => exact eval_below otherwise
          | some operand =>
              simp only [eval]
              refine (eval_below operand).bind fun v => (evalWhens_below (some v) whens).bind fun matched => ?_
              cases matched with
              | some result => exact .refl _
              | none => exact eval_below otherwise
  | scalarSubquery | exists_ | inSubquery => exact .refl _
termination_by structural e

theorem evalArgs_below (args : List (Expr Query)) :
    (evalArgs builtins ⟨values, rowid, params⟩ args).Below (evalArgs builtins ⟨wider, rowid, params⟩ args) := by
  cases args with
  | nil => exact .refl _
  | cons arg rest =>
      rw [evalArgs, evalArgs]
      exact (eval_below arg).bind fun v => (evalArgs_below rest).bind fun _ => .refl _
termination_by structural args

theorem evalIn_below (v : Value) (list : List (Expr Query)) :
    (evalIn builtins ⟨values, rowid, params⟩ v list).Below (evalIn builtins ⟨wider, rowid, params⟩ v list) := by
  cases list with
  | nil => exact .refl _
  | cons item rest =>
      rw [evalIn, evalIn]
      refine (eval_below item).bind fun w => ?_
      split
      · exact .refl _
      · exact evalIn_below v rest
termination_by structural list

theorem evalWhens_below (operand : Option Value) (whens : List (Expr Query × Expr Query)) :
    (evalWhens builtins ⟨values, rowid, params⟩ operand whens).Below
      (evalWhens builtins ⟨wider, rowid, params⟩ operand whens) := by
  cases whens with
  | nil => exact .refl _
  | cons branch rest =>
      obtain ⟨cond, result⟩ := branch
      rw [evalWhens, evalWhens]
      refine (eval_below cond).bind fun v => ?_
      have taken : ∀ taken : Bool, Outcome.Below
          (if taken then do return some (← eval builtins ⟨values, rowid, params⟩ result)
            else evalWhens builtins ⟨values, rowid, params⟩ operand rest)
          (if taken then do return some (← eval builtins ⟨wider, rowid, params⟩ result)
            else evalWhens builtins ⟨wider, rowid, params⟩ operand rest) := by
        intro taken
        cases taken with
        | true => exact (eval_below result).bind fun _ => .refl _
        | false => exact evalWhens_below operand rest
      exact taken _
termination_by structural whens

end

end

end

/-! ## Rows that are shown -/

section

variable (table : Table)

/-- What a scan makes of a stored row. -/
def shownRow (entry : Int64 × Record) : Row :=
  tableRow (table.columns.map fun c => ⟨c.name, some table.name, declOpt c.declType⟩) table.rowidAlias
    (table.columns.map scanDefault) entry

/-- The record of a row can be read. -/
def Readable (entry : Int64 × Record) : Prop :=
  TableScan.row table.columns.length table.rowidAlias (table.columns.map scanDefault) entry.1 entry.2.val =
    .ok (shownRow table entry)

/-- The rows can be read, and a condition has a value on each of them. -/
def Selectable {Query : Type} (builtins : Builtins) (params : List Value) (predicate : Option (Expr Query))
    (rows : Rows) : Prop :=
  ∀ entry ∈ rows, Readable table entry ∧
    ∀ p ∈ predicate, ∃ v, evalRow builtins params p (shownRow table entry) = .ok v

/-- The row with its columns, as a query for all of them gives it. -/
def starRow (entry : Int64 × Record) : Row :=
  ⟨entry.1, (shownRow table entry).values.take table.columns.length⟩

/-- The rows a query for all columns gives. -/
def starRows {Query : Type} (builtins : Builtins) (params : List Value) (predicate : Option (Expr Query))
    (rows : Rows) : List Row :=
  (rows.filter fun entry => condition builtins params predicate (shownRow table entry)).map (starRow table)

end

section

variable {Query : Type} {builtins : Builtins} {params : List Value} {table : Table}

theorem starRows_none (rows : Rows) :
    starRows table builtins params (none : Option (Expr Query)) rows = rows.map (starRow table) := by
  have all : (rows.filter fun entry =>
      condition builtins params (none : Option (Expr Query)) (shownRow table entry)) = rows :=
    List.filter_eq_self.mpr fun _ _ => rfl
  rw [starRows, all]

theorem withAlias_front (rowid : Int64) (values more : List Value) :
    withAlias table rowid values <+: withAlias table rowid (values ++ more) := by
  rw [withAlias, withAlias]
  cases table.rowidAlias with
  | none => exact List.prefix_append _ _
  | some a =>
      dsimp only
      rw [List.set_append]
      split
      · exact List.prefix_append _ _
      · next beyond =>
        rw [List.set_eq_of_length_le (not_lt.mp beyond)]
        exact List.prefix_append _ _

theorem shownRow_of_decode {entry : Int64 × Record} {row : Row}
    (decoded : Row.decode entry.1 entry.2.val = .ok row) :
    shownRow table entry = ⟨entry.1, withAlias table entry.1
      (row.values ++ (table.columns.map scanDefault).drop row.values.length)⟩ := by
  have read := TableScan.row_of_decode table decoded
  have here := TableScan.row_rowId read
  rw [shownRow, tableRow, List.length_map, read]
  exact congrArg (fun rowid => Row.mk rowid _) here

theorem readable_of_decode {entry : Int64 × Record} {row : Row}
    (decoded : Row.decode entry.1 entry.2.val = .ok row) : Readable table entry := by
  have read := TableScan.row_of_decode table decoded
  rw [Readable, read, shownRow_of_decode decoded, ← TableScan.row_rowId read]

theorem length_shownRow {entry : Int64 × Record} (readable : Readable table entry) :
    table.columns.length ≤ (shownRow table entry).values.length := by
  obtain ⟨row, decoded, _⟩ := Outcome.bind_eq_ok.mp readable
  rw [shownRow_of_decode decoded, length_withAlias, List.length_append, List.length_drop, List.length_map]
  omega

/-- A row is scanned, and a condition is true of what a scan makes of it, if it was of the row. -/
theorem shownRow_of_keptRow {predicate : Option (Expr Query)} {entry : Int64 × Record}
    {found : Option (Int64 × List Value)} (kept : keptRow builtins table params predicate entry = .ok found) :
    Readable table entry ∧ (∀ p ∈ predicate, ∃ v, evalRow builtins params p (shownRow table entry) = .ok v) ∧
      found.isSome = condition builtins params predicate (shownRow table entry) := by
  obtain ⟨row, keep, decoded, given, always, evaluated⟩ := keptRow_ok kept
  have shown : shownRow table entry = _ := shownRow_of_decode decoded
  have onShown : ∀ p ∈ predicate, ∃ v,
      evalRow builtins params p (shownRow table entry) = .ok v ∧ keep = v.isTruthy := by
    intro p asked
    obtain ⟨v, here, truth⟩ := evaluated p asked
    rw [evalRow, shown]
    exact ⟨v, eval_below (withAlias_front _ _ _) p v here, truth⟩
  refine ⟨readable_of_decode decoded, fun p asked => (onShown p asked).imp fun _ => And.left, ?_⟩
  have found_isSome : found.isSome = keep := by
    rw [given]
    cases keep with
    | true => rfl
    | false => rfl
  rw [found_isSome]
  cases predicate with
  | none => exact always rfl
  | some p =>
      obtain ⟨v, here, truth⟩ := onShown p rfl
      rw [condition, Option.all_some, valueOf_eq here, truth]

/-- The rows that a statement takes are those that a query shows. -/
theorem taken_of_matchingRows {predicate : Option (Expr Query)} {rows : Rows}
    {matching : List (Int64 × List Value)}
    (scanned : matchingRows builtins table params predicate rows = .ok matching) :
    Selectable table builtins params predicate rows ∧
      List.Forall₂ (TakenFrom table) matching
        (rows.filter fun entry => condition builtins params predicate (shownRow table entry)) := by
  obtain ⟨kept, each, rfl⟩ := matchingRows_eq_ok.mp scanned
  clear scanned
  induction each with
  | nil => exact ⟨fun entry member => (by cases member), .nil⟩
  | @cons entry found rows kept here _ ih =>
      obtain ⟨read, evaluated, shown⟩ := shownRow_of_keptRow here
      refine ⟨List.forall_mem_cons.mpr ⟨⟨read, evaluated⟩, ih.1⟩, ?_⟩
      rw [List.filter_cons, ← shown]
      cases found with
      | none => exact ih.2
      | some found => exact .cons (taken_of_keptRow here) ih.2

/-- They have the same ids. -/
theorem ids_of_taken {matching : List (Int64 × List Value)} {rows : Rows}
    (taken : List.Forall₂ (TakenFrom table) matching rows) :
    matching.map Prod.fst = (rows.map (starRow table)).map Row.rowId := by
  rw [List.map_map]
  induction taken with
  | nil => rfl
  | cons first _ ih =>
      obtain ⟨row, _, rfl⟩ := first
      exact congrArg (List.cons _) ih

end

/-! ## Rows that are assigned -/

theorem decodeValue_stored (serial : UInt64) (data : Bytes) :
    (decodeValue serial data).Ensures (fun _ => True) fun read => read.1.stored = read.1 := by
  have whole : ∀ n : Nat, (do return (.integer (← readInt data n), n) :
      Outcome SqlError (Value × Nat)).Ensures (fun _ => True) fun read => read.1.stored = read.1 :=
    fun n => .bind (.any _) fun _ _ => rfl
  unfold decodeValue
  refine .ite rfl <| .ite (whole 1) <| .ite (whole 2) <| .ite (whole 3) <| .ite (whole 4) <|
    .ite (whole 6) <| .ite (whole 8) <| .ite (.ite trivial rfl) <| .ite rfl <| .ite rfl <|
    .ite ?_ <| .ite ?_ trivial
  · exact .bind (.any _) fun _ _ => rfl
  · refine .bind (.any _) fun _ _ => ?_
    split
    · rfl
    · trivial

theorem readValues_stored (data : Bytes) (serials : List UInt64) (body : Nat) :
    (readValues data serials body).Ensures (fun _ => True) fun values => ∀ v ∈ values, v.stored = v := by
  induction serials generalizing body with
  | nil => exact fun v member => by cases member
  | cons serial serials ih =>
      unfold readValues
      refine .bind (.any _) fun rest _ => (decodeValue_stored serial rest).bind fun read first => ?_
      exact (ih _).bind fun values later => List.forall_mem_cons.mpr ⟨first, later⟩

/-- Values that are read are stored as they are. -/
theorem stored_of_decode {rowid : Int64} {bytes : Bytes} {row : Row} (decoded : Row.decode rowid bytes = .ok row) :
    ∀ v ∈ row.values, v.stored = v := by
  obtain ⟨header, _, rest⟩ := Outcome.bind_eq_ok.mp decoded
  obtain ⟨serials, _, rest⟩ := Outcome.bind_eq_ok.mp rest
  obtain ⟨values, read, rest⟩ := Outcome.bind_eq_ok.mp rest
  obtain rfl := Outcome.pure_eq_ok.mp rest
  exact Outcome.Ensures.any_iff.mp (readValues_stored _ _ _) values read

section

variable {Query : Type} {builtins : Builtins} {params : List Value} {table : Table}

/-- Columns that are not assigned stay, and so does the row id if the alias column does. -/
theorem assign_others {rowid newRowid final : Int64} {assignments : List (Nat × Expr Query)}
    {values after : List Value}
    (assigned : assign builtins table params rowid assignments values newRowid = .ok (after, final)) :
    (∀ i ∉ assignments.map Prod.fst, after[i]? = values[i]?) ∧
      ((∀ a ∈ table.rowidAlias, a ∉ assignments.map Prod.fst) → final = newRowid) := by
  induction assignments generalizing values newRowid with
  | nil =>
      obtain ⟨rfl, rfl⟩ := Prod.mk.inj (Except.ok.inj assigned)
      exact ⟨fun _ _ => rfl, fun _ => rfl⟩
  | cons assignment assignments ih =>
      obtain ⟨colIdx, expr⟩ := assignment
      obtain ⟨v, _, rest⟩ := Outcome.bind_eq_ok.mp assigned
      obtain ⟨coerced, _, rest⟩ := Outcome.bind_eq_ok.mp rest
      have later : ∀ moved, (do
          let values ← setValue values colIdx coerced
          assign builtins table params rowid assignments values moved) = .ok (after, final) →
          (∀ i ∉ ((colIdx, expr) :: assignments).map Prod.fst, after[i]? = values[i]?) ∧
            ((∀ a ∈ table.rowidAlias, a ∉ assignments.map Prod.fst) → final = moved) := by
        intro moved rest
        obtain ⟨between, set, rest⟩ := Outcome.bind_eq_ok.mp rest
        obtain ⟨kept, stays⟩ := ih rest
        refine ⟨fun i other => ?_, stays⟩
        obtain ⟨here, other⟩ := not_or.mp (List.mem_cons.not.mp other)
        rw [kept i other, ← (setValue_eq_ok.mp set).2, List.getElem?_set_ne (Ne.symm here)]
      simp only at rest
      split at rest
      · next aliased =>
        obtain ⟨moved, _, rest⟩ := Outcome.bind_eq_ok.mp rest
        exact ⟨(later moved rest).1, fun other => absurd List.mem_cons_self (other colIdx aliased)⟩
      · obtain ⟨kept, stays⟩ := later newRowid rest
        exact ⟨kept, fun other => stays fun a aliased inRest => other a aliased (List.mem_cons_of_mem _ inRest)⟩

theorem getElem?_withAlias_self {rowid : Int64} {values : List Value} {i : Nat}
    (aliased : table.rowidAlias = some i) :
    (withAlias table rowid values)[i]? = if i < values.length then some (.integer rowid) else none := by
  rw [withAlias, aliased]
  dsimp only
  rw [List.getElem?_set, if_pos rfl]

/-- A row that is assigned shows its other columns as they were. -/
theorem starRow_of_assigned {plan : UpdatePlan Query} {found : Int64 × List Value}
    {entry changed : Int64 × Record} (taken : TakenFrom table found entry)
    (assigned : Assigned builtins table params plan found changed) {i : Nat}
    (other : i ∉ plan.assignments.map Prod.fst) :
    (starRow table changed).values[i]? = (starRow table entry).values[i]? := by
  obtain ⟨row, decoded, rfl⟩ := taken
  obtain ⟨values, made, _, encoded⟩ := assigned
  obtain ⟨kept, stays⟩ := assign_others made
  have width : values.length = row.values.length := (length_assign made).trans (length_withAlias ..)
  have widths : ((withAliasNulled table.rowidAlias values).map Value.stored).length = row.values.length := by
    rw [List.length_map, length_withAliasNulled, width]
  rw [starRow, starRow, List.getElem?_take, List.getElem?_take, shownRow_of_decode decoded,
    shownRow_of_decode (decode_asRecord encoded), widths]
  refine congrArg (fun v => if i < table.columns.length then v else none) ?_
  by_cases aliased : some i = table.rowidAlias
  · have here : changed.1 = entry.1 := stays fun a same => by
      obtain rfl : i = a := Option.some.inj (aliased.trans same)
      exact other
    rw [getElem?_withAlias_self aliased.symm, getElem?_withAlias_self aliased.symm, List.length_append, widths,
      List.length_append, here]
  · rw [getElem?_withAlias aliased, getElem?_withAlias aliased]
    by_cases within : i < row.values.length
    · rw [List.getElem?_append_left within, List.getElem?_append_left (widths.symm ▸ within),
        getElem?_stored aliased, kept i other, getElem?_withAlias aliased]
      have present := List.getElem?_eq_getElem within
      rw [present, Option.map_some, stored_of_decode decoded _ (List.getElem_mem within)]
    · rw [List.getElem?_append_right (not_lt.mp within), List.getElem?_append_right (widths.symm ▸ not_lt.mp within),
        widths]

theorem starRows_of_assigned {plan : UpdatePlan Query} {matching : List (Int64 × List Value)}
    {rows entries : Rows} (taken : List.Forall₂ (TakenFrom table) matching rows)
    (assigned : List.Forall₂ (Assigned builtins table params plan) matching entries) :
    List.Forall₂ (fun row row' : Row => ∀ i ∉ plan.assignments.map Prod.fst, row'.values[i]? = row.values[i]?)
        (rows.map (starRow table)) (entries.map (starRow table)) ∧
      ∀ entry ∈ entries, Readable table entry := by
  induction taken generalizing entries with
  | nil =>
      cases assigned
      exact ⟨.nil, fun entry member => by cases member⟩
  | cons first _ ih =>
      cases assigned with
      | cons here later =>
          obtain ⟨columns, readable⟩ := ih later
          have shown := fun i other => starRow_of_assigned (i := i) first here other
          obtain ⟨_, _, _, encoded⟩ := here
          exact ⟨.cons shown columns,
            List.forall_mem_cons.mpr ⟨readable_of_decode (decode_asRecord encoded), readable⟩⟩

end

/-! ## Queries for all columns -/

/-- What a query answers on the pages of a store. -/
def Answers {σ Query : Type} [PageSource σ] (builtins : Builtins) (params : List Value)
    (plan : LogicalPlan Query) (store : σ) (rows : List Row) : Prop :=
  ∃ after, Exec.Returns (Pull.collectAll (build builtins params plan : Executor σ).next)
    (store, (build builtins params plan : Executor σ).start) rows after

/-- Plans with the same executors answer the same. -/
theorem Answers.of_build {σ Query : Type} [PageSource σ] {builtins : Builtins} {params : List Value}
    {plan other : LogicalPlan Query} {store : σ} {rows : List Row}
    (answers : Answers builtins params plan store rows)
    (same : (build builtins params other : Executor σ) = build builtins params plan) :
    Answers builtins params other store rows := by
  rw [Answers, same]
  exact answers

/-- All columns of the rows of a table that a condition is true of. -/
def selectPlan {Query : Type} (table : Table) (predicate : Option (Expr Query)) : LogicalPlan Query :=
  project (predicate.elim (scanFor table) (.filter (scanFor table)))
    (expandWildcard (tableScope table) fun _ => true)

section

variable {σ Query : Type} [PageSource σ] [MapSource σ] {builtins : Builtins} {params : List Value}
  {table : Table} {predicate : Option (Expr Query)}

omit [PageSource σ] [MapSource σ] in
theorem expandWildcard_fst (scope : Scope) :
    (expandWildcard scope fun _ => true : List (Expr Query × ColumnInfo)).map Prod.fst =
      (List.range scope.length).map .column := by
  rw [expandWildcard, List.filter_eq_self.mpr fun _ _ => rfl, List.map_map, List.range_eq_range',
    ← List.zipIdx_map_snd, List.map_map]
  rfl

theorem roots_selectPlan : (selectPlan table predicate).roots = [table.rootPage] := by
  cases predicate with
  | none => rfl
  | some p => rfl

omit [PageSource σ] [MapSource σ] in
/-- The rows of FROM and WHERE. -/
theorem denotes_source {rows : Rows} {out : List Row} :
    Denotes builtins params (fun _ => rows) (predicate.elim (scanFor table) (.filter (scanFor table))) out ↔
      out = (rows.map (shownRow table)).filter (condition builtins params predicate) := by
  cases predicate with
  | none =>
      have all : (rows.map (shownRow table)).filter
          (condition builtins params (none : Option (Expr Query))) = rows.map (shownRow table) :=
        List.filter_eq_self.mpr fun _ _ => rfl
      rw [all]
      exact .rfl
  | some p =>
      constructor
      · rintro ⟨_, rfl, rfl⟩
        rfl
      · rintro rfl
        exact ⟨_, rfl, rfl⟩

omit [PageSource σ] [MapSource σ] in
theorem succeeds_selectPlan {rows : Rows} (selectable : Selectable table builtins params predicate rows) :
    Succeeds builtins params (fun _ => rows) (selectPlan table predicate) := by
  have scanned : Succeeds builtins params (fun _ => rows) (scanFor table : LogicalPlan Query) := by
    intro entry member
    rw [List.length_map]
    exact ⟨_, (selectable entry member).1⟩
  refine ⟨?_, fun source denotes row member e inExprs => ?_⟩
  · cases predicate with
    | none => exact scanned
    | some p =>
        refine ⟨scanned, ?_⟩
        rintro _ rfl row member
        obtain ⟨entry, inRows, rfl⟩ := List.mem_map.mp member
        exact (selectable entry inRows).2 p rfl
  · obtain rfl := denotes_source.mp denotes
    obtain ⟨entry, inRows, rfl⟩ := List.mem_map.mp (List.mem_filter.mp member).1
    rw [expandWildcard_fst, tableScope, List.length_map] at inExprs
    obtain ⟨i, within, rfl⟩ := List.mem_map.mp inExprs
    have wide := length_shownRow (selectable entry inRows).1
    exact ⟨_, Outcome.orErr_eq_ok.mpr (List.getElem?_eq_getElem ((List.mem_range.mp within).trans_le wide))⟩

omit [PageSource σ] [MapSource σ] in
theorem denotes_selectPlan {rows : Rows} (selectable : Selectable table builtins params predicate rows) :
    Denotes builtins params (fun _ => rows) (selectPlan table predicate)
      (starRows table builtins params predicate rows) := by
  refine ⟨_, denotes_source.mpr rfl, ?_⟩
  rw [starRows, List.filter_map, List.map_map]
  refine List.map_congr_left fun entry member => ?_
  have readable := (selectable entry (List.mem_filter.mp member).1).1
  have wide := length_shownRow readable
  have here : (shownRow table entry).rowId = entry.1 := TableScan.row_rowId readable
  rw [starRow, Function.comp_apply, here, expandWildcard_fst, tableScope, List.length_map, List.map_map]
  refine congrArg (Row.mk entry.1) (List.ext_getElem? fun i => ?_)
  rw [List.getElem?_map]
  by_cases within : i < table.columns.length
  · have present := List.getElem?_eq_getElem (within.trans_le wide)
    rw [List.getElem?_range within, Option.map_some, List.getElem?_take_of_lt within, present]
    have read : evalRow builtins params (.column i : Expr Query) (shownRow table entry) = .ok _ :=
      Outcome.orErr_eq_ok.mpr present
    exact congrArg some (valueOf_eq read).symm
  · rw [List.getElem?_take_eq_none (not_lt.mp within), List.getElem?_eq_none (by simpa using within),
      Option.map_none]

/-- A SELECT of all columns gives the rows that its condition is true of. -/
theorem answers_selectPlan {seen : View PageId PageData} {rows : Rows} {pages : List PageId}
    (tree : BTree.Tree seen table.rootPage rows pages)
    (selectable : Selectable table builtins params predicate rows) {store : σ} (same : view store = seen) :
    Answers builtins params (selectPlan table predicate) store
      (starRows table builtins params predicate rows) := by
  have held : ∀ root ∈ (selectPlan table predicate).roots, ∃ pages, BTree.Tree seen root rows pages := by
    intro root member
    rw [roots_selectPlan, List.mem_singleton] at member
    exact ⟨pages, member ▸ tree⟩
  obtain ⟨out, _, unique, answers⟩ :=
    drained_of_succeeds held (succeeds_selectPlan selectable) same
  rw [unique _ (denotes_selectPlan selectable)]
  exact answers

end

/-! ## Statements -/

section

variable {Sub : Type} (name : List Text) (selection : Option (SqlExpr Sub))

/-- `SELECT * FROM t WHERE ...` -/
def selectWhere : SqlStatement Sub :=
  .query (.mk false [] (.select ⟨none, [.wildcard], [⟨.table name none, []⟩], selection, [], none⟩) none none none)

/-- `DELETE FROM t WHERE ...` -/
def deleteWhere : SqlStatement Sub := .delete ⟨[⟨.table name none, []⟩], selection⟩

/-- `UPDATE t SET ... WHERE ...` -/
def updateWhere (assignments : List (Assignment Sub)) : SqlStatement Sub :=
  .update ⟨.table name none, assignments, selection⟩

end

section

variable {Sub : Type} {display : SqlDisplay Sub} {catalog : Catalog} {name : List Text}
  {selection : Option (SqlExpr Sub)} {table : Table} {predicate : Option (Expr Sub)}

/-- The condition of a DELETE is resolved over the columns of its table. -/
theorem plan_deleteWhere {made : DeletePlan Sub}
    (run : plan display catalog (deleteWhere name selection) = .ok (.delete made)) :
    ∃ table m, catalog.lookup (objectNameToString name) = .ok table ∧
      resolveOption (tableScope table) selection 0 = .ok made.predicate m ∧ made.table = table.name := by
  obtain ⟨made', planned, same⟩ := Outcome.bind_eq_ok.mp run
  obtain rfl := StatementPlan.delete.inj (Except.ok.inj same)
  obtain ⟨m, planned⟩ := Resolve.alone_eq_ok.mp planned
  obtain ⟨twj, one, first, planned⟩ := Exec.bind_eq_ok.mp planned
  obtain ⟨here, rfl⟩ := Exec.lift_eq_ok.mp first
  obtain rfl := Except.ok.inj here
  obtain ⟨⟨tableName, alias_⟩, two, named, planned⟩ := Exec.bind_eq_ok.mp planned
  obtain ⟨here, rfl⟩ := Exec.lift_eq_ok.mp named
  obtain ⟨rfl, rfl⟩ := Prod.mk.inj (Except.ok.inj here)
  obtain ⟨table, three, lookedUp, planned⟩ := Exec.bind_eq_ok.mp planned
  obtain ⟨found, rfl⟩ := Exec.lift_eq_ok.mp lookedUp
  obtain ⟨predicate, four, resolved, planned⟩ := Exec.bind_eq_ok.mp planned
  obtain ⟨rfl, rfl⟩ := Exec.pure_eq_ok.mp planned
  exact ⟨table, _, found, resolved, rfl⟩

/-- That of an UPDATE is, with the parameters behind those of its assignments. -/
theorem plan_updateWhere {assignments : List (Assignment Sub)} {made : UpdatePlan Sub}
    (run : plan display catalog (updateWhere name selection assignments) = .ok (.update made)) :
    ∃ table n m, catalog.lookup (objectNameToString name) = .ok table ∧
      resolveAssignments table assignments 0 = .ok made.assignments n ∧
      resolveOption (tableScope table) selection n = .ok made.predicate m ∧ made.table = table.name := by
  obtain ⟨made', planned, same⟩ := Outcome.bind_eq_ok.mp run
  obtain rfl := StatementPlan.update.inj (Except.ok.inj same)
  obtain ⟨m, planned⟩ := Resolve.alone_eq_ok.mp planned
  obtain ⟨⟨tableName, alias_⟩, one, named, planned⟩ := Exec.bind_eq_ok.mp planned
  obtain ⟨here, rfl⟩ := Exec.lift_eq_ok.mp named
  obtain ⟨rfl, rfl⟩ := Prod.mk.inj (Except.ok.inj here)
  obtain ⟨table, two, lookedUp, planned⟩ := Exec.bind_eq_ok.mp planned
  obtain ⟨found, rfl⟩ := Exec.lift_eq_ok.mp lookedUp
  obtain ⟨assigned, n, assigns, planned⟩ := Exec.bind_eq_ok.mp planned
  obtain ⟨predicate, three, resolved, planned⟩ := Exec.bind_eq_ok.mp planned
  obtain ⟨rfl, rfl⟩ := Exec.pure_eq_ok.mp planned
  exact ⟨table, n, _, found, assigns, resolved, rfl⟩

/-- So is that of a SELECT. -/
theorem plan_selectWhere {m : Nat} (found : catalog.lookup (objectNameToString name) = .ok table)
    (resolved : resolveOption (tableScope table) selection 0 = .ok predicate m) :
    plan display catalog (selectWhere name selection) =
      (foldPlan (selectPlan table predicate) >>= fun made => .ok (.query made made.columns)) := by
  have relation : resolveRelation catalog (.empty : CteMap Sub) (.table name none) =
      .ok (scanFor table, tableScope table) := by
    rw [resolveRelation, tableFactor, Outcome.ok_bind]
    dsimp only
    rw [FiniteMap.get?_empty]
    dsimp only
    rw [found]
    rfl
  have from_ : planFrom catalog (.empty : CteMap Sub)
      ⟨none, [.wildcard], [⟨.table name none, []⟩], selection, [], none⟩ =
        .ok (scanFor table, tableScope table) := by
    rw [planFrom, Resolve.alone, planEntries, relation]
    rfl
  have source : planSource catalog (.empty : CteMap Sub)
      ⟨none, [.wildcard], [⟨.table name none, []⟩], selection, [], none⟩ 0 =
        .ok (predicate.elim (scanFor table) (.filter (scanFor table)), tableScope table) m := by
    rw [planSource, from_]
    cases selection with
    | none =>
        obtain ⟨rfl, rfl⟩ := Exec.pure_eq_ok.mp resolved
        rfl
    | some e =>
        obtain ⟨p, _, here, rest⟩ := Exec.bind_eq_ok.mp resolved
        obtain ⟨rfl, rfl⟩ := Exec.pure_eq_ok.mp rest
        exact Exec.bind_eq_ok.mpr ⟨_, _, rfl, Exec.bind_eq_ok.mpr ⟨p, _, here, rfl⟩⟩
  have planned : planQuery display catalog (.mk false []
      (.select ⟨none, [.wildcard], [⟨.table name none, []⟩], selection, [], none⟩) none none none) 0 =
        .ok (selectPlan table predicate) m := by
    rw [planQuery, planQueryWith]
    refine Exec.bind_eq_ok.mpr ⟨_, _, rfl, Exec.bind_eq_ok.mpr ⟨_, _, source, ?_⟩⟩
    refine Exec.bind_eq_ok.mpr ⟨_, _, rfl, ?_⟩
    refine Exec.bind_eq_ok.mpr ⟨_, _, rfl, ?_⟩
    refine Exec.bind_eq_ok.mpr ⟨_, _, rfl, ?_⟩
    dsimp only
    rw [List.append_nil]
    rfl
  rw [selectWhere, plan, planSelect, Resolve.alone, planned, Outcome.ok_bind]
  cases foldPlan (selectPlan table predicate) with
  | error fault => rfl
  | ok made => rfl

/-- The columns stay as they are. -/
theorem foldPlan_selectPlan : foldPlan (selectPlan table (none : Option (Expr Sub))) = .ok (selectPlan table none) := by
  have columns : ((expandWildcard (tableScope table) fun _ => true : List (Expr Sub × ColumnInfo)).map
      Prod.fst).mapM fold = .ok ((expandWildcard (tableScope table) fun _ => true).map Prod.fst) := by
    rw [expandWildcard_fst, List.mapM_map]
    exact List.mapM_pure
  rw [selectPlan, project, foldPlan, columns]
  rfl

theorem plan_star (found : catalog.lookup (objectNameToString name) = .ok table) :
    plan display catalog (selectWhere name none) =
      .ok (.query (selectPlan table none) (selectPlan table (none : Option (Expr Sub))).columns) := by
  rw [plan_selectWhere found rfl, foldPlan_selectPlan]
  rfl

theorem plain_selectPlan (plain : ∀ p ∈ predicate, p.plain) : ∀ e ∈ (selectPlan table predicate).folded, e.plain := by
  intro e member
  rcases List.mem_append.mp member with inside | column
  · cases predicate with
    | none => cases inside
    | some p =>
        rcases List.mem_append.mp inside with none | here
        · cases none
        · exact plain e (congrArg some (List.mem_singleton.mp here).symm)
  · rw [expandWildcard_fst] at column
    obtain ⟨i, _, rfl⟩ := List.mem_map.mp column
    trivial

end

/-! ## DELETE -/

namespace Database

section

variable {σ Sub Query : Type} [PageSink σ] [MapSink σ] {display : SqlDisplay Sub} {builtins : Builtins}
  {db : Database σ} {tables : Tables} {name : List Text} {selection : Option (SqlExpr Sub)}
  {params : List Value} {clock : Clock} {fuel : Nat} {table : Table} {count : Nat} {store : Audited σ}

/-- The table that a statement names is the one it was planned with. -/
theorem table_of_lookup (named : Named tables) (holds : Holds tables db) {planned : Table} {given : Text}
    (found : db.2.lookup given = .ok planned) (again : db.2.lookup planned.name = .ok table) :
    table = planned ∧ ∃ rows, tables (Text.toAsciiLowercase given) = some (table, rows) := by
  have known : db.2.tables.get? (Text.toAsciiLowercase given) = some planned := Outcome.orErr_eq_ok.mp found
  have later : db.2.tables.get? (Text.toAsciiLowercase planned.name) = some table := Outcome.orErr_eq_ok.mp again
  rw [holds.get?] at known
  obtain ⟨⟨held, rows⟩, here, same⟩ := Option.map_eq_some_iff.mp known
  obtain rfl := same
  rw [named _ _ _ here, holds.get?, here] at later
  obtain rfl := Option.some.inj later
  exact ⟨rfl, rows, here⟩

/-- What queries give before a statement takes its rows. -/
theorem answers_of_matchingRows {rows : Rows} {pages : List PageId} {predicate : Option (Expr Sub)} {m : Nat}
    {query : LogicalPlan Sub} {columns : List ColumnInfo} {matching : List (Int64 × List Value)}
    (tree : BTree.Tree (view db.1) table.rootPage rows pages)
    (given : db.2.lookup (objectNameToString name) = .ok table)
    (resolved : resolveOption (tableScope table) selection 0 = .ok predicate m)
    (selects : plan display db.2 (selectWhere name selection) = .ok (.query query columns))
    (plain : ∀ p ∈ predicate, p.plain)
    (scanned : matchingRows builtins table params predicate rows = .ok matching) :
    Answers builtins params (selectPlan table (none : Option (Expr Sub))) db.1 (rows.map (starRow table)) ∧
      Answers builtins params query db.1 (starRows table builtins params predicate rows) ∧
      (starRows table builtins params predicate rows).Sublist (rows.map (starRow table)) ∧
      matching.length = (starRows table builtins params predicate rows).length ∧
      ∀ entry ∈ rows, Readable table entry := by
  obtain ⟨selectable, taken⟩ := taken_of_matchingRows scanned
  have readable : Selectable table builtins params (none : Option (Expr Sub)) rows := fun entry member =>
    ⟨(selectable entry member).1, fun p none => by cases none⟩
  rw [plan_selectWhere given resolved] at selects
  obtain ⟨folded, fold, same⟩ := Outcome.bind_eq_ok.mp selects
  obtain ⟨rfl, rfl⟩ := StatementPlan.query.inj (Except.ok.inj same)
  have all := answers_selectPlan tree readable (rfl : view db.1 = _)
  rw [starRows_none] at all
  refine ⟨all, ?_, List.filter_sublist.map _, ?_, fun entry member => (selectable entry member).1⟩
  · exact (answers_selectPlan tree selectable (rfl : view db.1 = _)).of_build
      (build_foldPlan (plain_selectPlan plain) fold)
  · rw [taken.length_eq, starRows, List.length_map]

/-- A query for all columns of a table gives its rows. -/
theorem answers_star {rows : Rows} {pages : List PageId}
    (tree : BTree.Tree (view store) table.rootPage rows pages) (readable : ∀ entry ∈ rows, Readable table entry) :
    Answers builtins params (selectPlan table (none : Option (Expr Sub))) store (rows.map (starRow table)) := by
  have selectable : Selectable table builtins params (none : Option (Expr Sub)) rows := fun entry member =>
    ⟨readable entry member, fun p none => by cases none⟩
  have answers := answers_selectPlan tree selectable (rfl : view store = _)
  rwa [starRows_none] at answers

end

end Database

/-! ## A row that is selected -/

/-- The table `t (a INTEGER)`, with a row. -/
def oneRow : List Bool × Database MemStore :=
  Database.attempts (displayOf "CREATE TABLE t (a INTEGER)" "") .bare [createT, insertOne] newDatabase

/-- Whether a plan is run on its table, and takes a row. -/
def takesRow (db : Database MemStore) (made : DmlPlan Empty) : Bool :=
  (db.2.lookup made.table).toOption.any fun table =>
    Exec.leaves ((⟨made, [], fun _ _ => 0, 6⟩ : Statement Empty).run .bare table) db.1
      fun count store => count == 1 && store.allFit

/-- The plan of a statement that changes rows. -/
def StatementPlan.rowChange : StatementPlan Empty → Option (DmlPlan Empty)
  | .insert made => some (.insert made)
  | .update made => some (.update made)
  | .delete made => some (.delete made)
  | _ => none

/-- `WHERE a` -/
def whereA : Option (SqlExpr Empty) := some (.identifier ['a'])

/-- `SET a = 2` -/
def setA : List (Assignment Empty) := [⟨.columnName [['a']], .value (.number ['2'])⟩]

/-- Whether each of the three statements is planned, and those that change rows take one. -/
def takesRowWhereA (display : SqlDisplay Empty) (db : Database MemStore) : Bool :=
  (plan display db.2 (selectWhere [['t']] whereA)).toOption.isSome &&
    ((plan display db.2 (deleteWhere [['t']] whereA)).toOption.any
        (fun made => made.rowChange.any (takesRow db)) &&
      (plan display db.2 (updateWhere [['t']] whereA setA)).toOption.any
        fun made => made.rowChange.any (takesRow db))

theorem oneRow_answers : oneRow.1 = [true, true] ∧ oneRow.2.1.allFit = true ∧
    takesRowWhereA (displayOf "CREATE TABLE t (a INTEGER)" "") oneRow.2 = true := by
  decide +kernel

theorem resolveOption_whereA {scope : Scope} {n m : Nat} {predicate : Option (Expr Empty)}
    (resolved : resolveOption scope whereA n = .ok predicate m) :
    (∃ i, predicate = some (.column i)) ∧ resolveOption scope whereA 0 = .ok predicate 0 := by
  obtain ⟨e, _, here, rest⟩ := Exec.bind_eq_ok.mp resolved
  obtain ⟨rfl, rfl⟩ := Exec.pure_eq_ok.mp rest
  rw [resolveExpr, if_neg fun both => absurd both.1 (by decide)] at here
  obtain ⟨i, _, found, rest⟩ := Exec.bind_eq_ok.mp here
  obtain ⟨column, rfl⟩ := Exec.lift_eq_ok.mp found
  obtain ⟨rfl, rfl⟩ := Exec.pure_eq_ok.mp rest
  refine ⟨⟨i, rfl⟩, ?_⟩
  refine Exec.bind_eq_ok.mpr ⟨.column i, 0, ?_, rfl⟩
  rw [resolveExpr, if_neg fun both => absurd both.1 (by decide)]
  exact Exec.bind_eq_ok.mpr ⟨i, 0, Exec.lift_eq_ok.mpr ⟨column, rfl⟩, rfl⟩

theorem takesRow_eq_true {db : Database MemStore} {made : DmlPlan Empty} (takes : takesRow db made = true) :
    ∃ table store, db.2.lookup made.table = .ok table ∧ store.allFit = true ∧
      (⟨made, [], fun _ _ => 0, 6⟩ : Statement Empty).run .bare table db.1 = .ok 1 store := by
  rw [takesRow] at takes
  cases found : db.2.lookup made.table with
  | error fault =>
      rw [found] at takes
      cases takes
  | ok table =>
      rw [found] at takes
      obtain ⟨count, store, run, answered⟩ := Exec.exists_of_leaves takes
      obtain ⟨one, fit⟩ := Bool.and_eq_true_iff.mp answered
      obtain rfl : count = 1 := by simpa using one
      exact ⟨table, store, rfl, fit, run⟩

/-- It is reached by requests. -/
theorem oneRow_holds : ∃ tables,
    History (displayOf "CREATE TABLE t (a INTEGER)" "") .bare [(createT, true), (insertOne, true)]
      (fun _ => none) tables ∧ Database.Holds tables oneRow.2 := by
  obtain ⟨answers, fit, _⟩ := oneRow_answers
  cases run : oneRow with
  | mk answers' after =>
  rw [run] at answers fit
  obtain rfl := answers
  obtain ⟨later, answered, remaining⟩ := Database.attempts_cons run
  have created := (List.cons.inj answered).1
  have schema : Database.SchemaReturns (displayOf "CREATE TABLE t (a INTEGER)" "") .bare
      [createT, insertOne] newDatabase :=
    ⟨fun _ => created.symm, fun ⟨_, same⟩ => (by cases same), trivial⟩
  obtain ⟨tables, history, held⟩ := (Database.holds_new newDatabase_tree rfl).attempts schema run fit
  exact ⟨tables, history, held⟩

theorem plain_whereA {scope : Scope} {n m : Nat} {predicate : Option (Expr Empty)}
    (resolved : resolveOption scope whereA n = .ok predicate m) : ∀ p ∈ predicate, p.plain := by
  obtain ⟨⟨i, rfl⟩, _⟩ := resolveOption_whereA resolved
  intro p same
  obtain rfl := Option.some.inj same
  trivial

theorem takesRowWhereA_eq_true {display : SqlDisplay Empty} {db : Database MemStore}
    (takes : takesRowWhereA display db = true) :
    (∃ query columns, plan display db.2 (selectWhere [['t']] whereA) = .ok (.query query columns)) ∧
      (∃ made, plan display db.2 (deleteWhere [['t']] whereA) = .ok (.delete made) ∧
        takesRow db (.delete made) = true) ∧
      ∃ made, plan display db.2 (updateWhere [['t']] whereA setA) = .ok (.update made) ∧
        takesRow db (.update made) = true := by
  obtain ⟨selects, takes⟩ := Bool.and_eq_true_iff.mp takes
  obtain ⟨deletes, updates⟩ := Bool.and_eq_true_iff.mp takes
  have given : ∀ {outcome : Outcome SqlError (StatementPlan Empty)} {made : StatementPlan Empty},
      outcome.toOption = some made → outcome = .ok made := by
    intro outcome made same
    cases outcome with
    | error fault => cases same
    | ok value => exact congrArg Except.ok (Option.some.inj same)
  obtain ⟨query, planned⟩ := Option.isSome_iff_exists.mp selects
  obtain ⟨deleted, planned', taken⟩ := (Option.any_eq_true _ _).mp deletes
  obtain ⟨updated, planned'', taken'⟩ := (Option.any_eq_true _ _).mp updates
  obtain ⟨⟨query, columns⟩, _, same⟩ := Outcome.bind_eq_ok.mp (given planned)
  obtain ⟨deleted, _, same'⟩ := Outcome.bind_eq_ok.mp (given planned')
  obtain ⟨updated, _, same''⟩ := Outcome.bind_eq_ok.mp (given planned'')
  obtain rfl := Except.ok.inj same
  obtain rfl := Except.ok.inj same'
  obtain rfl := Except.ok.inj same''
  exact ⟨⟨query, columns, given planned⟩, ⟨deleted, given planned', taken⟩, updated, given planned'', taken'⟩

end Squrust.Sql
