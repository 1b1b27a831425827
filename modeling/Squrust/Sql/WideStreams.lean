import Squrust.Sql.PlanColumns
import Squrust.Sql.WideRows

/-!
# Rows of well-indexed plans

Every operator of a well-indexed plan keeps what its inputs keep (`build_wide`): its rows have its
columns, and whatever fails in it is not an expression that misses a column. Operators that hold
rows back (the right side of a join, what has been sorted, the first row of a group) carry in their
invariant that those rows are wide, too.
-/

set_option autoImplicit false

namespace Squrust.Sql

open Squrust.Foundation

open Squrust.Foundation.Exec (Ensures)

section

variable {σ : Type}

/-- A row with this many values at least. -/
def Row.Wide (width : Nat) (row : Row) : Prop := width ≤ row.values.length

/-- The rows of an executor have its columns, in every state that keeps this. -/
def Executor.WideIn (exec : Executor σ) (inv : exec.State → Prop) : Prop :=
  Pull.Kept Elsewhere exec.next inv (Row.Wide exec.columns.length)

/-- Evaluation on rows that are wide enough. -/
def Compute.Quiet (width : Nat) (compute : Compute) : Prop :=
  ∀ row : Row, row.Wide width → (compute row).Ensures Elsewhere fun _ => True

theorem noRow_wide {width : Nat} : ∀ row ∈ (none : Option Row), Row.Wide width row :=
  fun _ absent => nomatch absent

namespace DualExec

theorem kept : Pull.Kept Elsewhere (next : Pull.Next σ Bool SqlError Row) (fun _ => True) (Row.Wide 0) := by
  intro fuel given _
  refine Ensures.own ?_
  cases given with
  | true => exact .pure ⟨trivial, noRow_wide⟩
  | false => exact .modifyOwn (.pure ⟨trivial, fun row _ => Nat.zero_le _⟩)

end DualExec

namespace TableScan

variable {width : Nat} {rowidAlias : Option Nat} {defaults : List Value}

/-- A record is filled up to the columns of its table. -/
theorem row_wide (filled : defaults.length = width) (key : Int64) (bytes : Bytes) :
    (row width rowidAlias defaults key bytes).Ensures Elsewhere (Row.Wide width) := by
  unfold row
  refine (Row.decode_elsewhere key bytes).bind fun decoded _ => ?_
  have filledUp : width ≤ (decoded.values ++ defaults.drop decoded.values.length).length := by
    rw [List.length_append, List.length_drop]
    omega
  by_cases short : decoded.values.length < width
  · rw [if_pos short, if_pos (by omega)]
    cases rowidAlias with
    | none => exact filledUp
    | some a => exact filledUp.trans (List.length_set ..).ge
  · rw [if_neg short]
    cases rowidAlias with
    | none => exact not_lt.mp short
    | some a => exact (not_lt.mp short).trans (List.length_set ..).ge

theorem firstFrom_elsewhere [Core.PageSource σ] (fuel : Nat) (root : Core.PageId) (key : Int64)
    (store after : σ) (fault : Fault SqlError) (failed : firstFrom fuel root key store = .error fault after) :
    Elsewhere fault := by
  obtain ⟨inner, _, rfl⟩ := Exec.mapError_eq_error.mp failed
  cases inner with
  | error e => rfl
  | panic reason => rfl
  | outOfFuel => rfl

theorem give_wide (filled : defaults.length = width) (state : State) (found : Option (Int64 × Bytes)) :
    Ensures Elsewhere state (give width rowidAlias defaults found : Exec (σ × State) SqlError (Option Row))
      fun item _ => True ∧ ∀ row ∈ item, Row.Wide width row := by
  cases found with
  | none => exact .modifyOwn (.pure ⟨trivial, noRow_wide⟩)
  | some entry =>
      obtain ⟨key, bytes⟩ := entry
      refine .lifted (row_wide filled key bytes) fun row wide => ?_
      have given : ∀ item ∈ some row, Row.Wide width item := by
        intro item same
        obtain rfl := Option.mem_some_iff.mp same
        exact wide
      dsimp only
      by_cases last : key = Int64.maxValue
      · rw [if_pos last]
        exact .modifyOwn (.pure ⟨trivial, given⟩)
      · rw [if_neg last]
        exact .modifyOwn (.pure ⟨trivial, given⟩)

theorem kept [Core.PageSource σ] {root : Core.PageId} {columns : List ColumnInfo}
    (filled : defaults.length = columns.length) :
    Pull.Kept Elsewhere (next root columns rowidAlias defaults : Pull.Next σ State SqlError Row)
      (fun _ => True) (Row.Wide columns.length) := by
  intro fuel state _
  refine Ensures.own ?_
  by_cases done : state.done = true
  · rw [if_pos done]
    exact .pure ⟨trivial, noRow_wide⟩
  · rw [if_neg done]
    have read : Ensures Elsewhere state
        (Exec.onStore (firstFrom fuel root state.nextKey) :
          Exec (σ × State) SqlError (Option (Int64 × Bytes))) fun _ _ => True :=
      .onStore (fun _ _ _ _ => trivial)
        fun store fault after failed => firstFrom_elsewhere fuel root _ store after fault failed
    exact read.bind fun found between _ => give_wide filled between found

end TableScan

/-! ## One row at a time -/

section

variable {input : Executor σ} {inv : input.State → Prop} (wide : input.WideIn inv)
include wide

theorem FilterExec.kept {predicate : Compute} (quiet : predicate.Quiet input.columns.length) :
    Pull.Kept Elsewhere (next input predicate) inv (Row.Wide input.columns.length) := by
  intro fuel
  induction fuel with
  | zero => exact fun state _ => .outOfFuel rfl
  | succ fuel ih =>
      intro state holds
      rw [next]
      refine (wide fuel state holds).bind fun item between given => ?_
      cases item with
      | none => exact .pure ⟨given.1, noRow_wide⟩
      | some row =>
          refine .lifted (quiet row (given.2 row rfl)) fun v _ => ?_
          by_cases truthy : v.isTruthy = true
          · rw [if_pos truthy]
            exact .pure given
          · rw [if_neg truthy]
            exact ih between given.1

theorem ProjectExec.kept {exprs : List Compute} (quiet : ∀ e ∈ exprs, e.Quiet input.columns.length) :
    Pull.Kept Elsewhere (next input exprs) inv (Row.Wide exprs.length) := by
  intro fuel state holds
  rw [next]
  refine (wide fuel state holds).bind fun item between given => ?_
  cases item with
  | none => exact .pure ⟨given.1, noRow_wide⟩
  | some row =>
      refine .lifted (.mapM fun e listed => quiet e listed row (given.2 row rfl)) fun values made => ?_
      refine .pure ⟨given.1, fun out same => ?_⟩
      obtain rfl := Option.mem_some_iff.mp same
      exact made.1.ge

namespace LimitExec

theorem pullInput_wide {state : State input} (holds : inv state.input) (fuel : Nat) :
    Ensures Elsewhere state (pullInput input fuel) fun item after =>
      inv after.input ∧ ∀ row ∈ item, Row.Wide input.columns.length row :=
  .onInner (wide fuel state.input holds) fun _ _ given => given

theorem kept (limit : Option UInt64) (offset : UInt64) :
    Pull.Kept Elsewhere (next input limit offset) (fun state => inv state.input)
      (Row.Wide input.columns.length) := by
  intro fuel
  induction fuel with
  | zero => exact fun state _ => .outOfFuel rfl
  | succ fuel ih =>
      intro state holds
      rw [next]
      refine Ensures.own ?_
      by_cases skips : state.skipped < offset.toNat
      · rw [if_pos skips]
        refine (pullInput_wide wide holds fuel).bind fun item between given => ?_
        cases item with
        | none => exact .pure ⟨given.1, noRow_wide⟩
        | some row => exact .modifyOwn (ih _ given.1)
      · rw [if_neg skips]
        by_cases reached : (limit.any fun l => l.toNat ≤ state.emitted) = true
        · rw [if_pos reached]
          exact .pure ⟨holds, noRow_wide⟩
        · rw [if_neg reached]
          refine (pullInput_wide wide holds fuel).bind fun item between given => ?_
          cases item with
          | none => exact .pure ⟨given.1, noRow_wide⟩
          | some row => exact .modifyOwn (.pure given)

end LimitExec

theorem DistinctExec.kept :
    Pull.Kept Elsewhere (next input) (fun state => inv state.input) (Row.Wide input.columns.length) := by
  intro fuel
  induction fuel with
  | zero => exact fun state _ => .outOfFuel rfl
  | succ fuel ih =>
      intro state holds
      rw [next]
      have pulled : Ensures Elsewhere state
          (Exec.onInner State.input (fun inner self => { self with input := inner }) (input.next fuel))
          fun item after => inv after.input ∧ ∀ row ∈ item, Row.Wide input.columns.length row :=
        .onInner (wide fuel state.input holds) fun _ _ given => given
      refine pulled.bind fun item between given => ?_
      cases item with
      | none => exact .pure ⟨given.1, noRow_wide⟩
      | some row =>
          refine Ensures.own ?_
          by_cases seen : (between.seen.any fun prev => rowsEq prev row.values) = true
          · rw [if_pos seen]
            exact ih between given.1
          · rw [if_neg seen]
            exact .modifyOwn (.pure given)

end

/-! ## Joins -/

/-- The rows of an input that is drained have its columns. -/
theorem drain_wide {τ : Type} {input : Executor σ} {inv : input.State → Prop} (wide : input.WideIn inv)
    {taken : input.State} (holds : inv taken) (fuel : Nat) (state : τ) :
    Ensures Elsewhere state (drain input taken fuel : Exec (σ × τ) SqlError (List Row)) fun rows after =>
      after = state ∧ ∀ row ∈ rows, Row.Wide input.columns.length row :=
  .onInner (Pull.Kept.collectAll Elsewhere.outOfFuel wide fuel holds) fun _ _ given => ⟨rfl, given.2⟩

namespace NestedLoopJoin

variable {left right : Executor σ} {leftInv : left.State → Prop} {rightInv : right.State → Prop}

/-- What a join carries: both inputs as they should be, and rows of them. -/
structure Carries (leftInv : left.State → Prop) (rightInv : right.State → Prop) (state : State left right) :
    Prop where
  onLeft : leftInv state.left
  onRight : ∀ taken ∈ state.right, rightInv taken
  rightRows : ∀ row ∈ state.rightRows, Row.Wide right.columns.length row
  curLeft : ∀ row ∈ state.curLeft, Row.Wide left.columns.length row

theorem ensureRight_wide (wideRight : right.WideIn rightInv) {state : State left right}
    (carries : Carries leftInv rightInv state) (fuel : Nat) :
    Ensures Elsewhere state (ensureRight left right fuel : Exec (σ × State left right) SqlError Unit)
      fun _ after => Carries leftInv rightInv after := by
  rw [ensureRight]
  refine Ensures.own ?_
  by_cases ready : state.rightReady = true
  · rw [if_pos ready]
    exact .pure carries
  · rw [if_neg ready]
    cases input : state.right with
    | none =>
        have after : Carries leftInv rightInv { state with rightReady := true } := { carries with }
        exact .changed after
    | some taken =>
        refine .modifyOwn ?_
        refine (drain_wide wideRight (carries.onRight taken input) fuel _).bind fun rows between read => ?_
        obtain ⟨rfl, made⟩ := read
        have after : Carries leftInv rightInv
            { state with right := none, rightRows := rows, rightReady := true } :=
          { carries with onRight := fun _ absent => (nomatch absent), rightRows := made }
        exact .modifyOwn (.changed after)

variable {predicate : Option Compute}
  (quiet : ∀ p ∈ predicate, p.Quiet (left.columns.length + right.columns.length))
include quiet

theorem keeps_elsewhere {combined : Row} (wide : combined.Wide (left.columns.length + right.columns.length)) :
    (keeps predicate combined).Ensures Elsewhere fun _ => True := by
  cases predicate with
  | none => trivial
  | some p => exact (quiet p rfl combined wide).bind fun _ _ => trivial

theorem loop_wide (wideLeft : left.WideIn leftInv) (leftOuter : Bool) (fuel : Nat) {state : State left right}
    (carries : Carries leftInv rightInv state) :
    Ensures Elsewhere state (loop left right predicate leftOuter fuel) fun item after =>
      Carries leftInv rightInv after ∧
        ∀ row ∈ item, Row.Wide (left.columns.length + right.columns.length) row := by
  induction fuel generalizing state with
  | zero => exact .outOfFuel rfl
  | succ fuel ih =>
      rw [loop]
      refine Ensures.own ?_
      cases current : state.curLeft with
      | none =>
          have pulled : Ensures Elsewhere state
              (Exec.onInner State.left (fun inner self => { self with left := inner }) (left.next fuel))
              fun item after => Carries leftInv rightInv after ∧
                ∀ row ∈ item, Row.Wide left.columns.length row :=
            .onInner (wideLeft fuel state.left carries.onLeft) fun _ _ given =>
              ⟨{ carries with onLeft := given.1 }, given.2⟩
          refine pulled.bind fun item between given => ?_
          cases item with
          | none => exact .pure ⟨given.1, noRow_wide⟩
          | some row => exact .modifyOwn (ih { given.1 with curLeft := given.2 })
      | some leftRow =>
          have leftWide := carries.curLeft leftRow current
          cases found : state.rightRows[state.rightIdx]? with
          | some rightRow =>
              have rightWide := carries.rightRows rightRow (List.mem_of_getElem? found)
              have combined : (⟨leftRow.rowId, leftRow.values ++ rightRow.values⟩ : Row).Wide
                  (left.columns.length + right.columns.length) :=
                (add_le_add leftWide rightWide).trans (List.length_append ..).ge
              refine .modifyOwn <| .lifted (keeps_elsewhere quiet combined) fun kept _ => ?_
              cases kept with
              | true =>
                  refine .modifyOwn (.pure ⟨{ carries with }, fun row same => ?_⟩)
                  obtain rfl := Option.mem_some_iff.mp same
                  exact combined
              | false => exact ih { carries with }
          | none =>
              have alone : Carries leftInv rightInv { state with curLeft := none } :=
                { carries with curLeft := noRow_wide }
              refine .modifyOwn ?_
              by_cases outer : (leftOuter && !state.matched) = true
              · rw [if_pos outer]
                refine .pure ⟨alone, fun row same => ?_⟩
                obtain rfl := Option.mem_some_iff.mp same
                change _ ≤ (leftRow.values ++ _).length
                rw [List.length_append, List.length_replicate]
                exact Nat.add_le_add_right leftWide _
              · rw [if_neg outer]
                exact ih alone

theorem kept (wideLeft : left.WideIn leftInv) (wideRight : right.WideIn rightInv) (leftOuter : Bool) :
    Pull.Kept Elsewhere (next left right predicate leftOuter) (Carries leftInv rightInv)
      (Row.Wide (left.columns.length + right.columns.length)) := by
  intro fuel state carries
  rw [next]
  refine (ensureRight_wide wideRight carries fuel).bind fun _ between ready => ?_
  exact loop_wide quiet wideLeft leftOuter fuel ready

end NestedLoopJoin

/-! ## Operators that read their whole input first -/

/-- Rows that are held back are given one by one. -/
theorem nextProduced_wide {τ : Type} {get : τ → Option (List Row)} {set : Option (List Row) → τ → τ}
    {compute : Exec (σ × τ) SqlError (List Row)} {inv : τ → Prop} {width : Nat} {state : τ} (holds : inv state)
    (held : ∀ state, inv state → ∀ rows ∈ get state, ∀ row ∈ rows, Row.Wide width row)
    (computes : ∀ state, inv state → Ensures Elsewhere state compute fun rows after =>
      inv after ∧ ∀ row ∈ rows, Row.Wide width row)
    (stores : ∀ rows state, inv state → (∀ row ∈ rows, Row.Wide width row) → inv (set (some rows) state)) :
    Ensures Elsewhere state (nextProduced get set compute) fun item after =>
      inv after ∧ ∀ row ∈ item, Row.Wide width row := by
  have gives : ∀ (rows : List Row) (state : τ), inv state → (∀ row ∈ rows, Row.Wide width row) →
      Ensures Elsewhere state
        (do
          Exec.modifyOwn (set (some rows.tail))
          return rows.head? : Exec (σ × τ) SqlError (Option Row))
        fun item after => inv after ∧ ∀ row ∈ item, Row.Wide width row := by
    intro rows state holds wide
    refine .modifyOwn (.pure ⟨stores _ _ holds fun row later => wide row (List.mem_of_mem_tail later), ?_⟩)
    exact fun row first => wide row (List.mem_of_mem_head? first)
  rw [nextProduced]
  refine Ensures.own ?_
  cases there : get state with
  | some rows => exact gives rows state holds (held state holds rows there)
  | none => exact (computes state holds).bind fun rows between made => gives rows between made.1 made.2

namespace SortExec

variable {input : Executor σ} {inv : input.State → Prop}

structure Carries (inv : input.State → Prop) (state : State input) : Prop where
  onInput : ∀ taken ∈ state.input, inv taken
  produced : ∀ rows ∈ state.produced, ∀ row ∈ rows, Row.Wide input.columns.length row

theorem sorted_wide {keys : List (SortKey Compute)} {width : Nat}
    (quiet : ∀ key ∈ keys, key.expr.Quiet width) {rows : List Row} (wide : ∀ row ∈ rows, row.Wide width) :
    (sorted keys rows).Ensures Elsewhere fun made => ∀ row ∈ made, row.Wide width := by
  have keyed : (rows.mapM fun row => do return (← keys.mapM fun k => k.expr row, row) :
      Outcome SqlError (List (List Value × Row))).Ensures Elsewhere fun keyed =>
        keyed.length = rows.length ∧ ∀ pair ∈ keyed, pair.2.Wide width :=
    .mapM fun row listed =>
      .bind (.mapM fun key among => quiet key among row (wide row listed)) fun _ _ => wide row listed
  refine keyed.bind fun keyed made row among => ?_
  obtain ⟨pair, there, rfl⟩ := List.mem_map.mp among
  exact made.2 pair ((List.mergeSort_perm ..).mem_iff.mp there)

theorem kept (wide : input.WideIn inv) {keys : List (SortKey Compute)}
    (quiet : ∀ key ∈ keys, key.expr.Quiet input.columns.length) :
    Pull.Kept Elsewhere (next input keys) (Carries inv) (Row.Wide input.columns.length) := by
  intro fuel state carries
  refine nextProduced_wide carries (fun _ carries => carries.produced) (fun state carries => ?_)
    fun rows state carries made => { carries with produced := fun _ same => by cases same; exact made }
  rw [sortRows]
  refine Ensures.own <| .lifted (.orPanic rfl carries.onInput) fun taken holds => .modifyOwn ?_
  refine (drain_wide wide holds fuel _).bind fun rows between read => ?_
  obtain ⟨rfl, made⟩ := read
  have after : Carries inv { state with input := none } :=
    { carries with onInput := fun _ absent => (nomatch absent) }
  exact .lift ((sorted_wide quiet made).mono fun _ wide => ⟨after, wide⟩)

end SortExec

namespace SetOpExec

variable {left right : Executor σ} {leftInv : left.State → Prop} {rightInv : right.State → Prop}

structure Carries (leftInv : left.State → Prop) (rightInv : right.State → Prop) (width : Nat)
    (state : State left right) : Prop where
  onLeft : ∀ taken ∈ state.left, leftInv taken
  onRight : ∀ taken ∈ state.right, rightInv taken
  produced : ∀ rows ∈ state.produced, ∀ row ∈ rows, Row.Wide width row

theorem mem_of_dedup {seen : List (List Value)} {rows : List Row} {row : Row} (kept : row ∈ dedup seen rows) :
    row ∈ rows := by
  induction rows generalizing seen with
  | nil => exact kept
  | cons first rows ih =>
      rw [dedup] at kept
      split at kept
      · exact List.mem_cons_of_mem _ (ih kept)
      · rcases List.mem_cons.mp kept with rfl | later
        · exact List.mem_cons_self
        · exact List.mem_cons_of_mem _ (ih later)

/-- A set operation makes up no row. -/
theorem mem_of_combine {kind : SetOpKind} {all : Bool} {lrows rrows : List Row} {row : Row}
    (made : row ∈ combine kind all lrows rrows) : row ∈ lrows ∨ row ∈ rrows := by
  have unsorted : ∀ {rows : List Row}, row ∈ sortRows (dedup [] rows) → row ∈ rows :=
    fun sorted => mem_of_dedup ((List.mergeSort_perm ..).mem_iff.mp sorted)
  cases kind with
  | union =>
      cases all with
      | true => exact List.mem_append.mp made
      | false => exact List.mem_append.mp (unsorted made)
  | intersect | except => exact .inl (List.mem_filter.mp (unsorted made)).1

theorem kept (wideLeft : left.WideIn leftInv) (wideRight : right.WideIn rightInv)
    (same : right.columns.length = left.columns.length) (kind : SetOpKind) (all : Bool) :
    Pull.Kept Elsewhere (next left right kind all) (Carries leftInv rightInv left.columns.length)
      (Row.Wide left.columns.length) := by
  intro fuel state carries
  refine nextProduced_wide carries (fun _ carries => carries.produced) (fun state carries => ?_)
    fun rows state carries made => { carries with produced := fun _ same => by cases same; exact made }
  rw [compute]
  refine Ensures.own <| .lifted (.orPanic rfl carries.onLeft) fun takenLeft holdsLeft => .modifyOwn ?_
  refine (drain_wide wideLeft holdsLeft fuel _).bind fun lrows between read => ?_
  obtain ⟨rfl, madeLeft⟩ := read
  refine .lifted (.orPanic rfl carries.onRight) fun takenRight holdsRight => .modifyOwn ?_
  refine (drain_wide wideRight holdsRight fuel _).bind fun rrows between read => ?_
  obtain ⟨rfl, madeRight⟩ := read
  have after : Carries leftInv rightInv left.columns.length { state with left := none, right := none } :=
    { carries with
      onLeft := fun _ absent => (nomatch absent)
      onRight := fun _ absent => (nomatch absent) }
  refine .pure ⟨after, fun row made => ?_⟩
  rcases mem_of_combine made with onLeft | onRight
  · exact madeLeft row onLeft
  · exact same ▸ madeRight row onRight

end SetOpExec

/-! ## Groups -/

namespace AggExec

/-- The expressions of an aggregation find the columns they read: HAVING has the results of the
aggregates beside the row. -/
structure Exprs.Quiet (exprs : Exprs) : Prop where
  groupBy : ∀ e ∈ exprs.groupBy, e.Quiet exprs.baseLen
  arg : ∀ agg ∈ exprs.aggs, ∀ e ∈ agg.arg, e.Quiet exprs.baseLen
  sep : ∀ agg ∈ exprs.aggs, ∀ e ∈ agg.sep, e.Quiet exprs.baseLen
  output : ∀ e, .expr e ∈ exprs.output → e.Quiet exprs.baseLen
  having : ∀ e ∈ exprs.having, e.Quiet (exprs.baseLen + exprs.aggs.length)

/-- A group has an accumulator for each aggregate, and a whole row if it has one. -/
structure Holds (exprs : Exprs) (group : Group) : Prop where
  accs : group.accs.length = exprs.aggs.length
  rep : group.hasRep = true → group.rep.Wide exprs.baseLen

variable {exprs : Exprs}

theorem holds_new {key : List Value} {row : Row} (wide : row.Wide exprs.baseLen) :
    Holds exprs (.new key exprs.aggs.length row) :=
  ⟨List.length_replicate, fun _ => wide⟩

theorem updateAccs_elsewhere {row : Row} {width : Nat} (wide : row.Wide width) {aggs : List (AggExpr Compute)}
    (arg : ∀ agg ∈ aggs, ∀ e ∈ agg.arg, e.Quiet width) (sep : ∀ agg ∈ aggs, ∀ e ∈ agg.sep, e.Quiet width)
    (accs : List Acc) :
    (updateAccs row aggs accs).Ensures Elsewhere fun made => made.length = accs.length := by
  induction aggs generalizing accs with
  | nil => exact rfl
  | cons agg aggs ih =>
      cases accs with
      | nil => exact rfl
      | cons acc accs =>
          have later := ih (fun agg there => arg agg (List.mem_cons_of_mem _ there))
            (fun agg there => sep agg (List.mem_cons_of_mem _ there)) accs
          have updated : ∀ v sep, (do return acc.update agg v sep :: (← updateAccs row aggs accs) :
              Outcome SqlError (List Acc)).Ensures Elsewhere fun made => made.length = accs.length + 1 :=
            fun _ _ => later.bind fun _ same => congrArg Nat.succ same
          have evaluated : ∀ e ∈ agg.arg, (e row).Ensures Elsewhere fun _ => True := fun e given =>
            arg agg List.mem_cons_self e given row wide
          rw [updateAccs]
          by_cases concat : agg.func = .groupConcat
          · simp only [if_pos concat]
            cases separator : agg.sep with
            | none =>
                cases given : agg.arg with
                | none => exact updated .null _
                | some e => exact (evaluated e given).bind fun v _ => updated v _
            | some e' =>
                have separated := sep agg List.mem_cons_self e' separator row wide
                cases given : agg.arg with
                | none => exact separated.bind fun _ _ => updated .null _
                | some e => exact (evaluated e given).bind fun v _ => separated.bind fun _ _ => updated v _
          · simp only [if_neg concat]
            cases given : agg.arg with
            | none => exact updated .null none
            | some e => exact (evaluated e given).bind fun v _ => updated v none

theorem length_resize (values : List Value) (n : Nat) : n ≤ (resize values n).length := by
  rw [resize, List.length_append, List.length_take, List.length_replicate]
  omega

section

variable (quiet : exprs.Quiet)
include quiet

theorem addRow_holds {groups : List Group} (holds : ∀ group ∈ groups, Holds exprs group) {row : Row}
    (wide : row.Wide exprs.baseLen) :
    (addRow exprs groups row).Ensures Elsewhere fun made => ∀ group ∈ made, Holds exprs group := by
  rw [addRow]
  refine .bind (.mapM fun e listed => quiet.groupBy e listed row wide) fun key _ => ?_
  cases found : groups.findIdx? fun g => keysEq g.key key with
  | some i =>
      refine .bind (.orPanic rfl fun group there => holds group (List.mem_of_getElem? there)) fun group kept => ?_
      refine (updateAccs_elsewhere wide quiet.arg quiet.sep group.accs).bind fun accs same => ?_
      intro other among
      rcases List.mem_or_eq_of_mem_set among with there | rfl
      · exact holds other there
      · exact ⟨same.trans kept.accs, kept.rep⟩
  | none =>
      refine (updateAccs_elsewhere wide quiet.arg quiet.sep _).bind fun accs same => ?_
      refine List.forall_mem_append.mpr ⟨holds, List.forall_mem_singleton.mpr ⟨?_, fun _ => wide⟩⟩
      exact same.trans List.length_replicate

theorem groupRows_holds {rows : List Row} (wide : ∀ row ∈ rows, row.Wide exprs.baseLen) :
    (groupRows exprs rows).Ensures Elsewhere fun groups => ∀ group ∈ groups, Holds exprs group := by
  rw [groupRows]
  refine Outcome.Ensures.bind (.foldlM (fun made holds row among => addRow_holds quiet holds (wide row among))
    (List.forall_mem_nil _)) fun groups holds => ?_
  refine .ite ?_ ?_
  · exact List.forall_mem_singleton.mpr ⟨List.length_replicate, fun present => by cases present⟩
  · exact fun group among => holds group ((List.mergeSort_perm ..).mem_iff.mp among)

theorem outputRow_wide {group : Group} (holds : Holds exprs group) :
    (outputRow exprs group).Ensures Elsewhere fun row? => ∀ row ∈ row?, row.Wide exprs.output.length := by
  have written : ∀ f : OutputCol Compute → Outcome SqlError Value,
      (∀ col ∈ exprs.output, (f col).Ensures Elsewhere fun _ => True) → ∀ keep : Bool,
      Outcome.Ensures Elsewhere
        (do
          if keep then
            let values ← exprs.output.mapM f
            return some ⟨0, values⟩
          else return none : Outcome SqlError (Option Row))
        fun row? => ∀ row ∈ row?, Row.Wide exprs.output.length row := by
    intro f computed keep
    refine .ite (.bind (.mapM computed) fun values made row same => ?_) noRow_wide
    obtain rfl := Option.mem_some_iff.mp same
    exact made.1.ge
  have represented : ∀ e : Compute, OutputCol.expr e ∈ exprs.output →
      (if group.hasRep then e group.rep else return .null : Outcome SqlError Value).Ensures Elsewhere
        fun _ => True := by
    intro e listed
    by_cases present : group.hasRep = true
    · rw [if_pos present]
      exact quiet.output e listed group.rep (holds.rep present)
    · rw [if_neg present]
      trivial
  rw [outputRow]
  cases given : exprs.having with
  | none =>
      refine written _ (fun col listed => ?_) true
      cases col with
      | agg i => exact .orPanic rfl fun _ _ => trivial
      | expr e => exact represented e listed
  | some h =>
      refine Outcome.Ensures.bind (quiet.having h given _ ?_) fun v _ =>
        written _ (fun col listed => ?_) v.isTruthy
      case refine_2 =>
        cases col with
        | agg i => exact .orPanic rfl fun _ _ => trivial
        | expr e => exact represented e listed
      change exprs.baseLen + exprs.aggs.length ≤ (_ ++ List.zipWith _ _ _).length
      rw [List.length_append, List.length_zipWith, holds.accs, min_self]
      exact Nat.add_le_add_right (length_resize ..) _

theorem aggregate_wide {rows : List Row} (wide : ∀ row ∈ rows, row.Wide exprs.baseLen) :
    (aggregate exprs rows).Ensures Elsewhere fun made => ∀ row ∈ made, row.Wide exprs.output.length := by
  rw [aggregate]
  refine (groupRows_holds quiet wide).bind fun groups holds => ?_
  refine .bind (.mapM fun group among => outputRow_wide quiet (holds group among)) fun made given row among => ?_
  obtain ⟨row?, there, same⟩ := List.mem_filterMap.mp among
  exact given.2 row? there row same

end

structure Carries {input : Executor σ} (inv : input.State → Prop) (width : Nat) (state : State input) : Prop where
  onInput : ∀ taken ∈ state.input, inv taken
  produced : ∀ rows ∈ state.produced, ∀ row ∈ rows, Row.Wide width row

theorem kept {input : Executor σ} {inv : input.State → Prop} (wide : input.WideIn inv) (quiet : exprs.Quiet)
    (whole : exprs.baseLen = input.columns.length) :
    Pull.Kept Elsewhere (next exprs input) (Carries inv exprs.output.length) (Row.Wide exprs.output.length) := by
  intro fuel state carries
  refine nextProduced_wide carries (fun _ carries => carries.produced) (fun state carries => ?_)
    fun rows state carries made => { carries with produced := fun _ same => by cases same; exact made }
  rw [compute]
  refine Ensures.own <| .lifted (.orPanic rfl carries.onInput) fun taken holds => .modifyOwn ?_
  refine (drain_wide wide holds fuel _).bind fun rows between read => ?_
  obtain ⟨rfl, made⟩ := read
  have after : Carries inv exprs.output.length { state with input := none } :=
    { carries with onInput := fun _ absent => (nomatch absent) }
  exact .lift ((aggregate_wide quiet (whole ▸ made)).mono fun _ wide => ⟨after, wide⟩)

end AggExec

/-! ## Plans -/

section

variable {Query : Type} {builtins : Builtins} (quiet : builtins.NoColumns) (params : List Value)
include quiet

theorem evalRow_quiet {e : Expr Query} {width : Nat} (within : e.Within width) :
    (evalRow builtins params e).Quiet width :=
  fun _ wide => eval_elsewhere quiet wide within

theorem evalOption_quiet {e? : Option (Expr Query)} {width : Nat} (within : OptionWithin width e?) :
    ∀ compute ∈ e?.map (evalRow builtins params), compute.Quiet width := by
  intro compute present
  obtain ⟨e, there, rfl⟩ := Option.mem_map.mp present
  exact evalRow_quiet quiet params (optionWithin_iff.mp within e there)

theorem evalList_quiet {exprs : List (Expr Query)} {width : Nat} (within : ListWithin width exprs) :
    ∀ compute ∈ exprs.map (evalRow builtins params), compute.Quiet width := by
  intro compute present
  obtain ⟨e, there, rfl⟩ := List.mem_map.mp present
  exact evalRow_quiet quiet params (listWithin_iff.mp within e there)

theorem aggregate_quiet {baseLen : Nat} {groupBy : List (Expr Query)} {aggs : List (AggExpr (Expr Query))}
    {output : List (OutputCol (Expr Query))} {having : Option (Expr Query)}
    (inGroupBy : ListWithin baseLen groupBy) (inAggs : ∀ agg ∈ aggs, agg.Within baseLen)
    (inOutput : ∀ col ∈ output, col.Within baseLen aggs.length)
    (inHaving : OptionWithin (baseLen + aggs.length) having) :
    AggExec.Exprs.Quiet ⟨groupBy.map (evalRow builtins params), aggs.map (.map (evalRow builtins params)),
      output.map (.map (evalRow builtins params)), baseLen, having.map (evalRow builtins params)⟩ where
  groupBy := evalList_quiet quiet params inGroupBy
  arg := by
    intro agg listed
    obtain ⟨a, there, rfl⟩ := List.mem_map.mp listed
    exact evalOption_quiet quiet params (inAggs a there).1
  sep := by
    intro agg listed
    obtain ⟨a, there, rfl⟩ := List.mem_map.mp listed
    exact evalOption_quiet quiet params (inAggs a there).2
  output := by
    intro e listed
    obtain ⟨col, there, same⟩ := List.mem_map.mp listed
    cases col with
    | agg i => cases same
    | expr inner =>
        obtain rfl := OutputCol.expr.inj same
        exact evalRow_quiet quiet params (inOutput _ there)
  having := by
    rw [List.length_map]
    exact evalOption_quiet quiet params inHaving

/-- The executor of a well-indexed plan starts with an invariant under which its rows are wide. -/
theorem build_wide [Core.PageSource σ] {plan : LogicalPlan Query} (indexed : plan.WellIndexed) :
    ∃ inv, inv (build builtins params plan : Executor σ).start ∧
      (build builtins params plan : Executor σ).WideIn inv := by
  have columns : ∀ plan : LogicalPlan Query,
      (build builtins params plan : Executor σ).columns = plan.columns := columns_build builtins params
  induction plan with
  | dual => exact ⟨fun _ => True, trivial, DualExec.kept⟩
  | scan table rootPage columns rowidAlias defaults =>
      exact ⟨fun _ => True, trivial, TableScan.kept indexed⟩
  | filter input predicate ih =>
      obtain ⟨inv, starts, wide⟩ := ih indexed.1
      exact ⟨inv, starts, FilterExec.kept wide (evalRow_quiet quiet params (columns input ▸ indexed.2))⟩
  | project input exprs names ih =>
      obtain ⟨inv, starts, wide⟩ := ih indexed.1
      refine ⟨inv, starts, ?_⟩
      have kept := ProjectExec.kept wide (evalList_quiet quiet params (columns input ▸ indexed.2.1))
      rwa [List.length_map, indexed.2.2] at kept
  | nestedLoopJoin left right predicate leftOuter names ihLeft ihRight =>
      obtain ⟨indexedLeft, indexedRight, width, within⟩ := indexed
      obtain ⟨leftInv, leftStarts, leftWide⟩ := ihLeft indexedLeft
      obtain ⟨rightInv, rightStarts, rightWide⟩ := ihRight indexedRight
      rw [← columns left, ← columns right] at width
      refine ⟨NestedLoopJoin.Carries leftInv rightInv, ⟨leftStarts, ?_, ?_, noRow_wide⟩, ?_⟩
      · exact fun taken same => Option.mem_some_iff.mp same ▸ rightStarts
      · exact fun row absent => nomatch absent
      · rw [width] at within
        have kept := NestedLoopJoin.kept (evalOption_quiet quiet params within) leftWide rightWide leftOuter
        rwa [← width] at kept
  | aggregate input groupBy aggs output names baseLen having ih =>
      obtain ⟨indexedInput, whole, width, inGroupBy, inAggs, inOutput, inHaving⟩ := indexed
      obtain ⟨inv, starts, wide⟩ := ih indexedInput
      have quietExprs := aggregate_quiet quiet params inGroupBy inAggs inOutput inHaving
      have kept := AggExec.kept wide quietExprs (whole.trans (congrArg List.length (columns input)).symm)
      rw [List.length_map, width] at kept
      exact ⟨AggExec.Carries inv names.length,
        ⟨fun taken same => Option.mem_some_iff.mp same ▸ starts, fun rows absent => nomatch absent⟩, kept⟩
  | sort input keys ih =>
      obtain ⟨inv, starts, wide⟩ := ih indexed.1
      refine ⟨SortExec.Carries inv, ?_, SortExec.kept wide fun key listed => ?_⟩
      · exact ⟨fun taken same => Option.mem_some_iff.mp same ▸ starts, fun rows absent => nomatch absent⟩
      · obtain ⟨k, there, rfl⟩ := List.mem_map.mp listed
        exact evalRow_quiet quiet params (columns input ▸ indexed.2 k there)
  | limit input limit offset ih =>
      obtain ⟨inv, starts, wide⟩ := ih indexed
      exact ⟨fun state => inv state.input, starts, LimitExec.kept wide limit offset⟩
  | distinct input ih =>
      obtain ⟨inv, starts, wide⟩ := ih indexed
      exact ⟨fun state => inv state.input, starts, DistinctExec.kept wide⟩
  | setOp kind all left right names ihLeft ihRight =>
      obtain ⟨indexedLeft, indexedRight, leftWidth, rightWidth⟩ := indexed
      obtain ⟨leftInv, leftStarts, leftWide⟩ := ihLeft indexedLeft
      obtain ⟨rightInv, rightStarts, rightWide⟩ := ihRight indexedRight
      rw [← columns left] at leftWidth
      rw [← columns right] at rightWidth
      have kept := SetOpExec.kept leftWide rightWide (rightWidth.trans leftWidth.symm) kind all
      refine ⟨SetOpExec.Carries leftInv rightInv names.length, ⟨?_, ?_, fun rows absent => nomatch absent⟩, ?_⟩
      · exact fun taken same => Option.mem_some_iff.mp same ▸ leftStarts
      · exact fun taken same => Option.mem_some_iff.mp same ▸ rightStarts
      · rwa [leftWidth] at kept

end

end

end Squrust.Sql
