import Squrust.Sql.Error
import Squrust.Ffi.Routing

/-!
# Stepping a prepared statement

A statement is run by the first step after it was prepared or reset, and its rows are
kept; the steps then hand them out. What a caller should see is a statement that stands
at a row, is done or has failed (`Standing`), and the state of the code follows it
(`Refines`). The code differs in two places. A step on a statement that has failed finds
no rows and reports that it is done. And the step behind the last row leaves that row
the current one. So everything is as it should be in exactly those runs that do neither
(`lawful_iff`).
-/

set_option autoImplicit false

namespace Squrust.Ffi.Prepared

open Squrust.Foundation

open Sql (SqlError Value)

/-- The result codes. -/
inductive ResultCode where
  | ok
  | error
  | constraint
  | range
  | row
  | done
deriving DecidableEq

/-- State behind a `sqlite3_stmt *` handle. -/
structure StmtState where
  sql : Text
  params : List Value
  executed : Bool
  isQuery : Bool
  columns : List Text
  rows : List (List Value)
  cursor : Nat
  current : Option Nat
  /-- True between a `step` that returned a row and the next `step`/`reset`. -/
  busy : Bool
deriving DecidableEq

/-- The engine and the connection of a statement. -/
structure Engine (World : Type) where
  /-- Whether the connection has a transaction. -/
  inTransaction : World → Bool
  beginWrite : World → World
  commit : World → World × Except SqlError Unit
  rollback : World → World
  /-- `build_query`: the columns; and the rows, read to the end. -/
  buildQuery : Text → List Value → World →
    World × Except SqlError (List Text × Except SqlError (List (List Value)))
  executeOn : Text → List Value → World → World × Except SqlError Unit
  execute : Text → List Value → World → World × Except SqlError Unit
  describe : Text → World → Option (List Text)
  setError : ResultCode → SqlError → World → World

/-- `as usize` -/
def asUsize (col : Int32) : Nat := col.toInt64.toUInt64.toNat

namespace StmtState

/-- `StmtState::new` -/
def new (sql : Text) : StmtState := ⟨sql, [], false, false, [], [], 0, none, false⟩

def ensureParam (st : StmtState) (oneBasedCol : Int32) : StmtState × Bool :=
  if oneBasedCol < 1 then (st, false)
  else
    let idx := asUsize oneBasedCol
    if st.params.length < idx then
      ({ st with params := st.params ++ List.replicate (idx - st.params.length) .null }, true)
    else (st, true)

def bind (st : StmtState) (oneBasedCol : Int32) (value : Value) : StmtState × ResultCode :=
  match st.ensureParam oneBasedCol with
  | (st, true) => ({ st with params := st.params.set (asUsize oneBasedCol - 1) value }, .ok)
  | (st, false) => (st, .range)

def clearBindings (st : StmtState) : StmtState := { st with params := [] }

def reset (st : StmtState) : StmtState :=
  { st with
    executed := false, isQuery := false, rows := [], columns := [], cursor := 0, current := none,
    busy := false }

def columnCount (st : StmtState) : Int32 := Int32.ofNat st.columns.length

/-- `sqlite3_data_count` -/
def dataCount (st : StmtState) : Int32 := if st.current.isSome then st.columnCount else 0

def valueAt (st : StmtState) (col : Int32) : Option Value := do
  let row ← st.rows[← st.current]?
  row[asUsize col]?

section

variable {World : Type} (engine : Engine World)

/-- Populate the columns without executing. -/
def ensureColumns (st : StmtState) (world : World) : StmtState :=
  if st.columns = [] ∧ st.executed = false then
    match engine.describe st.sql world with
    | some columns => { st with columns }
    | none => st
  else st

def run (st : StmtState) (world : World) : World × StmtState × Except SqlError Unit :=
  match route st.sql with
  | .begin_ =>
      (if engine.inTransaction world then world else engine.beginWrite world,
        { st with isQuery := false }, .ok ())
  | .commit =>
      if engine.inTransaction world then
        ((engine.commit world).1, { st with isQuery := false }, (engine.commit world).2)
      else (world, { st with isQuery := false }, .ok ())
  | .rollback =>
      (if engine.inTransaction world then engine.rollback world else world,
        { st with isQuery := false }, .ok ())
  -- No-op that produces no rows.
  | .explain => (world, { st with isQuery := true, columns := [], rows := [] }, .ok ())
  | .query =>
      match engine.buildQuery st.sql st.params world with
      | (world, .error e) => (world, { st with isQuery := true }, .error e)
      | (world, .ok (columns, .error e)) =>
          (world, { st with isQuery := true, columns }, .error e)
      | (world, .ok (columns, .ok rows)) =>
          (world, { st with isQuery := true, columns, rows }, .ok ())
  | .dml =>
      if engine.inTransaction world then
        ((engine.executeOn st.sql st.params world).1, { st with isQuery := false },
          (engine.executeOn st.sql st.params world).2)
      else
        ((engine.execute st.sql st.params world).1, { st with isQuery := false },
          (engine.execute st.sql st.params world).2)
  | .other =>
      ((engine.execute st.sql st.params world).1, { st with isQuery := false },
        (engine.execute st.sql st.params world).2)

/-- The end of `step`: on to the next row. -/
def advance (st : StmtState) : StmtState × ResultCode :=
  if st.isQuery ∧ st.cursor < st.rows.length then
    ({ st with current := some st.cursor, cursor := st.cursor + 1, busy := true }, .row)
  else ({ st with busy := false }, .done)

/-- Constraint violations have a code of their own. -/
def codeOf : SqlError → ResultCode
  | .constraint _ => .constraint
  | _ => .error

def step (st : StmtState) (world : World) : World × StmtState × ResultCode :=
  if st.executed then (world, st.advance)
  else
    match { st with executed := true }.run engine world with
    | (world, st, .error e) => (engine.setError (codeOf e) e world, st, codeOf e)
    | (world, st, .ok ()) => (world, st.advance)

end

end StmtState

/-! ## What a caller should see -/

/-- Where a statement stands. -/
inductive Standing where
  /-- Prepared, or reset. -/
  | ready
  /-- At a row, with more to come. -/
  | at_ (row : List Value) (left : List (List Value))
  | done
  /-- Its execution failed. -/
  | failed

namespace Standing

/-- On to the next of the rows. -/
def onRows : List (List Value) → Standing
  | [] => done
  | row :: left => at_ row left

/-- Where a step leads; the outcome is that of running the statement now. -/
def next (outcome : Except SqlError (List (List Value))) : Standing → Standing
  | ready =>
      match outcome with
      | .error _ => failed
      | .ok rows => onRows rows
  | at_ _ left => onRows left
  | done => done
  | failed => failed

/-- What a step that leads there may return. -/
def Reports : Standing → ResultCode → Prop
  | at_ _ _, code => code = .row
  | done, code => code = .done
  | _, code => code ≠ .row ∧ code ≠ .done

/-- The row the statement stands at shows, and none otherwise. -/
def Shows : Standing → StmtState → Prop
  | at_ row _, st =>
      st.busy = true ∧ st.dataCount = st.columnCount ∧ ∀ col, st.valueAt col = row[asUsize col]?
  | _, st => st.busy = false ∧ st.dataCount = 0 ∧ ∀ col, st.valueAt col = none

end Standing

section

variable {World : Type} (engine : Engine World)

/-- The rows that running a text yields; a text that is no query yields none. -/
def Engine.outcome (sql : Text) (params : List Value) (world : World) :
    Except SqlError (List (List Value)) :=
  match route sql with
  | .begin_ | .rollback | .explain => .ok []
  | .commit =>
      if engine.inTransaction world then (engine.commit world).2.map fun _ => [] else .ok []
  | .query => (engine.buildQuery sql params world).2.bind Prod.snd
  | .dml =>
      (if engine.inTransaction world then engine.executeOn sql params world
        else engine.execute sql params world).2.map fun _ => []
  | .other => (engine.execute sql params world).2.map fun _ => []

/-- A call. -/
inductive Call (World : Type) where
  | bind (col : Int32) (value : Value)
  | clearBindings
  | step
  | reset
  /-- `sqlite3_column_count` and the others that fill in the columns. -/
  | columnCount
  /-- Other statements run. -/
  | elsewhere (change : World → World)

/-- A statement, and where it should stand. -/
structure Session (World : Type) where
  world : World
  st : StmtState
  standing : Standing

namespace Session

/-- `sqlite3_prepare_v2` -/
def prepared (sql : Text) (world : World) : Session World := ⟨world, .new sql, .ready⟩

/-- A call, and what it returns. -/
def call (session : Session World) : Call World → Session World × ResultCode
  | .bind col value =>
      ({ session with st := (session.st.bind col value).1 }, (session.st.bind col value).2)
  | .clearBindings => ({ session with st := session.st.clearBindings }, .ok)
  | .step =>
      let (world, st, code) := session.st.step engine session.world
      (⟨world, st, session.standing.next
        (engine.outcome session.st.sql session.st.params session.world)⟩, code)
  | .reset => ({ session with st := session.st.reset, standing := .ready }, .ok)
  | .columnCount => ({ session with st := session.st.ensureColumns engine session.world }, .ok)
  | .elsewhere change => ({ session with world := change session.world }, .ok)

/-- A step returns what it should: the rows in order, then that there are no more. -/
def Returns (session : Session World) (call : Call World) : Prop :=
  call = .step → (session.call engine call).1.standing.Reports (session.call engine call).2

/-- The call returns and leaves what it should. -/
def Lawful (session : Session World) (call : Call World) : Prop :=
  session.Returns engine call ∧
    (session.call engine call).1.standing.Shows (session.call engine call).1.st

/-- The statement is not stepped when it has failed. -/
def StepsNoFailure (session : Session World) (call : Call World) : Prop :=
  call = .step → session.standing ≠ .failed

/-- Nor is it stepped off its last row. -/
def Meets (session : Session World) (call : Call World) : Prop :=
  session.StepsNoFailure call ∧
    (call = .step → ∀ row, session.standing = .at_ row [] →
      row = [] ∧ session.st.columnCount = 0)

/-- All calls of a run are so. -/
def All (Holds : Session World → Call World → Prop) : Session World → List (Call World) → Prop
  | _, [] => True
  | session, call :: rest =>
      Holds session call ∧ All Holds (session.call engine call).1 rest

end Session

end

/-! ## The state of the code -/

/-- The state of the code at each standing. -/
def Refines : Standing → StmtState → Prop
  | .ready, st =>
      st.executed = false ∧ st.rows = [] ∧ st.cursor = 0 ∧ st.current = none ∧ st.busy = false
  | .at_ row left, st =>
      st.executed = true ∧ st.isQuery = true ∧ st.busy = true ∧
        ∃ taken, st.rows = taken ++ row :: left ∧ st.cursor = taken.length + 1 ∧
          st.current = some taken.length
  | .done, st =>
      st.executed = true ∧ st.busy = false ∧ (st.isQuery = true → st.rows.length ≤ st.cursor)
  | .failed, st => st.executed = true ∧ st.rows = [] ∧ st.current = none ∧ st.busy = false

/-- No row shows where none is current. -/
theorem hides_of_current {st : StmtState} (none_ : st.current = none) :
    st.dataCount = 0 ∧ ∀ col, st.valueAt col = none := by
  constructor
  · rw [StmtState.dataCount, none_]
    rfl
  · intro col
    rw [StmtState.valueAt, none_]
    rfl

/-- What the code shows is right by itself, but for a row that is left over. -/
theorem shows_of_refines {standing : Standing} {st : StmtState} (refines : Refines standing st)
    (hides : standing = .done → st.dataCount = 0 ∧ ∀ col, st.valueAt col = none) :
    standing.Shows st := by
  cases standing with
  | ready =>
      obtain ⟨_, _, _, current, busy⟩ := refines
      exact ⟨busy, hides_of_current current⟩
  | at_ row left =>
      obtain ⟨_, _, busy, taken, rows, _, current⟩ := refines
      refine ⟨busy, ?_, fun col => ?_⟩
      · rw [StmtState.dataCount, current]
        rfl
      · have here : st.rows[taken.length]? = some row := by
          rw [rows, List.getElem?_append_right (le_refl _), Nat.sub_self]
          rfl
        rw [StmtState.valueAt, current]
        simp only [Option.bind_eq_bind, Option.bind_some, here]
  | done => exact ⟨refines.2.1, hides rfl⟩
  | failed =>
      obtain ⟨_, _, current, busy⟩ := refines
      exact ⟨busy, hides_of_current current⟩

namespace StmtState

/-- **The end of a step** hands out the next row that is left, or none. -/
theorem advance_spec {st : StmtState} {taken left : List (List Value)}
    (executed : st.executed = true) (rows : st.rows = taken ++ left)
    (cursor : st.cursor = taken.length) (query : left ≠ [] → st.isQuery = true) :
    Refines (Standing.onRows left) st.advance.1 ∧ (Standing.onRows left).Reports st.advance.2 ∧
      (left = [] → st.advance.1 = { st with busy := false }) := by
  cases left with
  | nil =>
      have ends : ¬ (st.isQuery = true ∧ st.cursor < st.rows.length) := by
        rw [rows, cursor, List.append_nil]
        exact fun more => absurd more.2 (lt_irrefl _)
      rw [advance, if_neg ends]
      refine ⟨⟨executed, rfl, fun _ => ?_⟩, rfl, fun _ => rfl⟩
      show st.rows.length ≤ st.cursor
      rw [rows, cursor, List.append_nil]
  | cons row left =>
      have more : st.isQuery = true ∧ st.cursor < st.rows.length := by
        refine ⟨query (List.cons_ne_nil _ _), ?_⟩
        rw [rows, cursor, List.length_append, List.length_cons]
        omega
      rw [advance, if_pos more]
      refine ⟨⟨executed, more.1, rfl, taken, rows, ?_, ?_⟩, rfl, nofun⟩
      · show st.cursor + 1 = taken.length + 1
        rw [cursor]
      · show some st.cursor = some taken.length
        rw [cursor]

variable {World : Type} (engine : Engine World)

/-- A text that is no query leaves the rows as they are. -/
theorem unit_spec (st : StmtState) {run : World × StmtState × Except SqlError Unit}
    {outcome : Except SqlError (List (List Value))} (result : Except SqlError Unit)
    (none_ : st.rows = []) (same : outcome = result.map fun _ => [])
    (ran : ∃ after isQuery columns, run = (after, { st with isQuery, columns }, result)) :
    (∀ e, outcome = .error e → ∃ after isQuery columns,
      run = (after, { st with isQuery, columns }, .error e)) ∧
    ∀ rows, outcome = .ok rows → ∃ after isQuery columns,
      run = (after, { st with isQuery, columns, rows }, .ok ()) ∧ (rows ≠ [] → isQuery = true) := by
  obtain ⟨after, isQuery, columns, rfl⟩ := ran
  subst same
  cases result with
  | error error =>
      refine ⟨fun e fails => ?_, fun rows succeeds => nomatch succeeds⟩
      injection fails with fails
      exact ⟨after, isQuery, columns, by rw [fails]⟩
  | ok done =>
      refine ⟨fun e fails => (nomatch fails), fun rows succeeds => ?_⟩
      injection succeeds with succeeds
      subst succeeds
      exact ⟨after, isQuery, columns, by rw [← none_], fun some_ => absurd rfl some_⟩

/-- **What running the text leaves**, by its outcome. -/
theorem run_spec (st : StmtState) (world : World) (none_ : st.rows = []) :
    (∀ e, engine.outcome st.sql st.params world = .error e → ∃ after isQuery columns,
      st.run engine world = (after, { st with isQuery, columns }, .error e)) ∧
    ∀ rows, engine.outcome st.sql st.params world = .ok rows → ∃ after isQuery columns,
      st.run engine world = (after, { st with isQuery, columns, rows }, .ok ()) ∧
        (rows ≠ [] → isQuery = true) := by
  rw [run, Engine.outcome]
  cases route st.sql with
  | begin_ => exact unit_spec st (.ok ()) none_ rfl ⟨_, _, _, rfl⟩
  | rollback => exact unit_spec st (.ok ()) none_ rfl ⟨_, _, _, rfl⟩
  | explain =>
      refine unit_spec st (.ok ()) none_ rfl ⟨world, true, [], ?_⟩
      rw [← none_]
  | commit =>
      cases engine.inTransaction world with
      | true => exact unit_spec st _ none_ rfl ⟨_, _, _, rfl⟩
      | false => exact unit_spec st (.ok ()) none_ rfl ⟨_, _, _, rfl⟩
  | query =>
      obtain ⟨after, built⟩ := engine.buildQuery st.sql st.params world
      rcases built with error | ⟨columns, error | rows⟩
      · refine ⟨fun e fails => ?_, fun rows succeeds => nomatch succeeds⟩
        injection fails with fails
        exact ⟨after, true, st.columns, by rw [← fails]⟩
      · refine ⟨fun e fails => ?_, fun rows succeeds => nomatch succeeds⟩
        injection fails with fails
        exact ⟨after, true, columns, by rw [← fails]⟩
      · refine ⟨fun e fails => (nomatch fails), fun rows' succeeds => ?_⟩
        injection succeeds with succeeds
        exact ⟨after, true, columns, by rw [← succeeds], fun _ => rfl⟩
  | dml =>
      cases engine.inTransaction world with
      | true => exact unit_spec st _ none_ rfl ⟨_, _, _, rfl⟩
      | false => exact unit_spec st _ none_ rfl ⟨_, _, _, rfl⟩
  | other => exact unit_spec st _ none_ rfl ⟨_, _, _, rfl⟩

theorem step_executed {st : StmtState} (executed : st.executed = true) (world : World) :
    st.step engine world = (world, st.advance) := by
  rw [step, if_pos executed]

/-- The first step: the statement is run. -/
theorem step_ready {st : StmtState} (ready : Refines .ready st) (world : World) :
    (∀ e, engine.outcome st.sql st.params world = .error e → ∃ (after : World) (st' : StmtState),
      st.step engine world = (after, st', codeOf e) ∧ Refines .failed st') ∧
    ∀ rows, engine.outcome st.sql st.params world = .ok rows → ∃ (after : World) (st' : StmtState),
      st.step engine world = (after, st'.advance) ∧ st'.executed = true ∧ st'.rows = rows ∧
        st'.cursor = 0 ∧ st'.current = none ∧ (rows ≠ [] → st'.isQuery = true) := by
  obtain ⟨notYet, none_, cursor, current, busy⟩ := ready
  obtain ⟨fails, succeeds⟩ := run_spec engine { st with executed := true } world none_
  constructor
  · intro e failed
    obtain ⟨after, isQuery, columns, ran⟩ := fails e failed
    refine ⟨engine.setError (codeOf e) e after, { st with executed := true, isQuery, columns }, ?_,
      rfl, none_, current, busy⟩
    rw [step, if_neg (Bool.eq_false_iff.mp notYet), ran]
  · intro rows succeeded
    obtain ⟨after, isQuery, columns, ran, query⟩ := succeeds rows succeeded
    refine ⟨after, { st with executed := true, isQuery, columns, rows }, ?_, rfl, rfl, cursor,
      current, query⟩
    rw [step, if_neg (Bool.eq_false_iff.mp notYet), ran]

end StmtState

/-! ## Runs -/

namespace Session

variable {World : Type} (engine : Engine World)

theorem call_step {session : Session World} {world : World} {ran : StmtState × ResultCode}
    (steps : session.st.step engine session.world = (world, ran)) :
    session.call engine .step = (⟨world, ran.1, session.standing.next
      (engine.outcome session.st.sql session.st.params session.world)⟩, ran.2) := by
  rw [call, steps]

/-- **A step** is followed by the state of the code, and returns what it should unless the
statement had failed. The row that was current stays only behind the last one. -/
theorem step_spec {session : Session World} (refines : Refines session.standing session.st) :
    Refines (session.call engine .step).1.standing (session.call engine .step).1.st ∧
      (session.standing ≠ .failed →
        (session.call engine .step).1.standing.Reports (session.call engine .step).2) ∧
      ((session.call engine .step).1.standing = .done →
        (session.call engine .step).1.st.current = session.st.current ∧
          (session.standing ≠ .ready →
            (session.call engine .step).1.st = { session.st with busy := false })) ∧
      (session.standing = .failed → (session.call engine .step).2 = .done) := by
  obtain ⟨world, st, standing⟩ := session
  cases standing with
  | ready =>
      obtain ⟨fails, succeeds⟩ := StmtState.step_ready engine refines world
      cases ran : engine.outcome st.sql st.params world with
      | error e =>
          obtain ⟨after, st', steps, failed⟩ := fails e ran
          rw [call_step engine steps]
          simp only [Standing.next, ran]
          refine ⟨failed, fun _ => ?_, nofun, nofun⟩
          cases e <;> exact ⟨nofun, nofun⟩
      | ok rows =>
          obtain ⟨after, st', steps, executed, rows_, cursor, current, query⟩ := succeeds rows ran
          obtain ⟨refines', reports, last⟩ :=
            @StmtState.advance_spec st' [] rows executed rows_ cursor query
          rw [call_step engine steps]
          simp only [Standing.next, ran]
          refine ⟨refines', fun _ => reports, fun isDone => ⟨?_, nofun⟩, nofun⟩
          cases rows with
          | nil =>
              rw [last rfl, refines.2.2.2.1]
              exact current
          | cons row left => cases isDone
  | at_ row left =>
      obtain ⟨executed, query, busy, taken, rows, cursor, current⟩ := refines
      have rows' : st.rows = (taken ++ [row]) ++ left := by
        rw [rows, List.append_assoc]
        rfl
      have cursor' : st.cursor = (taken ++ [row]).length := by
        rw [cursor, List.length_append]
        rfl
      obtain ⟨refines', reports, last⟩ :=
        StmtState.advance_spec executed rows' cursor' fun _ => query
      rw [call_step engine (StmtState.step_executed engine executed world)]
      refine ⟨refines', fun _ => reports, fun isDone => ?_, nofun⟩
      cases left with
      | nil => exact ⟨by rw [last rfl], fun _ => last rfl⟩
      | cons row' left => cases isDone
  | done =>
      obtain ⟨executed, busy, noMore⟩ := refines
      have ends : ¬ (st.isQuery = true ∧ st.cursor < st.rows.length) := fun more =>
        absurd (noMore more.1) (Nat.not_le.mpr more.2)
      have stays : st.advance = ({ st with busy := false }, .done) := by
        rw [StmtState.advance, if_neg ends]
      rw [call_step engine (StmtState.step_executed engine executed world), stays]
      exact ⟨⟨executed, rfl, noMore⟩, fun _ => rfl, fun _ => ⟨rfl, fun _ => rfl⟩, nofun⟩
  | failed =>
      obtain ⟨executed, none_, current, busy⟩ := refines
      have ends : ¬ (st.isQuery = true ∧ st.cursor < st.rows.length) := by
        rw [none_]
        exact fun more => absurd more.2 (Nat.not_lt_zero _)
      have stays : st.advance = ({ st with busy := false }, .done) := by
        rw [StmtState.advance, if_neg ends]
      rw [call_step engine (StmtState.step_executed engine executed world), stays]
      exact ⟨⟨executed, none_, current, rfl⟩, fun notFailed => absurd rfl notFailed, nofun,
        fun _ => rfl⟩

/-- Bindings and columns are not part of it. -/
theorem refines_frame {standing : Standing} {st : StmtState} (refines : Refines standing st)
    (params : List Value) (columns : List Text) :
    Refines standing { st with params, columns } := by
  cases standing <;> exact refines

theorem shows_frame {standing : Standing} {st : StmtState} (shows : standing.Shows st)
    (params : List Value) : standing.Shows { st with params } := by
  cases standing <;> exact shows

/-- The other calls move nothing. -/
theorem other_spec {session : Session World} {call : Call World} (other : call ≠ .step)
    (refines : Refines session.standing session.st) :
    Refines (session.call engine call).1.standing (session.call engine call).1.st ∧
      (session.standing.Shows session.st →
        (session.call engine call).1.standing.Shows (session.call engine call).1.st) := by
  obtain ⟨world, st, standing⟩ := session
  cases call with
  | step => exact absurd rfl other
  | bind col value =>
      have bound : ∃ params, (st.bind col value).1 = { st with params } := by
        rw [StmtState.bind, StmtState.ensureParam]
        by_cases low : col < 1
        · rw [if_pos low]
          exact ⟨st.params, rfl⟩
        · rw [if_neg low]
          by_cases short : st.params.length < asUsize col
          · simp only [if_pos short]
            exact ⟨_, rfl⟩
          · simp only [if_neg short]
            exact ⟨_, rfl⟩
      obtain ⟨params, bound⟩ := bound
      simp only [Session.call, bound]
      exact ⟨refines_frame refines params st.columns, fun shows => shows_frame shows params⟩
  | clearBindings =>
      exact ⟨refines_frame refines [] st.columns, fun shows => shows_frame shows []⟩
  | reset =>
      have ready : Refines .ready st.reset := ⟨rfl, rfl, rfl, rfl, rfl⟩
      exact ⟨ready, fun _ => shows_of_refines ready nofun⟩
  | columnCount =>
      simp only [Session.call, StmtState.ensureColumns]
      split_ifs with fresh
      · have ready : standing = .ready := by
          cases standing with
          | ready => rfl
          | at_ row left => exact absurd refines.1 (Bool.eq_false_iff.mp fresh.2)
          | done => exact absurd refines.1 (Bool.eq_false_iff.mp fresh.2)
          | failed => exact absurd refines.1 (Bool.eq_false_iff.mp fresh.2)
        subst ready
        cases engine.describe st.sql world with
        | none => exact ⟨refines, id⟩
        | some columns =>
            have framed := refines_frame refines st.params columns
            exact ⟨framed, fun _ => shows_of_refines framed nofun⟩
      · exact ⟨refines, id⟩
  | elsewhere change => exact ⟨refines, id⟩

/-- The state of the code follows the standing through every call. -/
theorem refines_call {session : Session World} (call : Call World)
    (refines : Refines session.standing session.st) :
    Refines (session.call engine call).1.standing (session.call engine call).1.st := by
  by_cases steps : call = .step
  · subst steps
    exact (step_spec engine refines).1
  · exact (other_spec engine steps refines).1

theorem standing_step (session : Session World) : (session.call engine .step).1.standing =
    session.standing.next (engine.outcome session.st.sql session.st.params session.world) := rfl

/-- A step returns what it should exactly if the statement has not failed. -/
theorem returns_iff {session : Session World} {call : Call World}
    (refines : Refines session.standing session.st) :
    session.Returns engine call ↔ session.StepsNoFailure call := by
  refine forall_congr' fun steps => ?_
  subst steps
  obtain ⟨_, reports, _, failed⟩ := step_spec engine refines
  refine ⟨fun returned here => ?_, reports⟩
  rw [standing_step, here] at returned
  exact returned.2 (failed here)

/-- A lawful call is no step on a failed statement, or off its last row. -/
theorem meets_of_lawful {session : Session World} {call : Call World}
    (refines : Refines session.standing session.st) (lawful : session.Lawful engine call) :
    session.Meets call := by
  refine ⟨(returns_iff engine refines).mp lawful.1, ?_⟩
  rintro rfl row here
  obtain ⟨world, st, standing⟩ := session
  obtain rfl : standing = .at_ row [] := here
  obtain ⟨_, shows⟩ := lawful
  obtain ⟨_, _, last, _⟩ := step_spec engine refines
  rw [standing_step] at shows last
  rw [(last rfl).2 nofun] at shows
  obtain ⟨_, noData, noValue⟩ := shows
  obtain ⟨_, data, value⟩ := shows_of_refines refines nofun
  constructor
  · have first := (value 0).symm.trans (noValue 0)
    exact List.eq_nil_of_length_eq_zero (Nat.le_zero.mp (List.getElem?_eq_none_iff.mp first))
  · exact data.symm.trans noData

/-- A call that is neither is lawful. -/
theorem lawful_of_meets {session : Session World} {call : Call World}
    (refines : Refines session.standing session.st) (shows : session.standing.Shows session.st)
    (meets : session.Meets call) : session.Lawful engine call := by
  refine ⟨(returns_iff engine refines).mpr meets.1, ?_⟩
  by_cases steps : call = .step
  · subst steps
    obtain ⟨world, st, standing⟩ := session
    obtain ⟨refines', _, last, _⟩ := step_spec engine refines
    refine shows_of_refines refines' fun isDone => ?_
    obtain ⟨current, kept⟩ := last isDone
    rw [standing_step] at isDone
    cases standing with
    | ready =>
        apply hides_of_current
        rw [current]
        exact refines.2.2.2.1
    | at_ row left =>
        rw [kept nofun]
        obtain rfl : left = [] := by
          cases left with
          | nil => rfl
          | cons row' left => cases isDone
        obtain ⟨rfl, noColumns⟩ := meets.2 rfl row rfl
        obtain ⟨_, data, value⟩ := shows
        exact ⟨data.trans noColumns, value⟩
    | done =>
        rw [kept nofun]
        exact shows.2
    | failed => cases isDone
  · exact (other_spec engine steps refines).2 shows

/-- The calls of a run are lawful exactly if they step where they may. -/
theorem all_lawful_iff {session : Session World} (refines : Refines session.standing session.st)
    (shows : session.standing.Shows session.st) (calls : List (Call World)) :
    session.All engine (Lawful engine) calls ↔ session.All engine Meets calls := by
  induction calls generalizing session with
  | nil => exact Iff.rfl
  | cons call rest ih =>
      have refines' := refines_call engine call refines
      constructor
      · rintro ⟨lawful, others⟩
        exact ⟨meets_of_lawful engine refines lawful, (ih refines' lawful.2).mp others⟩
      · rintro ⟨meets, others⟩
        have lawful := lawful_of_meets engine refines shows meets
        exact ⟨lawful, (ih refines' lawful.2).mpr others⟩

/-- The steps of a run return what they should exactly if they step no failed statement. -/
theorem all_returns_iff {session : Session World} (refines : Refines session.standing session.st)
    (calls : List (Call World)) :
    session.All engine (Returns engine) calls ↔ session.All engine StepsNoFailure calls := by
  induction calls generalizing session with
  | nil => exact Iff.rfl
  | cons call rest ih =>
      exact and_congr (returns_iff engine refines) (ih (refines_call engine call refines))

/-- **A prepared statement** returns what it should in exactly the runs that do not step it when
it has failed. It shows what it should as well in those of them that do not step it off its
last row, and in no others. -/
theorem lawful_iff (sql : Text) (world : World) (calls : List (Call World)) :
    ((prepared sql world).All engine (Lawful engine) calls ↔
      (prepared sql world).All engine Meets calls) ∧
    ((prepared sql world).All engine (Returns engine) calls ↔
      (prepared sql world).All engine StepsNoFailure calls) := by
  have ready : Refines .ready (.new sql) := ⟨rfl, rfl, rfl, rfl, rfl⟩
  have shows : Standing.Shows .ready (.new sql) := shows_of_refines ready nofun
  exact ⟨all_lawful_iff engine ready shows calls, all_returns_iff engine ready calls⟩

/-- An engine whose queries have one answer. -/
def answering (answer : Except SqlError (List Text × Except SqlError (List (List Value)))) :
    Engine Unit where
  inTransaction _ := false
  beginWrite := id
  commit _ := ((), .ok ())
  rollback := id
  buildQuery _ _ _ := ((), answer)
  executeOn _ _ _ := ((), .ok ())
  execute _ _ _ := ((), .ok ())
  describe _ _ := none
  setError _ _ _ := ()

/-- A query of one row. -/
def oneRow : Engine Unit := answering (.ok (["1".toList], .ok [[.integer 1]]))

/-- A query that fails. -/
def noColumn : Engine Unit := answering (.error (.notFound "column x".toList))

/-- `SELECT 1` is stepped off its only row, and still shows it; `SELECT x` fails, and is done
when it is stepped again. -/
theorem stepped_twice :
    ¬ (prepared "SELECT 1".toList ()).All oneRow (Lawful oneRow) [.step, .step] ∧
      ¬ (prepared "SELECT x".toList ()).All noColumn (Lawful noColumn) [.step, .step] := by
  constructor
  · rintro ⟨_, lawful, _⟩
    have hidden := lawful.2.2.1
    exact absurd hidden (by decide +kernel)
  · rintro ⟨_, lawful, _⟩
    have returned := lawful.1 rfl
    exact returned.2 (by decide +kernel)

end Session

end Squrust.Ffi.Prepared
