import Squrust.Foundation.Outcome
import Squrust.Sql.Pragma

/-!
# Where statements of a connection run

A statement that is stepped is sent on by the first word of its text: some words
are for the transaction of the connection, queries and plain INSERT, UPDATE and
DELETE run inside it, and everything else runs in autocommit, in a write
transaction of its own. `sqlite3_exec` runs everything but queries in
autocommit.

A write transaction waits for the gate. While the connection has a transaction,
the gate is its own, so a statement in autocommit that begins one waits for ever.
Exactly the statements that are sent there and get as far do
(`never_waits_iff`).
-/

set_option autoImplicit false

namespace Squrust.Ffi

open Squrust.Foundation

open Sql (Pragma)

/-- What a statement is planned as. -/
inductive Planned where
  /-- It is not planned, a subquery of it fails, or its table is not there. -/
  | failed
  /-- A query; whether it runs to its end and the callback takes every row. -/
  | query (runs : Bool)
  /-- The rows are written or not. -/
  | insert (runs : Bool)
  | update (runs : Bool)
  | delete (runs : Bool)
  /-- Whether a table of the name is there. -/
  | createTable (there ifNotExists runs : Bool)
  | createIndex (there ifNotExists runs : Bool)
  | dropTable (runs : Bool)
  | alterTableAddColumn (runs : Bool)
deriving DecidableEq

/-- The SQL parser and the planner. -/
structure Planner (Statement : Type) where
  /-- `None` when the text does not parse. -/
  parse : Text → Option (List Statement)
  /-- `to_string`. -/
  display : Statement → Text
  planned : Statement → Planned

/-- A connection: whether it has a transaction, and the gate of its engine. -/
structure Connection where
  tx : Bool
  gate : Bool
deriving DecidableEq

/-- A statement failed. -/
inductive RunError where
  | failed
deriving DecidableEq

/-- Code on a connection; what waits for ever runs out of fuel. -/
abbrev OnConnection := Exec Connection RunError

/-- `begin_write`: wait for the gate. -/
def beginWrite : OnConnection Unit := fun connection =>
  if connection.gate then .error .outOfFuel connection
  else .ok () { connection with gate := true }

/-- The write transaction ends. -/
def release : OnConnection Unit := modify fun connection => { connection with gate := false }

/-- A write transaction of its own; it is dropped when its code fails. -/
def inAutocommit (runs : Bool) : OnConnection Unit := do
  beginWrite
  release
  if runs then return () else Exec.err .failed

section

variable {Statement : Type} (planner : Planner Statement)

/-- `SqlEngine::run_one`. -/
def runOne (statement : Statement) : OnConnection Unit :=
  match planner.planned statement with
  | .failed => Exec.err .failed
  | .query runs => if runs then return () else Exec.err .failed
  | .insert runs => inAutocommit runs
  | .update runs => inAutocommit runs
  | .delete runs => inAutocommit runs
  | .createTable there ifNotExists runs =>
      if there then if ifNotExists then return () else Exec.err .failed
      else inAutocommit runs
  | .createIndex there ifNotExists runs =>
      if there then if ifNotExists then return () else Exec.err .failed
      else inAutocommit runs
  | .dropTable runs => inAutocommit runs
  | .alterTableAddColumn runs => inAutocommit runs

/-- The statements of a text, up to the first that fails. -/
def runAll : List Statement → OnConnection Unit
  | [] => return ()
  | statement :: rest => do
      runOne planner statement
      runAll rest

/-- `SqlEngine::run_pragma`. -/
def runPragma (pragma : Pragma) : OnConnection Unit :=
  if pragma.setsUserVersion then inAutocommit true
  else if pragma.name = "user_version".toList ∧ pragma.value.isSome then Exec.err .failed
  else if pragma.name = "table_info".toList ∧ pragma.arg.isNone then Exec.err .failed
  else return ()

/-- `SqlEngine::execute`. -/
def execute (sql : Text) : OnConnection Unit :=
  match Pragma.tryParse sql with
  | some pragma => runPragma pragma
  | none =>
      match planner.parse sql with
      | none => Exec.err .failed
      | some statements => runAll planner statements

/-- `SqlEngine::build_query`, and the query run to its end. -/
def query (sql : Text) : OnConnection Unit :=
  match Pragma.tryParse sql with
  | some pragma => runPragma pragma
  | none =>
      match planner.parse sql with
      | some [statement] =>
          match planner.planned statement with
          | .query true => return ()
          | _ => Exec.err .failed
      | _ => Exec.err .failed

/-- `SqlEngine::execute_on`: rows are written in the transaction that is open. -/
def executeOn (sql : Text) : OnConnection Unit :=
  match planner.parse sql with
  | none => Exec.err .failed
  | some statements =>
      if statements.all fun statement => planner.planned statement matches
        .insert true | .update true | .delete true then return ()
      else Exec.err .failed

/-- The first word, in upper case. -/
def firstKeyword (sql : Text) : Text :=
  Text.toAsciiUppercase ((Text.trimStart sql).takeWhile fun c => !(Text.isWhitespace c || c == '('))

/-- How a text is sent on. -/
inductive Route where
  | begin_
  | commit
  | rollback
  | explain
  | query
  | dml
  | other
deriving DecidableEq

/-- The arms of `StmtState::run`. -/
def route (sql : Text) : Route :=
  let kw := firstKeyword sql
  if kw = "BEGIN".toList ∨ kw = "SAVEPOINT".toList then .begin_
  else if kw = "COMMIT".toList ∨ kw = "END".toList ∨ kw = "RELEASE".toList then .commit
  else if kw = "ROLLBACK".toList then .rollback
  else if kw = "EXPLAIN".toList then .explain
  else if kw = "SELECT".toList ∨ kw = "WITH".toList ∨ kw = "VALUES".toList ∨ kw = "PRAGMA".toList then
    .query
  else if kw = "INSERT".toList ∨ kw = "UPDATE".toList ∨ kw = "DELETE".toList then .dml
  else .other

/-- `StmtState::run`. -/
def StmtState.run (sql : Text) : OnConnection Unit := do
  let tx := (← get).tx
  match route sql with
  | .begin_ =>
      if tx then return ()
      else do
        beginWrite
        modify fun connection => { connection with tx := true }
  | .commit | .rollback =>
      if tx then modify fun connection => { connection with tx := false, gate := false }
      else return ()
  | .explain => return ()
  | .query => query planner sql
  | .dml => if tx then executeOn planner sql else execute planner sql
  | .other => execute planner sql

/-- One statement of `sqlite3_exec`, from its text. -/
def execOne (sql : Text) : OnConnection Unit :=
  let kw := firstKeyword sql
  if kw = "SELECT".toList ∨ kw = "WITH".toList ∨ kw = "VALUES".toList then query planner sql
  else execute planner sql

/-- The statements of `sqlite3_exec`, up to the first that fails. -/
def execAll : List Statement → OnConnection Unit
  | [] => return ()
  | statement :: rest => do
      execOne planner (planner.display statement)
      execAll rest

/-- `sqlite3_exec`. -/
def exec (sql : Text) : OnConnection Unit :=
  match planner.parse sql with
  | none => Exec.err .failed
  | some statements => execAll planner statements

end

/-! ## Who gets to the gate -/

/-- The call does not return: it waits for the gate. -/
def Waits (code : OnConnection Unit) (connection : Connection) : Prop :=
  ∃ after, code connection = .error .outOfFuel after

namespace Planned

/-- The statement begins a write transaction. -/
def writes : Planned → Bool
  | .insert _ | .update _ | .delete _ | .dropTable _ | .alterTableAddColumn _ => true
  | .createTable there _ _ | .createIndex there _ _ => !there
  | .failed | .query _ => false

/-- The statement returns without one. -/
def quiet : Planned → Bool
  | .query runs => runs
  | .createTable there ifNotExists _ | .createIndex there ifNotExists _ => there && ifNotExists
  | _ => false

end Planned

/-- A pragma that returns and sets nothing in the database. -/
def pragmaQuiet (pragma : Pragma) : Bool :=
  !pragma.setsUserVersion && !(pragma.name = "user_version".toList && pragma.value.isSome) &&
    !(pragma.name = "table_info".toList && pragma.arg.isNone)

section

variable {Statement : Type} (planner : Planner Statement)

/-- A statement writes before one fails. -/
def writesFirst : List Statement → Bool
  | [] => false
  | statement :: rest =>
      (planner.planned statement).writes || (planner.planned statement).quiet && writesFirst rest

/-- In autocommit the text begins a write transaction. -/
def executeWrites (sql : Text) : Bool :=
  match Pragma.tryParse sql with
  | some pragma => pragma.setsUserVersion
  | none => (planner.parse sql).any (writesFirst planner)

def executeQuiet (sql : Text) : Bool :=
  match Pragma.tryParse sql with
  | some pragma => pragmaQuiet pragma
  | none => (planner.parse sql).any fun statements =>
      statements.all fun statement => (planner.planned statement).quiet

/-- As a query, only a pragma begins a write transaction. -/
def queryWrites (sql : Text) : Bool :=
  match Pragma.tryParse sql with
  | some pragma => pragma.setsUserVersion
  | none => false

def queryQuiet (sql : Text) : Bool :=
  match Pragma.tryParse sql with
  | some pragma => pragmaQuiet pragma
  | none =>
      match planner.parse sql with
      | some [statement] => planner.planned statement = .query true
      | _ => false

/-- A stepped statement that is sent to autocommit, or as a query, and writes there. -/
def StmtState.writes (sql : Text) : Bool :=
  match route sql with
  | .query => queryWrites sql
  | .other => executeWrites planner sql
  | _ => false

/-- The first word makes the text a query for `sqlite3_exec`. -/
def isQuery (sql : Text) : Bool :=
  firstKeyword sql = "SELECT".toList || firstKeyword sql = "WITH".toList ||
    firstKeyword sql = "VALUES".toList

def execOneWrites (sql : Text) : Bool :=
  if isQuery sql then queryWrites sql else executeWrites planner sql

def execOneQuiet (sql : Text) : Bool :=
  if isQuery sql then queryQuiet planner sql else executeQuiet planner sql

/-- A statement of `sqlite3_exec` writes before one fails. -/
def execWritesFirst : List Statement → Bool
  | [] => false
  | statement :: rest =>
      execOneWrites planner (planner.display statement) ||
        execOneQuiet planner (planner.display statement) && execWritesFirst rest

/-- What code does while the gate is held: it waits, returns, or fails, and changes nothing. -/
def Settles (code : OnConnection Unit) (writes quiet : Bool) : Prop :=
  ∀ connection : Connection, connection.gate = true → code connection =
    if writes then .error .outOfFuel connection
    else if quiet then .ok () connection
    else .error (.error .failed) connection

variable {planner}

theorem Settles.waits_iff {code : OnConnection Unit} {writes quiet : Bool} {connection : Connection}
    (settles : Settles code writes quiet) (held : connection.gate = true) :
    Waits code connection ↔ writes = true := by
  unfold Waits
  rw [settles connection held]
  cases writes with
  | true => simp
  | false => cases quiet <;> simp

theorem Settles.bind {code : OnConnection Unit} {next : Unit → OnConnection Unit}
    {writes quiet writes' quiet' : Bool} (settles : Settles code writes quiet)
    (settlesNext : Settles (next ()) writes' quiet') :
    Settles (code >>= next) (writes || quiet && writes') (quiet && quiet' && !writes) := by
  intro connection held
  have first := settles connection held
  cases writes with
  | true =>
      simp only [if_true] at first
      rw [Exec.bind_of_error first]
      simp
  | false =>
      cases quiet with
      | false =>
          simp only [Bool.false_eq_true, if_false] at first
          rw [Exec.bind_of_error first]
          simp
      | true =>
          simp only [Bool.false_eq_true, if_false, if_true] at first
          rw [Exec.bind_of_ok first, settlesNext connection held]
          simp

theorem settles_pure : Settles (pure ()) false true := fun _ _ => rfl

theorem settles_failed : Settles (Exec.err .failed) false false := fun _ _ => rfl

theorem settles_inAutocommit (runs quiet : Bool) : Settles (inAutocommit runs) true quiet := by
  intro connection held
  rw [inAutocommit]
  refine (Exec.bind_of_error ?_).trans (if_pos rfl).symm
  simp only [beginWrite, held, if_true]

theorem settles_runOne (statement : Statement) :
    Settles (runOne planner statement) (planner.planned statement).writes
      (planner.planned statement).quiet := by
  unfold runOne
  cases planner.planned statement with
  | failed => exact settles_failed
  | query runs =>
      cases runs with
      | true => exact settles_pure
      | false => exact settles_failed
  | createTable there ifNotExists runs =>
      cases there with
      | false => exact settles_inAutocommit _ _
      | true =>
          cases ifNotExists with
          | true => exact settles_pure
          | false => exact settles_failed
  | createIndex there ifNotExists runs =>
      cases there with
      | false => exact settles_inAutocommit _ _
      | true =>
          cases ifNotExists with
          | true => exact settles_pure
          | false => exact settles_failed
  | insert runs => exact settles_inAutocommit _ _
  | update runs => exact settles_inAutocommit _ _
  | delete runs => exact settles_inAutocommit _ _
  | dropTable runs => exact settles_inAutocommit _ _
  | alterTableAddColumn runs => exact settles_inAutocommit _ _

/-- A statement that writes is not quiet. -/
theorem quiet_of_writes {planned : Planned} (writes : planned.writes = true) : planned.quiet = false := by
  cases planned <;> simp_all [Planned.writes, Planned.quiet]

theorem settles_runAll (statements : List Statement) :
    Settles (runAll planner statements) (writesFirst planner statements)
      (statements.all fun statement => (planner.planned statement).quiet) := by
  induction statements with
  | nil => exact settles_pure
  | cons statement rest ih =>
      have first : Settles (runOne planner statement) _ _ := settles_runOne statement
      have both := @Settles.bind _ (fun _ => runAll planner rest) _ _ _ _ first ih
      intro connection held
      have ran := both connection held
      refine Eq.trans ran ?_
      rw [writesFirst, List.all_cons]
      cases writes : (planner.planned statement).writes with
      | true => simp
      | false => simp

theorem settles_runPragma (pragma : Pragma) :
    Settles (runPragma pragma) pragma.setsUserVersion (pragmaQuiet pragma) := by
  unfold runPragma pragmaQuiet
  cases sets : pragma.setsUserVersion with
  | true =>
      rw [if_pos rfl]
      exact settles_inAutocommit _ _
  | false =>
      rw [if_neg Bool.false_ne_true]
      by_cases version : pragma.name = "user_version".toList ∧ pragma.value.isSome
      · rw [if_pos version]
        simpa [version] using settles_failed
      · rw [if_neg version]
        by_cases info : pragma.name = "table_info".toList ∧ pragma.arg.isNone
        · rw [if_pos info]
          simpa [info] using settles_failed
        · rw [if_neg info]
          have quiet : (!false && !(decide (pragma.name = "user_version".toList) && pragma.value.isSome) &&
              !(decide (pragma.name = "table_info".toList) && pragma.arg.isNone)) = true := by
            simp only [Bool.not_false, Bool.true_and, Bool.and_eq_true, Bool.not_eq_true',
              ← Bool.not_eq_true, decide_eq_true_eq]
            exact ⟨version, info⟩
          rw [quiet]
          exact settles_pure

theorem settles_execute (sql : Text) :
    Settles (execute planner sql) (executeWrites planner sql) (executeQuiet planner sql) := by
  unfold execute executeWrites executeQuiet
  cases Pragma.tryParse sql with
  | some pragma => exact settles_runPragma pragma
  | none =>
      cases planner.parse sql with
      | none => exact settles_failed
      | some statements => exact settles_runAll statements

theorem settles_query (sql : Text) :
    Settles (query planner sql) (queryWrites sql) (queryQuiet planner sql) := by
  unfold query queryWrites queryQuiet
  cases Pragma.tryParse sql with
  | some pragma => exact settles_runPragma pragma
  | none =>
      match planner.parse sql with
      | none => exact settles_failed
      | some [] => exact settles_failed
      | some (_ :: _ :: _) => exact settles_failed
      | some [statement] =>
          cases planned : planner.planned statement with
          | query runs =>
              cases runs with
              | true => simpa [planned] using settles_pure
              | false => simpa [planned] using settles_failed
          | _ => simpa [planned] using settles_failed

theorem isQuery_iff {sql : Text} :
    isQuery sql = true ↔ firstKeyword sql = "SELECT".toList ∨ firstKeyword sql = "WITH".toList ∨
      firstKeyword sql = "VALUES".toList := by
  simp only [isQuery, Bool.or_eq_true, decide_eq_true_eq, or_assoc]

theorem settles_execOne (sql : Text) :
    Settles (execOne planner sql) (execOneWrites planner sql) (execOneQuiet planner sql) := by
  unfold execOne execOneWrites execOneQuiet
  cases asQuery : isQuery sql with
  | true =>
      rw [if_pos (isQuery_iff.mp asQuery)]
      exact settles_query sql
  | false =>
      have other : ¬ isQuery sql = true := by rw [asQuery]; exact Bool.false_ne_true
      rw [if_neg fun kw => other (isQuery_iff.mpr kw)]
      exact settles_execute sql

theorem settles_execAll (statements : List Statement) :
    Settles (execAll planner statements) (execWritesFirst planner statements)
      (statements.all fun statement => execOneQuiet planner (planner.display statement)) := by
  induction statements with
  | nil => exact settles_pure
  | cons statement rest ih =>
      have first : Settles (execOne planner (planner.display statement)) _ _ := settles_execOne _
      have both := @Settles.bind _ (fun _ => execAll planner rest) _ _ _ _ first ih
      intro connection held
      refine Eq.trans (both connection held) ?_
      rw [execWritesFirst, List.all_cons]
      cases writes : execOneWrites planner (planner.display statement) with
      | true => simp
      | false => simp

/-- A call that returns or fails with an error does not wait. -/
theorem not_waits_of_ok {code : OnConnection Unit} {connection after : Connection}
    (ran : code connection = .ok () after) : ¬ Waits code connection := by
  rintro ⟨_, waited⟩
  rw [ran] at waited
  cases waited

/-- `execute_on` writes in the transaction that is open. -/
theorem not_waits_executeOn {sql : Text} {connection : Connection} :
    ¬ Waits (executeOn planner sql) connection := by
  rintro ⟨after, ran⟩
  unfold executeOn at ran
  cases parsed : planner.parse sql with
  | none =>
      rw [parsed] at ran
      cases ran
  | some statements =>
      rw [parsed] at ran
      dsimp only at ran
      split at ran
      · cases ran
      · cases ran

/-- With a transaction, a stepped statement waits exactly when it begins another one. -/
theorem StmtState.waits_iff {sql : Text} :
    Waits (StmtState.run planner sql) ⟨true, true⟩ ↔ StmtState.writes planner sql = true := by
  have stepped : StmtState.run planner sql ⟨true, true⟩ =
      (match route sql with
        | .begin_ | .explain => pure ()
        | .commit | .rollback => modify fun connection => { connection with tx := false, gate := false }
        | .query => query planner sql
        | .dml => executeOn planner sql
        | .other => execute planner sql : OnConnection Unit) ⟨true, true⟩ := by
    refine (Exec.bind_of_ok rfl).trans ?_
    cases route sql <;> rfl
  unfold StmtState.writes
  rw [show Waits (StmtState.run planner sql) ⟨true, true⟩ ↔ _ from by unfold Waits; rw [stepped]]
  cases route sql with
  | begin_ => exact iff_of_false (not_waits_of_ok rfl) Bool.false_ne_true
  | explain => exact iff_of_false (not_waits_of_ok rfl) Bool.false_ne_true
  | commit => exact iff_of_false (not_waits_of_ok rfl) Bool.false_ne_true
  | rollback => exact iff_of_false (not_waits_of_ok rfl) Bool.false_ne_true
  | query => exact (settles_query sql).waits_iff rfl
  | dml => exact iff_of_false not_waits_executeOn Bool.false_ne_true
  | other => exact (settles_execute sql).waits_iff rfl

/-- With a transaction, `sqlite3_exec` waits exactly when one of its statements begins
another one and no statement before it fails. -/
theorem exec_waits_iff {sql : Text} :
    Waits (exec planner sql) ⟨true, true⟩ ↔
      (planner.parse sql).any (execWritesFirst planner) = true := by
  unfold exec
  cases planner.parse sql with
  | none => exact settles_failed.waits_iff rfl
  | some statements => exact (settles_execAll statements).waits_iff rfl

/-- On a connection with a transaction a statement never waits for the gate exactly when it is
not sent to autocommit, or nothing in it begins a write transaction there. -/
theorem never_waits_iff (planner : Planner Statement) (sql : Text) :
    (¬ Waits (StmtState.run planner sql) ⟨true, true⟩ ↔ StmtState.writes planner sql = false) ∧
      (¬ Waits (exec planner sql) ⟨true, true⟩ ↔
        (planner.parse sql).any (execWritesFirst planner) = false) := by
  constructor
  · rw [StmtState.waits_iff, Bool.not_eq_true]
  · rw [exec_waits_iff, Bool.not_eq_true]

end

/-- Nothing parses. -/
def noStatements : Planner Unit := ⟨fun _ => none, fun _ => [], fun _ => .failed⟩

/-- `PRAGMA user_version = 5` waits for the gate of its own connection. -/
theorem pragma_waits :
    Waits (StmtState.run noStatements "PRAGMA user_version = 5".toList) ⟨true, true⟩ := by
  apply StmtState.waits_iff.mpr
  decide +kernel

end Squrust.Ffi
