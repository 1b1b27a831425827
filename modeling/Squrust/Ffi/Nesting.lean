import Squrust.Foundation.Savepoints
import Squrust.Ffi.Routing

/-!
# Savepoints on one transaction

A connection has at most one write transaction. SAVEPOINT begins it like BEGIN,
RELEASE commits it like COMMIT, and ROLLBACK TO is told from ROLLBACK by no one,
as only the first word of a text is read. So the data follow the nesting of
savepoints as long as RELEASE names the outermost one, no transaction is open
when ROLLBACK TO comes, and the verb is the first word (`follows_nesting`).
-/

set_option autoImplicit false

namespace Squrust.Ffi

open Squrust.Foundation

variable {Name Data : Type}

/-- What a stepped text is read as by the SQL grammar. -/
inductive Verb (Name : Type) where
  | begin_
  | savepoint (name : Name)
  | release (name : Name)
  | rollbackTo (name : Name)
  | rollback
  | commit
  | dml

/-- A statement that is stepped. -/
structure Stepped (Name Data : Type) where
  text : Text
  verb : Verb Name
  /-- What the rows of an INSERT, UPDATE or DELETE make of the data, and whether it succeeds. -/
  effect : Data → Data × Bool
  /-- Whether `WriteTx::commit` returns. -/
  commits : Bool

/-- The data that other readers see, and those of the write transaction of the connection. -/
structure DataConnection (Data : Type) where
  committed : Data
  tx : Option Data
deriving DecidableEq

namespace DataConnection

/-- A write transaction of its own; it is dropped when its rows fail. -/
def autocommit (conn : DataConnection Data) (stmt : Stepped Name Data) : DataConnection Data :=
  match stmt.effect conn.committed with
  | (data, true) => if stmt.commits then { conn with committed := data } else conn
  | (_, false) => conn

/-- `StmtState::run` and what it does to the data; none when it waits for the gate of its own
connection. -/
def step (conn : DataConnection Data) (stmt : Stepped Name Data) : Option (DataConnection Data) :=
  match route stmt.text with
  | .begin_ => some (match conn.tx with
      | none => { conn with tx := some conn.committed }
      | some _ => conn)
  | .commit => some (match conn.tx with
      | some data => ⟨if stmt.commits then data else conn.committed, none⟩
      | none => conn)
  | .rollback => some { conn with tx := none }
  | .explain => some conn
  -- An INSERT behind WITH is no query, and a query changes nothing.
  | .query => some conn
  | .dml => some (match conn.tx with
      | some data => { conn with tx := some (stmt.effect data).1 }
      | none => conn.autocommit stmt)
  -- The planner knows no transaction verbs.
  | .other =>
      match stmt.verb with
      | .dml =>
          match conn.tx with
          | some _ => none
          | none => some (conn.autocommit stmt)
      | _ => some conn

def run (conn : DataConnection Data) : List (Stepped Name Data) → Option (DataConnection Data)
  | [] => some conn
  | stmt :: rest => (conn.step stmt).bind fun after => after.run rest

/-- The connection with its flag and its gate only. -/
def toConnection (conn : DataConnection Data) : Connection := ⟨conn.tx.isSome, conn.tx.isSome⟩

/-- On the transaction verbs the flag and the gate are those of `StmtState::run`. -/
theorem run_toConnection {Statement : Type} (planner : Planner Statement)
    (conn : DataConnection Data) (stmt : Stepped Name Data)
    (verb : route stmt.text = .begin_ ∨ route stmt.text = .commit ∨ route stmt.text = .rollback) :
    ∃ after, conn.step stmt = some after ∧
      StmtState.run planner stmt.text conn.toConnection = .ok () after.toConnection := by
  unfold DataConnection.step
  rcases verb with reads | reads | reads
  · refine ⟨_, by rw [reads], (Exec.bind_of_ok rfl).trans ?_⟩
    rw [reads]
    obtain ⟨data, _ | pending⟩ := conn
    · rfl
    · rfl
  · refine ⟨_, by rw [reads], (Exec.bind_of_ok rfl).trans ?_⟩
    rw [reads]
    obtain ⟨data, _ | pending⟩ := conn
    · rfl
    · rfl
  · refine ⟨_, by rw [reads], (Exec.bind_of_ok rfl).trans ?_⟩
    rw [reads]
    obtain ⟨data, _ | pending⟩ := conn
    · rfl
    · rfl

end DataConnection

/-- What the statement does by SQLite's nesting. -/
def Stepped.follow [DecidableEq Name] (stmt : Stepped Name Data) (nesting : Nesting Name Data) :
    Nesting Name Data :=
  match stmt.verb with
  | .begin_ => nesting.begin_
  | .savepoint name => nesting.savepoint name
  | .release name => nesting.release name stmt.commits
  | .rollbackTo name => nesting.rollbackTo name
  | .rollback => nesting.rollback
  | .commit => nesting.commit stmt.commits
  | .dml => nesting.write stmt.effect stmt.commits

/-- The arm of `StmtState::run` for the verb. -/
def Verb.route : Verb Name → Route
  | .begin_ | .savepoint _ => .begin_
  | .release _ | .commit => .commit
  | .rollbackTo _ | .rollback => .rollback
  | .dml => .dml

section

variable [DecidableEq Name]

/-- The nesting is one level deep: RELEASE names the outermost savepoint, and ROLLBACK TO comes
without a transaction. -/
def Verb.Flat (verb : Verb Name) (nesting : Nesting Name Data) : Prop :=
  match verb with
  | .release name => nesting.frames = [] ∨ ∃ frame, nesting.enclosing name = [frame]
  | .rollbackTo _ => nesting.frames = []
  | _ => True

/-- The verb has nothing to do, or nothing that shows outside of the frames. -/
def Verb.Idle (verb : Verb Name) (nesting : Nesting Name Data) : Prop :=
  match verb with
  | .begin_ | .savepoint _ => nesting.frames ≠ []
  | .release name => ∀ frame, nesting.enclosing name ≠ [frame]
  | .rollbackTo name => nesting.enclosing name = []
  | .rollback | .commit | .dml => nesting.frames = []

/-- The text begins with its verb, on one level; or it does not, and there is nothing to do. -/
def Stepped.Follows (stmt : Stepped Name Data) (nesting : Nesting Name Data) : Prop :=
  route stmt.text = stmt.verb.route ∧ stmt.verb.Flat nesting ∨
    route stmt.text = .other ∧ stmt.verb.Idle nesting

/-- All statements of a run do. -/
def AllFollow : Nesting Name Data → List (Stepped Name Data) → Prop
  | _, [] => True
  | nesting, stmt :: rest => stmt.Follows nesting ∧ AllFollow (stmt.follow nesting) rest

/-- What all statements do by SQLite's nesting. -/
def followAll (nesting : Nesting Name Data) (stmts : List (Stepped Name Data)) : Nesting Name Data :=
  stmts.foldl (fun nesting stmt => stmt.follow nesting) nesting

end

/-- The connection shows the data of the nesting: what other readers see, and what it sees itself
in its transaction, if one is open. -/
structure Matches (conn : DataConnection Data) (nesting : Nesting Name Data) : Prop where
  committed : conn.committed = nesting.committed
  tx : conn.tx = nesting.pending
  closed : nesting.frames = [] → nesting.current = nesting.committed

namespace Matches

variable {conn : DataConnection Data} {nesting : Nesting Name Data} {stmt : Stepped Name Data}

theorem start (data : Data) : Matches ⟨data, none⟩ (Nesting.start data : Nesting Name Data) :=
  ⟨rfl, rfl, fun _ => rfl⟩

/-- Without a transaction. -/
theorem tx_of_nil (same : Matches conn nesting) (outside : nesting.frames = []) : conn.tx = none :=
  same.tx.trans (Nesting.pending_eq_none.mpr outside)

/-- With one. -/
theorem tx_of_ne (same : Matches conn nesting) (inside : nesting.frames ≠ []) :
    conn.tx = some nesting.current :=
  same.tx.trans (Nesting.pending_of_ne inside)

/-- The transaction of the connection ends. -/
theorem finish (same : Matches conn nesting) (through : Bool) :
    Matches ⟨if through then nesting.current else conn.committed, none⟩ (nesting.finish through) := by
  refine ⟨?_, rfl, fun _ => rfl⟩
  rw [Nesting.finish, same.committed]
  rfl

theorem begin_ (same : Matches conn nesting) :
    Matches (match conn.tx with
      | none => { conn with tx := some conn.committed }
      | some _ => conn) nesting.begin_ := by
  cases frames : nesting.frames with
  | nil =>
      have closed := same.closed frames
      simp only [same.tx_of_nil frames, Nesting.begin_, frames]
      refine ⟨same.committed, ?_, fun none => by cases none⟩
      rw [same.committed, ← closed]
      rfl
  | cons frame outer =>
      have inside : nesting.frames ≠ [] := by rw [frames]; exact List.cons_ne_nil _ _
      simp only [same.tx_of_ne inside, Nesting.begin_, frames]
      exact same

/-- A savepoint of a transaction that is open changes nothing that shows. -/
theorem savepoint_inside (same : Matches conn nesting) (inside : nesting.frames ≠ []) (name : Name) :
    Matches conn (nesting.savepoint name) :=
  ⟨same.committed, same.tx_of_ne inside, fun none => by cases none⟩

theorem savepoint (same : Matches conn nesting) (name : Name) :
    Matches (match conn.tx with
      | none => { conn with tx := some conn.committed }
      | some _ => conn) (nesting.savepoint name) := by
  by_cases outside : nesting.frames = []
  · have closed := same.closed outside
    simp only [same.tx_of_nil outside]
    refine ⟨same.committed, ?_, fun none => by cases none⟩
    rw [same.committed, ← closed]
    rfl
  · simp only [same.tx_of_ne outside]
    exact same.savepoint_inside outside name

theorem commit (same : Matches conn nesting) (through : Bool) :
    Matches (match conn.tx with
      | some data => ⟨if through then data else conn.committed, none⟩
      | none => conn) (nesting.commit through) := by
  cases frames : nesting.frames with
  | nil =>
      simp only [same.tx_of_nil frames, Nesting.commit, frames]
      exact same
  | cons frame outer =>
      have inside : nesting.frames ≠ [] := by rw [frames]; exact List.cons_ne_nil _ _
      simp only [same.tx_of_ne inside, Nesting.commit, frames]
      exact same.finish through

theorem rollback (same : Matches conn nesting) :
    Matches { conn with tx := none } nesting.rollback :=
  ⟨same.committed, rfl, fun _ => rfl⟩

/-- A change of the data, in the transaction or in one of its own. -/
theorem write (same : Matches conn nesting) (stmt : Stepped Name Data) :
    Matches (match conn.tx with
      | some data => { conn with tx := some (stmt.effect data).1 }
      | none => conn.autocommit stmt) (nesting.write stmt.effect stmt.commits) := by
  cases frames : nesting.frames with
  | nil =>
      simp only [same.tx_of_nil frames, Nesting.write, frames]
      rw [← same.committed]
      unfold DataConnection.autocommit
      rcases stmt.effect conn.committed with ⟨data, _ | _⟩
      · exact ⟨rfl, same.tx_of_nil frames, fun _ => rfl⟩
      · cases stmt.commits with
        | false => exact ⟨rfl, same.tx_of_nil frames, fun _ => rfl⟩
        | true => exact ⟨rfl, same.tx_of_nil frames, fun _ => rfl⟩
  | cons frame outer =>
      have inside : nesting.frames ≠ [] := by rw [frames]; exact List.cons_ne_nil _ _
      simp only [same.tx_of_ne inside, Nesting.write, frames]
      exact ⟨same.committed, rfl, fun none => by cases none⟩

variable [DecidableEq Name]

/-- RELEASE of the outermost savepoint. -/
theorem release_flat (same : Matches conn nesting) {name : Name}
    (flat : nesting.frames = [] ∨ ∃ frame, nesting.enclosing name = [frame]) (through : Bool) :
    Matches (match conn.tx with
      | some data => ⟨if through then data else conn.committed, none⟩
      | none => conn) (nesting.release name through) := by
  rcases flat with outside | ⟨frame, outermost⟩
  · simp only [same.tx_of_nil outside, Nesting.release, Nesting.enclosing_of_nil outside]
    exact same
  · have inside : nesting.frames ≠ [] := by
      intro outside
      rw [Nesting.enclosing_of_nil outside] at outermost
      cases outermost
    simp only [same.tx_of_ne inside, Nesting.release, outermost]
    exact same.finish through

/-- A RELEASE that is not carried out is one of a savepoint inside. -/
theorem release_idle (same : Matches conn nesting) {name : Name}
    (idle : ∀ frame, nesting.enclosing name ≠ [frame]) (through : Bool) :
    Matches conn (nesting.release name through) := by
  unfold Nesting.release
  cases around : nesting.enclosing name with
  | nil => exact same
  | cons frame outer =>
      cases outer with
      | nil => exact absurd around (idle frame)
      | cons next outer =>
          have inside : nesting.frames ≠ [] := by
            intro outside
            rw [Nesting.enclosing_of_nil outside] at around
            cases around
          exact ⟨same.committed, same.tx_of_ne inside, fun none => by cases none⟩

/-- **Step.** A statement that follows the nesting keeps the data of the connection those of the
nesting. -/
theorem step (same : Matches conn nesting) (follows : stmt.Follows nesting) :
    ∃ after, conn.step stmt = some after ∧ Matches after (stmt.follow nesting) := by
  rcases follows with ⟨reads, flat⟩ | ⟨unread, idle⟩
  · unfold DataConnection.step Stepped.follow
    rw [reads]
    cases verb : stmt.verb with
    | begin_ => exact ⟨_, rfl, same.begin_⟩
    | savepoint name => exact ⟨_, rfl, same.savepoint name⟩
    | release name =>
        rw [verb] at flat
        exact ⟨_, rfl, same.release_flat flat stmt.commits⟩
    | rollbackTo name =>
        rw [verb] at flat
        refine ⟨_, rfl, ?_⟩
        have outside : nesting.frames = [] := flat
        simp only [Nesting.rollbackTo, Nesting.enclosing_of_nil outside]
        exact ⟨same.committed, (Nesting.pending_eq_none.mpr outside).symm, same.closed⟩
    | rollback => exact ⟨_, rfl, same.rollback⟩
    | commit => exact ⟨_, rfl, same.commit stmt.commits⟩
    | dml => exact ⟨_, rfl, same.write stmt⟩
  · unfold DataConnection.step Stepped.follow
    rw [unread]
    cases verb : stmt.verb with
    | begin_ =>
        rw [verb] at idle
        refine ⟨_, rfl, ?_⟩
        have begun := same.begin_
        simpa only [same.tx_of_ne idle] using begun
    | savepoint name =>
        rw [verb] at idle
        exact ⟨_, rfl, same.savepoint_inside idle name⟩
    | release name =>
        rw [verb] at idle
        exact ⟨_, rfl, same.release_idle idle stmt.commits⟩
    | rollbackTo name =>
        rw [verb] at idle
        refine ⟨_, rfl, ?_⟩
        have unknown : nesting.enclosing name = [] := idle
        simp only [Nesting.rollbackTo, unknown]
        exact same
    | rollback =>
        rw [verb] at idle
        exact ⟨_, rfl, same.committed, same.tx_of_nil idle, fun _ => rfl⟩
    | commit =>
        rw [verb] at idle
        refine ⟨_, rfl, ?_⟩
        have committed := same.commit stmt.commits
        simpa only [same.tx_of_nil idle] using committed
    | dml =>
        rw [verb] at idle
        have written := same.write stmt
        simp only [same.tx_of_nil idle] at written ⊢
        exact ⟨_, rfl, written⟩

/-- **Run.** -/
theorem run (same : Matches conn nesting) {stmts : List (Stepped Name Data)}
    (follow : AllFollow nesting stmts) :
    ∃ after, conn.run stmts = some after ∧ Matches after (followAll nesting stmts) := by
  induction stmts generalizing conn nesting with
  | nil => exact ⟨conn, rfl, same⟩
  | cons stmt rest ih =>
      obtain ⟨first, later⟩ := follow
      obtain ⟨between, stepped, still⟩ := same.step first
      obtain ⟨after, ran, finally_⟩ := ih still later
      refine ⟨after, ?_, finally_⟩
      rw [DataConnection.run, stepped]
      exact ran

end Matches

/-- **Nesting.** On a connection without a transaction, whatever statements are stepped that follow
the nesting, none of them waits, and other readers and the connection itself see the data they
should. -/
theorem follows_nesting [DecidableEq Name] (data : Data) (stmts : List (Stepped Name Data))
    (follow : AllFollow (Nesting.start data) stmts) :
    ∃ after, DataConnection.run ⟨data, none⟩ stmts = some after ∧
      Matches after (followAll (Nesting.start data) stmts) :=
  (Matches.start data).run follow

section Examples

/-- Add a row. -/
def insertRow (row : Nat) : Stepped Text (List Nat) :=
  ⟨"INSERT INTO t VALUES (?1)".toList, .dml, fun rows => (rows ++ [row], true), true⟩

def beginTx : Stepped Text (List Nat) := ⟨"BEGIN".toList, .begin_, fun rows => (rows, true), true⟩

def commitTx : Stepped Text (List Nat) := ⟨"COMMIT".toList, .commit, fun rows => (rows, true), true⟩

def savepointA : Stepped Text (List Nat) :=
  ⟨"SAVEPOINT a".toList, .savepoint "a".toList, fun rows => (rows, true), true⟩

def releaseA : Stepped Text (List Nat) :=
  ⟨"RELEASE a".toList, .release "a".toList, fun rows => (rows, true), true⟩

def rollbackToA : Stepped Text (List Nat) :=
  ⟨"ROLLBACK TO a".toList, .rollbackTo "a".toList, fun rows => (rows, true), true⟩

/-- A savepoint around a row, and a transaction around another. -/
theorem follows_nesting_rows :
    ∃ after, DataConnection.run ⟨[], none⟩
        [savepointA, insertRow 1, releaseA, beginTx, insertRow 2, commitTx] = some after ∧
      Matches after (followAll (Nesting.start [])
        [savepointA, insertRow 1, releaseA, beginTx, insertRow 2, commitTx]) := by
  refine follows_nesting [] _ ⟨.inl ⟨by decide, trivial⟩, .inl ⟨by decide, trivial⟩,
    .inl ⟨by decide, .inr ⟨_, rfl⟩⟩, .inl ⟨by decide, trivial⟩, .inl ⟨by decide, trivial⟩,
    .inl ⟨by decide, trivial⟩, trivial⟩

/-- Inside of BEGIN, RELEASE makes the rows visible that it should not, and ROLLBACK TO loses the
row that was there before the savepoint. -/
theorem savepoint_ends_transaction :
    (DataConnection.run ⟨[], none⟩ [beginTx, insertRow 1, savepointA, insertRow 2, releaseA] =
        some ⟨[1, 2], none⟩ ∧
      (followAll (Nesting.start [])
        [beginTx, insertRow 1, savepointA, insertRow 2, releaseA]).committed = []) ∧
    DataConnection.run ⟨[], none⟩ [beginTx, insertRow 1, savepointA, insertRow 2, rollbackToA,
        commitTx] = some ⟨[], none⟩ ∧
      (followAll (Nesting.start []) [beginTx, insertRow 1, savepointA, insertRow 2, rollbackToA,
        commitTx]).committed = [1] := by
  decide +kernel

end Examples

end Squrust.Ffi
