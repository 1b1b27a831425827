import Mathlib.Tactic.Common

/-!
# The catalog mutex and the write gate

Two clients share an engine. One has a write transaction: it takes the write
gate, and each of its statements locks the catalog mutex for a moment, to plan,
to plan a subquery, to fetch the table. The other runs DDL: it locks the catalog
mutex and keeps it while it takes the write gate, writes and commits. The steps
of the two come in any order (`Locks.step`).

The locks are taken in opposite orders, so each client can come to wait for the
other (`Locks.ddl_inside_transaction_deadlocks`). While DDL and the transaction
keep out of each other's way, none waits for the other (`Locks.never_deadlocked`);
once they do not, a deadlock is ahead (`Locks.deadlock_ahead`).
-/

set_option autoImplicit false

namespace Squrust.Sql

/-- The two clients. -/
inductive Client where
  | transaction
  | ddl
deriving DecidableEq

/-- Where the client with the transaction is. -/
inductive TransactionAt where
  | outside
  /-- In `begin_write`, waiting for the gate. -/
  | gate
  | inside
  /-- In `execute_on`, waiting for the catalog mutex, which it locks so many more times. -/
  | catalog (more : Nat)
  /-- In `execute_on`, with the catalog mutex. -/
  | planning (more : Nat)
deriving DecidableEq

/-- Where the client with the DDL statements is. -/
inductive DdlAt where
  | outside
  /-- In `plan_stmt`, waiting for the catalog mutex. -/
  | plan
  | planning
  /-- In the arm of the statement, waiting for the catalog mutex. -/
  | catalog
  | checking
  /-- In `begin_write`, waiting for the gate with the catalog mutex in its hands. -/
  | gate
  | writing
  /-- Committed or failed: the gate is open again, the catalog mutex is not. -/
  | finished
deriving DecidableEq

/-- The transaction has the gate from `begin_write` to its end. -/
def TransactionAt.hasGate : TransactionAt → Bool
  | .outside | .gate => false
  | _ => true

def TransactionAt.hasCatalog : TransactionAt → Bool
  | .planning _ => true
  | _ => false

def DdlAt.hasGate : DdlAt → Bool
  | .writing => true
  | _ => false

def DdlAt.hasCatalog : DdlAt → Bool
  | .outside | .plan | .catalog => false
  | _ => true

/-- The two locks, and where the clients are. -/
structure Locks where
  catalog : Option Client
  gate : Option Client
  transaction : TransactionAt
  ddl : DdlAt
deriving DecidableEq

/-- A step of a client. -/
inductive LockStep where
  | beginWrite
  | enterGate
  /-- A statement that locks the catalog mutex once, and so many more times. -/
  | executeOn (more : Nat)
  | lockCatalog
  | unlockCatalog
  /-- `commit`, `rollback` or `drop`. -/
  | finish
  | ddl
  | ddlLockPlan
  | ddlUnlockPlan
  | ddlLockCatalog
  /-- The table is there already: nothing to do, or an error. -/
  | ddlReturnEarly
  | ddlBeginWrite
  | ddlEnterGate
  | ddlFinish
  | ddlUnlockCatalog
deriving DecidableEq

namespace Locks

/-- Nobody holds or waits for a lock. -/
def start : Locks := ⟨none, none, .outside, .outside⟩

/-- One step. A client that waits for a lock that is held does not move. -/
def step (locks : Locks) : LockStep → Locks
  | .beginWrite =>
      if locks.transaction = .outside then { locks with transaction := .gate } else locks
  | .enterGate =>
      if locks.transaction = .gate ∧ locks.gate = none then
        { locks with transaction := .inside, gate := some .transaction }
      else locks
  | .executeOn more =>
      if locks.transaction = .inside then { locks with transaction := .catalog more } else locks
  | .lockCatalog =>
      match locks.transaction, locks.catalog with
      | .catalog more, none =>
          { locks with transaction := .planning more, catalog := some .transaction }
      | _, _ => locks
  | .unlockCatalog =>
      match locks.transaction with
      | .planning 0 => { locks with transaction := .inside, catalog := none }
      | .planning (more + 1) => { locks with transaction := .catalog more, catalog := none }
      | _ => locks
  | .finish =>
      if locks.transaction = .inside then { locks with transaction := .outside, gate := none }
      else locks
  | .ddl => if locks.ddl = .outside then { locks with ddl := .plan } else locks
  | .ddlLockPlan =>
      if locks.ddl = .plan ∧ locks.catalog = none then
        { locks with ddl := .planning, catalog := some .ddl }
      else locks
  | .ddlUnlockPlan =>
      if locks.ddl = .planning then { locks with ddl := .catalog, catalog := none } else locks
  | .ddlLockCatalog =>
      if locks.ddl = .catalog ∧ locks.catalog = none then
        { locks with ddl := .checking, catalog := some .ddl }
      else locks
  | .ddlReturnEarly =>
      if locks.ddl = .checking then { locks with ddl := .outside, catalog := none } else locks
  | .ddlBeginWrite => if locks.ddl = .checking then { locks with ddl := .gate } else locks
  | .ddlEnterGate =>
      if locks.ddl = .gate ∧ locks.gate = none then
        { locks with ddl := .writing, gate := some .ddl }
      else locks
  | .ddlFinish =>
      if locks.ddl = .writing then { locks with ddl := .finished, gate := none } else locks
  | .ddlUnlockCatalog =>
      if locks.ddl = .finished then { locks with ddl := .outside, catalog := none } else locks

/-- Steps one after the other. -/
def run (locks : Locks) (steps : List LockStep) : Locks := steps.foldl step locks

/-- The transaction waits for the catalog mutex, which the DDL has, and the DDL for the gate, which
the transaction has. -/
def Deadlocked (locks : Locks) : Prop :=
  (∃ more, locks.transaction = .catalog more) ∧ locks.catalog = some .ddl ∧
    locks.ddl = .gate ∧ locks.gate = some .transaction

/-- The DDL has the catalog mutex and not yet the gate. -/
def DdlBeforeGate (locks : Locks) : Prop := locks.ddl = .checking ∨ locks.ddl = .gate

/-- The transaction does not take the gate while DDL is between its two locks, and DDL does not take
the catalog mutex while the transaction has the gate. -/
def Apart (locks : Locks) : LockStep → Prop
  | .enterGate => ¬ locks.DdlBeforeGate
  | .ddlLockCatalog => locks.gate ≠ some .transaction
  | _ => True

/-- Every step of a run keeps the clients apart. -/
def AllApart (locks : Locks) : List LockStep → Prop
  | [] => True
  | action :: rest => locks.Apart action ∧ AllApart (locks.step action) rest

/-! ## Who holds what -/

/-- A lock is held by the client that has it. -/
structure Held (locks : Locks) : Prop where
  gate : locks.gate = some .transaction ↔ locks.transaction.hasGate = true
  gateDdl : locks.gate = some .ddl ↔ locks.ddl.hasGate = true
  catalog : locks.catalog = some .transaction ↔ locks.transaction.hasCatalog = true
  catalogDdl : locks.catalog = some .ddl ↔ locks.ddl.hasCatalog = true

variable {locks : Locks}

theorem held_start : Held start := by
  refine ⟨?_, ?_, ?_, ?_⟩ <;> simp [start, TransactionAt.hasGate, TransactionAt.hasCatalog,
    DdlAt.hasGate, DdlAt.hasCatalog]

/-- A step of the transaction: what it takes was free, and it has what it took. -/
theorem Held.stepTransaction (held : locks.Held) {catalog gate : Option Client}
    {transaction : TransactionAt}
    (gate_ : gate = some .transaction ↔ transaction.hasGate = true)
    (catalog_ : catalog = some .transaction ↔ transaction.hasCatalog = true)
    (gateDdl : gate = some .ddl ↔ locks.gate = some .ddl)
    (catalogDdl : catalog = some .ddl ↔ locks.catalog = some .ddl) :
    Held { locks with catalog, gate, transaction } :=
  ⟨gate_, gateDdl.trans held.gateDdl, catalog_, catalogDdl.trans held.catalogDdl⟩

/-- A step of the DDL client. -/
theorem Held.stepDdl (held : locks.Held) {catalog gate : Option Client} {ddl : DdlAt}
    (gateDdl : gate = some .ddl ↔ ddl.hasGate = true)
    (catalogDdl : catalog = some .ddl ↔ ddl.hasCatalog = true)
    (gate_ : gate = some .transaction ↔ locks.gate = some .transaction)
    (catalog_ : catalog = some .transaction ↔ locks.catalog = some .transaction) :
    Held { locks with catalog, gate, ddl } :=
  ⟨gate_.trans held.gate, gateDdl, catalog_.trans held.catalog, catalogDdl⟩

/-- What is held is held by one client. -/
theorem Held.step (held : locks.Held) (action : LockStep) : (locks.step action).Held := by
  have gate := held.gate
  have gateDdl := held.gateDdl
  have catalog := held.catalog
  have catalogDdl := held.catalogDdl
  cases action with
  | beginWrite =>
      simp only [Locks.step]
      split
      · next outside =>
        rw [outside] at gate catalog
        exact held.stepTransaction gate catalog Iff.rfl Iff.rfl
      · exact held
  | enterGate =>
      simp only [Locks.step]
      split
      · next free =>
        rw [free.1] at catalog
        refine held.stepTransaction (by simp [TransactionAt.hasGate]) catalog ?_ Iff.rfl
        simp [free.2]
      · exact held
  | executeOn more =>
      simp only [Locks.step]
      split
      · next inside =>
        rw [inside] at gate catalog
        exact held.stepTransaction gate catalog Iff.rfl Iff.rfl
      · exact held
  | lockCatalog =>
      simp only [Locks.step]
      split
      · next more at_ free =>
        rw [at_] at gate
        refine held.stepTransaction gate (by simp [TransactionAt.hasCatalog]) Iff.rfl ?_
        simp [free]
      · exact held
  | unlockCatalog =>
      simp only [Locks.step]
      split
      · next at_ =>
        rw [at_] at gate catalog
        refine held.stepTransaction gate (by simp [TransactionAt.hasCatalog]) Iff.rfl ?_
        simp [catalog.mpr rfl]
      · next more at_ =>
        rw [at_] at gate catalog
        refine held.stepTransaction gate (by simp [TransactionAt.hasCatalog]) Iff.rfl ?_
        simp [catalog.mpr rfl]
      · exact held
  | finish =>
      simp only [Locks.step]
      split
      · next inside =>
        rw [inside] at gate catalog
        refine held.stepTransaction (by simp [TransactionAt.hasGate]) catalog ?_ Iff.rfl
        simp [gate.mpr rfl]
      · exact held
  | ddl =>
      simp only [Locks.step]
      split
      · next outside =>
        rw [outside] at gateDdl catalogDdl
        exact held.stepDdl gateDdl catalogDdl Iff.rfl Iff.rfl
      · exact held
  | ddlLockPlan =>
      simp only [Locks.step]
      split
      · next free =>
        rw [free.1] at gateDdl
        refine held.stepDdl gateDdl (by simp [DdlAt.hasCatalog]) Iff.rfl ?_
        simp [free.2]
      · exact held
  | ddlUnlockPlan =>
      simp only [Locks.step]
      split
      · next at_ =>
        rw [at_] at gateDdl catalogDdl
        refine held.stepDdl gateDdl (by simp [DdlAt.hasCatalog]) Iff.rfl ?_
        simp [catalogDdl.mpr rfl]
      · exact held
  | ddlLockCatalog =>
      simp only [Locks.step]
      split
      · next free =>
        rw [free.1] at gateDdl
        refine held.stepDdl gateDdl (by simp [DdlAt.hasCatalog]) Iff.rfl ?_
        simp [free.2]
      · exact held
  | ddlReturnEarly =>
      simp only [Locks.step]
      split
      · next at_ =>
        rw [at_] at gateDdl catalogDdl
        refine held.stepDdl gateDdl (by simp [DdlAt.hasCatalog]) Iff.rfl ?_
        simp [catalogDdl.mpr rfl]
      · exact held
  | ddlBeginWrite =>
      simp only [Locks.step]
      split
      · next at_ =>
        rw [at_] at gateDdl catalogDdl
        exact held.stepDdl gateDdl catalogDdl Iff.rfl Iff.rfl
      · exact held
  | ddlEnterGate =>
      simp only [Locks.step]
      split
      · next free =>
        rw [free.1] at catalogDdl
        refine held.stepDdl (by simp [DdlAt.hasGate]) catalogDdl ?_ Iff.rfl
        simp [free.2]
      · exact held
  | ddlFinish =>
      simp only [Locks.step]
      split
      · next at_ =>
        rw [at_] at gateDdl catalogDdl
        refine held.stepDdl (by simp [DdlAt.hasGate]) catalogDdl ?_ Iff.rfl
        simp [gateDdl.mpr rfl]
      · exact held
  | ddlUnlockCatalog =>
      simp only [Locks.step]
      split
      · next at_ =>
        rw [at_] at gateDdl catalogDdl
        refine held.stepDdl gateDdl (by simp [DdlAt.hasCatalog]) Iff.rfl ?_
        simp [catalogDdl.mpr rfl]
      · exact held

theorem Held.run (held : locks.Held) (steps : List LockStep) : (locks.run steps).Held := by
  induction steps generalizing locks with
  | nil => exact held
  | cons action rest ih => exact ih (held.step action)

/-! ## Apart -/

/-- The transaction has the gate and the DDL the catalog mutex. -/
def Crossed (locks : Locks) : Prop := locks.gate = some .transaction ∧ locks.DdlBeforeGate

theorem not_crossed_step (parted : ¬ locks.Crossed) {action : LockStep}
    (apart : locks.Apart action) : ¬ (locks.step action).Crossed := by
  unfold Crossed DdlBeforeGate at parted ⊢
  cases action with
  | beginWrite =>
      simp only [Locks.step]
      split <;> exact parted
  | enterGate =>
      simp only [Locks.step]
      split
      · exact fun crossed => apart crossed.2
      · exact parted
  | executeOn more =>
      simp only [Locks.step]
      split <;> exact parted
  | lockCatalog =>
      simp only [Locks.step]
      split <;> exact parted
  | unlockCatalog =>
      simp only [Locks.step]
      split <;> exact parted
  | finish =>
      simp only [Locks.step]
      split
      · simp
      · exact parted
  | ddl =>
      simp only [Locks.step]
      split
      · simp
      · exact parted
  | ddlLockPlan =>
      simp only [Locks.step]
      split
      · simp
      · exact parted
  | ddlUnlockPlan =>
      simp only [Locks.step]
      split
      · simp
      · exact parted
  | ddlLockCatalog =>
      simp only [Locks.step]
      split
      · exact fun crossed => apart crossed.1
      · exact parted
  | ddlReturnEarly =>
      simp only [Locks.step]
      split
      · simp
      · exact parted
  | ddlBeginWrite =>
      simp only [Locks.step]
      split
      · next checking => exact fun crossed => parted ⟨crossed.1, Or.inl checking⟩
      · exact parted
  | ddlEnterGate =>
      simp only [Locks.step]
      split
      · simp
      · exact parted
  | ddlFinish =>
      simp only [Locks.step]
      split
      · simp
      · exact parted
  | ddlUnlockCatalog =>
      simp only [Locks.step]
      split
      · simp
      · exact parted

theorem Deadlocked.crossed (deadlocked : locks.Deadlocked) : locks.Crossed :=
  ⟨deadlocked.2.2.2, Or.inr deadlocked.2.2.1⟩

theorem not_crossed_run {steps : List LockStep} (parted : ¬ locks.Crossed)
    (apart : locks.AllApart steps) : ¬ (locks.run steps).Crossed := by
  induction steps generalizing locks with
  | nil => exact parted
  | cons action rest ih => exact ih (not_crossed_step parted apart.1) apart.2

theorem AllApart.before {before later : List LockStep}
    (apart : locks.AllApart (before ++ later)) : locks.AllApart before := by
  induction before generalizing locks with
  | nil => trivial
  | cons action rest ih => exact ⟨apart.1, ih apart.2⟩

theorem not_crossed_start : ¬ start.Crossed := by
  intro crossed
  cases crossed.1

/-- **Safety.** In a run that keeps the clients apart, no state is a deadlock. -/
theorem never_deadlocked {steps : List LockStep} (apart : start.AllApart steps) :
    ∀ before later, steps = before ++ later → ¬ (start.run before).Deadlocked := by
  rintro before later rfl deadlocked
  exact not_crossed_run not_crossed_start apart.before deadlocked.crossed

/-- A transaction, DDL behind it, and another transaction. -/
def oneByOne : List LockStep :=
  [.beginWrite, .enterGate, .executeOn 1, .lockCatalog, .unlockCatalog, .lockCatalog, .unlockCatalog,
    .finish, .ddl, .ddlLockPlan, .ddlUnlockPlan, .ddlLockCatalog, .ddlBeginWrite, .ddlEnterGate,
    .beginWrite, .ddlFinish, .ddlUnlockCatalog, .enterGate]

theorem never_deadlocked_oneByOne :
    start.AllApart oneByOne ∧
      ∀ before later, oneByOne = before ++ later → ¬ (start.run before).Deadlocked := by
  have apart : start.AllApart oneByOne := by
    simp [oneByOne, AllApart, Apart, DdlBeforeGate, step, start]
  exact ⟨apart, never_deadlocked apart⟩

/-- The DDL locks the catalog mutex while the transaction is open, and both go on. -/
theorem ddl_inside_transaction_deadlocks :
    (start.run [.ddl, .ddlLockPlan, .ddlUnlockPlan, .beginWrite, .enterGate, .ddlLockCatalog,
      .ddlBeginWrite, .executeOn 0]).Deadlocked :=
  ⟨⟨0, rfl⟩, rfl, rfl, rfl⟩

/-- Once the transaction has the gate and the DDL the catalog mutex, a deadlock is ahead: the next
statement of the transaction. -/
theorem Held.deadlock_ahead (held : locks.Held) (crossed : locks.Crossed) :
    (locks.run [.ddlBeginWrite, .executeOn 0]).Deadlocked := by
  obtain ⟨gate, before⟩ := crossed
  have inside := held.gate.mp gate
  have catalog : locks.catalog = some .ddl := by
    refine held.catalogDdl.mpr ?_
    rcases before with checking | waiting
    · rw [checking]
      rfl
    · rw [waiting]
      rfl
  have notPlanning : ¬ locks.transaction.hasCatalog = true := by
    intro planning
    have other := held.catalog.mpr planning
    rw [catalog] at other
    cases other
  obtain ⟨catalogHolder, gateHolder, transaction, ddl⟩ := locks
  simp only at gate catalog inside notPlanning
  subst gate catalog
  cases transaction with
  | outside => cases inside
  | gate => cases inside
  | planning more => exact absurd rfl notPlanning
  | inside =>
      rcases before with rfl | rfl
      · exact ⟨⟨0, rfl⟩, rfl, rfl, rfl⟩
      · exact ⟨⟨0, rfl⟩, rfl, rfl, rfl⟩
  | catalog more =>
      rcases before with rfl | rfl
      · exact ⟨⟨more, rfl⟩, rfl, rfl, rfl⟩
      · exact ⟨⟨more, rfl⟩, rfl, rfl, rfl⟩

/-- A run that has let the clients cross can be continued to a deadlock. -/
theorem deadlock_ahead {steps : List LockStep} (crossed : (start.run steps).Crossed) :
    ∃ more, (start.run (steps ++ more)).Deadlocked := by
  refine ⟨[.ddlBeginWrite, .executeOn 0], ?_⟩
  rw [run, List.foldl_append]
  exact (held_start.run steps).deadlock_ahead crossed

end Locks

end Squrust.Sql
