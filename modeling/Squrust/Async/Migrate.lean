import Mathlib.Data.List.Sort
import Squrust.Foundation.Outcome

/-!
# The migration runner

Migrations that are not recorded yet are applied in the order of their versions.
The statements of a migration are committed one by one, and the row that records
it after them. So a run that stops behind a committed statement leaves a
migration applied in part or not recorded, and that is the only way it can
(`all_consistent_iff`).
-/

set_option autoImplicit false

namespace Squrust.Async

open Squrust.Foundation

structure Migration where
  version : Nat
  description : String
  sql : String

/-- What is committed: the bookkeeping rows, and which statements of which migrations took effect. -/
structure Database where
  /-- The bookkeeping table is there. -/
  bookkeeping : Bool
  rows : List (Nat × String)
  /-- Version and position of each statement that was committed, in the order of the commits. -/
  effects : List (Nat × Nat)
  /-- How many more statements succeed; all of them without a number. -/
  left : Option Nat

inductive MigrateError where
  /-- The text of a migration is not SQL. -/
  | parse
  /-- A statement failed, for whatever reason. -/
  | statement
  /-- The version is recorded already. -/
  | constraint
deriving DecidableEq

namespace Database

def empty : Database := ⟨false, [], [], none⟩

/-- A statement in autocommit: it takes effect as a whole, or fails and has none. -/
def statement (effect : Database → Database) : Exec Database MigrateError Unit := fun database =>
  match database.left with
  | none => .ok () { effect database with left := none }
  | some 0 => .error (.error .statement) database
  | some (left + 1) => .ok () { effect database with left := some left }

/-- The version is recorded. -/
def Recorded (database : Database) (version : Nat) : Prop := version ∈ database.rows.map Prod.fst

instance (database : Database) (version : Nat) : Decidable (database.Recorded version) :=
  inferInstanceAs (Decidable (version ∈ _))

/-- The statements of a migration that were committed. -/
def effectsOf (database : Database) (version : Nat) : List (Nat × Nat) :=
  database.effects.filter fun effect => effect.1 = version

end Database

/-- How many statements a text has, if it is SQL. -/
abbrev Parser := String → Option Nat

variable (parse : Parser)

/-- The statements of a migration from a position on. -/
def executeFrom (version : Nat) : Nat → Nat → Exec Database MigrateError Unit
  | _, 0 => return ()
  | position, count + 1 => do
      Database.statement fun database =>
        { database with effects := database.effects ++ [(version, position)] }
      executeFrom version (position + 1) count

/-- `conn.execute(m.sql, ())`. -/
def executeMigration (migration : Migration) : Exec Database MigrateError Unit :=
  match parse migration.sql with
  | none => Exec.err .parse
  | some count => executeFrom migration.version 0 count

/-- The row of a migration; its version is the primary key. -/
def recordMigration (migration : Migration) : Exec Database MigrateError Unit := do
  if (← get).Recorded migration.version then Exec.err .constraint
  else Database.statement fun database =>
    { database with rows := database.rows ++ [(migration.version, migration.description)] }

/-- The loop over the migrations. -/
def applyAll (applied : List Nat) : List Migration → Exec Database MigrateError Unit
  | [] => return ()
  | migration :: rest => do
      if migration.version ∈ applied then applyAll applied rest
      else do
        executeMigration parse migration
        recordMigration migration
        applyAll applied rest

/-- Apply all migrations that are not recorded, in ascending order of their versions. -/
def runMigrations (migrations : List Migration) : Exec Database MigrateError Unit := do
  Database.statement fun database => { database with bookkeeping := true }
  Database.statement id
  let applied := (← get).rows.map Prod.fst
  let ordered := migrations.mergeSort fun first second => first.version ≤ second.version
  applyAll parse applied ordered

/-- Calls one after the other; each has a number of statements that succeed. -/
def runCalls (migrations : List Migration) (database : Database) : List (Option Nat) → Database
  | [] => database
  | left :: rest =>
      runCalls migrations (Exec.reached (runMigrations parse migrations) { database with left }) rest

/-! ## What a call may leave -/

/-- The positions of all statements of a migration. -/
def allEffects (migration : Migration) : List (Nat × Nat) :=
  (List.range ((parse migration.sql).getD 0)).map fun position => (migration.version, position)

/-- A migration is recorded and all its statements took effect once, or neither. -/
def Consistent (database : Database) (migration : Migration) : Prop :=
  (database.Recorded migration.version ∧ database.effectsOf migration.version = allEffects parse migration) ∨
    (¬ database.Recorded migration.version ∧ database.effectsOf migration.version = [])

/-- No statement of the migration that fails was committed before; the number is that of the
statements that succeed. -/
def StopsBetween : List Migration → Nat → Prop
  | [], _ => True
  | migration :: rest, left =>
      match parse migration.sql with
      | none => True
      | some count => left = 0 ∨ count < left ∧ StopsBetween rest (left - (count + 1))

/-- The migrations that are not recorded, in order. -/
def pending (database : Database) (migrations : List Migration) : List Migration :=
  (migrations.mergeSort fun first second => first.version ≤ second.version).filter
    fun migration => ¬ database.Recorded migration.version

/-- A call that does not fail, or fails between migrations. -/
def CallStopsBetween (migrations : List Migration) (database : Database) : Option Nat → Prop
  | none => True
  | some left => left < 2 ∨ StopsBetween parse (pending database migrations) (left - 2)

/-! ## One statement, one migration -/

namespace Database

variable {effect : Database → Database} {database : Database}

theorem statement_done (enough : ∀ left ∈ database.left, 1 ≤ left) :
    statement effect database =
      .ok () { effect database with left := database.left.map (· - 1) } := by
  unfold statement
  cases budget : database.left with
  | none => rfl
  | some left =>
      cases left with
      | zero => exact absurd (enough 0 budget) (Nat.not_succ_le_zero 0)
      | succ left => rfl

theorem statement_failed (spent : database.left = some 0) :
    statement effect database = .error (.error .statement) database := by
  simp only [statement, spent]

/-- Only what is left changes nothing that counts. -/
theorem effectsOf_append (effects : List (Nat × Nat)) (version : Nat) (left : Option Nat) :
    effectsOf { database with effects := database.effects ++ effects, left } version =
      database.effectsOf version ++ effects.filter fun effect => effect.1 = version :=
  List.filter_append _ _

end Database

open Database

variable {parse} {database : Database} {migration other : Migration}

/-- The effects of some statements of a migration. -/
def effectsFrom (version position count : Nat) : List (Nat × Nat) :=
  (List.range' position count).map fun position => (version, position)

theorem filter_effectsFrom (version position count other : Nat) :
    (effectsFrom version position count).filter (fun effect => effect.1 = other) =
      if version = other then effectsFrom version position count else [] := by
  split
  · next same =>
    rw [List.filter_eq_self]
    intro effect among
    obtain ⟨_, _, rfl⟩ := List.mem_map.mp among
    simpa using same
  · next different =>
    rw [List.filter_eq_nil_iff]
    intro effect among
    obtain ⟨_, _, rfl⟩ := List.mem_map.mp among
    simpa using different

theorem allEffects_eq {count : Nat} (parsed : parse migration.sql = some count) :
    allEffects parse migration = effectsFrom migration.version 0 count := by
  rw [allEffects, parsed, Option.getD_some, List.range_eq_range']
  rfl

theorem executeFrom_done {version position count : Nat}
    (enough : ∀ left ∈ database.left, count ≤ left) :
    executeFrom version position count database = .ok () { database with
      effects := database.effects ++ effectsFrom version position count
      left := database.left.map (· - count) } := by
  induction count generalizing database position with
  | zero =>
      have same : database.left.map (· - 0) = database.left := by
        cases database.left <;> rfl
      rw [same]
      simp only [effectsFrom, List.range'_zero, List.map_nil, List.append_nil]
      rfl
  | succ count ih =>
      have one : ∀ left ∈ database.left, 1 ≤ left := fun left among => by
        have := enough left among
        omega
      rw [executeFrom]
      refine (Exec.bind_of_ok (statement_done one)).trans ?_
      rw [ih]
      · have spent : (database.left.map (· - 1)).map (· - count) =
            database.left.map (· - (count + 1)) := by
          rw [Option.map_map]
          congr 1
          funext left
          simp only [Function.comp_apply]
          omega
        simp only [spent, effectsFrom, List.range'_succ, List.map_cons, List.append_assoc,
          List.singleton_append]
      · intro left among
        obtain ⟨before, was, rfl⟩ := Option.mem_map.mp among
        have := enough before was
        omega

theorem executeFrom_failed {version position count left : Nat} (few : left < count)
    (bounded : database.left = some left) :
    executeFrom version position count database = .error (.error .statement) { database with
      effects := database.effects ++ effectsFrom version position left
      left := some 0 } := by
  induction left generalizing database position count with
  | zero =>
      obtain ⟨rest, rfl⟩ := Nat.exists_eq_succ_of_ne_zero few.ne'
      rw [executeFrom]
      refine (Exec.bind_of_error (statement_failed bounded)).trans ?_
      simp only [effectsFrom, List.range'_zero, List.map_nil, List.append_nil, ← bounded]
  | succ left ih =>
      obtain ⟨rest, rfl⟩ := Nat.exists_eq_succ_of_ne_zero (Nat.ne_of_gt (Nat.zero_lt_of_lt few))
      have one : ∀ left ∈ database.left, 1 ≤ left := by
        rw [bounded]
        simp
      rw [executeFrom]
      refine (Exec.bind_of_ok (statement_done one)).trans ?_
      rw [ih (Nat.lt_of_succ_lt_succ few) (by rw [bounded]; rfl)]
      simp only [effectsFrom, List.range'_succ, List.map_cons, List.append_assoc,
        List.singleton_append]

/-- The migration is recorded when there is a statement left, and not recorded before. -/
theorem recordMigration_done (fresh : ¬ database.Recorded migration.version)
    (enough : ∀ left ∈ database.left, 1 ≤ left) :
    recordMigration migration database = .ok () { database with
      rows := database.rows ++ [(migration.version, migration.description)]
      left := database.left.map (· - 1) } := by
  rw [recordMigration]
  refine (Exec.bind_of_ok rfl).trans ?_
  simp only [fresh, if_false]
  exact statement_done enough

theorem recordMigration_failed (fresh : ¬ database.Recorded migration.version)
    (spent : database.left = some 0) :
    recordMigration migration database = .error (.error .statement) database := by
  rw [recordMigration]
  refine (Exec.bind_of_ok rfl).trans ?_
  simp only [fresh, if_false]
  exact statement_failed spent

/-! ## The loop -/

theorem applyAll_filter (applied : List Nat) (migrations : List Migration) :
    applyAll parse applied migrations =
      applyAll parse [] (migrations.filter fun migration => migration.version ∉ applied) := by
  induction migrations with
  | nil => rfl
  | cons migration rest ih =>
      by_cases isApplied : migration.version ∈ applied
      · rw [applyAll, if_pos isApplied, ih, List.filter_cons_of_neg (by simpa using isApplied)]
      · rw [applyAll, if_neg isApplied, ih, List.filter_cons_of_pos (by simpa using isApplied),
          applyAll, if_neg List.not_mem_nil]

/-- A migration that is applied as a whole. -/
def applied (parse : Parser) (migration : Migration) (left : Option Nat) (database : Database) :
    Database :=
  { database with
    effects := database.effects ++ allEffects parse migration
    rows := database.rows ++ [(migration.version, migration.description)]
    left }

theorem recorded_applied {left : Option Nat} {version : Nat} :
    (applied parse migration left database).Recorded version ↔
      database.Recorded version ∨ version = migration.version := by
  simp [Recorded, applied]

theorem effectsOf_applied {left : Option Nat} {count : Nat} (version : Nat)
    (parsed : parse migration.sql = some count) :
    (applied parse migration left database).effectsOf version = database.effectsOf version ++
      if migration.version = version then allEffects parse migration else [] := by
  rw [applied, allEffects_eq parsed, ← filter_effectsFrom]
  exact List.filter_append _ _

/-- Other migrations are as they were. -/
theorem Consistent.applied {left : Option Nat} {count : Nat} (parsed : parse migration.sql = some count)
    (consistent : Consistent parse database other) (different : migration.version ≠ other.version) :
    Consistent parse (applied parse migration left database) other := by
  rw [Consistent, recorded_applied, effectsOf_applied _ parsed, if_neg different, List.append_nil,
    or_iff_left (Ne.symm different)]
  exact consistent

theorem consistent_applied {left : Option Nat} {count : Nat} (parsed : parse migration.sql = some count)
    (consistent : Consistent parse database migration)
    (fresh : ¬ database.Recorded migration.version) :
    Consistent parse (Async.applied parse migration left database) migration := by
  have none := (consistent.resolve_left fun recorded => fresh recorded.1).2
  refine Or.inl ⟨recorded_applied.mpr (Or.inr rfl), ?_⟩
  rw [effectsOf_applied _ parsed, if_pos rfl, none, List.nil_append]

/-- What is not a list of effects at all is not consistent. -/
theorem not_consistent_of_part {left : Nat} (consistent : Consistent parse database migration) (fresh : ¬ database.Recorded migration.version)
    (positive : left ≠ 0) {after : Database} (rows : after.rows = database.rows)
    (effects : after.effects = database.effects ++ effectsFrom migration.version 0 left) :
    ¬ Consistent parse after migration := by
  have none := (consistent.resolve_left fun recorded => fresh recorded.1).2
  have part : after.effectsOf migration.version = effectsFrom migration.version 0 left := by
    rw [effectsOf, effects, List.filter_append, filter_effectsFrom, if_pos rfl]
    change database.effectsOf _ ++ _ = _
    rw [none, List.nil_append]
  rintro (⟨recorded, -⟩ | ⟨-, noEffects⟩)
  · rw [Recorded, rows] at recorded
    exact fresh recorded
  · rw [part, effectsFrom, List.map_eq_nil_iff, List.range'_eq_nil_iff] at noEffects
    exact positive noEffects

/-- **Loop.** All migrations are consistent afterwards exactly when the loop stops between two. -/
theorem applyAll_consistent_iff {all migrations : List Migration}
    (versions : ∀ first ∈ all, ∀ second ∈ all, first.version = second.version → first = second)
    (among : ∀ migration ∈ migrations, migration ∈ all)
    (distinct : (migrations.map Migration.version).Nodup)
    (fresh : ∀ migration ∈ migrations, ¬ database.Recorded migration.version)
    (consistent : ∀ migration ∈ all, Consistent parse database migration) :
    (∀ migration ∈ all,
        Consistent parse (Exec.reached (applyAll parse [] migrations) database) migration) ↔
      ∀ left ∈ database.left, StopsBetween parse migrations left := by
  induction migrations generalizing database with
  | nil => exact iff_of_true consistent fun _ _ => trivial
  | cons migration rest ih =>
      have here := among migration List.mem_cons_self
      have freshHere := fresh migration List.mem_cons_self
      have begun : applyAll parse [] (migration :: rest) =
          executeMigration parse migration >>= fun _ => recordMigration migration >>= fun _ =>
            applyAll parse [] rest := by
        rw [applyAll, if_neg List.not_mem_nil]
      cases parsed : parse migration.sql with
      | none =>
          have failed : executeMigration parse migration database = .error (.error .parse) database := by
            simp only [executeMigration, parsed]
            rfl
          rw [Exec.reached_of_error ((congrFun begun database).trans (Exec.bind_of_error failed))]
          exact iff_of_true consistent fun left _ => by simp only [StopsBetween, parsed]
      | some count =>
          have executed : executeMigration parse migration = executeFrom migration.version 0 count := by
            simp only [executeMigration, parsed]
          rw [executed] at begun
          -- Either both the statements and the row are committed, or the call stops here.
          by_cases whole : ∀ left ∈ database.left, count + 1 ≤ left
          · have done : applyAll parse [] (migration :: rest) database = applyAll parse [] rest
                (applied parse migration (database.left.map (· - (count + 1))) database) := by
              refine (congrFun begun database).trans ?_
              refine (Exec.bind_of_ok (executeFrom_done fun left bounded =>
                (Nat.le_succ count).trans (whole left bounded))).trans ?_
              refine (Exec.bind_of_ok (recordMigration_done (by exact freshHere) ?_)).trans ?_
              · intro left bounded
                obtain ⟨before, was, rfl⟩ := Option.mem_map.mp bounded
                have := whole before was
                omega
              · have spent : (database.left.map (· - count)).map (· - 1) =
                    database.left.map (· - (count + 1)) := by
                  rw [Option.map_map]
                  congr 1
                simp only [applied, allEffects_eq parsed, spent]
            have same : Exec.reached (applyAll parse [] (migration :: rest)) database =
                Exec.reached (applyAll parse [] rest)
                  (applied parse migration (database.left.map (· - (count + 1))) database) := by
              simp only [Exec.reached, done]
            rw [List.map_cons, List.nodup_cons] at distinct
            rw [same, ih (fun other member => among other (List.mem_cons_of_mem _ member)) distinct.2
              ?_ ?_]
            · constructor
              · intro stops left bounded
                simp only [StopsBetween, parsed]
                exact Or.inr ⟨whole left bounded, stops _ (Option.mem_map_of_mem _ bounded)⟩
              · intro stops left bounded
                obtain ⟨before, was, rfl⟩ := Option.mem_map.mp bounded
                have stopped := stops before was
                simp only [StopsBetween, parsed] at stopped
                rcases stopped with zero | ⟨-, later⟩
                · have := whole before was
                  omega
                · exact later
            · intro other member recorded
              rcases recorded_applied.mp recorded with before | sameVersion
              · exact fresh other (List.mem_cons_of_mem _ member) before
              · exact distinct.1 (List.mem_map.mpr ⟨other, member, sameVersion⟩)
            · intro other member
              by_cases sameVersion : migration.version = other.version
              · obtain rfl := versions migration here other member sameVersion
                exact consistent_applied parsed (consistent migration member) freshHere
              · exact (consistent other member).applied parsed sameVersion
          · push Not at whole
            obtain ⟨left, bounded, few⟩ := whole
            have notLater : ∀ left' ∈ database.left, left' = left := fun left' bounded' =>
              Option.some.inj (bounded'.symm.trans bounded)
            have stops_iff : (∀ left ∈ database.left, StopsBetween parse (migration :: rest) left) ↔
                left = 0 := by
              constructor
              · intro stops
                have stopped := stops left bounded
                simp only [StopsBetween, parsed] at stopped
                rcases stopped with zero | ⟨past, -⟩
                · exact zero
                · exact absurd past (by omega)
              · rintro rfl left' bounded'
                obtain rfl := notLater left' bounded'
                simp only [StopsBetween, parsed]
                exact Or.inl trivial
            -- The statements that were committed before.
            obtain ⟨after, reached, rows, effects, left_⟩ : ∃ after,
                Exec.reached (applyAll parse [] (migration :: rest)) database = after ∧
                  after.rows = database.rows ∧
                  after.effects = database.effects ++ effectsFrom migration.version 0 left ∧
                  after.left = some 0 := by
              rcases Nat.lt_or_ge left count with inside | all
              · exact ⟨_, Exec.reached_of_error ((congrFun begun database).trans
                  (Exec.bind_of_error (executeFrom_failed inside bounded))), rfl, rfl, rfl⟩
              · have last : left = count := by omega
                subst last
                have done := @executeFrom_done database migration.version 0 left (by
                  intro left' bounded'
                  rw [notLater left' bounded'])
                have spent : database.left.map (· - left) = some 0 := by
                  rw [Option.mem_def.mp bounded, Option.map_some, Nat.sub_self]
                refine ⟨_, Exec.reached_of_error ((congrFun begun database).trans
                  ((Exec.bind_of_ok done).trans (Exec.bind_of_error
                    (recordMigration_failed (by exact freshHere) spent)))), rfl, rfl, spent⟩
            rw [reached, stops_iff]
            constructor
            · intro allConsistent
              by_contra positive
              exact not_consistent_of_part (consistent migration here) freshHere positive rows
                effects (allConsistent migration here)
            · rintro rfl other member
              have nothing : effectsFrom migration.version 0 0 = [] := rfl
              rw [nothing, List.append_nil] at effects
              have before := consistent other member
              unfold Consistent Recorded effectsOf at before ⊢
              rw [rows, effects]
              exact before

/-! ## Calls -/

/-- No version twice. -/
def Distinct (migrations : List Migration) : Prop := (migrations.map Migration.version).Nodup

theorem Distinct.versions {migrations : List Migration} (distinct : Distinct migrations) :
    ∀ first ∈ migrations, ∀ second ∈ migrations, first.version = second.version → first = second :=
  fun _ isFirst _ isSecond same => List.inj_on_of_nodup_map distinct isFirst isSecond same

/-- What does not count leaves all consistent. -/
theorem consistent_of_same {after : Database} (rows : after.rows = database.rows)
    (effects : after.effects = database.effects) :
    Consistent parse after migration ↔ Consistent parse database migration := by
  unfold Consistent Recorded effectsOf
  rw [rows, effects]

/-- **Call.** All migrations are consistent after a call exactly when it does not stop behind a
committed statement of a migration. -/
theorem runMigrations_consistent_iff {migrations : List Migration} (distinct : Distinct migrations)
    (consistent : ∀ migration ∈ migrations, Consistent parse database migration) (left : Option Nat) :
    (∀ migration ∈ migrations, Consistent parse
        (Exec.reached (runMigrations parse migrations) { database with left }) migration) ↔
      CallStopsBetween parse migrations database left := by
  by_cases early : ∃ few ∈ left, few < 2
  · -- The bookkeeping table, or the versions that are recorded.
    obtain ⟨few, bounded, less⟩ := early
    obtain rfl : left = some few := bounded
    have unchanged : ∀ migration ∈ migrations, Consistent parse
        (Exec.reached (runMigrations parse migrations) { database with left := some few }) migration := by
      intro migration among
      have which : few = 0 ∨ few = 1 := by omega
      rcases which with rfl | rfl
      · have failed : runMigrations parse migrations { database with left := some 0 } =
            .error (.error .statement) { database with left := some 0 } := by
          rw [runMigrations]
          exact Exec.bind_of_error (statement_failed rfl)
        rw [Exec.reached_of_error failed]
        exact (consistent_of_same rfl rfl).mpr (consistent migration among)
      · have failed : runMigrations parse migrations { database with left := some 1 } =
            .error (.error .statement)
              { database with bookkeeping := true, left := some 0 } := by
          rw [runMigrations]
          refine (Exec.bind_of_ok (statement_done (by simp))).trans ?_
          exact Exec.bind_of_error (statement_failed rfl)
        rw [Exec.reached_of_error failed]
        exact (consistent_of_same rfl rfl).mpr (consistent migration among)
    exact iff_of_true unchanged (Or.inl less)
  · push Not at early
    have begun : Exec.reached (runMigrations parse migrations) { database with left } =
        Exec.reached (applyAll parse [] (pending database migrations))
          { database with bookkeeping := true, left := left.map (· - 2) } := by
      have one : ∀ few ∈ left, 1 ≤ few := fun few bounded => by
        have := early few bounded
        omega
      have two : ∀ few ∈ left.map (· - 1), 1 ≤ few := by
        intro few bounded
        obtain ⟨before, was, rfl⟩ := Option.mem_map.mp bounded
        have := early before was
        omega
      have spent : (left.map (· - 1)).map (· - 1) = left.map (· - 2) := by
        rw [Option.map_map]
        congr 1
      have ran : runMigrations parse migrations { database with left } =
          applyAll parse [] (pending database migrations)
            { database with bookkeeping := true, left := left.map (· - 2) } := by
        rw [runMigrations, ← spent]
        refine (Exec.bind_of_ok (statement_done one)).trans ?_
        refine (Exec.bind_of_ok (statement_done two)).trans ?_
        refine (Exec.bind_of_ok rfl).trans ?_
        dsimp only
        rw [applyAll_filter]
        rfl
      simp only [Exec.reached, ran]
    have ordered : ∀ migration, migration ∈ pending database migrations →
        migration ∈ migrations ∧ ¬ database.Recorded migration.version := by
      intro migration among
      rw [pending, List.mem_filter, List.mem_mergeSort] at among
      exact ⟨among.1, of_decide_eq_true among.2⟩
    rw [begun]
    refine (@applyAll_consistent_iff parse
      { database with bookkeeping := true, left := left.map (· - 2) } migrations _ distinct.versions
      (fun migration among => (ordered migration among).1) ?_
      (fun migration among => by exact (ordered migration among).2) ?_).trans ?_
    rotate_left
    rotate_left
    · cases left with
      | none => exact iff_of_true (fun _ none => by cases none) trivial
      | some few =>
          have enough := early few rfl
          rw [CallStopsBetween, or_iff_right (by omega)]
          exact ⟨fun stops => stops _ rfl, fun stops left bounded => by
            obtain rfl := Option.some.inj bounded
            exact stops⟩
    · have sorted := (List.mergeSort_perm migrations
        fun first second => decide (first.version ≤ second.version)).map Migration.version
      refine List.Nodup.sublist (List.Sublist.map _ List.filter_sublist) ?_
      exact sorted.nodup_iff.mpr distinct
    · intro migration among
      exact (consistent_of_same rfl rfl).mpr (consistent migration among)

/-- Every call of a sequence stops between migrations, if it stops. -/
def AllStopBetween (parse : Parser) (migrations : List Migration) (database : Database) :
    List (Option Nat) → Prop
  | [] => True
  | left :: rest =>
      CallStopsBetween parse migrations database left ∧
        AllStopBetween parse migrations
          (Exec.reached (runMigrations parse migrations) { database with left }) rest

/-- **Calls.** After every call of a sequence all migrations are recorded with all their effects, or
neither, exactly when no call stops behind a committed statement of a migration. -/
theorem all_consistent_iff (parse : Parser) {migrations : List Migration}
    (distinct : Distinct migrations) (calls : List (Option Nat)) :
    (∀ before later, calls = before ++ later → ∀ migration ∈ migrations,
        Consistent parse (runCalls parse migrations Database.empty before) migration) ↔
      AllStopBetween parse migrations Database.empty calls := by
  have start : ∀ migration ∈ migrations, Consistent parse Database.empty migration :=
    fun migration _ => Or.inr ⟨by simp [Recorded, Database.empty], rfl⟩
  revert start
  generalize Database.empty = database
  intro start
  induction calls generalizing database with
  | nil =>
      refine iff_of_true (fun before later split migration among => ?_) trivial
      obtain ⟨rfl, -⟩ := List.append_eq_nil_iff.mp split.symm
      exact start migration among
  | cons left rest ih =>
      rw [AllStopBetween, ← runMigrations_consistent_iff distinct start left]
      constructor
      · intro always
        have first := always [left] rest rfl
        refine ⟨first, (ih _ first).mp fun before later split => ?_⟩
        exact always (left :: before) later (by rw [split]; rfl)
      · rintro ⟨first, stops⟩ before later split migration among
        cases before with
        | nil => exact start migration among
        | cons left' before =>
            obtain ⟨rfl, rfl⟩ := List.cons.inj split
            exact (ih _ first).mpr stops before later rfl migration among

/-- Two statements, of which the first fails at first, and then a retry. -/
theorem all_consistent_retry :
    (∀ before later, [some 2, none] = before ++ later → ∀ migration ∈ [Migration.mk 1 "seed" "a; b"],
        Consistent (fun _ => some 2)
          (runCalls (fun _ => some 2) [Migration.mk 1 "seed" "a; b"] Database.empty before) migration) ↔
      AllStopBetween (fun _ => some 2) [Migration.mk 1 "seed" "a; b"] Database.empty [some 2, none] :=
  all_consistent_iff _ (by simp [Distinct]) _

/-- A script of two statements whose second fails: the first is committed and the migration is not
recorded. -/
theorem second_statement_fails :
    ¬ ∀ before later, [some 3] = before ++ later → ∀ migration ∈ [Migration.mk 1 "seed" "a; b"],
      Consistent (fun _ => some 2)
        (runCalls (fun _ => some 2) [Migration.mk 1 "seed" "a; b"] Database.empty before) migration := by
  intro always
  have after := always [some 3] [] rfl _ List.mem_cons_self
  rcases after with ⟨recorded, -⟩ | ⟨-, effects⟩
  · exact absurd recorded (by decide +kernel)
  · exact absurd effects (by decide +kernel)

end Squrust.Async
