import Squrust.Sql.Ddl
import Squrust.Sql.Dml
import Squrust.Sql.Executors

/-!
# Which column stands for the row id

The single primary key, if its column is declared as INTEGER, stands for the row id
(`CreateTable.integerKey`). `tableFromAst` takes the first column with PRIMARY KEY and
the affinity of integers instead, and looks at no constraint behind the columns; these
are the same exactly if every such column is the single primary key and declared as
INTEGER, and no INTEGER column is the primary key by a constraint only
(`followsIntegerKey_iff`).
-/

set_option autoImplicit false

namespace Squrust.Sql

open Squrust.Foundation

open Squrust.Core (PageSource)

variable {Sub : Type}

namespace ColumnOption

def isPrimaryKey : ColumnOption Sub → Bool
  | unique isPrimary => isPrimary
  | _ => false

end ColumnOption

namespace ColumnDef

/-- The column is declared with PRIMARY KEY. -/
def declaresKey (col : ColumnDef Sub) : Bool := col.options.any ColumnOption.isPrimaryKey

/-- The declared type is INTEGER, in any case. -/
def isInteger (col : ColumnDef Sub) : Bool := Text.toAsciiUppercase col.dataType = "INTEGER".toList

/-- The declared type has the affinity of integers. -/
def hasIntegerAffinity (col : ColumnDef Sub) : Bool :=
  SqlType.affinityFromDecl col.dataType = .integer

theorem hasIntegerAffinity_of_isInteger {col : ColumnDef Sub} (integer : col.isInteger = true) :
    col.hasIntegerAffinity = true := by
  rw [isInteger, decide_eq_true_iff] at integer
  rw [hasIntegerAffinity, decide_eq_true_iff, SqlType.affinityFromDecl, integer]
  decide

end ColumnDef

namespace CreateTable

variable (ct : CreateTable Sub)

def columnNamed (name : Text) : Nat :=
  ct.columns.findIdx fun col => Text.toAsciiLowercase col.name = Text.toAsciiLowercase name

/-- The columns of a constraint that is a primary key. -/
def constraintKey : TableConstraint → Option (List Nat)
  | .primaryKey columns => some (columns.map ct.columnNamed)
  | .other _ => none

/-- The primary keys that are declared: one for each PRIMARY KEY on a column, and one for each
behind the columns. -/
def primaryKeys : List (List Nat) :=
  (ct.columns.zipIdx.flatMap fun entry =>
    (entry.1.options.filter ColumnOption.isPrimaryKey).map fun _ => [entry.2]) ++
    ct.constraints.filterMap ct.constraintKey

/-- The column that stands for the row id: the single primary key, if it is declared as INTEGER. -/
def integerKey : Option Nat :=
  match ct.primaryKeys with
  | [[a]] => if (ct.columns[a]?).any ColumnDef.isInteger then some a else none
  | _ => none

/-- A column with PRIMARY KEY and the affinity of integers is the single primary key and declared
as INTEGER; and an INTEGER column that is the single primary key is declared with PRIMARY KEY. -/
def KeysOnColumns : Prop :=
  (∀ i col, ct.columns[i]? = some col → col.declaresKey = true → col.hasIntegerAffinity = true →
    ct.primaryKeys = [[i]] ∧ col.isInteger = true) ∧
  ∀ i col, ct.columns[i]? = some col → ct.primaryKeys = [[i]] → col.isInteger = true →
    col.declaresKey = true

variable {ct} {display : SqlDisplay Sub} {sql : Text} {table : Table}

theorem integerKey_eq_some_iff {a : Nat} : ct.integerKey = some a ↔
    ct.primaryKeys = [[a]] ∧ ∃ col, ct.columns[a]? = some col ∧ col.isInteger = true := by
  rw [integerKey]
  constructor
  · intro found
    split at found
    · next keys =>
        split at found
        · next integer =>
            obtain rfl := Option.some.inj found
            exact ⟨keys, Option.any_eq_true _ _ |>.mp integer⟩
        · cases found
    · cases found
  · rintro ⟨keys, col, there, integer⟩
    rw [keys]
    simp [there, integer]

/-- A PRIMARY KEY on a column is one of the primary keys. -/
theorem mem_primaryKeys {i : Nat} {col : ColumnDef Sub} (there : ct.columns[i]? = some col)
    (declares : col.declaresKey = true) : [i] ∈ ct.primaryKeys := by
  obtain ⟨option, inOptions, isKey⟩ := List.any_eq_true.mp declares
  refine List.mem_append_left _ (List.mem_flatMap.mpr ⟨(col, i), ?_, ?_⟩)
  · exact List.mk_mem_zipIdx_iff_getElem?.mpr there
  · exact List.mem_map.mpr ⟨option, List.mem_filter.mpr ⟨inOptions, isKey⟩, rfl⟩

/-! ## What the definition is read as -/

/-- The options set the flags of a column and leave its type. -/
theorem columnFromAst_ok {col : ColumnDef Sub} {column : Column}
    (read : columnFromAst display col = .ok column) :
    column.primaryKey = col.declaresKey ∧
      column.sqlType = SqlType.affinityFromDecl col.dataType := by
  have options : ∀ (options : List (ColumnOption Sub)) (start column : Column),
      options.foldlM (columnOption display) start = .ok column →
      column.primaryKey = (start.primaryKey || options.any ColumnOption.isPrimaryKey) ∧
        column.sqlType = start.sqlType := by
    intro options
    induction options with
    | nil =>
        intro start column folded
        obtain rfl := Outcome.pure_eq_ok.mp folded
        exact ⟨(Bool.or_false _).symm, rfl⟩
    | cons option options ih =>
        intro start column folded
        rw [List.foldlM_cons] at folded
        obtain ⟨next, first, rest⟩ := Outcome.bind_eq_ok.mp folded
        obtain ⟨key, type⟩ := ih next column rest
        have step : next.primaryKey = (start.primaryKey || option.isPrimaryKey) ∧
            next.sqlType = start.sqlType := by
          cases option with
          | notNull | other _ =>
              cases first
              exact ⟨(Bool.or_false _).symm, rfl⟩
          | unique isPrimary =>
              cases isPrimary with
              | true => cases first; exact ⟨(Bool.or_true _).symm, rfl⟩
              | false => cases first; exact ⟨(Bool.or_false _).symm, rfl⟩
          | default expr =>
              obtain ⟨default, _, rest⟩ := Outcome.bind_eq_ok.mp first
              cases rest
              exact ⟨(Bool.or_false _).symm, rfl⟩
        rw [key, type, step.1, step.2, List.any_cons, Bool.or_assoc]
        exact ⟨rfl, rfl⟩
  obtain ⟨key, type⟩ := options col.options _ column read
  exact ⟨key.trans (Bool.false_or _), type⟩

/-- The alias is the first column with PRIMARY KEY and the affinity of integers. -/
theorem rowidAlias_eq (read : tableFromAst display ct sql = .ok table) :
    table.rowidAlias = ct.columns.findIdx? fun col => col.declaresKey && col.hasIntegerAffinity := by
  obtain ⟨columns, columnsRead, made⟩ := Outcome.bind_eq_ok.mp read
  obtain rfl := Outcome.pure_eq_ok.mp made
  have pairs := Outcome.mapM_forall₂ columnsRead
  change findAlias columns = _
  clear read columnsRead made
  generalize ct.columns = cols at pairs
  induction pairs with
  | nil => rfl
  | @cons col column cols columns first _ ih =>
      obtain ⟨key, type⟩ := columnFromAst_ok first
      have same : (column.primaryKey && decide (column.sqlType = .integer)) =
          (col.declaresKey && col.hasIntegerAffinity) := by
        rw [key, type]
        rfl
      rw [findAlias] at ih ⊢
      rw [List.findIdx?_cons, List.findIdx?_cons, same, ih]

/-- A column is read from the key, and stored as NULL, exactly if it is at this index. -/
structure KeptInKey (a : Option Nat) (table : Table) : Prop where
  alias_ : table.rowidAlias = a
  /-- A scan takes the other columns from the record. -/
  read : ∀ (key : Int64) (bytes : Bytes) (defaults : List Value) (stored scanned : Row),
    Row.decode key bytes = .ok stored → stored.values.length = table.columns.length →
    TableScan.row table.columns.length table.rowidAlias defaults key bytes = .ok scanned →
    ∀ i < table.columns.length, scanned.values[i]? =
      if a = some i then some (.integer key) else stored.values[i]?
  /-- The record has the values of the other columns. -/
  written : ∀ (values : List Value) (i : Nat), i < values.length →
    (withAliasNulled table.rowidAlias values)[i]? = if a = some i then some .null else values[i]?

theorem getElem?_set_alias {a : Option Nat} {values : List Value} {v : Value} {i : Nat}
    (inRange : i < values.length) :
    (a.elim values fun a => values.set a v)[i]? = if a = some i then some v else values[i]? := by
  cases a with
  | none => rw [if_neg (fun none => nomatch none)]; rfl
  | some a =>
      rw [Option.elim_some, List.getElem?_set]
      by_cases same : a = i
      · subst same
        rw [if_pos rfl, if_pos inRange, if_pos rfl]
      · rw [if_neg same, if_neg (mt Option.some.inj same)]

/-- The alias column is kept in the key. -/
theorem keptInKey_rowidAlias (table : Table) : KeptInKey table.rowidAlias table where
  alias_ := rfl
  read key bytes defaults stored scanned decoded full read i inRange := by
    have notShort : ¬ stored.values.length < table.columns.length := by omega
    rw [TableScan.row, decoded, Outcome.ok_bind, if_neg notShort, Outcome.ok_bind] at read
    have values : scanned.values =
        table.rowidAlias.elim stored.values fun a => stored.values.set a (.integer key) := by
      cases alias_ : table.rowidAlias with
      | none =>
          rw [alias_] at read
          obtain rfl := Outcome.pure_eq_ok.mp read
          rfl
      | some a =>
          rw [alias_] at read
          obtain rfl := Outcome.pure_eq_ok.mp read
          rfl
    rw [values]
    exact getElem?_set_alias (full ▸ inRange)
  written values i inRange := by
    rw [← getElem?_set_alias inRange]
    cases table.rowidAlias with
    | none => rfl
    | some a => rfl

/-- **The row id stands in the column it should** exactly if the keys are on their columns. -/
theorem followsIntegerKey_iff (read : tableFromAst display ct sql = .ok table) :
    KeptInKey ct.integerKey table ↔ ct.KeysOnColumns := by
  have alias_ := rowidAlias_eq read
  constructor
  · rintro ⟨same, _, _⟩
    rw [alias_] at same
    constructor
    · intro i col there declares affinity
      obtain ⟨j, first⟩ : ∃ j, (ct.columns.findIdx? fun col =>
          col.declaresKey && col.hasIntegerAffinity) = some j := by
        rw [← Option.isSome_iff_exists, List.findIdx?_isSome, List.any_eq_true]
        exact ⟨col, List.mem_of_getElem? there, Bool.and_eq_true _ _ |>.mpr ⟨declares, affinity⟩⟩
      rw [first] at same
      obtain ⟨keys, col', there', integer⟩ := integerKey_eq_some_iff.mp same.symm
      have member := mem_primaryKeys there declares
      rw [keys, List.mem_singleton, List.cons.injEq] at member
      obtain rfl := member.1
      rw [there] at there'
      obtain rfl := Option.some.inj there'
      exact ⟨keys, integer⟩
    · intro i col there keys integer
      rw [integerKey_eq_some_iff.mpr ⟨keys, col, there, integer⟩] at same
      obtain ⟨_, both, _⟩ := List.findIdx?_eq_some_iff_getElem.mp same
      obtain ⟨_, rfl⟩ := List.getElem?_eq_some_iff.mp there
      exact (Bool.and_eq_true _ _ |>.mp both).1
  · rintro ⟨single, onColumn⟩
    have same : table.rowidAlias = ct.integerKey := by
      rw [alias_]
      cases first : ct.columns.findIdx? fun col => col.declaresKey && col.hasIntegerAffinity with
      | some j =>
          obtain ⟨inRange, both, _⟩ := List.findIdx?_eq_some_iff_getElem.mp first
          obtain ⟨declares, affinity⟩ := Bool.and_eq_true _ _ |>.mp both
          have there := List.getElem?_eq_getElem inRange
          obtain ⟨keys, integer⟩ := single j _ there declares affinity
          exact (integerKey_eq_some_iff.mpr ⟨keys, _, there, integer⟩).symm
      | none =>
          cases key : ct.integerKey with
          | none => rfl
          | some a =>
              obtain ⟨keys, col, there, integer⟩ := integerKey_eq_some_iff.mp key
              have declares := onColumn a col there keys integer
              have missing := List.findIdx?_eq_none_iff.mp first col (List.mem_of_getElem? there)
              rw [declares, ColumnDef.hasIntegerAffinity_of_isInteger integer] at missing
              cases missing
    exact same ▸ keptInKey_rowidAlias table

/-- A table with one column. -/
def oneColumn (dataType : Text) (options : List (ColumnOption Empty))
    (constraints : List TableConstraint) : CreateTable Empty :=
  ⟨[['t']], [⟨['a'], dataType, options⟩], constraints, false, []⟩

/-- A display that writes nothing. -/
def blankDisplay : SqlDisplay Empty :=
  ⟨fun _ => [], fun _ => [], fun _ => [], fun _ => [], fun _ => []⟩

/-- `CREATE TABLE t(a INTEGER PRIMARY KEY)` is read as it should be. -/
theorem followsIntegerKey_iff_integer : ∃ table,
    tableFromAst blankDisplay (oneColumn "INTEGER".toList [.unique true] []) [] = .ok table ∧
      (KeptInKey (oneColumn "INTEGER".toList [.unique true] []).integerKey table ↔
        (oneColumn "INTEGER".toList [.unique true] []).KeysOnColumns) :=
  ⟨_, rfl, @followsIntegerKey_iff Empty _ blankDisplay [] _ rfl⟩

/-- `CREATE TABLE t(a INT PRIMARY KEY)` keeps the values of the column in the key, and
`CREATE TABLE t(a INTEGER, PRIMARY KEY(a))` does not. -/
theorem alias_not_integerKey :
    (∃ table, tableFromAst blankDisplay (oneColumn "INT".toList [.unique true] []) [] = .ok table ∧
      (oneColumn "INT".toList [.unique true] []).integerKey = none ∧
      table.rowidAlias = some 0 ∧ ¬ KeptInKey none table) ∧
    ∃ table, tableFromAst blankDisplay (oneColumn "INTEGER".toList [] [.primaryKey [['a']]]) [] =
        .ok table ∧
      (oneColumn "INTEGER".toList [] [.primaryKey [['a']]]).integerKey = some 0 ∧
      table.rowidAlias = none ∧ ¬ KeptInKey (some 0) table := by
  constructor
  · have picked : findAlias [⟨['a'], "INT".toList, .integer, false, true, false, none⟩] = some 0 := by
      decide
    refine ⟨_, rfl, by decide, picked, fun kept => ?_⟩
    exact Option.some_ne_none _ (picked.symm.trans kept.alias_)
  · have picked : findAlias [⟨['a'], "INTEGER".toList, .integer, false, false, false, none⟩] = none := by
      decide
    refine ⟨_, rfl, by decide, picked, fun kept => ?_⟩
    exact Option.some_ne_none _ (kept.alias_.symm.trans picked)

end CreateTable

end Squrust.Sql
